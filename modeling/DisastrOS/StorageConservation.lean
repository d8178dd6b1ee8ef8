import DisastrOS.Library.Runs
import DisastrOS.MessageStore
import Mathlib.Algebra.BigOperators.Ring.Finset
import Mathlib.Algebra.Order.BigOperators.Group.Finset

/-!
# The pools of the messages

In every run in which no message leaves a queue, the blocks that the two pools have handed out are
exactly the messages of the live queues (`storageConserved_of_safe`). A RECV that gets a message and
the destruction of a queue that holds messages leave blocks behind that are never released, so after
one of them the counts differ (`oneMessage_not_storageConserved`).
-/

set_option autoImplicit false
set_option relaxedAutoImplicit false

namespace DisastrOS

open LinkedLists PoolAllocator
open Function (update)

namespace Kernel

variable {layout : Layout} {k k' : Kernel} {nodes : Addr → List Addr}

/-! ### The condition on a step -/

/-- The messages that the live queues hold. -/
def heldMessages (k : Kernel) : ℤ :=
  ∑ q ∈ k.queues.allocator.allocatedBlocks, (k.queues.messages q).size

/-- A system call of process `p` takes no message out of a queue and puts none into a queue that is
not live. -/
def StorageSafeCall (k : Kernel) (p : Addr) : Syscall → Prop
  | .sendMsg _ fd => ∀ q ∈ (k.queueByFd p fd).join,
    (k.queues.messages q).size < k.queues.maxMessages q → q ∈ k.queues.allocator.allocatedBlocks
  | .recvMsg msg fd => msg ≠ none → ∀ q ∈ (k.queueByFd p fd).join,
    (k.queues.messages q).first = none
  | .destroyResource id => ∀ res ∈ (k.resourceById id).join,
    (k.resources.descriptorsPtrs res).size = 0 → ∀ q ∈ k.freedQueue res,
      (k.queues.messages q).size = 0
  | .shutdown => False
  | _ => True

def StorageSafe (k : Kernel) (a : Action) : Prop :=
  ∀ p ∈ k.running, ∀ c ∈ k.request a, k.StorageSafeCall p c

instance (k : Kernel) (p : Addr) : ∀ c, Decidable (k.StorageSafeCall p c)
  | .sendMsg _ fd => inferInstanceAs (Decidable (∀ q ∈ (k.queueByFd p fd).join, _ → _))
  | .recvMsg .. => inferInstanceAs (Decidable (_ → _))
  | .destroyResource id => inferInstanceAs (Decidable (∀ res ∈ (k.resourceById id).join, _ → _))
  | .shutdown => isFalse id
  | .preempt | .fork | .wait .. | .exit _ | .spawn | .sleep _ | .openResource .. | .closeResource _
  | .wakeupQueue .. | .openQueue .. => isTrue trivial

instance (k : Kernel) (a : Action) : Decidable (k.StorageSafe a) :=
  inferInstanceAs (Decidable (∀ p ∈ k.running, ∀ c ∈ k.request a, k.StorageSafeCall p c))

theorem StorageSafe.call {a : Action} (h : k.StorageSafe a) {p : Addr} {c : Syscall} {next : Context}
    (hrunning : k.running = some p) (hcalls : k.Calls p a c next) : k.StorageSafeCall p c :=
  h p hrunning c (hcalls.request hrunning)

theorem StorageSafe.no_shutdown {a : Action} (h : k.StorageSafe a) :
    k.request a ≠ some .shutdown := by
  intro hrequest
  obtain ⟨p, hp⟩ := running_of_request hrequest
  exact h p hp _ hrequest

/-! ### The invariant -/

/-- The live queues hold `nodes`, and the blocks that are handed out are counted by them. -/
structure Conserved (layout : Layout) (k : Kernel) (nodes : Addr → List Addr) : Prop where
  stored : k.Stored layout nodes
  capacities : k.Capacities
  queuePool : k.queues.allocator.Ok
  sameQueuePool : SamePool layout.boot.queues.allocator k.queues.allocator
  values : ∀ res q, k.resources.value res = some q → k.queues.allocator.IsBlock q
  empty : ∀ q, ¬ k.queues.allocator.Allocated q → nodes q = []
  short : ∀ q, ((nodes q).length : ℤ) ≤ maxNumMessagesPerQueue
  counted : k.messages.allocator.allocatedBlocks.card =
    ∑ q ∈ k.queues.allocator.allocatedBlocks, (nodes q).length

/-- A step that leaves the messages and the live queues alone. -/
theorem Conserved.congr (h : k.Conserved layout nodes) (hstored : k'.Stored layout nodes)
    (hcapacities : k'.Capacities) (hmessages : k'.messages.allocator = k.messages.allocator)
    (hqueues : k'.queues.allocator = k.queues.allocator)
    (hvalues : k'.resources.value = k.resources.value) : k'.Conserved layout nodes where
  stored := hstored
  capacities := hcapacities
  queuePool := hqueues ▸ h.queuePool
  sameQueuePool := hqueues ▸ h.sameQueuePool
  values := by rw [hqueues, hvalues]; exact h.values
  empty := by rw [hqueues]; exact h.empty
  short := h.short
  counted := by rw [hqueues, hmessages]; exact h.counted

/-- A message goes to the end of a live queue. -/
theorem Conserved.accept (h : k.Conserved layout nodes) {q m : Addr}
    (hlive : k.queues.allocator.Allocated q)
    (hshort : ((nodes q).length : ℤ) < maxNumMessagesPerQueue)
    (hstored : k'.Stored layout (update nodes q (nodes q ++ [m]))) (hcapacities : k'.Capacities)
    (hfresh : ¬ k.messages.allocator.Allocated m)
    (hallocated : ∀ x, k'.messages.allocator.Allocated x ↔ x = m ∨ k.messages.allocator.Allocated x)
    (hqueues : k'.queues.allocator = k.queues.allocator)
    (hvalues : k'.resources.value = k.resources.value) :
    k'.Conserved layout (update nodes q (nodes q ++ [m])) where
  stored := hstored
  capacities := hcapacities
  queuePool := hqueues ▸ h.queuePool
  sameQueuePool := hqueues ▸ h.sameQueuePool
  values := by rw [hqueues, hvalues]; exact h.values
  empty q' hq' := by
    rw [hqueues] at hq'
    rw [Function.update_of_ne fun hsame : q' = q ↦ hq' (hsame ▸ hlive)]
    exact h.empty q' hq'
  short q' := by
    by_cases hq' : q' = q
    · subst hq'
      rw [Function.update_self, List.length_append, List.length_singleton]
      push_cast
      omega
    · rw [Function.update_of_ne hq']
      exact h.short q'
  counted := by
    have hblocks : k'.messages.allocator.allocatedBlocks =
        insert m k.messages.allocator.allocatedBlocks := by
      ext x
      rw [Finset.mem_insert, mem_allocatedBlocks, mem_allocatedBlocks, hallocated]
    have hnew : m ∉ k.messages.allocator.allocatedBlocks := fun hmem ↦
      hfresh (mem_allocatedBlocks.mp hmem)
    have hmem : q ∈ k.queues.allocator.allocatedBlocks := mem_allocatedBlocks.mpr hlive
    have hothers : ∑ q' ∈ k.queues.allocator.allocatedBlocks.erase q,
          (update nodes q (nodes q ++ [m]) q').length =
        ∑ q' ∈ k.queues.allocator.allocatedBlocks.erase q, (nodes q').length :=
      Finset.sum_congr rfl fun q' hq' ↦ by rw [Function.update_of_ne (Finset.ne_of_mem_erase hq')]
    rw [hblocks, Finset.card_insert_of_notMem hnew, h.counted, hqueues,
      ← Finset.add_sum_erase _ _ hmem, ← Finset.add_sum_erase _ _ hmem, hothers,
      Function.update_self, List.length_append, List.length_singleton]
    omega

/-- A queue that holds no message is set up or freed. -/
theorem Conserved.resize (h : k.Conserved layout nodes) (hstored : k'.Stored layout nodes)
    (hcapacities : k'.Capacities) (hmessages : k'.messages.allocator = k.messages.allocator) {q : Addr}
    (hq : nodes q = []) (hpool : k'.queues.allocator.Ok)
    (hsame : SamePool k.queues.allocator k'.queues.allocator)
    (hqueues : ∀ x, x ≠ q → (k'.queues.allocator.Allocated x ↔ k.queues.allocator.Allocated x))
    (hvalues : ∀ res x, k'.resources.value res = some x →
      k.resources.value res = some x ∨ k.queues.allocator.IsBlock x) :
    k'.Conserved layout nodes where
  stored := hstored
  capacities := hcapacities
  queuePool := hpool
  sameQueuePool := h.sameQueuePool.trans hsame
  values res x hx := (hsame.isBlock x).mpr ((hvalues res x hx).elim (h.values res x) id)
  empty x hx := by
    by_cases hxq : x = q
    · rw [hxq, hq]
    · exact h.empty x fun hlive ↦ hx ((hqueues x hxq).mpr hlive)
  short := h.short
  counted := by
    have herase : k'.queues.allocator.allocatedBlocks.erase q =
        k.queues.allocator.allocatedBlocks.erase q := by
      ext x
      simp only [Finset.mem_erase, mem_allocatedBlocks]
      exact and_congr_right (hqueues x)
    have hzero : (nodes q).length = 0 := by rw [hq, List.length_nil]
    have hsum (blocks : Finset Addr) :
        ∑ x ∈ blocks.erase q, (nodes x).length = ∑ x ∈ blocks, (nodes x).length :=
      Finset.sum_erase blocks hzero
    rw [hmessages, h.counted, ← hsum, ← herase, hsum]

/-! ### Steps and runs -/

theorem Conserved.step {a : Action} (h : k.Conserved layout nodes) (hsafe : k.StorageSafe a)
    (hstep : k.step a = some k') : ∃ nodes', k'.Conserved layout nodes' := by
  have hcapacities := h.capacities.step hsafe.no_shutdown hstep
  cases step_store hsafe.no_shutdown hstep with
  | same hstore hqueues _ hvalues =>
    exact ⟨nodes, h.congr (h.stored.congr hstore) hcapacities
      (congrArg (·.allocator) (Prod.mk.inj hstore).1) hqueues hvalues⟩
  | accept p q fd msg next hrunning hcalls hqueue hroom haccept =>
    have htrap : (k.trap p next (.sendMsg msg fd)).Stored layout nodes := h.stored.congr rfl
    have hframe := acceptMessage_eq haccept
    have hqueues : k'.queues.allocator = k.queues.allocator := by rw [hframe]; rfl
    have hvalues : k'.resources.value = k.resources.value := by rw [hframe]; rfl
    obtain ⟨m, block, haccepts, hstored, -⟩ | ⟨-, hstore, -⟩ := htrap.acceptMessage haccept
    · have hlive := mem_allocatedBlocks.mp
        (hsafe.call hrunning hcalls q (by rw [hqueue]; rfl) hroom)
      have hsize := (h.stored.family.represents q).size
      have hmax := h.capacities.max q
      exact ⟨_, h.accept hlive (by omega) hstored hcapacities haccepts.message_fresh
        haccepts.allocated hqueues hvalues⟩
    · exact ⟨nodes, h.congr (htrap.congr hstore) hcapacities
        (congrArg (·.allocator) (Prod.mk.inj hstore).1) hqueues hvalues⟩
  | deliver p q fd buffer m next k₁ hrunning hcalls hqueue hpop hdeliver =>
    -- a RECV that gets a message is excluded
    have hfirst := popMessage_eq_some hpop
    have hnone : (k.queues.messages q).first = none :=
      hsafe.call hrunning hcalls (by simp) q (by rw [hqueue]; rfl)
    exact absurd (hnone.symm.trans hfirst) (by simp)
  | free p id res q next k₁ k₂ hrunning hcalls hfound hunused hfreed hstore₁ hfree hstore hqueues _
      hvalues =>
    have hsize : (k.queues.messages q).size = 0 :=
      hsafe.call hrunning hcalls res (by rw [hfound]; rfl) hunused q hfreed
    have hq : nodes q = [] := by
      have hlength := (h.stored.family.represents q).size
      rw [hsize] at hlength
      exact List.length_eq_zero_iff.mp (by omega)
    obtain ⟨rest, hsuffix, hstored, hmessages, -⟩ := (h.stored.congr hstore₁).freeMessages le_rfl hfree
    rw [hq, List.suffix_nil] at hsuffix
    rw [hsuffix, ← hq, Function.update_eq_self] at hstored
    have hmessages' : k'.messages.allocator = k.messages.allocator := by
      rw [(Prod.mk.inj hstore).1, hmessages, (Prod.mk.inj hstore₁).1]
    have hblock : k.queues.allocator.IsBlock q := by
      unfold freedQueue at hfreed
      split_ifs at hfreed
      exact h.values res q hfreed
    obtain ⟨hok, -, hothers⟩ := h.queuePool.releaseBlock_isBlock hblock
    rw [← hqueues] at hok hothers
    exact ⟨nodes, h.resize (hstored.congr hstore) hcapacities hmessages' hq hok
      (hqueues ▸ releaseBlock_samePool _ _) hothers fun res' x hx ↦ Or.inl (hvalues ▸ hx)⟩
  | init p id fd res q mode next pool hrunning hcalls hfound hvalue hget hqueues hstore _ hvalues =>
    obtain ⟨hok, hblock, hfree, -, hallocated⟩ := getBlock_some h.queuePool hget
    have hsame := getBlock_samePool k.queues.allocator
    rw [hget] at hsame
    have hq := h.empty q hfree
    have hstored := h.stored.clear q hstore
    rw [← hq, Function.update_eq_self] at hstored
    refine ⟨nodes, h.resize hstored hcapacities (congrArg (·.allocator) (Prod.mk.inj hstore).1) hq
      (hqueues ▸ hok) (hqueues ▸ hsame) (fun x hx ↦ ?_) fun res' x hx ↦ ?_⟩
    · rw [hqueues, hallocated]
      exact or_iff_right hx
    · rw [hvalues, Function.update_apply] at hx
      split_ifs at hx
      · exact Or.inr (Option.some.inj hx ▸ hblock)
      · exact Or.inl hx
  | write p q attr newVal _ _ _ hstore hqueues _ hvalues =>
    exact ⟨nodes, h.congr (h.stored.congr hstore) hcapacities
      (congrArg (·.allocator) (Prod.mk.inj hstore).1) hqueues hvalues⟩

/-- The pools have handed out one block for each message of a live queue, and so a queue that has
room finds both pools with a block left. -/
structure StorageConserved (k : Kernel) : Prop where
  messages : (k.messages.allocator.allocatedBlocks.card : ℤ) = k.heldMessages
  strings : (k.msgStrings.allocator.allocatedBlocks.card : ℤ) = k.heldMessages
  room : ∀ q ∈ k.queues.allocator.allocatedBlocks,
    (k.queues.messages q).size < k.queues.maxMessages q →
      k.messages.allocator.getBlock.1 ≠ none ∧ k.msgStrings.allocator.getBlock.1 ≠ none

theorem Stored.card_messages (h : k.Stored layout nodes) :
    (k.messages.allocator.allocatedBlocks.card : ℤ) + k.messages.allocator.size = 32768 := by
  have hmax : k.messages.allocator.sizeMax = 128 * 256 := h.samePool.sizeMax
  exact (h.pool.card_add_size (by omega)).trans hmax

theorem Conserved.storageConserved (h : k.Conserved layout nodes) : k.StorageConserved := by
  have hmaxStrings : k.msgStrings.allocator.sizeMax = 32768 := h.stored.sameStringPool.sizeMax
  have hmaxQueues : k.queues.allocator.sizeMax = 256 := h.sameQueuePool.sizeMax
  have hmessages := h.stored.card_messages
  have hstrings := h.stored.stringPool.card_add_size (by omega)
  have hqueues := h.queuePool.card_add_size (by omega)
  have hfree := h.queuePool.size_nonneg
  have hsame := h.stored.sameSize
  have hheld : (k.messages.allocator.allocatedBlocks.card : ℤ) = k.heldMessages := by
    rw [h.counted, heldMessages]
    push_cast
    exact Finset.sum_congr rfl fun q _ ↦ (h.stored.family.represents q).size.symm
  refine ⟨hheld, by omega, fun q hq hroom ↦ ?_⟩
  -- a queue with room keeps the total below the size of the pools
  have hshort (x : Addr) : (nodes x).length ≤ 128 := by
    have hlength := h.short x
    rw [maxNumMessagesPerQueue] at hlength
    omega
  have hroom' : (nodes q).length < 128 := by
    have hlength := (h.stored.family.represents q).size
    have hcapacity := h.capacities.max q
    rw [maxNumMessagesPerQueue] at hcapacity
    omega
  have hcard : k.messages.allocator.allocatedBlocks.card <
      k.queues.allocator.allocatedBlocks.card * 128 := by
    rw [h.counted]
    exact (Finset.sum_lt_sum (fun x _ ↦ hshort x) ⟨q, hq, hroom'⟩).trans_eq
      (Finset.sum_const_nat fun _ _ ↦ rfl)
  have hleft : k.messages.allocator.size ≠ 0 := by omega
  exact ⟨fun hnone ↦ hleft (h.stored.pool.getBlock_eq_none_iff.mp hnone),
    fun hnone ↦ hleft (hsame.trans (h.stored.stringPool.getBlock_eq_none_iff.mp hnone))⟩

end Kernel

/-! ### Whole runs -/

theorem Layout.boot_conserved (layout : Layout) : layout.boot.Conserved layout fun _ ↦ [] := by
  have hqueues := freshPool_ok (by decide : 1 ≤ sizeofQueue) (by decide : 1 ≤ maxNumQueues)
    (by decide) layout.queuesBuffer
  have hmessages := freshPool_ok (by decide : 1 ≤ sizeofMessage) (by decide : 1 ≤ maxNumMessages)
    (by decide) layout.messageBuffer
  exact
    { stored := layout.boot_stored
      capacities := layout.boot_capacities
      queuePool := hqueues.1
      sameQueuePool := SamePool.refl _
      values := fun _ _ hvalue ↦ absurd hvalue (Option.some_ne_none _).symm
      empty := fun _ _ ↦ rfl
      short := fun _ ↦ by simp [maxNumMessagesPerQueue]
      counted := by
        simp only [List.length_nil, Finset.sum_const_zero, Finset.card_eq_zero]
        exact Finset.eq_empty_of_forall_notMem fun m hm ↦ hmessages.2 m (mem_allocatedBlocks.mp hm) }

/-- In every run whose steps meet the condition, the storage of the messages is conserved. -/
theorem storageConserved_of_safe (layout : Layout) {actions : List Action} {k : Kernel}
    (hsafe : Runs.Meets Kernel.step Kernel.StorageSafe layout.boot actions)
    (hrun : Runs.run Kernel.step layout.boot actions = some k) : k.StorageConserved := by
  have hconserves : ∀ k a k', (∃ nodes, Kernel.Conserved layout k nodes) → k.StorageSafe a →
      k.step a = some k' → ∃ nodes, k'.Conserved layout nodes := by
    rintro k a k' ⟨nodes, hinv⟩ hok hstep
    exact hinv.step hok hstep
  obtain ⟨nodes, hconserved⟩ :=
    Runs.run_invariant hconserves ⟨_, layout.boot_conserved⟩ hsafe hrun
  exact hconserved.storageConserved

/-- The first process opens a queue and sends two messages to it. -/
def twoSends : List Action :=
  [.start, .call (.openQueue 0 0o13), .statement, .statement, .statement, .statement] ++
    (List.replicate 2 (.call (.send 0 (some 0x800000) 4) :: List.replicate 7 .statement)).flatten

theorem storageConserved_of_safe_twoSends : ∃ k,
    Runs.run Kernel.step sampleLayout.boot twoSends = some k ∧ k.StorageConserved ∧
      k.messages.allocator.size = maxNumMessages - 2 := by
  have hends : (Runs.run Kernel.step sampleLayout.boot twoSends).map
      (fun k ↦ k.messages.allocator.size) = some (maxNumMessages - 2) := by decide +kernel
  obtain ⟨k, hk, hsize⟩ := Option.map_eq_some_iff.mp hends
  exact ⟨k, hk, storageConserved_of_safe sampleLayout (by decide +kernel) hk, hsize⟩

/-- The first process opens a queue, sends a message to it and receives it. -/
def oneMessage : List Action :=
  [.start, .call (.openQueue 0 0o13), .statement, .statement, .statement, .statement] ++
    .call (.send 0 (some 0x800000) 4) :: List.replicate 7 .statement ++
    .call (.receive 0 (some 0x800100) 128) :: List.replicate 7 .statement

/-- After the receive no queue holds a message, and one block of each pool is gone. -/
theorem oneMessage_not_storageConserved : ∃ k,
    Runs.run Kernel.step sampleLayout.boot oneMessage = some k ∧ ¬ k.StorageConserved := by
  have hends : (Runs.run Kernel.step sampleLayout.boot oneMessage).map (fun k ↦
      (k.messages.allocator.size, k.heldMessages)) = some (32767, 0) := by decide +kernel
  obtain ⟨k, hk, hpair⟩ := Option.map_eq_some_iff.mp hends
  obtain ⟨hsize, hheld⟩ := Prod.mk.inj hpair
  have hstores : ∀ k a k', (∃ nodes, Kernel.Stored sampleLayout k nodes) →
      k.request a ≠ some .shutdown → k.step a = some k' → ∃ nodes, k'.Stored sampleLayout nodes := by
    rintro k a k' ⟨nodes, hinv⟩ hok hstep
    exact hinv.step hok hstep
  obtain ⟨nodes, hstored⟩ :=
    Runs.run_invariant hstores ⟨_, sampleLayout.boot_stored⟩ (by decide +kernel) hk
  refine ⟨k, hk, fun hconserved ↦ ?_⟩
  have hcard := hstored.card_messages
  rw [hconserved.messages, hsize, hheld] at hcard
  exact absurd hcard (by decide)

end DisastrOS
