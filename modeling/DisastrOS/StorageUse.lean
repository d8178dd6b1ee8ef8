import DisastrOS.MessageOrder
import DisastrOS.StorageConservation

/-!
# The storage that is used up

No block of the two message pools is ever released: `Message_free` hands the address of a field to the
pool of the strings, which refuses it, and then keeps the message. So in every run without a shutdown, in
which no `dmq_setattr` sets a message size above `maxMessageSize`, the blocks that are handed out count the
SENDs that have succeeded since the start, whatever has been received or destroyed in the meantime
(`storageSpent_of_run`): the system can send `maxNumMessages` messages in its life, and a queue with room
refuses the next one. Larger messages run over the blocks of others and over the free list of the pool.
-/

set_option autoImplicit false
set_option relaxedAutoImplicit false

namespace DisastrOS

open LinkedLists PoolAllocator
open Function (update)

namespace Kernel

variable {layout : Layout} {k k' : Kernel} {nodes : Addr → List Addr}

/-- The SENDs that have succeeded since the start. -/
def noteAccepted (accepted : ℕ) (k : Kernel) (a : Action) (k' : Kernel) : ℕ :=
  match k.running, k.request a with
  | some p, some (.sendMsg ..) => if k'.pcbs.syscallRetvalue p = 0 then accepted + 1 else accepted
  | _, _ => accepted

/-- Each SEND that has succeeded holds a block of either pool for ever. A SEND on a queue with room
succeeds as long as there is one left. -/
structure StorageSpent (accepted : ℕ) (k : Kernel) : Prop where
  messages : k.messages.allocator.allocatedBlocks.card = accepted
  strings : k.msgStrings.allocator.allocatedBlocks.card = accepted
  bounded : (accepted : ℤ) ≤ maxNumMessages
  send : ∀ p q msg fd a k', k.running = some p → k.request a = some (.sendMsg msg fd) →
    k.queueByFd p fd = some (some q) → (k.queues.messages q).size < k.queues.maxMessages q →
    k.step a = some k' → (k'.pcbs.syscallRetvalue p = 0 ↔ (accepted : ℤ) < maxNumMessages)

/-- A SEND stores the message in a fresh block of either pool; or it fails, which on a queue with room
happens only when there is no block left, and leaves the store alone. -/
theorem Stored.sendMessage (h : k.Stored layout nodes) {a : Action} {p : Addr} {msg : Option Addr}
    {fd : ℤ} (hrunning : k.running = some p) (hrequest : k.request a = some (.sendMsg msg fd))
    (hstep : k.step a = some k') :
    (k'.pcbs.syscallRetvalue p = 0 ∧ ∃ m block, ¬ k.messages.allocator.Allocated m ∧
        ¬ k.msgStrings.allocator.Allocated block ∧
        k'.messages.allocator.allocatedBlocks = insert m k.messages.allocator.allocatedBlocks ∧
        k'.msgStrings.allocator.allocatedBlocks =
          insert block k.msgStrings.allocator.allocatedBlocks) ∨
      k'.pcbs.syscallRetvalue p ≠ 0 ∧ k'.store = k.store ∧
        ∀ q, k.queueByFd p fd = some (some q) →
          (k.queues.messages q).size < k.queues.maxMessages q → k.messages.allocator.size = 0 := by
  obtain ⟨next, hcalls, hcall⟩ := step_syscall hrunning hrequest hstep
  have htrap : (k.trap p next (.sendMsg msg fd)).Stored layout nodes := h.congr rfl
  obtain ⟨p', q, entries, hp', hqueue, -, ⟨-, haccept⟩ | ⟨hfull, hwait⟩⟩ :=
    internalSendMessage_cases hcall
  · obtain rfl : p = p' := Option.some.inj (hrunning.symm.trans hp')
    obtain ⟨m, block, haccepts, -, hret⟩ | ⟨hempty, hstore, hret⟩ := htrap.acceptMessage haccept
    · refine Or.inl ⟨hret, m, block, haccepts.message_fresh, haccepts.string_fresh, ?_, ?_⟩
      · ext x
        rw [Finset.mem_insert, mem_allocatedBlocks, mem_allocatedBlocks]
        exact haccepts.allocated x
      · ext x
        rw [Finset.mem_insert, mem_allocatedBlocks, mem_allocatedBlocks]
        exact haccepts.strings x
    · exact Or.inr ⟨by rw [hret]; decide, hstore, fun _ _ _ ↦ hempty⟩
  · obtain rfl : p = p' := Option.some.inj (hrunning.symm.trans hp')
    obtain ⟨_, _, -, -, rfl⟩ := waitForQueue_eq hwait
    refine Or.inr ⟨?_, rfl, fun q' hqueue' hroom ↦ absurd hroom (not_lt.mpr ?_)⟩
    · change update k.pcbs.syscallRetvalue p dsosNoMsgSent p ≠ 0
      rw [Function.update_self]
      decide
    · obtain rfl : q = q' := Option.some.inj (Option.some.inj (hqueue.symm.trans hqueue'))
      exact hfull

/-- Any other step hands out no block of the two pools, and none comes back to them. -/
theorem Stored.step_allocators (h : k.Stored layout nodes) {a : Action}
    (hshutdown : k.request a ≠ some .shutdown)
    (hsend : ∀ p msg fd, k.running = some p → k.request a ≠ some (.sendMsg msg fd))
    (hstep : k.step a = some k') :
    k'.messages.allocator = k.messages.allocator ∧
      k'.msgStrings.allocator = k.msgStrings.allocator := by
  have hsame : ∀ {k₁ : Kernel}, k'.store = k₁.store → k'.messages.allocator = k₁.messages.allocator ∧
      k'.msgStrings.allocator = k₁.msgStrings.allocator := by
    intro k₁ hstore
    obtain ⟨hmessages, hrest⟩ := Prod.mk.inj hstore
    exact ⟨congrArg (·.allocator) hmessages, congrArg (·.allocator) (Prod.mk.inj hrest).1⟩
  cases step_store hshutdown hstep with
  | same hstore => exact hsame hstore
  | accept p q fd msg next hrunning hcalls =>
    exact absurd (hcalls.request hrunning) (hsend p msg fd hrunning)
  | deliver p q fd buffer m next k₁ _ _ _ hpop hdeliver =>
    have htrap : (k.trap p next (.recvMsg (some buffer) fd)).Stored layout nodes := h.congr rfl
    obtain ⟨rest, -, -, hdelivers, -⟩ := htrap.deliverMessage hpop hdeliver
    exact ⟨hdelivers.messages, congrArg (·.allocator) hdelivers.strings⟩
  | free p id res q next k₁ k₂ _ _ _ _ _ hstore₁ hfree hstore =>
    obtain ⟨hmessages, hstrings⟩ := hsame hstore
    obtain ⟨rest, -, -, hfreed⟩ := (h.congr hstore₁).freeMessages le_rfl hfree
    obtain ⟨hmessages₁, hrest₁⟩ := Prod.mk.inj hstore₁
    exact ⟨(hmessages.trans hfreed.1).trans (congrArg (·.allocator) hmessages₁),
      (hstrings.trans hfreed.2).trans (congrArg (·.allocator) (Prod.mk.inj hrest₁).1)⟩
  | init p id fd res q mode next pool _ _ _ _ _ _ hstore =>
    obtain ⟨hmessages, hrest⟩ := Prod.mk.inj hstore
    exact ⟨congrArg (·.allocator) hmessages, congrArg (·.allocator) (Prod.mk.inj hrest).1⟩
  | write p q attr newVal _ _ _ hstore => exact hsame hstore

/-! ### Whole runs -/

/-- The store is in order, and the blocks that are handed out count the SENDs that have succeeded. -/
structure Spent (layout : Layout) (accepted : ℕ) (k : Kernel) : Prop where
  stored : ∃ nodes, k.Stored layout nodes
  messages : k.messages.allocator.allocatedBlocks.card = accepted
  strings : k.msgStrings.allocator.allocatedBlocks.card = accepted

theorem Spent.step {accepted : ℕ} (h : k.Spent layout accepted) {a : Action}
    (hshutdown : k.request a ≠ some .shutdown) (hstep : k.step a = some k') :
    k'.Spent layout (noteAccepted accepted k a k') := by
  obtain ⟨nodes, hstored⟩ := h.stored
  have hafter := hstored.step hshutdown hstep
  by_cases hsend : ∃ p msg fd, k.running = some p ∧ k.request a = some (.sendMsg msg fd)
  · obtain ⟨p, msg, fd, hrunning, hrequest⟩ := hsend
    simp only [noteAccepted, hrunning, hrequest]
    obtain ⟨hret, m, block, hm, hblock, hmessages, hstrings⟩ | ⟨hret, hstore, -⟩ :=
      hstored.sendMessage hrunning hrequest hstep
    · rw [if_pos hret]
      refine ⟨hafter, ?_, ?_⟩
      · rw [hmessages, Finset.card_insert_of_notMem (hm ∘ mem_allocatedBlocks.mp), h.messages]
      · rw [hstrings, Finset.card_insert_of_notMem (hblock ∘ mem_allocatedBlocks.mp), h.strings]
    · obtain ⟨hmessages, hrest⟩ := Prod.mk.inj hstore
      rw [if_neg hret]
      exact ⟨hafter, hmessages ▸ h.messages, (Prod.mk.inj hrest).1 ▸ h.strings⟩
  · push Not at hsend
    obtain ⟨hmessages, hstrings⟩ := hstored.step_allocators hshutdown hsend hstep
    have hsame : noteAccepted accepted k a k' = accepted := by
      unfold noteAccepted
      split
      · exact absurd ‹_› (hsend _ _ _ ‹_›)
      · rfl
    rw [hsame]
    exact ⟨hafter, hmessages ▸ h.messages, hstrings ▸ h.strings⟩

theorem Spent.storageSpent {accepted : ℕ} (h : k.Spent layout accepted) : k.StorageSpent accepted := by
  obtain ⟨nodes, hstored⟩ := h.stored
  have hcard := hstored.card_messages
  have hfree := hstored.pool.size_nonneg
  rw [h.messages] at hcard
  refine ⟨h.messages, h.strings, (by omega : (accepted : ℤ) ≤ 128 * 256),
    fun p q msg fd a k' hrunning hrequest hqueue hroom hstep ↦ ?_⟩
  have hshutdown : k.request a ≠ some .shutdown := by rw [hrequest]; simp
  obtain ⟨hret, m, block, hm, -, hmessages, -⟩ | ⟨hret, -, hempty⟩ :=
    hstored.sendMessage hrunning hrequest hstep
  · obtain ⟨nodes', hstored'⟩ := hstored.step hshutdown hstep
    have hcard' := hstored'.card_messages
    have hfree' := hstored'.pool.size_nonneg
    rw [hmessages, Finset.card_insert_of_notMem (hm ∘ mem_allocatedBlocks.mp), h.messages] at hcard'
    refine iff_of_true hret ?_
    change (accepted : ℤ) < 128 * 256
    push_cast at hcard'
    omega
  · refine iff_of_false hret ?_
    have hnone := hempty q hqueue hroom
    change ¬ (accepted : ℤ) < 128 * 256
    omega

end Kernel

theorem Layout.boot_spent (layout : Layout) : layout.boot.Spent layout 0 where
  stored := ⟨_, layout.boot_stored⟩
  messages := Finset.card_eq_zero.mpr (Finset.eq_empty_of_forall_notMem fun m hm ↦
    (freshPool_ok (by decide : 1 ≤ sizeofMessage) (by decide : 1 ≤ maxNumMessages) (by decide)
      layout.messageBuffer).2 m (mem_allocatedBlocks.mp hm))
  strings := Finset.card_eq_zero.mpr (Finset.eq_empty_of_forall_notMem fun m hm ↦
    (freshPool_ok (by decide : 1 ≤ maxMessageSize) (by decide : 1 ≤ maxNumStrings) (by decide)
      layout.msgStringsBuffer).2 m (mem_allocatedBlocks.mp hm))

/-- In every run without a shutdown in which the messages fit into their blocks, the blocks of the two message
pools that are handed out count the SENDs that have succeeded since the start. -/
theorem storageSpent_of_run (layout : Layout) {actions : List Action} {k : Kernel}
    (hfit : Runs.Meets Kernel.step Kernel.SizesFit layout.boot actions)
    (hrun : Runs.run Kernel.step layout.boot actions = some k) :
    k.StorageSpent (Runs.monitor Kernel.step Kernel.noteAccepted 0 layout.boot actions) :=
  (Runs.monitor_invariant (fun _ _ _ _ hinv hok hstep ↦ hinv.step hok.1 hstep) layout.boot_spent
    hfit hrun).storageSpent

/-- A message is sent and received: the blocks it had stay handed out. -/
theorem storageSpent_of_run_oneMessage : ∃ k,
    Runs.run Kernel.step sampleLayout.boot oneMessage = some k ∧ k.heldMessages = 0 ∧
      k.StorageSpent 1 := by
  have hends : (Runs.run Kernel.step sampleLayout.boot oneMessage).map (fun k ↦ k.heldMessages) =
      some 0 := by decide +kernel
  obtain ⟨k, hk, hheld⟩ := Option.map_eq_some_iff.mp hends
  have hspent := storageSpent_of_run sampleLayout (by decide +kernel) hk
  have hone : Runs.monitor Kernel.step Kernel.noteAccepted 0 sampleLayout.boot oneMessage = 1 := by
    decide +kernel
  exact ⟨k, hk, hheld, hone ▸ hspent⟩

end DisastrOS
