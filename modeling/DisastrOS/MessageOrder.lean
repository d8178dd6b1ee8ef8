import DisastrOS.Library.Runs
import DisastrOS.MessageStore

/-!
# The order of the messages

From a state in which a queue is empty, and as long as it is neither freed nor set up again and its
message size stays the same, the messages of its successful RECVs are the messages of its successful
SENDs, in their order, with those it still holds to come (`fifo_exactlyOnce`). The message of a SEND
is what the copy loop takes from the sender's buffer at that time (`copied`), and the message of a
RECV what the receiver then finds in its own buffer.
-/

set_option autoImplicit false
set_option relaxedAutoImplicit false

namespace DisastrOS

open LinkedLists PoolAllocator
open Function (update)

/-! ### The copy loops -/

/-- The bytes that a copy loop of at most `turns` turns takes from `src`: up to and including the
first NUL. -/
def copied (source : Addr → UInt8) (src : Addr) : ℕ → List UInt8
  | 0 => []
  | turns + 1 =>
    if source src = 0 then [source src] else source src :: copied source (src + 1) turns

variable {source source' memory : Addr → UInt8} {src src' dst x : Addr} {turns : ℕ}

theorem copyLength_le (source : Addr → UInt8) (src : Addr) (turns : ℕ) :
    copyLength source src turns ≤ turns := by
  induction turns generalizing src with
  | zero => exact le_rfl
  | succ turns ih =>
    rw [copyLength]
    split_ifs
    · omega
    · have hrest := ih (src + 1)
      omega

theorem copied_congr (h : ∀ i : ℤ, 0 ≤ i → i < turns → source' (src' + i) = source (src + i)) :
    copied source' src' turns = copied source src turns := by
  induction turns generalizing src src' with
  | zero => rfl
  | succ turns ih =>
    have hfirst : source' src' = source src := by
      have hzero := h 0 le_rfl (by positivity)
      rwa [add_zero, add_zero] at hzero
    have hrest : copied source' (src' + 1) turns = copied source (src + 1) turns :=
      ih fun i hi hlt ↦ by
        have hnext := h (1 + i) (by omega) (by push_cast; omega)
        rwa [← add_assoc, ← add_assoc] at hnext
    rw [copied, copied, hfirst, hrest]

/-- The loop writes as many bytes as `copyLength` says. -/
theorem copyBytes_of_outside (h : x < dst ∨ dst + copyLength source src turns ≤ x) :
    copyBytes source src memory dst turns x = memory x := by
  induction turns generalizing src dst memory with
  | zero => rfl
  | succ turns ih =>
    rw [copyLength] at h
    rw [copyBytes]
    split_ifs at h ⊢ with hnul
    · refine Function.update_of_ne (fun heq : x = dst ↦ ?_) _ _
      subst heq
      push_cast at h
      lia
    · push_cast at h
      rw [ih (by lia)]
      refine Function.update_of_ne (fun heq : x = dst ↦ ?_) _ _
      subst heq
      lia

/-- What was copied can be read off the destination. -/
theorem copied_copyBytes (source : Addr → UInt8) (src : Addr) (memory : Addr → UInt8) (dst : Addr)
    (turns : ℕ) :
    copied (copyBytes source src memory dst turns) dst turns = copied source src turns := by
  induction turns generalizing src dst memory with
  | zero => rfl
  | succ turns ih =>
    rw [copied, copied, copyBytes]
    split_ifs with hnul hfirst hfirst
    · rw [Function.update_self]
    · rw [Function.update_self] at hfirst
      exact absurd hnul hfirst
    · rw [copyBytes_of_outside (Or.inl (by lia)), Function.update_self] at hfirst
      exact absurd hfirst hnul
    · rw [copyBytes_of_outside (Or.inl (by lia)), Function.update_self, ih]

namespace Kernel

variable {layout : Layout} {k k' : Kernel} {nodes : Addr → List Addr} {a : Action} {p q : Addr}

/-! ### Sizes -/

/-- The write of `dmq_setattr` that an action does: the queue, the attribute and the value. -/
def attributeWrite (k : Kernel) (a : Action) : Option (Addr × ℤ × ℤ) :=
  match a, k.context with
  | .statement, some (.setattrWrite q attr newVal) => some (q, attr, newVal)
  | _, _ => none

/-- The action is no shutdown, and sets a message size to a value within the limits only. -/
def SizesInRange (k : Kernel) (a : Action) : Prop :=
  k.request a ≠ some .shutdown ∧ ∀ w ∈ k.attributeWrite a, w.2.1 = attQueueMessageSize →
    1 ≤ w.2.2 ∧ w.2.2 ≤ maxMessageSize

instance (k : Kernel) (a : Action) : Decidable (k.SizesInRange a) :=
  inferInstanceAs (Decidable (_ ∧ ∀ w ∈ k.attributeWrite a, _ → _))

/-- The action is no shutdown, and sets no message size above the limit. -/
def SizesFit (k : Kernel) (a : Action) : Prop :=
  k.request a ≠ some .shutdown ∧ ∀ w ∈ k.attributeWrite a, w.2.1 = attQueueMessageSize →
    w.2.2 ≤ maxMessageSize

instance (k : Kernel) (a : Action) : Decidable (k.SizesFit a) :=
  inferInstanceAs (Decidable (_ ∧ ∀ w ∈ k.attributeWrite a, _ → _))

theorem SizesInRange.fit (h : k.SizesInRange a) : k.SizesFit a :=
  ⟨h.1, fun w hw hattr ↦ (h.2 w hw hattr).2⟩

/-- No queue takes messages longer than a string block, nor is one about to. -/
structure Sizes (k : Kernel) : Prop where
  size : ∀ q, k.queues.msgSize q ≤ maxMessageSize
  pending : ∀ p q attr newVal, k.pcbs.cpuState p = .setattrWrite q attr newVal →
    attr = attQueueMaxMessages ∨ attr = attQueueMessageSize
  noShutdown : k.NoShutdown

theorem attributeWrite_eq_some {newVal attr : ℤ} (hrunning : k.running = some p)
    (hcontext : k.pcbs.cpuState p = .setattrWrite q attr newVal) :
    k.attributeWrite .statement = some (q, attr, newVal) := by
  simp [attributeWrite, context, hrunning, hcontext]

theorem Sizes.step (h : k.Sizes) (hsizes : k.SizesFit a) (hstep : k.step a = some k') :
    k'.Sizes where
  noShutdown := h.noShutdown.step hsizes.1 hstep
  pending p := by
    refine (step_contexts h.noShutdown hsizes.1 hstep).forall_context
      (P := fun _ context ↦ ∀ q attr newVal, context = .setattrWrite q attr newVal →
        attr = attQueueMaxMessages ∨ attr = attQueueMessageSize) h.pending
      (fun _ _ _ _ _ heq ↦ by simp at heq)
      (fun _ c _ _ _ heq ↦ by cases c <;> simp [DmqCall.entry] at heq)
      (fun p c next hrequest q attr newVal heq ↦ ?_) (fun p next hnext q attr newVal heq ↦ ?_) p
    · cases hcontext : k.pcbs.cpuState p <;> rw [hcontext] at hrequest <;>
        simp only [Context.request, Option.some.injEq, Prod.mk.injEq, reduceCtorEq] at hrequest <;>
        simp [← hrequest.2] at heq
    · generalize k.pcbs.cpuState p = context at hnext
      cases hnext with
      | setattrCheck q' attr' newVal' hvalid =>
        simp only [Context.setattrWrite.injEq] at heq
        obtain ⟨rfl, rfl, rfl⟩ := heq
        by_contra hother
        rw [not_or] at hother
        simp [setattrError, hother.1, hother.2] at hvalid
        split_ifs at hvalid
      | _ => simp at heq
  size q := by
    have hsame : k'.attributes = k.attributes → k'.queues.msgSize q ≤ maxMessageSize := by
      intro hattributes
      rw [(Prod.mk.inj hattributes).2]
      exact h.size q
    cases step_store hsizes.1 hstep with
    | same _ _ hattributes _ => exact hsame hattributes
    | accept p q' fd msg next _ _ _ _ haccept =>
      exact hsame ((congrArg attributes (acceptMessage_eq haccept)).trans rfl)
    | deliver p q' fd buffer m next k₁ _ _ _ hpop hdeliver =>
      have hframe := deliverMessage_eq hdeliver
      rw [← (Prod.mk.inj hpop).2] at hframe
      exact hsame ((congrArg attributes hframe).trans rfl)
    | free p id res q' next k₁ k₂ _ _ _ _ _ _ _ _ _ hattributes _ => exact hsame hattributes
    | init p id fd res q' mode next pool _ _ _ _ _ _ _ hattributes _ =>
      rw [(Prod.mk.inj hattributes).2, Function.update_apply]
      split_ifs
      · exact le_rfl
      · exact h.size q
    | write p q' attr newVal ha hrunning hcontext _ _ hattributes _ =>
      rw [(Prod.mk.inj hattributes).2, writeAttribute]
      split_ifs with hattr
      · exact h.size q
      · change update k.queues.msgSize q' newVal q ≤ _
        rw [Function.update_apply]
        split_ifs
        · subst ha
          exact hsizes.2 _ (attributeWrite_eq_some hrunning hcontext)
            ((h.pending _ _ _ _ hcontext).resolve_left hattr)
        · exact h.size q

/-- The store is in order, and no message in it is longer than a string block. -/
structure Prepared (layout : Layout) (k : Kernel) (nodes : Addr → List Addr) : Prop where
  stored : k.Stored layout nodes
  capacities : k.Capacities
  sizes : k.Sizes
  len : ∀ x, k.messages.allocator.Allocated x → k.messages.len x ≤ maxMessageSize

theorem Prepared.keeps (h : k.Prepared layout nodes) (hsizes : k.SizesFit a)
    (hstep : k.step a = some k') {nodes' : Addr → List Addr} (hstored : k'.Stored layout nodes') :
    k'.Prepared layout nodes' where
  stored := hstored
  capacities := h.capacities.step hsizes.1 hstep
  sizes := h.sizes.step hsizes hstep
  len x hx := by
    have hsame : k'.messages.allocator = k.messages.allocator →
        k'.messages.len = k.messages.len → k'.messages.len x ≤ maxMessageSize := by
      intro hpool hlen
      rw [hlen]
      exact h.len x (hpool ▸ hx)
    have hstore : k'.messages = k.messages → k'.messages.len x ≤ maxMessageSize := fun hmessages ↦
      hsame (by rw [hmessages]) (by rw [hmessages])
    cases step_store hsizes.1 hstep with
    | same hsame _ _ _ => exact hstore (Prod.mk.inj hsame).1
    | accept p q fd msg next _ _ _ _ haccept =>
      have htrap : (k.trap p next (.sendMsg msg fd)).Stored layout nodes := h.stored.congr rfl
      obtain ⟨m, block, haccepts, -⟩ | ⟨-, hsame, -⟩ := htrap.acceptMessage haccept
      · rw [haccepts.len, Function.update_apply]
        split_ifs with hxm
        · exact h.sizes.size q
        · exact h.len x (((haccepts.allocated x).mp hx).resolve_left hxm)
      · exact hstore (Prod.mk.inj hsame).1
    | deliver p q fd buffer m next k₁ _ _ _ hpop hdeliver =>
      have htrap : (k.trap p next (.recvMsg (some buffer) fd)).Stored layout nodes :=
        h.stored.congr rfl
      obtain ⟨-, -, -, hdelivers, -⟩ := htrap.deliverMessage hpop hdeliver
      exact hsame hdelivers.messages hdelivers.len
    | free p id res q next k₁ k₂ _ _ _ _ _ hstore₁ hfree hstore _ _ _ =>
      obtain ⟨-, -, -, hpool, -⟩ := (h.stored.congr hstore₁).freeMessages le_rfl hfree
      have hmessages₁ := (Prod.mk.inj hstore₁).1
      rw [← (Prod.mk.inj hstore).1] at hpool
      refine hsame (by rw [hpool, hmessages₁]) ?_
      rw [(Prod.mk.inj hstore).1, freeMessages_eq hfree, ← hmessages₁]
    | init p id fd res q mode next pool _ _ _ _ _ _ hsame _ _ => exact hstore (Prod.mk.inj hsame).1
    | write p q attr newVal _ _ _ hsame _ _ _ => exact hstore (Prod.mk.inj hsame).1

theorem Prepared.step (h : k.Prepared layout nodes) (hsizes : k.SizesFit a)
    (hstep : k.step a = some k') : ∃ nodes', k'.Prepared layout nodes' := by
  obtain ⟨nodes', hstored⟩ := h.stored.step hsizes.1 hstep
  exact ⟨nodes', h.keeps hsizes hstep hstored⟩

/-! ### SEND and RECV -/

/-- A SEND stores a message at the end of the queue and returns 0; or it changes nothing in the store
and fails. -/
theorem Stored.sendMsg (h : k.Stored layout nodes) {msg : Option Addr} {fd : ℤ}
    (hrunning : k.running = some p) (hrequest : k.request a = some (.sendMsg msg fd))
    (hstep : k.step a = some k') :
    k'.attributes = k.attributes ∧ ∃ q, k.queueByFd p fd = some (some q) ∧
      ((k.queues.messages q).size < k.queues.maxMessages q ∧ k'.pcbs.syscallRetvalue p = 0 ∧
          (∃ m block, k.Accepts q msg m block k' ∧
            k'.Stored layout (update nodes q (nodes q ++ [m]))) ∨
        k'.store = k.store ∧ k'.pcbs.syscallRetvalue p = dsosNoMsgSent) := by
  obtain ⟨next, hcalls, hcall⟩ := step_syscall hrunning hrequest hstep
  have htrap : (k.trap p next (.sendMsg msg fd)).Stored layout nodes := h.congr rfl
  obtain ⟨p', q, entries, hp', hqueue, -, ⟨hroom, haccept⟩ | ⟨-, hwait⟩⟩ :=
    internalSendMessage_cases hcall
  · obtain rfl : p = p' := Option.some.inj (hrunning.symm.trans hp')
    refine ⟨(congrArg attributes (acceptMessage_eq haccept)).trans rfl, q, hqueue, ?_⟩
    obtain ⟨m, block, haccepts, hstored, hret⟩ | ⟨-, hstore, hret⟩ := htrap.acceptMessage haccept
    · exact Or.inl ⟨hroom, hret, m, block, { haccepts with }, hstored⟩
    · exact Or.inr ⟨hstore, hret⟩
  · obtain rfl : p = p' := Option.some.inj (hrunning.symm.trans hp')
    obtain ⟨_, _, -, -, rfl⟩ := waitForQueue_eq hwait
    exact ⟨rfl, q, hqueue, Or.inr ⟨rfl, Function.update_self ..⟩⟩

/-- A RECV hands over the first message of the queue and returns 0; or it changes nothing in the store
and fails. -/
theorem Stored.recvMsg (h : k.Stored layout nodes) {msg : Option Addr} {fd : ℤ}
    (hrunning : k.running = some p) (hrequest : k.request a = some (.recvMsg msg fd))
    (hstep : k.step a = some k') :
    k'.attributes = k.attributes ∧
      ((∃ buffer q m rest, msg = some buffer ∧ k.queueByFd p fd = some (some q) ∧
          nodes q = m :: rest ∧ k.Delivers buffer m k' ∧ k'.Stored layout (update nodes q rest) ∧
          k'.pcbs.syscallRetvalue p = 0) ∨
        k'.store = k.store ∧ k'.pcbs.syscallRetvalue p = dsosNoMsgReceived) := by
  obtain ⟨next, hcalls, hcall⟩ := step_syscall hrunning hrequest hstep
  have htrap : (k.trap p next (.recvMsg msg fd)).Stored layout nodes := h.congr rfl
  obtain ⟨p', entries, hp', -, ⟨-, rfl⟩ | ⟨buffer, q, rfl, hqueue,
    ⟨m, k₁, hpop, hdeliver⟩ | ⟨k₁, hpop, hwait⟩⟩⟩ := internalRecvMessage_cases hcall
  · obtain rfl : p = p' := Option.some.inj (hrunning.symm.trans hp')
    exact ⟨rfl, Or.inr ⟨rfl, Function.update_self ..⟩⟩
  · obtain rfl : p = p' := Option.some.inj (hrunning.symm.trans hp')
    have hframe := deliverMessage_eq hdeliver
    rw [← (Prod.mk.inj hpop).2] at hframe
    refine ⟨(congrArg attributes hframe).trans rfl, Or.inl ?_⟩
    obtain ⟨rest, hq, hstored, hdelivers, hret⟩ := htrap.deliverMessage hpop hdeliver
    exact ⟨buffer, q, m, rest, rfl, hqueue, hq, { hdelivers with }, hstored, hret⟩
  · obtain rfl : p = p' := Option.some.inj (hrunning.symm.trans hp')
    obtain ⟨_, _, -, -, rfl⟩ := waitForQueue_eq hwait
    obtain ⟨-, rfl⟩ := popMessage_eq_none hpop
    exact ⟨rfl, Or.inr ⟨rfl, Function.update_self ..⟩⟩

/-! ### The contents of the messages -/

/-- The bytes of a stored message. -/
def content (k : Kernel) (m : Addr) : List UInt8 :=
  copied k.msgStrings.byte ((k.messages.message m).getD 0) (k.messages.len m).toNat

theorem content_congr (hmessages : k'.messages.message = k.messages.message)
    (hlen : k'.messages.len = k.messages.len) (hbyte : k'.msgStrings.byte = k.msgStrings.byte) :
    k'.content = k.content := by
  funext m
  rw [content, content, hmessages, hlen, hbyte]

/-- The stored message is what the copy loop took from the sender's buffer. -/
theorem Accepts.content_new {msg : Option Addr} {m block : Addr} (h : k.Accepts q msg m block k') :
    k'.content m = copied k.userBytes (msg.getD 0) (k.queues.msgSize q).toNat := by
  rw [content, h.message, h.len, h.byte, Function.update_self, Function.update_self,
    Option.getD_some, copied_copyBytes]

/-- The other messages are left as they are: their strings are at other places. -/
theorem Accepts.content_old {msg : Option Addr} {m block : Addr} (h : k.Accepts q msg m block k')
    (hstored : k.Stored layout nodes) (hsize : k.queues.msgSize q ≤ maxMessageSize)
    (hx : k.messages.allocator.Allocated x) (hlen : k.messages.len x ≤ maxMessageSize) :
    k'.content x = k.content x := by
  have hne : x ≠ m := fun hsame ↦ h.message_fresh (hsame ▸ hx)
  obtain ⟨block', hblock', hstring⟩ := hstored.string x hx
  have hsize' : k.msgStrings.allocator.itemSize = 128 := hstored.sameStringPool.itemSize
  have happart := IsBlock.disjoint (by omega) h.string_isBlock hstring.isBlock
    fun hsame ↦ h.string_fresh (hsame ▸ hstring)
  rw [hsize'] at happart
  have hlength := copyLength_le k.userBytes (msg.getD 0) (k.queues.msgSize q).toNat
  rw [maxMessageSize] at hsize hlen
  rw [content, content, h.message, h.len, h.byte, Function.update_of_ne hne,
    Function.update_of_ne hne, hblock', Option.getD_some]
  exact copied_congr fun i hi hlt ↦ copyBytes_of_outside (by lia)

/-- What the receiver finds in its buffer is the message that was handed over. -/
theorem Delivers.copied_buffer {buffer m : Addr} (h : k.Delivers buffer m k') :
    copied k'.userBytes buffer (k.messages.len m).toNat = k.content m := by
  obtain ⟨block, hblock, hbytes⟩ := h.userBytes
  rw [hbytes, copied_copyBytes, content, hblock, Option.getD_some]

/-! ### The traffic of a queue -/

/-- The messages of the SENDs and of the RECVs that have returned 0. -/
structure Traffic where
  sent : List (List UInt8)
  received : List (List UInt8)
deriving DecidableEq

/-- A SEND or RECV on queue `q` that returns 0 is noted with its message: what the copy loop takes from
the sender's buffer, or from the receiver's buffer after the call. -/
def noteTransfer (q : Addr) (m : Traffic) (k : Kernel) (a : Action) (k' : Kernel) : Traffic :=
  match k.running, k.request a with
  | some p, some (.sendMsg msg fd) =>
    if k.queueByFd p fd = some (some q) ∧ k'.pcbs.syscallRetvalue p = 0 then
      { m with
        sent := m.sent ++ [copied k.userBytes (msg.getD 0) (k.queues.msgSize q).toNat] }
    else m
  | some p, some (.recvMsg buffer fd) =>
    if k.queueByFd p fd = some (some q) ∧ k'.pcbs.syscallRetvalue p = 0 then
      { m with
        received := m.received ++ [copied k'.userBytes (buffer.getD 0) (k.queues.msgSize q).toNat] }
    else m
  | _, _ => m

/-- The system call neither frees queue `q` nor sets it up again. -/
def KeepsQueueCall (q : Addr) (k : Kernel) : Syscall → Prop
  | .destroyResource id => ∀ res ∈ (k.resourceById id).join,
    (k.resources.descriptorsPtrs res).size = 0 → k.freedQueue res ≠ some q
  | .openQueue id _ _ => ∀ res ∈ (k.resourceById id).join,
    k.resources.value res = none → k.queues.allocator.getBlock.1 ≠ some q
  | _ => True

/-- The action neither frees queue `q`, nor sets it up again, nor changes its message size. -/
def KeepsQueue (q : Addr) (k : Kernel) (a : Action) : Prop :=
  k.SizesInRange a ∧ (∀ w ∈ k.attributeWrite a, w.1 = q → w.2.1 ≠ attQueueMessageSize) ∧
    ∀ c ∈ k.request a, k.KeepsQueueCall q c

instance (q : Addr) (k : Kernel) : ∀ c, Decidable (k.KeepsQueueCall q c)
  | .destroyResource id => inferInstanceAs (Decidable (∀ res ∈ (k.resourceById id).join, _ → _))
  | .openQueue id _ _ => inferInstanceAs (Decidable (∀ res ∈ (k.resourceById id).join, _ → _))
  | .preempt | .fork | .wait .. | .exit _ | .spawn | .sleep _ | .openResource .. | .closeResource _
  | .sendMsg .. | .recvMsg .. | .wakeupQueue .. | .shutdown => isTrue trivial

instance (q : Addr) (k : Kernel) (a : Action) : Decidable (k.KeepsQueue q a) :=
  inferInstanceAs (Decidable (_ ∧ (∀ w ∈ k.attributeWrite a, _ → _) ∧
    ∀ c ∈ k.request a, k.KeepsQueueCall q c))

/-- The SEND or RECV of an action has failed. -/
def FailedTransfer (k : Kernel) (a : Action) (k' : Kernel) : Prop :=
  ∃ p msg fd, k.running = some p ∧
    (k.request a = some (.sendMsg msg fd) ∨ k.request a = some (.recvMsg msg fd)) ∧
      k'.pcbs.syscallRetvalue p ≠ 0

theorem Stored.failedTransfer (h : k.Stored layout nodes) (hfailed : k.FailedTransfer a k')
    (hstep : k.step a = some k') : k'.store = k.store := by
  obtain ⟨p, msg, fd, hrunning, hrequest | hrequest, hret⟩ := hfailed
  · obtain ⟨-, q, -, ⟨-, hzero, -⟩ | ⟨hstore, -⟩⟩ := h.sendMsg hrunning hrequest hstep
    · exact absurd hzero hret
    · exact hstore
  · obtain ⟨-, ⟨_, _, _, _, -, -, -, -, -, hzero⟩ | ⟨hstore, -⟩⟩ :=
      h.recvMsg hrunning hrequest hstep
    · exact absurd hzero hret
    · exact hstore

/-- Queue `q` holds what was sent and not yet received, in this order. -/
structure InOrder (layout : Layout) (q : Addr) (m : Traffic) (k : Kernel)
    (nodes : Addr → List Addr) : Prop extends k.Prepared layout nodes where
  sameLen : ∀ x ∈ nodes q, k.messages.len x = k.queues.msgSize q
  short : ((nodes q).length : ℤ) ≤ maxNumMessagesPerQueue
  order : m.sent = m.received ++ (nodes q).map k.content

variable {m : Traffic}

/-- A step that leaves the messages of the queue alone. -/
theorem InOrder.keep (h : k.InOrder layout q m nodes) {nodes' : Addr → List Addr}
    (hprepared : k'.Prepared layout nodes') (hnodes : nodes' q = nodes q)
    (hlen : k'.messages.len = k.messages.len) (hcontent : k'.content = k.content)
    (hsize : k'.queues.msgSize q = k.queues.msgSize q) : k'.InOrder layout q m nodes' where
  toPrepared := hprepared
  sameLen := by rw [hnodes, hlen, hsize]; exact h.sameLen
  short := hnodes ▸ h.short
  order := by rw [hnodes, hcontent]; exact h.order

theorem InOrder.congr (h : k.InOrder layout q m nodes) (hprepared : k'.Prepared layout nodes)
    (hstore : k'.store = k.store) (hsize : k'.queues.msgSize q = k.queues.msgSize q) :
    k'.InOrder layout q m nodes := by
  obtain ⟨hmessages, hrest⟩ := Prod.mk.inj hstore
  exact h.keep hprepared rfl (by rw [hmessages])
    (content_congr (by rw [hmessages]) (by rw [hmessages]) (by rw [(Prod.mk.inj hrest).1])) hsize

/-- A SEND. -/
theorem InOrder.sendMsg (h : k.InOrder layout q m nodes) (hsizes : k.SizesFit a)
    {msg : Option Addr} {fd : ℤ} (hrunning : k.running = some p)
    (hrequest : k.request a = some (.sendMsg msg fd)) (hstep : k.step a = some k') :
    ∃ nodes', k'.InOrder layout q (noteTransfer q m k a k') nodes' := by
  obtain ⟨hattributes, q', hqueue, hcase⟩ := h.stored.sendMsg hrunning hrequest hstep
  have hsize := congrFun (Prod.mk.inj hattributes).2
  obtain ⟨hroom, hret, x, block, haccepts, hstored⟩ | ⟨hstore, hret⟩ := hcase
  · have hold : ∀ y ∈ nodes q, k'.content y = k.content y := fun y hy ↦
      have hallocated := h.stored.allocated q y hy
      haccepts.content_old h.stored (h.sizes.size q') hallocated (h.len y hallocated)
    have hnew : ∀ y ∈ nodes q, y ≠ x := fun y hy hsame ↦
      haccepts.message_fresh (hsame ▸ h.stored.allocated q y hy)
    have holdLen : ∀ y ∈ nodes q, k'.messages.len y = k'.queues.msgSize q := fun y hy ↦ by
      rw [haccepts.len, Function.update_of_ne (hnew y hy), hsize, h.sameLen y hy]
    by_cases hq : q' = q
    · subst hq
      have hnote : noteTransfer q' m k a k' = { m with
          sent := m.sent ++ [copied k.userBytes (msg.getD 0) (k.queues.msgSize q').toNat] } := by
        simp only [noteTransfer, hrunning, hrequest, hqueue, hret, and_self, if_true]
      have hlength := (h.stored.family.represents q').size
      have hmax := h.capacities.max q'
      rw [hnote]
      exact ⟨_,
        { toPrepared := h.toPrepared.keeps hsizes hstep hstored
          sameLen := fun y hy ↦ by
            rw [Function.update_self, List.mem_append, List.mem_singleton] at hy
            rcases hy with hy | rfl
            · exact holdLen y hy
            · rw [haccepts.len, Function.update_self, hsize]
          short := by
            rw [Function.update_self, List.length_append, List.length_singleton]
            push_cast
            omega
          order := by
            dsimp only
            rw [Function.update_self, List.map_append, List.map_congr_left hold, h.order,
              List.map_singleton, haccepts.content_new, List.append_assoc] }⟩
    · have hnote : noteTransfer q m k a k' = m := by
        simp [noteTransfer, hrunning, hrequest, hqueue, hq]
      have hnodes : update nodes q' (nodes q' ++ [x]) q = nodes q := Function.update_of_ne (Ne.symm hq) ..
      rw [hnote]
      exact ⟨_,
        { toPrepared := h.toPrepared.keeps hsizes hstep hstored
          sameLen := by rw [hnodes]; exact holdLen
          short := by rw [hnodes]; exact h.short
          order := by rw [hnodes, List.map_congr_left hold]; exact h.order }⟩
  · have hnote : noteTransfer q m k a k' = m := by
      simp [noteTransfer, hrunning, hrequest, hret, dsosNoMsgSent]
    rw [hnote]
    exact ⟨nodes, h.congr (h.toPrepared.keeps hsizes hstep (h.stored.congr hstore)) hstore (hsize q)⟩

/-- A RECV. -/
theorem InOrder.recvMsg (h : k.InOrder layout q m nodes) (hsizes : k.SizesFit a)
    {msg : Option Addr} {fd : ℤ} (hrunning : k.running = some p)
    (hrequest : k.request a = some (.recvMsg msg fd)) (hstep : k.step a = some k') :
    ∃ nodes', k'.InOrder layout q (noteTransfer q m k a k') nodes' := by
  obtain ⟨hattributes, hcase⟩ := h.stored.recvMsg hrunning hrequest hstep
  have hsize := congrFun (Prod.mk.inj hattributes).2
  obtain ⟨buffer, q', x, rest, rfl, hqueue, hnodes, hdelivers, hstored, hret⟩ | ⟨hstore, hret⟩ :=
    hcase
  · have hcontent := content_congr hdelivers.message hdelivers.len
      (congrArg (·.byte) hdelivers.strings)
    by_cases hq : q' = q
    · subst hq
      have hx : x ∈ nodes q' := hnodes ▸ List.mem_cons_self
      have hnote : noteTransfer q' m k a k' = { m with
          received := m.received ++ [k.content x] } := by
        simp only [noteTransfer, hrunning, hrequest, hqueue, hret, and_self, if_true,
          Option.getD_some, ← h.sameLen x hx, hdelivers.copied_buffer]
      have horder := h.order
      have hsub : ∀ y ∈ rest, y ∈ nodes q' := fun y hy ↦ hnodes ▸ List.mem_cons_of_mem x hy
      have hshort := h.short
      rw [hnodes, List.length_cons] at hshort
      rw [hnodes, List.map_cons] at horder
      rw [hnote]
      exact ⟨_,
        { toPrepared := h.toPrepared.keeps hsizes hstep hstored
          sameLen := fun y hy ↦ by
            rw [Function.update_self] at hy
            rw [hdelivers.len, hsize, h.sameLen y (hsub y hy)]
          short := by
            rw [Function.update_self]
            push_cast at hshort
            omega
          order := by
            dsimp only
            rw [Function.update_self, hcontent, horder, List.append_assoc, List.singleton_append] }⟩
    · have hnote : noteTransfer q m k a k' = m := by
        simp [noteTransfer, hrunning, hrequest, hqueue, hq]
      rw [hnote]
      exact ⟨_, h.keep (h.toPrepared.keeps hsizes hstep hstored)
        (Function.update_of_ne (Ne.symm hq) ..) hdelivers.len hcontent (hsize q)⟩
  · have hnote : noteTransfer q m k a k' = m := by
      simp [noteTransfer, hrunning, hrequest, hret, dsosNoMsgReceived]
    rw [hnote]
    exact ⟨nodes, h.congr (h.toPrepared.keeps hsizes hstep (h.stored.congr hstore)) hstore (hsize q)⟩

/-- A step that is neither a SEND nor a RECV. -/
theorem InOrder.other (h : k.InOrder layout q m nodes) (hkeeps : k.KeepsQueue q a)
    (hsend : ∀ msg fd, k.request a ≠ some (.sendMsg msg fd))
    (hrecv : ∀ msg fd, k.request a ≠ some (.recvMsg msg fd)) (hstep : k.step a = some k') :
    ∃ nodes', k'.InOrder layout q m nodes' := by
  obtain ⟨hrange, hwrites, hcalled⟩ := hkeeps
  have hsizes := hrange.fit
  have hkeep {nodes' : Addr → List Addr} (hstored : k'.Stored layout nodes') :=
    h.toPrepared.keeps hsizes hstep hstored
  cases step_store hsizes.1 hstep with
  | same hstore _ hattributes _ =>
    exact ⟨nodes, h.congr (hkeep (h.stored.congr hstore)) hstore
      (congrFun (Prod.mk.inj hattributes).2 q)⟩
  | accept p q' fd msg next hrunning hcalls =>
    exact absurd (hcalls.request hrunning) (hsend msg fd)
  | deliver p q' fd buffer x next k₁ hrunning hcalls =>
    exact absurd (hcalls.request hrunning) (hrecv (some buffer) fd)
  | free p id res q' next k₁ k₂ hrunning hcalls hfound hunused hfreed hstore₁ hfree hstore _
      hattributes _ =>
    have hne : q ≠ q' := fun hsame ↦
      hcalled _ (hcalls.request hrunning) res (by rw [hfound]; rfl) hunused (hsame ▸ hfreed)
    obtain ⟨rest, -, hstored, -⟩ := (h.stored.congr hstore₁).freeMessages le_rfl hfree
    have hframe := freeMessages_eq hfree
    obtain ⟨hmessages, hrest⟩ := Prod.mk.inj hstore
    obtain ⟨hmessages₁, hrest₁⟩ := Prod.mk.inj hstore₁
    have hlen : k'.messages.len = k.messages.len := by rw [hmessages, hframe, ← hmessages₁]
    have hmessage : k'.messages.message = k.messages.message := by
      rw [hmessages, hframe, ← hmessages₁]
    have hbyte : k'.msgStrings.byte = k.msgStrings.byte := by
      rw [(Prod.mk.inj hrest).1, hframe, ← (Prod.mk.inj hrest₁).1]
    exact ⟨_, h.keep (hkeep (hstored.congr hstore)) (Function.update_of_ne hne ..) hlen
      (content_congr hmessage hlen hbyte)
      (congrFun (Prod.mk.inj hattributes).2 q)⟩
  | init p id fd res q' mode next pool hrunning hcalls hfound hvalue hget _ hstore hattributes _ =>
    have hne : q ≠ q' := fun hsame ↦
      hcalled _ (hcalls.request hrunning) res (by rw [hfound]; rfl) hvalue (by rw [hget, hsame])
    obtain ⟨hmessages, hrest⟩ := Prod.mk.inj hstore
    exact ⟨_, h.keep (hkeep (h.stored.clear q' hstore)) (Function.update_of_ne hne ..)
      (by rw [hmessages])
      (content_congr (by rw [hmessages]) (by rw [hmessages]) (by rw [(Prod.mk.inj hrest).1]))
      ((congrFun (Prod.mk.inj hattributes).2 q).trans (Function.update_of_ne hne ..))⟩
  | write p q' attr newVal ha hrunning hcontext hstore _ hattributes _ =>
    refine ⟨nodes, h.congr (hkeep (h.stored.congr hstore)) hstore ?_⟩
    rw [(Prod.mk.inj hattributes).2, writeAttribute]
    split_ifs with hattr
    · rfl
    · subst ha
      have hsize := (h.sizes.pending _ _ _ _ hcontext).resolve_left hattr
      have hne : q' ≠ q := fun hsame ↦
        hwrites _ (attributeWrite_eq_some hrunning hcontext) hsame hsize
      exact Function.update_of_ne (Ne.symm hne) ..

theorem InOrder.step (h : k.InOrder layout q m nodes) (hkeeps : k.KeepsQueue q a)
    (hstep : k.step a = some k') :
    ∃ nodes', k'.InOrder layout q (noteTransfer q m k a k') nodes' := by
  by_cases hsend : ∃ msg fd, k.request a = some (.sendMsg msg fd)
  · obtain ⟨msg, fd, hrequest⟩ := hsend
    obtain ⟨p, hrunning⟩ := running_of_request hrequest
    exact h.sendMsg hkeeps.1.fit hrunning hrequest hstep
  by_cases hrecv : ∃ msg fd, k.request a = some (.recvMsg msg fd)
  · obtain ⟨msg, fd, hrequest⟩ := hrecv
    obtain ⟨p, hrunning⟩ := running_of_request hrequest
    exact h.recvMsg hkeeps.1.fit hrunning hrequest hstep
  push Not at hsend hrecv
  have hnote : noteTransfer q m k a k' = m := by
    unfold noteTransfer
    split
    · exact absurd ‹_› (hsend _ _)
    · exact absurd ‹_› (hrecv _ _)
    · rfl
  rw [hnote]
  exact h.other hkeeps hsend hrecv hstep

/-- The messages that queue `q` holds, from the first to the last. -/
def messageNodes (k : Kernel) (q : Addr) : List Addr := (k.queues.messages q).toList k.messages.list

/-- What an invariant says about the traffic of queue `q`. -/
structure DeliversInOrder (k : Kernel) (q : Addr) (m : Traffic) : Prop where
  exactlyOnce : m.sent = m.received ++ (k.messageNodes q).map k.content
  kth : ∀ (i : ℕ) (message : List UInt8), m.received[i]? = some message →
    m.sent[i]? = some message
  size : (k.queues.messages q).size = m.sent.length - m.received.length
  bounded : (k.queues.messages q).size ≤ maxNumMessagesPerQueue
  failed : ∀ a k', k.step a = some k' → k.FailedTransfer a k' → k'.store = k.store

theorem InOrder.deliversInOrder (h : k.InOrder layout q m nodes) : k.DeliversInOrder q m := by
  have hrep := h.stored.family.represents q
  have horder := h.order
  refine ⟨?_, fun i message hi ↦ ?_, ?_, hrep.size ▸ h.short,
    fun a k' hstep hfailed ↦ h.stored.failedTransfer hfailed hstep⟩
  · rw [messageNodes, hrep.toList_eq, horder]
  · obtain ⟨hlt, hmessage⟩ := List.getElem?_eq_some_iff.mp hi
    rw [horder, List.getElem?_append_left hlt, hi]
  · rw [hrep.size, horder, List.length_append, List.length_map]
    push_cast
    omega

end Kernel

/-! ### Whole runs -/

theorem Layout.boot_sizes (layout : Layout) : layout.boot.Sizes where
  size _ := by simp [Layout.boot, maxMessageSize]
  pending _ _ _ _ hcontext := by simp [Layout.boot] at hcontext
  noShutdown _ := by simp [Layout.boot]

theorem Layout.boot_prepared (layout : Layout) : layout.boot.Prepared layout fun _ ↦ [] where
  stored := layout.boot_stored
  capacities := layout.boot_capacities
  sizes := layout.boot_sizes
  len _ _ := by simp [Layout.boot, maxMessageSize]

/-- Whatever has happened before, the traffic of a queue that is empty at the start of the run is first
in, first out. -/
theorem fifo_exactlyOnce (layout : Layout) {setup actions : List Action} {start k : Kernel} {q : Addr}
    (hsetup : Runs.Meets Kernel.step Kernel.SizesInRange layout.boot setup)
    (hstart : Runs.run Kernel.step layout.boot setup = some start)
    (hempty : (start.queues.messages q).size = 0)
    (hkept : Runs.Meets Kernel.step (Kernel.KeepsQueue q) start actions)
    (hrun : Runs.run Kernel.step start actions = some k) :
    k.DeliversInOrder q
      (Runs.monitor Kernel.step (Kernel.noteTransfer q) ⟨[], []⟩ start actions) := by
  have hprepares : ∀ k a k', (∃ nodes, Kernel.Prepared layout k nodes) → k.SizesInRange a →
      k.step a = some k' → ∃ nodes, k'.Prepared layout nodes := by
    rintro k a k' ⟨nodes, hinv⟩ hsizes hstep
    exact hinv.step hsizes.fit hstep
  obtain ⟨nodes₀, hprepared⟩ :=
    Runs.run_invariant hprepares ⟨_, layout.boot_prepared⟩ hsetup hstart
  have hnone : nodes₀ q = [] := by
    have hlength := (hprepared.stored.family.represents q).size
    rw [hempty] at hlength
    exact List.length_eq_zero_iff.mp (by omega)
  have hbegin : start.InOrder layout q ⟨[], []⟩ nodes₀ :=
    { toPrepared := hprepared
      sameLen := fun x hx ↦ absurd (hnone ▸ hx) List.not_mem_nil
      short := by simp [hnone, maxNumMessagesPerQueue]
      order := by simp [hnone] }
  have hordered : ∀ m k a k', (∃ nodes, Kernel.InOrder layout q m k nodes) → k.KeepsQueue q a →
      k.step a = some k' → ∃ nodes, k'.InOrder layout q (Kernel.noteTransfer q m k a k') nodes := by
    rintro m k a k' ⟨nodes, hinv⟩ hkeeps hstep
    exact hinv.step hkeeps hstep
  obtain ⟨nodes, hinOrder⟩ := Runs.monitor_invariant hordered ⟨_, hbegin⟩ hkept hrun
  exact hinOrder.deliversInOrder

/-- The first process opens queue 0. -/
def openSetup : List Action :=
  [.start, .call (.openQueue 0 0o13), .statement, .statement, .statement, .statement]

/-- It sends `h`, then `i`, and receives once. -/
def twoSendsOneReceive : List Action :=
  [.write 0x800000 104, .syscall (.sendMsg (some 0x800000) 0), .write 0x800000 105,
    .syscall (.sendMsg (some 0x800000) 0), .syscall (.recvMsg (some 0x800100) 0)]

theorem fifo_exactlyOnce_twoSendsOneReceive : ∃ start k,
    Runs.run Kernel.step sampleLayout.boot openSetup = some start ∧
      Runs.run Kernel.step start twoSendsOneReceive = some k ∧
      k.DeliversInOrder 0x1900000 ⟨[[104, 0], [105, 0]], [[104, 0]]⟩ := by
  have hruns : (Runs.run Kernel.step sampleLayout.boot openSetup).isSome := by decide +kernel
  obtain ⟨start, hstart⟩ := Option.isSome_iff_exists.mp hruns
  have hnext : ∀ start ∈ Runs.run Kernel.step sampleLayout.boot openSetup,
      (start.queues.messages 0x1900000).size = 0 ∧
        (Runs.run Kernel.step start twoSendsOneReceive).isSome ∧
        Runs.Meets Kernel.step (Kernel.KeepsQueue 0x1900000) start twoSendsOneReceive ∧
        Runs.monitor Kernel.step (Kernel.noteTransfer 0x1900000) ⟨[], []⟩ start
          twoSendsOneReceive = ⟨[[104, 0], [105, 0]], [[104, 0]]⟩ := by decide +kernel
  obtain ⟨hempty, hnext, hkept, htraffic⟩ := hnext start hstart
  obtain ⟨k, hk⟩ := Option.isSome_iff_exists.mp hnext
  have hfifo := fifo_exactlyOnce sampleLayout (by decide +kernel) hstart hempty hkept hk
  rw [htraffic] at hfifo
  exact ⟨start, k, hstart, hk, hfifo⟩

end DisastrOS
