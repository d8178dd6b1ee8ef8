import DisastrOS.NonBlocking

/-!
# Receiving inside the buffer

`dmq_receive` compares the length of its buffer with the message size of the queue in user code, and the
RECV that follows later copies as many bytes as the message that has come in the meantime has room for.
So a message size that is raised in between lets the RECV write behind the buffer
(`raisedSize_not_receivesInside`), and one that is lowered under a stored message lets a later RECV do
it. Where no write of `dmq_setattr` does either, every RECV of a `dmq_receive` stays inside the buffer
(`receivesInside_of_safe`).
-/

set_option autoImplicit false
set_option relaxedAutoImplicit false

namespace DisastrOS

open LinkedLists
open Function (update)

/-- The call of `dmq_send` or `dmq_receive` that a point belongs to, and the queue it has found. -/
def Context.transferOn : Context → Option (TransferCall × Addr)
  | .transferSize c q | .transferFind c q | .transferRoom c q _ | .transferCall c q
  | .transferResult c q | .transferRetry c q | .transferWake c q => some (c, q)
  | _ => none

namespace Kernel

variable {layout : Layout} {nodes : Addr → List Addr} {k k' : Kernel} {a : Action} {p q d : Addr}
  {fd : ℤ} {c : TransferCall}

/-! ### Receives that have passed the size check -/

/-- Process `p` is in a `dmq_receive` that has passed the size check, and a RECV is still to come. -/
def Receiving (k : Kernel) (p : Addr) (c : TransferCall) (q : Addr) : Prop :=
  c.op = .receive ∧ (k.pcbs.cpuState p = .transferFind c q ∨
    (∃ ds, k.pcbs.cpuState p = .transferRoom c q ds) ∨ k.Checked p c q)

/-- The action is no shutdown. A message size that it sets is within the limits, not smaller than a
message in the queue, and not larger than the buffer of a receive that has passed the size check; and it
does not free the queue of such a receive, or set it up again. -/
def ReceiveSafe (k : Kernel) (a : Action) : Prop :=
  k.SizesInRange a ∧
    (∀ w ∈ k.attributeWrite a, w.2.1 = attQueueMessageSize →
      (∀ m ∈ k.messageNodes w.1, k.messages.len m ≤ w.2.2) ∧
        ∀ p c, k.Receiving p c w.1 → w.2.2 ≤ c.len) ∧
    ∀ call ∈ k.request a, ∀ p c q, k.Receiving p c q → k.KeepsQueueCall q call

/-- Whatever the user memory holds, the RECV of a `dmq_receive` changes no byte outside its buffer. -/
def ReceivesInside (k : Kernel) : Prop :=
  ∀ p fd buffer n q bytes k', k.running = some p →
    k.pcbs.cpuState p = .transferCall ⟨.receive, fd, some buffer, n⟩ q →
      { k with userBytes := bytes }.step .statement = some k' →
        ∀ x, x < buffer ∨ buffer + n ≤ x → k'.userBytes x = bytes x

/-! ### The descriptor of a receive -/

/-- Every descriptor `fd` of process `p` refers to queue `q`. -/
def RefersOnly (k : Kernel) (p : Addr) (fd : ℤ) (q : Addr) : Prop :=
  ∀ d ∈ k.files.descriptorNodes p, k.descriptors.fd d = fd →
    k.resources.value (k.descriptors.resource d) = some q

theorem RefersOnly.queue_eq (h : k.RefersOnly p fd q) (hok : k.files.Ok) {q' : Addr}
    (hqueue : k.queueByFd p fd = some (some q')) : q' = q := by
  obtain ⟨d, hd, hfd, hvalue⟩ := refersTo_of_queueByFd hok hqueue
  exact Option.some.inj (hvalue.symm.trans (h d hd hfd))

theorem refersOnly_of_queueByFd (hok : k.files.Ok) (hqueue : k.queueByFd p fd = some (some q)) :
    k.RefersOnly p fd q := by
  obtain ⟨d, hd, rfl, hvalue⟩ := refersTo_of_queueByFd hok hqueue
  intro d' hd' hfd
  obtain rfl := hok.fd_inj p d' hd' d hd hfd
  exact hvalue

/-- A step in which process `p` makes no call on the table of resources. -/
theorem RefersOnly.step (h : k.RefersOnly p fd q) (hok : k.files.Ok)
    (hshutdown : k.request a ≠ some .shutdown) (hstep : k.step a = some k')
    (hquiet : ∀ c, k.request a = some c → c.touchesFiles = true → k.running ≠ some p) :
    k'.RefersOnly p fd q := by
  intro d hd hfd
  obtain hsame | ⟨hreset, -⟩ := step_descriptors hok hshutdown hstep hquiet
  · rw [hsame.nodes] at hd
    have hkept := hsame.kept d hd
    have hresource : k'.descriptors.resource d = k.descriptors.resource d := hkept.resource
    rw [hresource]
    exact hkept.value q (h d hd (hkept.fd.symm.trans hfd))
  · rw [hreset, (Files.Holds.reset hok p).descriptorNodes_eq, Function.update_self] at hd
    exact absurd hd List.not_mem_nil

/-! ### Messages and message sizes -/

/-- No message is longer than the message size of its queue. -/
structure Fitting (layout : Layout) (k : Kernel) (nodes : Addr → List Addr) : Prop extends
    k.Prepared layout nodes where
  fits : ∀ q, ∀ m ∈ nodes q, k.messages.len m ≤ k.queues.msgSize q

/-- A write of a message size leaves all others. -/
theorem msgSize_writeAttribute {attr newVal x : ℤ} (hvalid : attr = attQueueMaxMessages ∨
    attr = attQueueMessageSize) : (k.writeAttribute q attr newVal).queues.msgSize x =
      if attr = attQueueMessageSize ∧ x = q then newVal else k.queues.msgSize x := by
  rw [writeAttribute]
  obtain rfl | rfl := hvalid
  · rw [if_pos rfl, if_neg fun h ↦ absurd h.1 (by decide)]
  · rw [if_neg (by decide)]
    change update k.queues.msgSize q newVal x = _
    rw [Function.update_apply]
    simp only [true_and]

theorem Fitting.messageNodes (h : k.Fitting layout nodes) (q : Addr) : k.messageNodes q = nodes q :=
  (h.stored.family.represents q).toList_eq

/-- A safe step keeps the messages as short as the message sizes. -/
theorem Fitting.step (h : k.Fitting layout nodes) (hsafe : k.ReceiveSafe a)
    (hstep : k.step a = some k') : ∃ nodes', k'.Fitting layout nodes' := by
  obtain ⟨hrange, hwrites, -⟩ := hsafe
  have hkeep {nodes' : Addr → List Addr} (hstored : k'.Stored layout nodes') :=
    h.toPrepared.keeps hrange.fit hstep hstored
  -- the messages are old ones, and the sizes are the same
  have hold {nodes' : Addr → List Addr} (hprepared : k'.Prepared layout nodes')
      (hsub : ∀ q, nodes' q ⊆ nodes q) (hlen : k'.messages.len = k.messages.len)
      (hsize : k'.queues.msgSize = k.queues.msgSize) : k'.Fitting layout nodes' :=
    ⟨hprepared, fun q m hm ↦ by rw [hlen, hsize]; exact h.fits q m (hsub q hm)⟩
  have hsub {q : Addr} {rest : List Addr} (hrest : rest ⊆ nodes q) (x : Addr) :
      update nodes q rest x ⊆ nodes x := by
    by_cases hx : x = q
    · subst hx
      rwa [Function.update_self]
    · rw [Function.update_of_ne hx]
      exact List.Subset.refl _
  cases step_store hrange.1 hstep with
  | same hstore _ hattributes _ =>
    refine ⟨nodes, hold (hkeep (h.stored.congr hstore)) (fun _ ↦ List.Subset.refl _) ?_
      (Prod.mk.inj hattributes).2⟩
    rw [(Prod.mk.inj hstore).1]
  | accept p q fd msg next hp hcalls =>
    obtain ⟨hattributes, q', -, ⟨-, -, x, block, haccepts, hstored⟩ | ⟨hstore, -⟩⟩ :=
      h.stored.sendMsg hp (hcalls.request hp) hstep
    · refine ⟨_, hkeep hstored, fun r m hm ↦ ?_⟩
      have hfits (hmem : m ∈ nodes r) : k'.messages.len m ≤ k'.queues.msgSize r := by
        have hne : m ≠ x := fun hsame ↦
          haccepts.message_fresh (hsame ▸ h.stored.allocated r m hmem)
        rw [haccepts.len, Function.update_of_ne hne, (Prod.mk.inj hattributes).2]
        exact h.fits r m hmem
      by_cases hr : r = q'
      · subst hr
        rw [Function.update_self, List.mem_append, List.mem_singleton] at hm
        obtain hmem | rfl := hm
        · exact hfits hmem
        · rw [haccepts.len, Function.update_self, (Prod.mk.inj hattributes).2]
      · rw [Function.update_of_ne hr] at hm
        exact hfits hm
    · refine ⟨nodes, hold (hkeep (h.stored.congr hstore)) (fun _ ↦ List.Subset.refl _) ?_
        (Prod.mk.inj hattributes).2⟩
      rw [(Prod.mk.inj hstore).1]
  | deliver p q fd buffer m next k₁ hp hcalls =>
    obtain ⟨hattributes, ⟨_, q', m, rest, -, -, hnodes, hdelivers, hstored, -⟩ | ⟨hstore, -⟩⟩ :=
      h.stored.recvMsg hp (hcalls.request hp) hstep
    · have hrest : rest ⊆ nodes q' := hnodes ▸ List.subset_cons_self m rest
      exact ⟨_, hold (hkeep hstored) (hsub hrest) hdelivers.len (Prod.mk.inj hattributes).2⟩
    · refine ⟨nodes, hold (hkeep (h.stored.congr hstore)) (fun _ ↦ List.Subset.refl _) ?_
        (Prod.mk.inj hattributes).2⟩
      rw [(Prod.mk.inj hstore).1]
  | free p id res q next k₁ k₂ _ _ _ _ _ hstore₁ hfree hstore _ hattributes _ =>
    obtain ⟨rest, hsuffix, hstored, -⟩ := (h.stored.congr hstore₁).freeMessages le_rfl hfree
    have hlen : k'.messages.len = k.messages.len := by
      rw [(Prod.mk.inj hstore).1, freeMessages_eq hfree, ← (Prod.mk.inj hstore₁).1]
    exact ⟨_, hold (hkeep (hstored.congr hstore)) (hsub hsuffix.subset) hlen
      (Prod.mk.inj hattributes).2⟩
  | init p id fd res q mode next pool _ _ _ _ _ _ hstore hattributes _ =>
    refine ⟨_, hkeep (h.stored.clear q hstore), fun r m hm ↦ ?_⟩
    have hr : r ≠ q := by
      rintro rfl
      rw [Function.update_self] at hm
      exact List.not_mem_nil hm
    rw [Function.update_of_ne hr] at hm
    rw [(Prod.mk.inj hattributes).2, Function.update_of_ne hr, (Prod.mk.inj hstore).1]
    exact h.fits r m hm
  | write p q attr newVal ha hp hcontext hstore _ hattributes _ =>
    subst ha
    refine ⟨nodes, hkeep (h.stored.congr hstore), fun r m hm ↦ ?_⟩
    have hsize : k'.queues.msgSize r = (k.writeAttribute q attr newVal).queues.msgSize r :=
      congrFun (Prod.mk.inj hattributes).2 r
    rw [hsize, (Prod.mk.inj hstore).1, msgSize_writeAttribute (h.sizes.pending _ _ _ _ hcontext)]
    split_ifs with hwrite
    · obtain ⟨hattr, rfl⟩ := hwrite
      exact (hwrites _ (attributeWrite_eq_some hp hcontext) hattr).1 m (h.messageNodes r ▸ hm)
    · exact h.fits r m hm

/-- A safe step does not raise the message size above the buffer of a receive that has passed the size
check. -/
theorem Prepared.msgSize_le (h : k.Prepared layout nodes) (hsafe : k.ReceiveSafe a)
    (hstep : k.step a = some k') (hreceiving : k.Receiving p c q) (hle : k.queues.msgSize q ≤ c.len) :
    k'.queues.msgSize q ≤ c.len := by
  obtain ⟨hrange, hwrites, hcalls⟩ := hsafe
  have hsame (hattributes : k'.attributes = k.attributes) : k'.queues.msgSize q ≤ c.len := by
    rw [(Prod.mk.inj hattributes).2]
    exact hle
  cases step_store hrange.1 hstep with
  | same _ _ hattributes _ => exact hsame hattributes
  | accept p' q' fd msg next _ _ _ _ haccept =>
    exact hsame ((congrArg attributes (acceptMessage_eq haccept)).trans rfl)
  | deliver p' q' fd buffer m next k₁ _ _ _ hpop hdeliver =>
    have hframe := deliverMessage_eq hdeliver
    rw [← (Prod.mk.inj hpop).2] at hframe
    exact hsame ((congrArg attributes hframe).trans rfl)
  | free p' id res q' next k₁ k₂ _ _ _ _ _ _ _ _ _ hattributes _ => exact hsame hattributes
  | init p' id fd res q' mode next pool hp hcall hfound hvalue hget _ _ hattributes _ =>
    have hne : q ≠ q' := by
      rintro rfl
      exact hcalls _ (hcall.request hp) p c q hreceiving res (by rw [hfound]; rfl) hvalue
        (by rw [hget])
    rw [(Prod.mk.inj hattributes).2, Function.update_of_ne hne]
    exact hle
  | write p' q' attr newVal ha hp hcontext _ _ hattributes _ =>
    subst ha
    have hsize : k'.queues.msgSize q = (k.writeAttribute q' attr newVal).queues.msgSize q :=
      congrFun (Prod.mk.inj hattributes).2 q
    rw [hsize, msgSize_writeAttribute (h.sizes.pending _ _ _ _ hcontext)]
    split_ifs with hwrite
    · obtain ⟨hattr, rfl⟩ := hwrite
      exact (hwrites _ (attributeWrite_eq_some hp hcontext) hattr).2 p c hreceiving
    · exact hle

/-! ### The invariant -/

/-- The files are in order, and the messages fit. The descriptor of a call on a queue refers to this
queue, and the message size is not larger than the buffer of a receive that has passed the size check. -/
structure ReceiveInv (layout : Layout) (k : Kernel) : Prop where
  files : k.files.Ok
  fitting : ∃ nodes, k.Fitting layout nodes
  called : ∀ p c q, k.pcbs.cpuState p = .transferResult c q → k.pcbs.syscall p = some c.syscall
  refers : ∀ p c q, (k.pcbs.cpuState p).transferOn = some (c, q) → k.RefersOnly p c.fd q
  sizes : ∀ p c q, k.Receiving p c q → k.queues.msgSize q ≤ c.len

theorem ReceiveInv.noShutdown (h : k.ReceiveInv layout) : k.NoShutdown := by
  obtain ⟨nodes, hfitting⟩ := h.fitting
  exact hfitting.sizes.noShutdown

/-- The descriptors of the calls refer to their queues after a step. -/
theorem ReceiveInv.refers_step (h : k.ReceiveInv layout) (hshutdown : k.request a ≠ some .shutdown)
    (hstep : k.step a = some k') (p : Addr) (c : TransferCall) (q : Addr)
    (hon : (k'.pcbs.cpuState p).transferOn = some (c, q)) : k'.RefersOnly p c.fd q := by
  obtain ⟨hsame, hquiet⟩ | ⟨ret, hret⟩ | ⟨call, hentry⟩ | ⟨call, next, hnext, hp, hcalls, -⟩ |
    ⟨next, hnext, hp, rfl, hstatement⟩ := (step_contexts h.noShutdown hshutdown hstep).at p
  · refine (h.refers p c q (hsame ▸ hon)).step h.files hshutdown hstep fun call hrequest _ hp ↦ ?_
    obtain ⟨next, hcalls, -⟩ := step_syscall hp hrequest hstep
    exact hquiet ⟨hp, call, next, hcalls⟩
  · rw [hret] at hon
    cases hon
  · rw [hentry] at hon
    cases call <;> cases hon
  · rw [hnext] at hon
    have hkeeps (hbefore : (k.pcbs.cpuState p).transferOn = some (c, q))
        (hkind : call.touchesFiles = false) : k'.RefersOnly p c.fd q := by
      refine (h.refers p c q hbefore).step h.files hshutdown hstep fun call' hrequest hkind' ↦ ?_
      obtain rfl := Option.some.inj ((hcalls.request hp).symm.trans hrequest)
      exact absurd (hkind'.symm.trans hkind) Bool.noConfusion
    cases hcalls with
    | user _ _ _ => cases hon
    | statement _ _ hpoint =>
      cases hcontext : k.pcbs.cpuState p with
      | transferCall c' q' =>
        rw [hcontext] at hpoint
        obtain ⟨rfl, rfl⟩ := Prod.mk.inj (Option.some.inj hpoint)
        exact hkeeps (hcontext ▸ hon) c'.touchesFiles_syscall
      | transferRetry c' q' =>
        rw [hcontext] at hpoint
        obtain ⟨rfl, rfl⟩ := Prod.mk.inj (Option.some.inj hpoint)
        exact hkeeps (hcontext ▸ hon) rfl
      | _ =>
        rw [hcontext] at hpoint
        simp only [Context.request, Option.some.injEq, Prod.mk.injEq, reduceCtorEq] at hpoint <;>
          obtain ⟨-, rfl⟩ := hpoint <;> cases hon
  · rw [hnext] at hon
    generalize hcontext : k.pcbs.cpuState p = context at hstatement
    have hkeeps (hrequest : context.request = none) (hbefore : k.RefersOnly p c.fd q) :
        k'.RefersOnly p c.fd q := by
      refine hbefore.step h.files hshutdown hstep fun call hcall _ ↦ ?_
      simp [request, Kernel.context, hp, hcontext, hrequest] at hcall
    cases hstatement with
    | transfer c' q' hqueue =>
      obtain ⟨rfl, rfl⟩ := Prod.mk.inj (Option.some.inj hon)
      exact hkeeps rfl (refersOnly_of_queueByFd h.files hqueue)
    | transferSize | transferFind | transferRoom | transferRetry | transferWake =>
      exact hkeeps rfl (h.refers p c q (by rw [hcontext]; exact hon))
    | _ => cases hon

/-- A receive that is past the size check after a step was past it before, or passes it in this step. -/
theorem ReceiveInv.receiving_before (h : k.ReceiveInv layout)
    (hshutdown : k.request a ≠ some .shutdown) (hstep : k.step a = some k')
    (hreceiving : k'.Receiving p c q) : k.Receiving p c q ∨
      k.running = some p ∧ k.pcbs.cpuState p = .transferSize c q ∧ a = .statement := by
  obtain ⟨hop, hpoint⟩ := hreceiving
  obtain ⟨hsame, hquiet⟩ | ⟨ret, hret⟩ | ⟨call, hentry⟩ | ⟨call, next, hnext, hp, hcalls, hcall⟩ |
    ⟨next, hnext, hp, rfl, hstatement⟩ := (step_contexts h.noShutdown hshutdown hstep).at p
  · left
    refine ⟨hop, ?_⟩
    rw [Checked, hsame] at hpoint
    obtain hfind | hroom | hcall | hretry | ⟨hresult, hfailed⟩ := hpoint
    · exact .inl hfind
    · exact .inr (.inl hroom)
    · exact .inr (.inr (.inl hcall))
    · exact .inr (.inr (.inr (.inl hretry)))
    · -- nobody else sets the result of a RECV
      have hcalled := h.called p c q hresult
      obtain ⟨-, hret⟩ | ⟨_, _, -, hwait⟩ | hcalls := step_retvalue hshutdown hstep p
      · exact .inr (.inr (.inr (.inr ⟨hresult, hret ▸ hfailed⟩)))
      · rw [hcalled] at hwait
        cases hkind : c.op <;> simp [TransferCall.syscall, hkind] at hwait
      · exact absurd hcalls hquiet
  · simp [Checked, hret] at hpoint
  · rw [Checked, hentry] at hpoint
    cases call <;> simp [DmqCall.entry] at hpoint
  · left
    refine ⟨hop, ?_⟩
    rw [Checked, hnext] at hpoint
    cases hcalls with
    | user _ _ _ => simp at hpoint
    | statement _ _ hrequest =>
      cases hcontext : k.pcbs.cpuState p with
      | transferCall c' q' =>
        rw [hcontext] at hrequest
        obtain ⟨rfl, rfl⟩ := Prod.mk.inj (Option.some.inj hrequest)
        obtain ⟨⟨rfl, rfl⟩, -⟩ : (c' = c ∧ q' = q) ∧ _ := by simpa using hpoint
        exact .inr (.inr (.inl hcontext))
      | transferRetry c' q' =>
        rw [hcontext] at hrequest
        obtain ⟨rfl, rfl⟩ := Prod.mk.inj (Option.some.inj hrequest)
        obtain ⟨rfl, rfl⟩ : c' = c ∧ q' = q := by simpa using hpoint
        exact .inr (.inr (.inr (.inl hcontext)))
      | _ =>
        rw [hcontext] at hrequest
        simp only [Context.request, Option.some.injEq, Prod.mk.injEq, reduceCtorEq] at hrequest <;>
          obtain ⟨-, rfl⟩ := hrequest <;> simp at hpoint
  · rw [Checked, hnext] at hpoint
    generalize hcontext : k.pcbs.cpuState p = context at hstatement
    cases hstatement with
    | transferSize c' q' hsize =>
      obtain ⟨rfl, rfl⟩ : c' = c ∧ q' = q := by simpa using hpoint
      exact .inr ⟨hp, rfl, rfl⟩
    | transferFind c' q' ds found =>
      obtain ⟨rfl, rfl⟩ : c' = c ∧ q' = q := by simpa using hpoint
      exact .inl ⟨hop, .inl hcontext⟩
    | transferRoom c' q' ds =>
      obtain ⟨rfl, rfl⟩ : c' = c ∧ q' = q := by simpa using hpoint
      exact .inl ⟨hop, .inr (.inl ⟨ds, hcontext⟩)⟩
    | transferRetry c' q' hfailed =>
      obtain ⟨rfl, rfl⟩ : c' = c ∧ q' = q := by simpa using hpoint
      exact .inl ⟨hop, .inr (.inr (.inr (.inr ⟨hcontext, hfailed⟩)))⟩
    | _ => simp at hpoint

/-- A receive that passes the size check has a buffer for the messages of its queue. -/
theorem msgSize_le_of_transferSize (hp : k.running = some p)
    (hcontext : k.pcbs.cpuState p = .transferSize c q) (hstep : k.step .statement = some k')
    (hreceiving : k'.Receiving p c q) : k'.queues.msgSize q ≤ c.len := by
  obtain ⟨hop, hpoint⟩ := hreceiving
  rw [step_statement hp hcontext rfl, runStatement] at hstep
  split at hstep
  · rw [Checked, ← Option.some.inj hstep] at hpoint
    simp [setContext] at hpoint
  · rename_i hsize
    rw [← Option.some.inj hstep]
    change k.queues.msgSize q ≤ c.len
    by_contra hlonger
    simp [transferSizeError, hop, not_le.mp hlonger] at hsize

theorem ReceiveInv.step (h : k.ReceiveInv layout) (hsafe : k.ReceiveSafe a)
    (hstep : k.step a = some k') : k'.ReceiveInv layout where
  files := filesOk_step h.files hsafe.1.1 hstep
  fitting := by
    obtain ⟨nodes, hfitting⟩ := h.fitting
    exact hfitting.step hsafe hstep
  called := called_step h.noShutdown h.called hsafe.1.1 hstep
  refers := h.refers_step hsafe.1.1 hstep
  sizes p c q hreceiving := by
    obtain hbefore | ⟨hp, hcontext, rfl⟩ := h.receiving_before hsafe.1.1 hstep hreceiving
    · obtain ⟨nodes, hfitting⟩ := h.fitting
      exact hfitting.msgSize_le hsafe hstep hbefore (h.sizes p c q hbefore)
    · exact msgSize_le_of_transferSize hp hcontext hstep hreceiving

/-! ### The copy of a RECV -/

/-- A RECV writes nothing to the user memory, or it copies a message of its queue. -/
theorem Stored.recvMsg_userBytes (h : k.Stored layout nodes) {buffer : Addr} (hp : k.running = some p)
    (hrequest : k.request a = some (.recvMsg (some buffer) fd)) (hstep : k.step a = some k') :
    k'.userBytes = k.userBytes ∨ ∃ q m block, k.queueByFd p fd = some (some q) ∧ m ∈ nodes q ∧
      k'.userBytes =
        copyBytes k.msgStrings.byte block k.userBytes buffer (k.messages.len m).toNat := by
  obtain ⟨next, -, hcall⟩ := step_syscall hp hrequest hstep
  have htrap : (k.trap p next (.recvMsg (some buffer) fd)).Stored layout nodes := h.congr rfl
  have hrecv : internalRecvMessage (some buffer) fd (k.trap p next (.recvMsg (some buffer) fd)) =
      some k' := hcall
  obtain ⟨p', entries, hp', -, ⟨hnone, -⟩ | ⟨buffer', q, hbuffer, hqueue,
    ⟨m, k₁, hpop, hdeliver⟩ | ⟨k₁, hpop, hwait⟩⟩⟩ := internalRecvMessage_cases hrecv
  · cases hnone
  · obtain rfl : p = p' := Option.some.inj (hp.symm.trans hp')
    obtain rfl := Option.some.inj hbuffer
    obtain ⟨rest, hnodes, -, hdelivers, -⟩ := htrap.deliverMessage hpop hdeliver
    obtain ⟨block, -, hbytes⟩ := hdelivers.userBytes
    exact .inr ⟨q, m, block, hqueue, hnodes ▸ List.mem_cons_self, hbytes⟩
  · obtain ⟨_, _, -, -, rfl⟩ := waitForQueue_eq hwait
    obtain ⟨-, rfl⟩ := popMessage_eq_none hpop
    exact .inl rfl

/-- The invariant does not speak of the user memory. -/
theorem ReceiveInv.withUserBytes (h : k.ReceiveInv layout) (bytes : Addr → UInt8) :
    { k with userBytes := bytes }.ReceiveInv layout where
  files := h.files
  fitting := by
    obtain ⟨nodes, hfitting⟩ := h.fitting
    exact ⟨nodes, ⟨hfitting.stored.congr rfl, { hfitting.capacities with }, { hfitting.sizes with },
      hfitting.len⟩, hfitting.fits⟩
  called := h.called
  refers := h.refers
  sizes := h.sizes

theorem ReceiveInv.receivesInside (h : k.ReceiveInv layout) : k.ReceivesInside := by
  intro p fd buffer n q bytes k' hp hcontext hstep x hx
  have hinv := h.withUserBytes bytes
  obtain ⟨nodes, hfitting⟩ := hinv.fitting
  have hrequest : Kernel.request { k with userBytes := bytes } .statement =
      some (.recvMsg (some buffer) fd) := by
    simp [request, Kernel.context, hp, hcontext, Context.request, TransferCall.syscall]
  obtain hsame | ⟨q', m, block, hqueue, hm, hbytes⟩ :=
    hfitting.stored.recvMsg_userBytes hp hrequest hstep
  · rw [hsame]
  · obtain rfl := (hinv.refers p _ q (by rw [hcontext]; rfl)).queue_eq hinv.files hqueue
    -- the message is not longer than the message size, and this is not larger than the buffer
    have hlen := hfitting.fits q' m hm
    have hsize := hinv.sizes p _ q' ⟨rfl, .inr (.inr (.inl hcontext))⟩
    have hlength := copyLength_le k.msgStrings.byte block (k.messages.len m).toNat
    rw [hbytes]
    refine copyBytes_of_outside ?_
    change x < buffer ∨ buffer + copyLength k.msgStrings.byte block (k.messages.len m).toNat ≤ x
    change k.messages.len m ≤ k.queues.msgSize q' at hlen
    change k.queues.msgSize q' ≤ n at hsize
    lia

/-! ### One process -/

/-- Only process `p` runs. The action sets a message size within the limits, and not below the length of
a message in the queue. -/
def SoloSized (p : Addr) (k : Kernel) (a : Action) : Prop :=
  k.Solo p a ∧ k.SizesInRange a ∧ ∀ w ∈ k.attributeWrite a, w.2.1 = attQueueMessageSize →
    ∀ m ∈ k.messageNodes w.1, k.messages.len m ≤ w.2.2

instance (p : Addr) (k : Kernel) (a : Action) : Decidable (k.SoloSized p a) :=
  inferInstanceAs (Decidable (_ ∧ _ ∧ ∀ w ∈ k.attributeWrite a, _ → ∀ m ∈ k.messageNodes w.1, _))

theorem Receiving.transferOf (h : k.Receiving p c q) : (k.pcbs.cpuState p).transferOf = some c := by
  obtain ⟨-, hcontext | ⟨ds, hcontext⟩ | hchecked⟩ := h
  · rw [hcontext]
    rfl
  · rw [hcontext]
    rfl
  · exact hchecked.transferOf

/-- Where one process runs, nothing comes between the size check and the RECV. -/
theorem OthersOutside.receiveSafe (h : k.OthersOutside p) (hsolo : k.SoloSized p a) :
    k.ReceiveSafe a := by
  obtain ⟨hsolo, hrange, hstored⟩ := hsolo
  refine ⟨hrange, fun w hw hattr ↦ ⟨hstored w hw hattr, fun p' c hreceiving ↦ ?_⟩,
    fun call hrequest p' c q hreceiving ↦ ?_⟩
  · obtain rfl := h.eq_of_transferOf hreceiving.transferOf
    obtain ⟨p₁, hp₁, hcontext⟩ := context_of_attributeWrite hw
    obtain rfl := hsolo.1 p₁ hp₁
    have htransfer := hreceiving.transferOf
    rw [hcontext] at htransfer
    cases htransfer
  · obtain rfl := h.eq_of_transferOf hreceiving.transferOf
    obtain ⟨p₁, hp₁⟩ := running_of_request hrequest
    obtain rfl := hsolo.1 p₁ hp₁
    exact keepsQueueCall_of_transferOf hp₁ hreceiving.transferOf hrequest

end Kernel

/-! ### Runs -/

theorem Layout.boot_receiveInv (layout : Layout) : layout.boot.ReceiveInv layout where
  files := layout.boot_filesOk
  fitting := ⟨_, layout.boot_prepared, fun _ _ hm ↦ absurd hm List.not_mem_nil⟩
  called _ _ _ hcontext := by cases hcontext
  refers _ _ _ hon := by cases hon
  sizes p c q hreceiving := by
    have htransfer := hreceiving.transferOf
    cases htransfer

/-- Every RECV of a `dmq_receive` stays inside the buffer, if no step of the run sets a message size
above the buffer of a receive that has passed the size check, or below the length of a message in the
queue, or takes away the queue of such a receive. -/
theorem receivesInside_of_safe (layout : Layout) {actions : List Action} {k : Kernel}
    (hsafe : Runs.Meets Kernel.step Kernel.ReceiveSafe layout.boot actions)
    (hrun : Runs.run Kernel.step layout.boot actions = some k) : k.ReceivesInside :=
  (Runs.run_invariant (fun _ _ _ h hsafe hstep ↦ Kernel.ReceiveInv.step h hsafe hstep)
    layout.boot_receiveInv hsafe hrun).receivesInside

/-- The running process sets the message size of the queue. -/
def setMessageSize (size : ℤ) : List Action :=
  [.call (.setattr 0 2 size), .statement, .statement, .statement]

/-- It sends `hi`. -/
def sendHi : List Action :=
  [.write 0x800000 104, .write 0x800001 105, .call (.send 0 (some 0x800000) 2)] ++
    List.replicate 7 .statement

/-- It receives, up to the RECV. -/
def receiveChecked (len : ℤ) : List Action :=
  .call (.receive 0 (some 0x900000) len) :: List.replicate 4 .statement

/-- A message of two bytes for a buffer of two. -/
theorem receivesInside_of_safe_twoBytes : ∃ k,
    Runs.run Kernel.step sampleLayout.boot
        (openSetup ++ setMessageSize 2 ++ sendHi ++ receiveChecked 2) = some k ∧
      k.running = some 0x400000 ∧
        k.pcbs.cpuState 0x400000 = .transferCall ⟨.receive, 0, some 0x900000, 2⟩ 0x1900000 ∧
          (k.queues.messages 0x1900000).size = 1 ∧ k.ReceivesInside := by
  have hruns : ∃ k ∈ Runs.run Kernel.step sampleLayout.boot
      (openSetup ++ setMessageSize 2 ++ sendHi ++ receiveChecked 2),
      k.running = some 0x400000 ∧
        k.pcbs.cpuState 0x400000 = .transferCall ⟨.receive, 0, some 0x900000, 2⟩ 0x1900000 ∧
          (k.queues.messages 0x1900000).size = 1 := by
    decide +kernel
  have hsolo : Runs.Meets Kernel.step (Kernel.SoloSized 0x400000) sampleLayout.boot
      (openSetup ++ setMessageSize 2 ++ sendHi ++ receiveChecked 2) := by
    decide +kernel
  have hstart : sampleLayout.boot.OthersOutside 0x400000 :=
    ⟨sampleLayout.boot_capacities.noShutdown, fun _ _ ↦ ⟨0, rfl⟩⟩
  have hsafe := Runs.Meets.of_invariant
    (fun _ _ _ h hsolo hstep ↦ Kernel.OthersOutside.step h hsolo.1 hstep)
    (fun _ _ h hsolo ↦ Kernel.OthersOutside.receiveSafe h hsolo) hstart hsolo
  obtain ⟨k, hrun, hrunning, hcontext, hsize⟩ := hruns
  exact ⟨k, hrun, hrunning, hcontext, hsize, receivesInside_of_safe sampleLayout hsafe hrun⟩

/-- The first process sets the message size to one, and passes the size check with a buffer of one byte.
The second one sets the message size to two, and sends a message. -/
def raisedSize : List Action :=
  openSetup ++ setMessageSize 1 ++ .syscall .spawn :: receiveChecked 1 ++ .timer :: openSetup.tail ++
    setMessageSize 2 ++ sendHi ++ [.timer]

/-- The RECV writes two bytes into a buffer of one. -/
theorem raisedSize_not_receivesInside : ∃ k k',
    Runs.run Kernel.step sampleLayout.boot raisedSize = some k ∧
      Runs.Meets Kernel.step Kernel.SizesInRange sampleLayout.boot raisedSize ∧
        k.running = some 0x400000 ∧
          k.pcbs.cpuState 0x400000 = .transferCall ⟨.receive, 0, some 0x900000, 1⟩ 0x1900000 ∧
            k.step .statement = some k' ∧ k.userBytes 0x900001 = 0 ∧ k'.userBytes 0x900001 = 105 ∧
              ¬ k.ReceivesInside := by
  have hmeets : Runs.Meets Kernel.step Kernel.SizesInRange sampleLayout.boot raisedSize := by
    decide +kernel
  have hruns : ∃ k ∈ Runs.run Kernel.step sampleLayout.boot raisedSize, k.running = some 0x400000 ∧
      k.pcbs.cpuState 0x400000 = .transferCall ⟨.receive, 0, some 0x900000, 1⟩ 0x1900000 ∧
        k.userBytes 0x900001 = 0 ∧ ∃ k' ∈ k.step .statement, k'.userBytes 0x900001 = 105 := by
    decide +kernel
  obtain ⟨k, hrun, hrunning, hcontext, hbefore, k', hstep, hafter⟩ := hruns
  refine ⟨k, k', hrun, hmeets, hrunning, hcontext, hstep, hbefore, hafter, fun hinside ↦ ?_⟩
  have hsame := hinside _ _ _ _ _ k.userBytes k' hrunning hcontext hstep 0x900001 (.inr (by decide))
  rw [hbefore, hafter] at hsame
  exact absurd hsame (by decide)

end DisastrOS
