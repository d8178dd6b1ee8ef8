import DisastrOS.WaitingPoints

/-!
# No lost wake-ups

In a run in which the queues are used through `dmq_send` and `dmq_receive`, a process is never left in
`waiting_list` with a message to receive, or with room to send one, and nobody to see to it: there are as
many processes that are about to take one, or to wake somebody, as there are messages to take, or places to
fill (`transfers_served`). Each step is a `PendingWakeups.State.Move` (`TransferInv.move`).
-/

set_option autoImplicit false
set_option relaxedAutoImplicit false

namespace DisastrOS

open Function (update)

namespace Kernel

variable {layout : Layout} {k k' : Kernel} {a : Action} {m m' : Addr → Option Opening}
  {p q x u : Addr} {c : TransferCall} {op : Transfer}

/-! ### Every step is a move -/

theorem TransferInv.awake_allocated (h : k.TransferInv layout m) (hx : k.Awake x) :
    k.pcbs.allocator.Allocated x :=
  hx.1.elim (h.ordered.scheduled.running_allocated x) (h.ordered.scheduled.allocated _ x)

theorem SameWaits.awake (h : k.SameWaits k') (hx : k.Awake x) : k'.Awake x := by
  rw [Awake, h.running, h.nodes]
  exact hx

/-- Who is about to take something still is, unless it has taken it. -/
theorem TransferInv.trying_step (h : k.TransferInv layout m) (hsafe : k.MessagingSafe a)
    (hstep : k.step a = some k') (hx : x ∈ (k.wakeups op q).trying) (hawake : k'.Awake x) :
    x ∈ (k'.wakeups op q).trying ∨ a = .statement ∧ k.running = some x ∧ ∃ c, c.op = op ∧
      k.pcbs.cpuState x = .transferCall c q ∧ k'.pcbs.syscallRetvalue x ≠ c.op.failure := by
  obtain ⟨hbefore, c, hop, hchecked⟩ := hx
  obtain hafter | ⟨haction, hrunning, hcontext, -, hmoved⟩ := hchecked.step h.ordered
    h.members.owns.noShutdown h.called hsafe.2.1.notShutdown hstep (h.awake_allocated hbefore)
  · exact .inl ⟨hawake, c, hop, hafter⟩
  · exact .inr ⟨haction, hrunning, c, hop, hcontext, hmoved⟩

/-- Who is about to wake somebody still is, unless it makes its WAKEUP. -/
theorem TransferInv.waking_step (h : k.TransferInv layout m) (hsafe : k.MessagingSafe a)
    (hstep : k.step a = some k') (hx : x ∈ (k.wakeups op q).waking) (hawake : k'.Awake x) :
    x ∈ (k'.wakeups op q).waking ∨ a = .statement ∧ k.running = some x ∧ ∃ c, c.op ≠ op ∧
      k.pcbs.cpuState x = .transferWake c q := by
  obtain ⟨hbefore, c, hop, hmoved⟩ := hx
  obtain hafter | ⟨haction, hrunning, hcontext⟩ := hmoved.step h.ordered h.members.owns.noShutdown
    h.called hsafe.2.1.notShutdown hstep (h.awake_allocated hbefore)
  · exact .inl ⟨hawake, c, hop, hafter⟩
  · exact .inr ⟨haction, hrunning, c, hop, hcontext⟩

/-- A process that has waited all along is blocked on the same queue as before. -/
theorem TransferInv.blocked_of_blocked (h : k.TransferInv layout m) (h' : k'.TransferInv layout m')
    (hsafe : k.MessagingSafe a) (hstep : k.step a = some k') (hx : x ∈ k.pcbNodes .waiting)
    (hblocked : k'.Blocked op q x) : k.Blocked op q x := by
  obtain ⟨-, c, d, u, rfl, hwaits⟩ := h'.blocked_iff.mp hblocked
  obtain ⟨hoff, ret, hret⟩ | ⟨c', q', d', u', hbefore, -⟩ := h.points.waiting x hx
  · refine absurd ?_ (hwaits.checked.notUser ret)
    rw [context_stays h.ordered h.members.owns.noShutdown hsafe.2.1.notShutdown hstep
      (h.ordered.scheduled.allocated _ x hx) (fun hmoves ↦ hoff hmoves.2)
      (fun hruns ↦ absurd hruns hoff), hret]
  · have hchecked := h.checked_step hsafe hstep (h.transferStep hsafe hstep) hx hbefore.checked
    obtain ⟨rfl, rfl⟩ := hchecked.eq hwaits.checked
    exact h.blocked_iff.mpr ⟨hx, c', d', u', rfl, hbefore⟩

/-- The step belongs to the runs, and does not make room for a process that is blocked. -/
def WakeupSafe (k : Kernel) (a : Action) : Prop :=
  k.MessagingSafe a ∧ ∀ w ∈ k.attributeWrite a, w.2.1 = attQueueMaxMessages →
    k.queues.maxMessages w.1 < w.2.2 → ∀ x ∈ k.pcbNodes .waiting, ¬ k.Blocked .send w.1 x

instance (k : Kernel) (a : Action) : Decidable (k.WakeupSafe a) :=
  inferInstanceAs (Decidable (_ ∧ ∀ w ∈ k.attributeWrite a, _ → _ → ∀ x ∈ k.pcbNodes .waiting, _))

/-- A step that adds nothing to the supply, and lets nobody start to wait. -/
theorem TransferInv.move_settle (h : k.TransferInv layout m) (h' : k'.TransferInv layout m')
    (hsafe : k.MessagingSafe a) (hstep : k.step a = some k') (hsupply : k'.supply op q ≤ k.supply op q)
    (hawake : ∀ x, k.Awake x → k.running ≠ some x → k'.Awake x)
    (htrying : ∀ x ∈ (k.wakeups op q).trying, k.running = some x → x ∈ (k'.wakeups op q).trying)
    (hwaking : ∀ x ∈ (k.wakeups op q).waking, k.running = some x → x ∈ (k'.wakeups op q).waking)
    (hblocked : ∀ x, k'.Blocked op q x → x ∈ k.pcbNodes .waiting) :
    (k.wakeups op q).Move (k'.wakeups op q) := by
  refine .settle hsupply (fun x hx ↦ ?_) (fun x hx ↦ ?_) fun x hx ↦ ?_
  · by_cases hrunning : k.running = some x
    · exact htrying x hx hrunning
    · exact (h.trying_step hsafe hstep hx (hawake x hx.1 hrunning)).resolve_right
        fun hmoves ↦ hrunning hmoves.2.1
  · by_cases hrunning : k.running = some x
    · exact hwaking x hx hrunning
    · exact (h.waking_step hsafe hstep hx (hawake x hx.1 hrunning)).resolve_right
        fun hmoves ↦ hrunning hmoves.2.1
  · exact h.blocked_of_blocked h' hsafe hstep (hblocked x hx) hx

/-- A message comes or goes. -/
theorem TransferInv.move_moved (h : k.TransferInv layout m) (h' : k'.TransferInv layout m')
    (hsafe : k.MessagingSafe .statement) (hstep : k.step .statement = some k') {q' : Addr}
    (hrunning : k.running = some p) (hcontext : k.pcbs.cpuState p = .transferCall c q')
    (hret : k'.pcbs.syscallRetvalue p ≠ c.op.failure) (hroom : 0 < k.supply c.op q')
    (hsupply : ∀ op x, k'.supply op x = if x = q' then
      if op = c.op then k.supply op x - 1 else k.supply op x + 1 else k.supply op x)
    (hsame : k.SameWaits k') : (k.wakeups op q).Move (k'.wakeups op q) := by
  have hblocked : ∀ x, k'.Blocked op q x → x ∈ k.pcbNodes .waiting := fun x hx ↦ hsame.nodes ▸ hx.1
  have hnotMoved : p ∉ (k.wakeups op q).waking := by
    rintro ⟨-, c', -, hmoved | ⟨hmoved, -⟩⟩ <;> rw [hcontext] at hmoved <;> cases hmoved
  have hwaking : (k.wakeups op q).waking ⊆ (k'.wakeups op q).waking := by
    intro x hx
    refine (h.waking_step hsafe hstep hx (hsame.awake hx.1)).resolve_right ?_
    rintro ⟨-, hruns, -⟩
    obtain rfl := Option.some.inj (hrunning.symm.trans hruns)
    exact hnotMoved hx
  have htrying {x : Addr} (hx : x ∈ (k.wakeups op q).trying) (hother : x = p → ¬ (q = q' ∧ op = c.op)) :
      x ∈ (k'.wakeups op q).trying := by
    refine (h.trying_step hsafe hstep hx (hsame.awake hx.1)).resolve_right ?_
    rintro ⟨-, hruns, c', hop, hcontext', -⟩
    obtain rfl := Option.some.inj (hrunning.symm.trans hruns)
    obtain ⟨rfl, rfl⟩ := Context.transferCall.inj (hcontext.symm.trans hcontext')
    exact hother rfl ⟨rfl, hop.symm⟩
  by_cases hq : q = q'
  · by_cases hop : op = c.op
    · refine .take p ?_ (fun x hx ↦ htrying hx.1 fun hsame ↦ absurd hsame hx.2) hwaking
        fun x hx ↦ h.blocked_of_blocked h' hsafe hstep (hblocked x hx) hx
      change k'.supply op q = k.supply op q - 1
      rw [hsupply, if_pos hq, if_pos hop]
    · refine .put p ?_ (fun x hx ↦ htrying hx fun _ hboth ↦ hop hboth.2) hnotMoved ?_
        fun x hx ↦ h.blocked_of_blocked h' hsafe hstep (hblocked x hx) hx
      · change k'.supply op q = k.supply op q + 1
        rw [hsupply, if_pos hq, if_neg hop]
      · -- the process that has moved the message is not one that waits
        refine Set.insert_subset ⟨hsame.awake ⟨.inl hrunning, fun hwaits ↦ ?_⟩, c, fun hsame ↦ hop hsame.symm,
          .inr ⟨?_, hret⟩⟩ hwaking
        · exact absurd hroom (h.empty_of_running hwaits (.inl hcontext) hrunning).not_gt
        · rw [hq]
          exact context_request hrunning hcontext rfl (.inl c.marksUsers_syscall) hstep
  · refine h.move_settle h' hsafe hstep ?_ (fun x hx _ ↦ hsame.awake hx)
      (fun x hx _ ↦ htrying hx fun _ hboth ↦ hq hboth.1) (fun x hx _ ↦ hwaking hx) hblocked
    rw [hsupply, if_neg hq]

/-- A SEND or RECV fails for want of memory. -/
theorem TransferInv.move_refused (h : k.TransferInv layout m) (h' : k'.TransferInv layout m')
    (hsafe : k.MessagingSafe .statement) (hstep : k.step .statement = some k') {q' : Addr}
    (hrunning : k.running = some p) (hcontext : k.pcbs.cpuState p = .transferCall c q')
    (hret : k'.pcbs.syscallRetvalue p = c.op.failure) (hsupply : k'.supply = k.supply)
    (hsame : k.SameWaits k') : (k.wakeups op q).Move (k'.wakeups op q) := by
  refine h.move_settle h' hsafe hstep (congrFun (congrFun hsupply _) _).le (fun x hx _ ↦ hsame.awake hx)
    (fun x hx _ ↦ ?_) (fun x hx _ ↦ ?_) fun x hx ↦ hsame.nodes ▸ hx.1
  · refine (h.trying_step hsafe hstep hx (hsame.awake hx.1)).resolve_right ?_
    rintro ⟨-, hruns, c', -, hcontext', hmoved⟩
    obtain rfl := Option.some.inj (hrunning.symm.trans hruns)
    obtain ⟨rfl, rfl⟩ := Context.transferCall.inj (hcontext.symm.trans hcontext')
    exact hmoved hret
  · refine (h.waking_step hsafe hstep hx (hsame.awake hx.1)).resolve_right ?_
    rintro ⟨-, hruns, c', -, hcontext'⟩
    obtain rfl := Option.some.inj (hrunning.symm.trans hruns)
    rw [hcontext] at hcontext'
    cases hcontext'

/-- A SEND or RECV waits. -/
theorem TransferInv.move_waits (h : k.TransferInv layout m) (h' : k'.TransferInv layout m')
    (hsafe : k.MessagingSafe .statement) (hstep : k.step .statement = some k') {q' : Addr}
    (hrunning : k.running = some p) (hcontext : k.pcbs.cpuState p = .transferCall c q')
    (hret : k'.pcbs.syscallRetvalue p = c.op.failure) (hsupply : k'.supply = k.supply)
    (hempty : k.supply c.op q' ≤ 0) (hnodes : k'.pcbNodes = parkedNodes k.pcbNodes .waiting p)
    (hsame : k'.running = k.running) : (k.wakeups op q).Move (k'.wakeups op q) := by
  by_cases hboth : q = q' ∧ op = c.op
  · obtain ⟨rfl, rfl⟩ := hboth
    exact .exhaust ((congrFun (congrFun hsupply _) _).trans_le hempty)
  have hchecked : k'.Checked p c q' := by
    obtain hafter | ⟨-, -, -, -, hmoved⟩ := Checked.step (.inl hcontext) h.ordered
      h.members.owns.noShutdown h.called hsafe.2.1.notShutdown hstep
      (h.ordered.scheduled.running_allocated p hrunning)
    · exact hafter
    · exact absurd hret hmoved
  refine h.move_settle h' hsafe hstep (congrFun (congrFun hsupply _) _).le (fun x hx hoff ↦ ?_)
    (fun x hx hruns ↦ ?_) (fun x hx hruns ↦ ?_) fun x hx ↦ ?_
  · refine ⟨hx.1.imp hsame.trans fun hready ↦ ?_, fun hwaits ↦ ?_⟩
    · rw [hnodes]
      exact mem_parkedNodes.mpr (.inl hready)
    · rw [hnodes, mem_parkedNodes] at hwaits
      obtain hwaits | ⟨rfl, -⟩ := hwaits
      · exact hx.2 hwaits
      · exact hoff hrunning
  · obtain rfl := Option.some.inj (hrunning.symm.trans hruns)
    obtain ⟨-, c', hop, hchecked'⟩ := hx
    obtain ⟨rfl, rfl⟩ := hchecked'.eq (.inl hcontext)
    exact absurd ⟨rfl, hop.symm⟩ hboth
  · obtain rfl := Option.some.inj (hrunning.symm.trans hruns)
    obtain ⟨-, c', -, hmoved | ⟨hmoved, -⟩⟩ := hx <;> rw [hcontext] at hmoved <;> cases hmoved
  · have hwaits := hx.1
    rw [hnodes, mem_parkedNodes] at hwaits
    obtain hwaits | ⟨rfl, -⟩ := hwaits
    · exact hwaits
    · obtain ⟨-, c', d, u, hop, hwaitsAt⟩ := h'.blocked_iff.mp hx
      obtain ⟨rfl, rfl⟩ := hwaitsAt.checked.eq hchecked
      exact absurd ⟨rfl, hop.symm⟩ hboth

/-- A WAKEUP wakes process `x`. -/
theorem TransferInv.move_wakes (h : k.TransferInv layout m) (h' : k'.TransferInv layout m')
    (hsafe : k.MessagingSafe .statement) (hstep : k.step .statement = some k') {q' : Addr}
    (hrunning : k.running = some p) (hcontext : k.pcbs.cpuState p = .transferWake c q')
    (hsupply : k'.supply = k.supply) (hwaiting : x ∈ k.pcbNodes .waiting)
    (hmember : u ∈ k.userNodes (q', c.op.otherRole)) (hmarked : k.queueUsers.status u = .waiting)
    (hpid : k.pcbs.pid x = k.queueUsers.pid u)
    (hnodes : k'.pcbNodes = wokenNodes k.pcbNodes (k.pcbNodes .ready) [x] [])
    (hsame : k'.running = k.running) : (k.wakeups op q).Move (k'.wakeups op q) := by
  have hwaits (y : Addr) : y ∈ k'.pcbNodes .waiting ↔ y ∈ k.pcbNodes .waiting ∧ y ≠ x := by
    rw [hnodes, wokenNodes, Function.update_of_ne (by decide), Function.update_self, List.mem_filter]
    simp
  have hready (y : Addr) : y ∈ k'.pcbNodes .ready ↔ y ∈ k.pcbNodes .ready ∨ y = x := by
    rw [hnodes, wokenNodes, Function.update_self]
    simp
  have hawake {y : Addr} (hy : k.Awake y) : k'.Awake y :=
    ⟨hy.1.imp hsame.trans fun hmem ↦ (hready y).mpr (.inl hmem), fun hmem ↦ hy.2 ((hwaits y).mp hmem).1⟩
  have htrying : (k.wakeups op q).trying ⊆ (k'.wakeups op q).trying := by
    intro y hy
    refine (h.trying_step hsafe hstep hy (hawake hy.1)).resolve_right ?_
    rintro ⟨-, hruns, c', -, hcontext', -⟩
    obtain rfl := Option.some.inj (hrunning.symm.trans hruns)
    rw [hcontext] at hcontext'
    cases hcontext'
  have hwaking {y : Addr} (hy : y ∈ (k.wakeups op q).waking)
      (hother : y = p → ¬ (q = q' ∧ op ≠ c.op)) : y ∈ (k'.wakeups op q).waking := by
    refine (h.waking_step hsafe hstep hy (hawake hy.1)).resolve_right ?_
    rintro ⟨-, hruns, c', hop, hcontext'⟩
    obtain rfl := Option.some.inj (hrunning.symm.trans hruns)
    obtain ⟨rfl, rfl⟩ := Context.transferWake.inj (hcontext.symm.trans hcontext')
    exact hother rfl ⟨rfl, hop.symm⟩
  by_cases hboth : q = q' ∧ op ≠ c.op
  · obtain ⟨rfl, hop⟩ := hboth
    have hblocked : k.Blocked op q x := by
      rw [Transfer.otherRole_of_ne hop] at hmember
      exact ⟨hwaiting, u, hmember, hmarked, hpid.symm⟩
    obtain ⟨-, c', d, v, rfl, hwaitsAt⟩ := h.blocked_iff.mp hblocked
    have hchecked := h.checked_step hsafe hstep (h.transferStep hsafe hstep) hwaiting hwaitsAt.checked
    refine .wake p x (congrFun (congrFun hsupply _) _) hblocked (fun hx ↦ hx.1.2 hwaiting)
      (Set.insert_subset ⟨⟨.inr ((hready x).mpr (.inr rfl)), fun hmem ↦ ((hwaits x).mp hmem).2 rfl⟩, c', rfl,
        hchecked⟩ htrying) fun y hy ↦ hwaking hy.1 fun hsame ↦ absurd hsame hy.2
  · exact h.move_settle h' hsafe hstep (congrFun (congrFun hsupply _) _).le (fun y hy _ ↦ hawake hy)
      (fun y hy _ ↦ htrying hy) (fun y hy _ ↦ hwaking hy fun _ ↦ hboth)
      fun y hy ↦ ((hwaits y).mp hy.1).1

/-- A WAKEUP finds nobody to wake, or nothing to wake him for. -/
theorem TransferInv.move_passes (h : k.TransferInv layout m) (h' : k'.TransferInv layout m')
    (hsafe : k.MessagingSafe .statement) (hstep : k.step .statement = some k') {q' : Addr}
    (hrunning : k.running = some p) (hcontext : k.pcbs.cpuState p = .transferWake c q')
    (hsupply : k'.supply = k.supply)
    (hnone : ∀ op, op ≠ c.op → k.supply op q' ≤ 0 ∨ ∀ x, ¬ k.Blocked op q' x)
    (hsame : k.SameWaits k') : (k.wakeups op q).Move (k'.wakeups op q) := by
  have hblocked : ∀ x, k'.Blocked op q x → x ∈ k.pcbNodes .waiting := fun x hx ↦ hsame.nodes ▸ hx.1
  by_cases hboth : q = q' ∧ op ≠ c.op
  · obtain ⟨rfl, hop⟩ := hboth
    obtain hempty | hnobody := hnone op hop
    · exact .exhaust ((congrFun (congrFun hsupply _) _).trans_le hempty)
    · exact .release (Set.eq_empty_of_forall_notMem fun x hx ↦
        hnobody x (h.blocked_of_blocked h' hsafe hstep (hblocked x hx) hx))
  · refine h.move_settle h' hsafe hstep (congrFun (congrFun hsupply _) _).le (fun x hx _ ↦ hsame.awake hx)
      (fun x hx _ ↦ ?_) (fun x hx _ ↦ ?_) hblocked
    · refine (h.trying_step hsafe hstep hx (hsame.awake hx.1)).resolve_right ?_
      rintro ⟨-, hruns, c', -, hcontext', -⟩
      obtain rfl := Option.some.inj (hrunning.symm.trans hruns)
      rw [hcontext] at hcontext'
      cases hcontext'
    · refine (h.waking_step hsafe hstep hx (hsame.awake hx.1)).resolve_right ?_
      rintro ⟨-, hruns, c', hop, hcontext'⟩
      obtain rfl := Option.some.inj (hrunning.symm.trans hruns)
      obtain ⟨rfl, rfl⟩ := Context.transferWake.inj (hcontext.symm.trans hcontext')
      exact hboth ⟨rfl, hop.symm⟩

/-- Every other step. -/
theorem TransferInv.move_other (h : k.TransferInv layout m) (h' : k'.TransferInv layout m')
    (hsafe : k.WakeupSafe a) (hstep : k.step a = some k')
    (hquiet : ∀ call, k.request a = some call → call.marksUsers = false) (hlists : k.ListStep a k')
    (hsupply : k'.supply op q ≤ k.supply op q ∨ ¬ k.queues.allocator.Allocated q ∨
      op = .send ∧ ∃ newVal, k.attributeWrite a = some (q, attQueueMaxMessages, newVal) ∧
        k.queues.maxMessages q < newVal) : (k.wakeups op q).Move (k'.wakeups op q) := by
  obtain ⟨hsafe, hcapacity⟩ := hsafe
  have hother := hlists.otherLists h.ordered hquiet hsafe.noExit h.points.nodup
    fun x hx ↦ (h.points.sleepers x hx).2.1
  have hawake {x : Addr} (hx : k.Awake x) (huser : ∀ ret, k.pcbs.cpuState x ≠ .user ret) : k'.Awake x := by
    refine (hother.awake x hx).resolve_right fun hparks ↦ ?_
    obtain ⟨ret, hret⟩ := (hparks.user hstep).1
    exact huser ret hret
  have hnotCalls {x : Addr} {call : Syscall} {next : Context} (haction : a = .statement)
      (hruns : k.running = some x) (hcontext : (k.pcbs.cpuState x).request = some (call, next))
      (hmarks : call.marksUsers = true) : False := by
    have hrequest : k.request a = some call := by
      rw [haction, request, Kernel.context, hruns, Option.map_some, Option.bind_some, hcontext]
      rfl
    rw [hquiet call hrequest] at hmarks
    cases hmarks
  have hblocked : ∀ x, k'.Blocked op q x → x ∈ k.pcbNodes .waiting := by
    intro x hx
    obtain hold | ⟨hparks, -⟩ := hother.entered x hx.1
    · exact hold
    · obtain ⟨-, c, d, u, -, hwaits⟩ := h'.blocked_iff.mp hx
      obtain ⟨ret, hret⟩ := (hparks.user hstep).2
      exact absurd hret (hwaits.checked.notUser ret)
  have hnobody (hnone : ∀ x ∈ k.pcbNodes .waiting, ¬ k.Blocked op q x) :
      (k.wakeups op q).Move (k'.wakeups op q) :=
    .release (Set.eq_empty_of_forall_notMem fun x hx ↦
      hnone x (hblocked x hx) (h.blocked_of_blocked h' hsafe hstep (hblocked x hx) hx))
  obtain hle | hfresh | ⟨rfl, newVal, hwrite, hraised⟩ := hsupply
  · refine h.move_settle h' hsafe hstep hle (fun x hx hoff ↦ ?_) (fun x hx _ ↦ ?_) (fun x hx _ ↦ ?_) hblocked
    · exact (hother.awake x hx).resolve_right fun hparks ↦ hoff hparks.1
    · obtain ⟨-, c, -, hchecked⟩ := id hx
      refine (h.trying_step hsafe hstep hx (hawake hx.1 hchecked.notUser)).resolve_right ?_
      rintro ⟨haction, hruns, c', -, hcontext, -⟩
      exact hnotCalls haction hruns (by rw [hcontext]; rfl) c'.marksUsers_syscall
    · obtain ⟨-, c, -, hmoved⟩ := id hx
      refine (h.waking_step hsafe hstep hx (hawake hx.1 hmoved.notUser)).resolve_right ?_
      rintro ⟨haction, hruns, c', -, hcontext⟩
      exact hnotCalls haction hruns (by rw [hcontext]; rfl) rfl
  · refine hnobody fun x _ hblocked ↦ hfresh ?_
    obtain ⟨-, c, d, u, -, hwaits⟩ := h.blocked_iff.mp hblocked
    exact hwaits.queue_allocated h.members.owns.owned
  · exact hnobody (hcapacity _ hwrite rfl hraised)

/-- Every step of the runs is a move. -/
theorem TransferInv.move (h : k.TransferInv layout m) (hsafe : k.WakeupSafe a) (hstep : k.step a = some k')
    (op : Transfer) (q : Addr) : (k.wakeups op q).Move (k'.wakeups op q) := by
  have h' := h.step hsafe.1 hstep
  cases h.transferStep hsafe.1 hstep with
  | moved p q' c haction hrunning hcontext hret hroom hsupply hsame =>
    subst haction
    exact h.move_moved h' hsafe.1 hstep hrunning hcontext hret hroom hsupply hsame
  | refused p q' c haction hrunning hcontext hret hsupply hsame =>
    subst haction
    exact h.move_refused h' hsafe.1 hstep hrunning hcontext hret hsupply hsame
  | waits p q' d u c haction hrunning hcontext hret hsupply hempty _ _ hnodes hsame =>
    subst haction
    exact h.move_waits h' hsafe.1 hstep hrunning hcontext hret hsupply hempty hnodes hsame
  | wakes p q' x u c haction hrunning hcontext hsupply hwaiting hmember hmarked hpid hnodes hsame =>
    subst haction
    exact h.move_wakes h' hsafe.1 hstep hrunning hcontext hsupply hwaiting hmember hmarked hpid hnodes hsame
  | passes p q' c haction hrunning hcontext hsupply hnone hsame =>
    subst haction
    exact h.move_passes h' hsafe.1 hstep hrunning hcontext hsupply hnone hsame
  | other hquiet hlists _ hsupply => exact h.move_other h' hsafe hstep hquiet hlists (hsupply op q)

end Kernel

/-! ### Whole runs -/

/-- No wake-up is lost: while a process is blocked on a queue, as many processes as there are messages to
receive, or places for one to send, are on their way to take one or to wake somebody, and none of them waits. -/
theorem transfers_served (layout : Layout) {actions : List Action} {k : Kernel} {op : Transfer} {q x : Addr}
    (hsafe : Runs.Meets Kernel.step Kernel.WakeupSafe layout.boot actions)
    (hrun : Runs.run Kernel.step layout.boot actions = some k) (hblocked : k.Blocked op q x) :
    ((k.supply op q).toNat : ℕ∞) ≤ {p | k.Awake p ∧ ∃ c, c.op = op ∧ k.Checked p c q}.encard +
        {p | k.Awake p ∧ ∃ c, c.op ≠ op ∧ k.Moved p c q}.encard ∧
      (0 < k.supply op q → ∃ p, k.Awake p ∧
        ∃ c, c.op = op ∧ k.Checked p c q ∨ c.op ≠ op ∧ k.Moved p c q) := by
  have hserved : (∃ m, k.TransferInv layout m) ∧ ∀ op q, (k.wakeups op q).Served := by
    refine Runs.run_invariant (P := fun k ↦ (∃ m, Kernel.TransferInv layout k m) ∧
      ∀ op q, (k.wakeups op q).Served) ?_ ⟨⟨_, layout.boot_transferInv⟩, fun op q ↦ ?_⟩ hsafe hrun
    · rintro k a k' ⟨⟨m, hinv⟩, hserved⟩ hsafe hstep
      exact ⟨⟨_, hinv.step hsafe.1 hstep⟩, fun op q ↦ (hserved op q).move (hinv.move hsafe hstep op q)⟩
    · rintro ⟨x, hx, -⟩
      exact absurd hx List.not_mem_nil
  have hsome : (k.wakeups op q).blocked.Nonempty := ⟨x, hblocked⟩
  refine ⟨hserved.2 op q hsome, fun hsupply ↦ ?_⟩
  obtain ⟨p, hawake, c, hop, hchecked⟩ | ⟨p, hawake, c, hop, hmoved⟩ :=
    (hserved.2 op q).exists_trying_or_waking hsupply hsome
  · exact ⟨p, hawake, c, .inl ⟨hop, hchecked⟩⟩
  · exact ⟨p, hawake, c, .inr ⟨hop, hmoved⟩⟩

/-- The message is there, the reader is blocked, and the writer is to wake it. -/
theorem transfers_served_readerWaits : ∃ k,
    Runs.run Kernel.step sampleLayout.boot readerWaits = some k ∧ k.running = some 0x408910 ∧
      k.supply .receive 0x1900000 = 1 ∧ k.Blocked .receive 0x1900000 0x404488 ∧
      ∃ p, k.Awake p ∧ ∃ c, c.op = .receive ∧ k.Checked p c 0x1900000 ∨
        c.op ≠ .receive ∧ k.Moved p c 0x1900000 := by
  have hends : ∃ k ∈ Runs.run Kernel.step sampleLayout.boot readerWaits,
      k.running = some 0x408910 ∧ k.supply .receive 0x1900000 = 1 ∧
        k.Blocked .receive 0x1900000 0x404488 := by decide +kernel
  obtain ⟨k, hrun, hruns, hsupply, hblocked⟩ := hends
  have hserved := transfers_served sampleLayout (by decide +kernel) hrun hblocked
  exact ⟨k, hrun, hruns, hsupply, hblocked, hserved.2 (by rw [hsupply]; decide)⟩

end DisastrOS
