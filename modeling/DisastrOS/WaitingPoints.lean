import DisastrOS.TransferSteps

/-!
# The processes that wait for a queue

`TransferInv` says where the processes in `waiting_list` stand in runs in which the queues are used through
`dmq_send` and `dmq_receive`. They sleep or wait for a child, or they wait for a queue; and then their
entries in it, and no others, are marked `Waiting` (`WaitPoints`). Each step keeps it (`TransferInv.step`).
-/

set_option autoImplicit false
set_option relaxedAutoImplicit false

namespace DisastrOS

open LinkedLists PoolAllocator
open Function (update)

namespace Kernel

variable {layout : Layout} {k k' : Kernel} {a : Action} {m : Addr → Option Opening}
  {p q x y d u : Addr} {c : TransferCall} {op : Transfer}

/-! ### Points of the calls -/

/-- A process stays where it is unless it executes a statement, or is in its own code and makes a call. -/
theorem context_stays (hordered : k.Ordered) (hnoShutdown : k.NoShutdown)
    (hshutdown : k.request a ≠ some .shutdown) (hstep : k.step a = some k')
    (hx : k.pcbs.allocator.Allocated x) (hmoves : ¬ (a = .statement ∧ k.running = some x))
    (huser : k.running = some x → ∀ ret, k.pcbs.cpuState x ≠ .user ret) :
    k'.pcbs.cpuState x = k.pcbs.cpuState x := by
  have hne {child : Addr} (hfresh : k.pcbs.allocator.getBlock.1 = some child) : x ≠ child := by
    rintro rfl
    rcases hget : k.pcbs.allocator.getBlock with ⟨b, pool⟩
    rw [hget] at hfresh
    subst hfresh
    exact (getBlock_some hordered.scheduled.pool hget).2.2.1 hx
  have hcaller {p : Addr} {c : Syscall} {next : Context} (hp : k.running = some p)
      (hcalls : k.Calls p a c next) : x ≠ p := by
    rintro rfl
    cases hcalls with
    | user _ ret hret => exact huser hp ret hret
    | statement => exact hmoves ⟨rfl, hp⟩
  cases step_contexts hnoShutdown hshutdown hstep with
  | same hcontexts => rw [hcontexts]
  | start p _ hfresh hcontexts => rw [hcontexts, Function.update_of_ne (hne hfresh)]
  | call p c ret _ hp hret hsame =>
    have hxp : x ≠ p := by
      rintro rfl
      exact huser hp ret hret
    rw [hsame]
    exact Function.update_of_ne hxp _ _
  | syscall p c next hp hcalls _ hcontexts =>
    rw [hcontexts, Function.update_of_ne (hcaller hp hcalls)]
  | spawn p child next hp hcalls _ hfresh hcontexts =>
    rw [hcontexts, Function.update_of_ne (hne hfresh), Function.update_of_ne (hcaller hp hcalls)]
  | statement p next haction hp _ _ _ hcontexts =>
    rw [hcontexts, Function.update_of_ne]
    rintro rfl
    exact hmoves ⟨haction, hp⟩

/-- Where a call looks at its result, its SEND or RECV was the last system call of its process. -/
def Called (k : Kernel) : Prop :=
  ∀ p c q, k.pcbs.cpuState p = .transferResult c q → k.pcbs.syscall p = some c.syscall

/-- The result that a call looks at stays until it does. -/
theorem Called.result_stays (hcalled : k.Called) (hshutdown : k.request a ≠ some .shutdown)
    (hstep : k.step a = some k') (hcontext : k.pcbs.cpuState x = .transferResult c q) :
    k'.pcbs.syscallRetvalue x = k.pcbs.syscallRetvalue x := by
  obtain ⟨-, hsame⟩ | ⟨pid, result, -, hwait⟩ | ⟨-, call, next, hcalls⟩ :=
    step_retvalue hshutdown hstep x
  · exact hsame
  · rw [hcalled x c q hcontext, TransferCall.syscall] at hwait
    cases hop : c.op <;> rw [hop] at hwait <;> cases hwait
  · cases hcalls with
    | user _ ret hret => rw [hcontext] at hret; cases hret
    | statement _ _ hrequest => rw [hcontext] at hrequest; cases hrequest

/-- A statement that makes a SEND, a RECV, a WAKEUP or a PREEMPT leads on to the next one. -/
theorem context_request {context next : Context} {call : Syscall} (hrunning : k.running = some x)
    (hcontext : k.pcbs.cpuState x = context) (hrequest : context.request = some (call, next))
    (hkind : call.marksUsers = true ∨ call = .preempt) (hstep : k.step .statement = some k') :
    k'.pcbs.cpuState x = next := by
  have hshutdown : call ≠ .shutdown := by rintro rfl; simp [Syscall.marksUsers] at hkind
  have hspawn : call ≠ .spawn := by rintro rfl; simp [Syscall.marksUsers] at hkind
  rw [step_request hrunning hcontext hrequest] at hstep
  obtain hsame | ⟨hcall, -⟩ := syscallVector_cpuState hshutdown hstep
  · rw [hsame]
    exact Function.update_self ..
  · exact absurd hcall hspawn

theorem Checked.notUser (h : k.Checked x c q) (ret : ℤ) : k.pcbs.cpuState x ≠ .user ret := by
  obtain hcontext | hcontext | ⟨hcontext, -⟩ := h <;> rw [hcontext] <;> exact Context.noConfusion

theorem Moved.notUser (h : k.Moved x c q) (ret : ℤ) : k.pcbs.cpuState x ≠ .user ret := by
  obtain hcontext | ⟨hcontext, -⟩ := h <;> rw [hcontext] <;> exact Context.noConfusion

/-- The call of a process that is to SEND or RECV goes on until that has moved a message. -/
theorem Checked.step (h : k.Checked x c q) (hordered : k.Ordered) (hnoShutdown : k.NoShutdown)
    (hcalled : k.Called) (hshutdown : k.request a ≠ some .shutdown) (hstep : k.step a = some k')
    (hx : k.pcbs.allocator.Allocated x) :
    k'.Checked x c q ∨ a = .statement ∧ k.running = some x ∧ k.pcbs.cpuState x = .transferCall c q ∧
      k'.pcbs.cpuState x = .transferResult c q ∧ k'.pcbs.syscallRetvalue x ≠ c.op.failure := by
  by_cases hmoves : a = .statement ∧ k.running = some x
  · obtain ⟨rfl, hrunning⟩ := hmoves
    obtain hcontext | hcontext | ⟨hcontext, hfailed⟩ := h
    · have hafter : k'.pcbs.cpuState x = .transferResult c q :=
        context_request hrunning hcontext rfl (.inl c.marksUsers_syscall) hstep
      by_cases hresult : k'.pcbs.syscallRetvalue x = c.op.failure
      · exact .inl (.inr (.inr ⟨hafter, hresult⟩))
      · exact .inr ⟨rfl, hrunning, hcontext, hafter, hresult⟩
    · exact .inl (.inl (context_request hrunning hcontext rfl (.inr rfl) hstep))
    · rw [step_statement hrunning hcontext rfl, runStatement, if_pos hfailed] at hstep
      obtain rfl := Option.some.inj hstep
      exact .inl (.inr (.inl (Function.update_self ..)))
  · have hstays := context_stays hordered hnoShutdown hshutdown hstep hx hmoves fun _ ↦ h.notUser
    obtain hcontext | hcontext | ⟨hcontext, hfailed⟩ := h
    · exact .inl (.inl (hstays.trans hcontext))
    · exact .inl (.inr (.inl (hstays.trans hcontext)))
    · refine .inl (.inr (.inr ⟨hstays.trans hcontext, ?_⟩))
      rw [hcalled.result_stays hshutdown hstep hcontext]
      exact hfailed

/-- The call of a process that has moved a message goes on until its WAKEUP. -/
theorem Moved.step (h : k.Moved x c q) (hordered : k.Ordered) (hnoShutdown : k.NoShutdown)
    (hcalled : k.Called) (hshutdown : k.request a ≠ some .shutdown) (hstep : k.step a = some k')
    (hx : k.pcbs.allocator.Allocated x) :
    k'.Moved x c q ∨ a = .statement ∧ k.running = some x ∧ k.pcbs.cpuState x = .transferWake c q := by
  by_cases hmoves : a = .statement ∧ k.running = some x
  · obtain ⟨rfl, hrunning⟩ := hmoves
    obtain hcontext | ⟨hcontext, hmoved⟩ := h
    · exact .inr ⟨rfl, hrunning, hcontext⟩
    · rw [step_statement hrunning hcontext rfl, runStatement, if_neg hmoved] at hstep
      obtain rfl := Option.some.inj hstep
      exact .inl (.inl (Function.update_self ..))
  · have hstays := context_stays hordered hnoShutdown hshutdown hstep hx hmoves fun _ ↦ h.notUser
    obtain hcontext | ⟨hcontext, hmoved⟩ := h
    · exact .inl (.inl (hstays.trans hcontext))
    · refine .inl (.inr ⟨hstays.trans hcontext, ?_⟩)
      rw [hcalled.result_stays hshutdown hstep hcontext]
      exact hmoved

/-- A process is in one call at a time. -/
theorem Checked.eq {c' : TransferCall} {q' : Addr} (h : k.Checked x c q) (h' : k.Checked x c' q') :
    c = c' ∧ q = q' := by
  obtain hcontext | hcontext | ⟨hcontext, -⟩ := h <;>
    obtain hcontext' | hcontext' | ⟨hcontext', -⟩ := h' <;>
    rw [hcontext] at hcontext' <;> cases hcontext' <;> exact ⟨rfl, rfl⟩

/-! ### Processes that wait for a queue -/

/-- Process `x` is in a call that has found queue `q`, and `u` is its entry there. -/
structure EntryAt (k : Kernel) (x : Addr) (c : TransferCall) (q d u : Addr) : Prop where
  checked : k.Checked x c q
  descriptor : d ∈ k.files.descriptorNodes x
  fd : k.descriptors.fd d = c.fd
  value : k.resources.value (k.descriptors.resource d) = some q
  entry : k.descriptors.rwn d c.op.role = some u

/-- The entry is marked `Waiting`. -/
structure WaitsAt (k : Kernel) (x : Addr) (c : TransferCall) (q d u : Addr) : Prop
    extends k.EntryAt x c q d u where
  marked : k.queueUsers.status u = .waiting

/-- The entry stands in the list of its queue, with the pid of the process. -/
theorem EntryAt.member (h : k.EntryAt x c q d u) (hinv : k.MembersInv layout m)
    (howner : k.OpenedByOwner m) : u ∈ k.userNodes (q, c.op.role) ∧ k.queueUsers.pid u = k.pcbs.pid x := by
  obtain ⟨users, henrolled, -⟩ := hinv.enrolled
  have hplain : (k.pcbs.cpuState x).plain = true := by
    obtain hcontext | hcontext | ⟨hcontext, -⟩ := h.checked <;> rw [hcontext] <;> rfl
  have hnotes := (hinv.points x).notes d h.descriptor
  rw [leftAt_plain hplain, Option.map_eq_some_iff] at hnotes
  obtain ⟨o, ho, hleft⟩ := hnotes
  have hinside : o.left c.op.role = false := by rw [hleft]
  constructor
  · rw [henrolled.toUsersOrdered.userNodes_eq, henrolled.members]
    exact ⟨d, ⟨o, ho, hinside⟩, h.entry, h.value⟩
  · rw [henrolled.pid d o ho c.op.role hinside u h.entry]
    exact howner x d h.descriptor o ho

/-- The process has one entry. -/
theorem EntryAt.eq {c' : TransferCall} {q' d' u' : Addr} (h : k.EntryAt x c q d u)
    (h' : k.EntryAt x c' q' d' u') (hok : k.files.Ok) : c = c' ∧ q = q' ∧ u = u' := by
  obtain ⟨rfl, rfl⟩ := h.checked.eq h'.checked
  obtain rfl := hok.fd_inj x d h.descriptor d' h'.descriptor (h.fd.trans h'.fd.symm)
  exact ⟨rfl, rfl, Option.some.inj (h.entry.symm.trans h'.entry)⟩

theorem EntryAt.queue_allocated (h : k.EntryAt x c q d u) (howned : k.files.Owned k.queues.allocator) :
    k.queues.allocator.Allocated q := by
  exact (howned.values.live _ (howned.ok.resource_mem h.descriptor) q h.value).2

/-- A call of a process keeps its descriptors as long as it goes on. -/
theorem Checked.sameFor (h : k.Checked x c q) (hok : k.files.Ok) (hsafe : k.MembersSafe a)
    (hstep : k.step a = some k') (hafter : ∀ ret, k'.pcbs.cpuState x ≠ .user ret) :
    k.files.SameFor k'.files x := by
  have hquiet : ∀ call, k.request a = some call → call.touchesFiles = true → k.running ≠ some x := by
    intro call hrequest hkind hrunning
    obtain ⟨next, hcalls, -⟩ := step_syscall hrunning hrequest hstep
    cases hcalls with
    | user _ ret hret => exact h.notUser ret hret
    | statement _ _ hpoint =>
      obtain hcontext | hcontext | ⟨hcontext, -⟩ := h <;> rw [hcontext] at hpoint <;> cases hpoint
      · rw [c.touchesFiles_syscall] at hkind
        cases hkind
      · cases hkind
  obtain hsame | ⟨-, huser | hfork⟩ := step_descriptors hok hsafe.notShutdown hstep hquiet
  · exact hsame
  · exact absurd huser (hafter 0)
  · exact (hsafe _ hfork).elim

/-- A process that still is in its call has the same entry. -/
theorem EntryAt.step (h : k.EntryAt x c q d u) (hok : k.files.Ok) (hsafe : k.MembersSafe a)
    (hstep : k.step a = some k') (hchecked : k'.Checked x c q) : k'.EntryAt x c q d u := by
  have hsame := h.checked.sameFor hok hsafe hstep hchecked.notUser
  have hkept := hsame.kept d h.descriptor
  have hresource : k'.descriptors.resource d = k.descriptors.resource d := hkept.resource
  refine ⟨hchecked, hsame.nodes ▸ h.descriptor, hkept.fd.trans h.fd, ?_, ?_⟩
  · rw [hresource]
    exact hkept.value q h.value
  · have hrwn : k'.descriptors.rwn d = k.descriptors.rwn d := hsame.rwn d h.descriptor
    rw [hrwn]
    exact h.entry

/-! ### The invariant -/

/-- The processes have pids of their own. -/
structure PidsDistinct (k : Kernel) : Prop where
  lt : ∀ p, k.pcbs.allocator.Allocated p → k.pcbs.pid p < k.lastPid
  inj : ∀ p p', k.pcbs.allocator.Allocated p → k.pcbs.allocator.Allocated p' →
    k.pcbs.pid p = k.pcbs.pid p' → p = p'

theorem PidsDistinct.step (h : k.PidsDistinct) (hnumbers : k.NumberStep k') : k'.PidsDistinct := by
  cases hnumbers with
  | same hpid hlast hpool =>
    constructor
    · intro p hp
      rw [hpid, hlast]
      exact h.lt p (hpool p hp)
    · intro p p' hp hp' hsame
      rw [hpid] at hsame
      exact h.inj p p' (hpool p hp) (hpool p' hp') hsame
  | create child hfresh hpid hlast hpool hfiles =>
    -- the pid of the new process is above all others
    have hbelow : ∀ p, p ≠ child → k'.pcbs.allocator.Allocated p → k.pcbs.pid p < k.lastPid :=
      fun p hne hp ↦ h.lt p ((hpool p hp).resolve_left hne)
    constructor
    · intro p hp
      rw [hpid, hlast, Function.update_apply]
      split_ifs with hchild
      · omega
      · have hlt := hbelow p hchild hp
        omega
    · intro p p' hp hp' hsame
      rw [hpid, Function.update_apply, Function.update_apply] at hsame
      split_ifs at hsame with hchild hchild' hchild'
      · exact hchild.trans hchild'.symm
      · exact absurd hsame.symm (hbelow p' hchild' hp').ne
      · exact absurd hsame (hbelow p hchild hp).ne
      · exact h.inj p p' ((hpool p hp).resolve_left hchild) ((hpool p' hp').resolve_left hchild') hsame

/-- The process is off the processor, in its own code. -/
def Idle (k : Kernel) (x : Addr) : Prop := k.running ≠ some x ∧ ∃ ret, k.pcbs.cpuState x = .user ret

/-- Why the processes in `waiting_list` are there: they sleep or wait for a child, or they wait for a queue,
and then their entries in it are the ones that are marked. -/
structure WaitPoints (k : Kernel) : Prop where
  waiting : ∀ x ∈ k.pcbNodes .waiting, k.Idle x ∨
    ∃ c q d u, k.WaitsAt x c q d u ∧ (k.running = some x → k.supply c.op q ≤ 0)
  marked : ∀ i, ∀ u ∈ k.userNodes i, k.queueUsers.status u = .waiting →
    ∃ x ∈ k.pcbNodes .waiting, ∃ c d, c.op.role = i.2 ∧ k.WaitsAt x c i.1 d u
  sleepers : ∀ x ∈ k.sleepers, x ∈ k.pcbNodes .waiting ∧ k.Idle x
  nodup : k.sleepers.Nodup

/-- What holds in the runs. -/
structure TransferInv (layout : Layout) (k : Kernel) (m : Addr → Option Opening) : Prop where
  lists : ∃ failed, k.ListsInv failed
  members : k.MembersInv layout m
  stored : ∃ nodes, k.Stored layout nodes
  called : k.Called
  owners : k.OpenedByOwner m
  pids : k.PidsDistinct
  refers : ∀ p c q, (k.pcbs.cpuState p).transferAt = some (c, q) → k.RefersTo p c.fd q
  points : k.WaitPoints

theorem TransferInv.ordered (h : k.TransferInv layout m) : k.Ordered := by
  obtain ⟨failed, hlists⟩ := h.lists
  exact hlists.ordered

theorem TransferInv.files (h : k.TransferInv layout m) : k.files.Ok := h.members.owns.owned.ok

/-- The processes that are blocked on a queue are those that wait for it. -/
theorem TransferInv.blocked_iff (h : k.TransferInv layout m) :
    k.Blocked op q x ↔ x ∈ k.pcbNodes .waiting ∧ ∃ c d u, c.op = op ∧ k.WaitsAt x c q d u := by
  refine and_congr_right fun hx ↦ ⟨?_, ?_⟩
  · rintro ⟨u, hu, hmarked, hpid⟩
    obtain ⟨y, hy, c, d, hrole, hwaits⟩ := h.points.marked (q, op.role) u hu hmarked
    have hsame : k.pcbs.pid y = k.pcbs.pid x := by
      rw [← (hwaits.member h.members h.owners).2, hpid]
    obtain rfl := h.pids.inj y x (h.ordered.scheduled.allocated _ y hy)
      (h.ordered.scheduled.allocated _ x hx) hsame
    exact ⟨c, d, u, Transfer.eq_of_role hrole, hwaits⟩
  · rintro ⟨c, d, u, rfl, hwaits⟩
    obtain ⟨hmember, hpid⟩ := hwaits.member h.members h.owners
    exact ⟨u, hmember, hwaits.marked, hpid⟩

/-! ### The lists of processes in the other steps -/

/-- The running process `x` calls SLEEP or WAIT. -/
def Parks (k : Kernel) (a : Action) (x : Addr) : Prop :=
  k.running = some x ∧
    ((∃ cycles, k.request a = some (.sleep cycles)) ∨ ∃ pid result, k.request a = some (.wait pid result))

/-- What a step without a SEND, a RECV, a WAKEUP or an EXIT does to the processes that wait. -/
structure OtherLists (k : Kernel) (a : Action) (k' : Kernel) : Prop where
  running : ∀ x ∈ k'.pcbNodes .waiting, k'.running = some x → k.running = some x
  entered : ∀ x ∈ k'.pcbNodes .waiting, x ∈ k.pcbNodes .waiting ∨ k.Parks a x ∧ k'.running ≠ some x
  left : ∀ x ∈ k.pcbNodes .waiting, x ∈ k'.pcbNodes .waiting ∨ x ∈ k.sleepers ∧ x ∉ k'.sleepers
  awake : ∀ x, k.Awake x → k'.Awake x ∨ k.Parks a x
  sleepers : ∀ x ∈ k'.sleepers, x ∈ k.sleepers ∨ k.Parks a x ∧ x ∈ k'.pcbNodes .waiting
  nodup : k'.sleepers.Nodup

/-- A step that keeps the running process, `waiting_list` and the sleepers. -/
theorem OtherLists.of_same (hrunning : k'.running = k.running)
    (hwaiting : k'.pcbNodes .waiting = k.pcbNodes .waiting)
    (hready : ∀ x ∈ k.pcbNodes .ready, x ∈ k'.pcbNodes .ready) (hsleepers : k'.sleepers = k.sleepers)
    (hnodup : k.sleepers.Nodup) : k.OtherLists a k' where
  running _ _ hx := hrunning.symm.trans hx
  entered _ hx := .inl (hwaiting ▸ hx)
  left _ hx := .inl (hwaiting ▸ hx)
  awake x hx := .inl ⟨hx.1.imp hrunning.trans (hready x), hwaiting ▸ hx.2⟩
  sleepers _ hx := .inl (hsleepers ▸ hx)
  nodup := hsleepers ▸ hnodup

theorem ListStep.otherLists (h : k.ListStep a k') (hordered : k.Ordered)
    (hquiet : ∀ call, k.request a = some call → call.marksUsers = false)
    (hexit : ∀ value, k.request a ≠ some (.exit value)) (hnodup : k.sleepers.Nodup)
    (hoff : ∀ x ∈ k.sleepers, k.running ≠ some x) : k.OtherLists a k' := by
  have hscheduled := hordered.scheduled
  have hapart {x : Addr} (hx : x ∈ k.pcbNodes .waiting) (hready : x ∈ k.pcbNodes .ready) : False := by
    cases hscheduled.list_unique hx hready
  cases h with
  | stay hrunning hnodes hsleepers =>
    exact .of_same hrunning (by rw [hnodes]) (fun x hx ↦ by rwa [hnodes]) hsleepers hnodup
  | start p haction hidle hfresh hrunning hnodes hsleepers =>
    constructor
    · intro x hx hruns
      obtain rfl : p = x := Option.some.inj (hrunning.symm.trans hruns)
      rw [hnodes] at hx
      exact absurd (hscheduled.allocated _ p hx) hfresh
    · exact fun x hx ↦ .inl (hnodes ▸ hx)
    · exact fun x hx ↦ .inl (hnodes ▸ hx)
    · rintro x ⟨hruns | hready, hx⟩
      · rw [hidle] at hruns
        cases hruns
      · exact .inl ⟨.inr (hnodes ▸ hready), hnodes ▸ hx⟩
    · exact fun x hx ↦ .inl (hsleepers ▸ hx)
    · exact hsleepers ▸ hnodup
  | create child _ _ hrunning hnodes hsleepers =>
    refine .of_same hrunning ?_ (fun x hx ↦ ?_) hsleepers hnodup
    · rw [hnodes, Function.update_of_ne (by decide)]
    · rw [hnodes, Function.update_self]
      exact List.mem_append_left _ hx
  | schedule p next rest _ hbefore hwaiting hready hrunning hnodes hsleepers =>
    have hwaits : k'.pcbNodes .waiting = (k.pcbNodes .waiting).filter (· ∉ k.wokenBy a) := by
      rw [hnodes, switchedNodes, Function.update_of_ne (by decide), wokenNodes,
        Function.update_of_ne (by decide), Function.update_self]
    have hready' : k'.pcbNodes .ready =
        rest ++ if p ∈ (k.pcbNodes .waiting).filter (· ∉ k.wokenBy a) then [] else [p] := by
      rw [hnodes, switchedNodes, Function.update_self, wokenNodes, Function.update_self,
        Function.update_of_ne (by decide), Function.update_self, List.nil_append, hready, List.tail_cons]
    have hparts : (k.wokenBy a ++ k'.sleepers).Nodup := hsleepers ▸ hnodup
    constructor
    · intro x hx hruns
      obtain rfl : next = x := Option.some.inj (hrunning.symm.trans hruns)
      rw [hwaits, List.mem_filter, decide_eq_true_eq] at hx
      have hmem : next ∈ k.wokenBy a ++ k.pcbNodes .ready := hready ▸ List.mem_cons_self
      exact ((List.mem_append.mp hmem).elim hx.2 (hapart hx.1)).elim
    · intro x hx
      rw [hwaits] at hx
      exact .inl (List.mem_of_mem_filter hx)
    · intro x hx
      by_cases hwoken : x ∈ k.wokenBy a
      · refine .inr ⟨hsleepers ▸ List.mem_append_left _ hwoken, fun hmem ↦ ?_⟩
        exact (List.nodup_append.mp hparts).2.2 x hwoken x hmem rfl
      · rw [hwaits]
        exact .inl (List.mem_filter.mpr ⟨hx, decide_eq_true hwoken⟩)
    · rintro x ⟨hruns | hmem, hx⟩
      · obtain rfl : p = x := Option.some.inj (hbefore.symm.trans hruns)
        refine .inl ⟨.inr ?_, fun hwaits' ↦ ?_⟩
        · rw [hready', if_neg fun hmem ↦ hx (List.mem_of_mem_filter hmem)]
          exact List.mem_append_right _ (List.mem_singleton_self p)
        · rw [hwaits] at hwaits'
          exact hx (List.mem_of_mem_filter hwaits')
      · have hnext : x ∈ next :: rest := hready ▸ List.mem_append_right _ hmem
        refine .inl ⟨?_, fun hwaits' ↦ ?_⟩
        · rw [hrunning, hready']
          exact (List.mem_cons.mp hnext).imp (fun hsame ↦ congrArg some hsame.symm)
            (List.mem_append_left _)
        · rw [hwaits] at hwaits'
          exact hx (List.mem_of_mem_filter hwaits')
    · exact fun x hx ↦ .inl (hsleepers ▸ List.mem_append_right _ hx)
    · exact (List.nodup_append.mp hparts).2.1
  | block p i hi hbefore hrequest hrunning hnodes hsleepers =>
    have hparks : k.Parks a p ∧ i = .waiting := by
      obtain ⟨cycles, hcall, hwaiting⟩ | ⟨pid, result, hcall, hwaiting⟩ | ⟨value, hcall, -⟩ := hrequest
      · exact ⟨⟨hbefore, .inl ⟨cycles, hcall⟩⟩, hwaiting⟩
      · exact ⟨⟨hbefore, .inr ⟨pid, result, hcall⟩⟩, hwaiting⟩
      · exact absurd hcall (hexit value)
    obtain ⟨hparks, rfl⟩ := hparks
    have hwaits (x : Addr) :
        x ∈ k'.pcbNodes .waiting ↔ x ∈ k.pcbNodes .waiting ∨ (x = p ∧ p ∉ k.pcbNodes .waiting) := by
      rw [hnodes, Function.update_of_ne (by decide), mem_parkedNodes]
      simp
    have hnext {x : Addr} (hruns : k'.running = some x) : x ∈ k.pcbNodes .ready := by
      rw [hrunning] at hruns
      exact List.mem_of_mem_head? hruns
    have hstops : k'.running ≠ some p := fun hruns ↦ hscheduled.running_notReady p hbefore (hnext hruns)
    constructor
    · intro x hx hruns
      obtain hold | ⟨rfl, -⟩ := (hwaits x).mp hx
      · exact (hapart hold (hnext hruns)).elim
      · exact hbefore
    · intro x hx
      obtain hold | ⟨rfl, -⟩ := (hwaits x).mp hx
      · exact .inl hold
      · exact .inr ⟨hparks, hstops⟩
    · exact fun x hx ↦ .inl ((hwaits x).mpr (.inl hx))
    · rintro x ⟨hruns | hmem, hx⟩
      · obtain rfl : p = x := Option.some.inj (hbefore.symm.trans hruns)
        exact .inr hparks
      · have hne : x ≠ p := fun hsame ↦ hscheduled.running_notReady p hbefore (hsame ▸ hmem)
        refine .inl ⟨?_, fun hwaits' ↦ ?_⟩
        · rw [hrunning, hnodes, Function.update_self]
          cases hlist : k.pcbNodes .ready with
          | nil => rw [hlist] at hmem; exact absurd hmem List.not_mem_nil
          | cons first rest =>
            rw [hlist] at hmem
            exact (List.mem_cons.mp hmem).imp_left fun hsame ↦ congrArg some hsame.symm
        · obtain hold | ⟨hsame, -⟩ := (hwaits x).mp hwaits'
          · exact hx hold
          · exact hne hsame
    · intro x hx
      obtain hsame | ⟨-, hperm⟩ := hsleepers
      · exact .inl (hsame ▸ hx)
      · obtain rfl | hold := List.mem_cons.mp (hperm.mem_iff.mp hx)
        · refine .inr ⟨hparks, (hwaits x).mpr ?_⟩
          by_cases hmem : x ∈ k.pcbNodes .waiting
          · exact .inl hmem
          · exact .inr ⟨rfl, hmem⟩
        · exact .inl hold
    · obtain hsame | ⟨-, hperm⟩ := hsleepers
      · exact hsame ▸ hnodup
      · exact hperm.nodup_iff.mpr (List.nodup_cons.mpr ⟨fun hmem ↦ hoff p hmem hbefore, hnodup⟩)
  | queueWait p _ hrequest =>
    obtain ⟨msg, fd, hrequest | hrequest⟩ := hrequest <;> cases hquiet _ hrequest
  | wake p q _ _ _ hrequest =>
    obtain ⟨check, queue, users, hrequest, -⟩ := hrequest
    cases hquiet _ hrequest
  | reap child _ _ hrunning hnodes hsleepers =>
    refine .of_same hrunning ?_ (fun x hx ↦ ?_) hsleepers hnodup
    · rw [hnodes, Function.update_of_ne (by decide)]
    · rwa [hnodes, Function.update_of_ne (by decide)]
  | handOver p parent _ hrequest =>
    obtain ⟨value, hrequest⟩ := hrequest
    exact absurd hrequest (hexit value)

/-- A process that calls SLEEP or WAIT is in its own code, and stays there. -/
theorem Parks.user (h : k.Parks a x) (hstep : k.step a = some k') :
    (∃ ret, k.pcbs.cpuState x = .user ret) ∧ ∃ ret, k'.pcbs.cpuState x = .user ret := by
  obtain ⟨hrunning, hcall⟩ := h
  obtain ⟨call, hrequest, hkind⟩ : ∃ call, k.request a = some call ∧
      ((∃ cycles, call = .sleep cycles) ∨ ∃ pid result, call = .wait pid result) := by
    obtain ⟨cycles, hcall⟩ | ⟨pid, result, hcall⟩ := hcall
    · exact ⟨_, hcall, .inl ⟨cycles, rfl⟩⟩
    · exact ⟨_, hcall, .inr ⟨pid, result, rfl⟩⟩
  obtain ⟨next, hcalls, hcalled⟩ := step_syscall hrunning hrequest hstep
  have hsame : k'.pcbs.cpuState x = next := by
    obtain hsame | ⟨rfl, -⟩ := syscallVector_cpuState (by rintro rfl; simp at hkind) hcalled
    · rw [hsame]
      exact Function.update_self ..
    · simp at hkind
  cases hcalls with
  | user _ ret hret => exact ⟨⟨ret, hret⟩, ret, hsame⟩
  | statement _ _ hpoint =>
    generalize k.pcbs.cpuState x = context at hpoint
    cases context <;> simp only [Context.request, Option.some.injEq, Prod.mk.injEq, reduceCtorEq] at hpoint
      <;> obtain ⟨rfl, -⟩ := hpoint <;> simp [TransferCall.syscall] at hkind
    split at hkind <;> simp at hkind

/-! ### One step keeps the invariant -/

section Step

variable {m' : Addr → Option Opening}

theorem Idle.notChecked (h : k.Idle x) : ¬ k.Checked x c q := by
  obtain ⟨-, ret, hret⟩ := h
  exact fun hchecked ↦ hchecked.notUser ret hret

/-- A process that waits for a queue finds it empty, or full, when it runs. -/
theorem TransferInv.empty_of_running (h : k.TransferInv layout m) (hx : x ∈ k.pcbNodes .waiting)
    (hchecked : k.Checked x c q) (hrunning : k.running = some x) : k.supply c.op q ≤ 0 := by
  obtain hidle | ⟨c', q', d', u', hwaits, hempty⟩ := h.points.waiting x hx
  · exact absurd hchecked hidle.notChecked
  · obtain ⟨rfl, rfl⟩ := hchecked.eq hwaits.checked
    exact hempty hrunning

/-- It does not move a message before it has been woken. -/
theorem TransferInv.checked_step (h : k.TransferInv layout m) (hsafe : k.MessagingSafe a)
    (hstep : k.step a = some k') (htransfer : k.TransferStep a k') (hx : x ∈ k.pcbNodes .waiting)
    (hchecked : k.Checked x c q) : k'.Checked x c q := by
  obtain hafter | ⟨rfl, hrunning, hcontext, -, hmoved⟩ := hchecked.step h.ordered
    h.members.owns.noShutdown h.called hsafe.2.1.notShutdown hstep (h.ordered.scheduled.allocated _ x hx)
  · exact hafter
  have hempty := h.empty_of_running hx hchecked hrunning
  cases htransfer with
  | moved p q' c' _ hrunning' hcontext' _ hroom =>
    obtain rfl := Option.some.inj (hrunning.symm.trans hrunning')
    obtain ⟨rfl, rfl⟩ := Context.transferCall.inj (hcontext.symm.trans hcontext')
    exact absurd hroom hempty.not_gt
  | refused p q' c' _ hrunning' hcontext' hret | waits p q' _ _ c' _ hrunning' hcontext' hret =>
    obtain rfl := Option.some.inj (hrunning.symm.trans hrunning')
    obtain ⟨rfl, rfl⟩ := Context.transferCall.inj (hcontext.symm.trans hcontext')
    exact absurd hret hmoved
  | wakes p q' _ _ c' _ hrunning' hcontext' | passes p q' c' _ hrunning' hcontext' =>
    obtain rfl := Option.some.inj (hrunning.symm.trans hrunning')
    rw [hcontext] at hcontext'
    cases hcontext'
  | other hquiet =>
    have hrequest : k.request .statement = some c.syscall := by
      rw [request, Kernel.context, hrunning, Option.map_some, hcontext]
      rfl
    exact absurd ((hquiet _ hrequest).symm.trans c.marksUsers_syscall) Bool.noConfusion

theorem Idle.step (h : k.Idle x) (hinv : k.TransferInv layout m) (hsafe : k.MessagingSafe a)
    (hstep : k.step a = some k') (hx : k.pcbs.allocator.Allocated x) (hrunning : k'.running ≠ some x) :
    k'.Idle x := by
  obtain ⟨hoff, ret, hret⟩ := h
  refine ⟨hrunning, ret, ?_⟩
  rw [context_stays hinv.ordered hinv.members.owns.noShutdown hsafe.2.1.notShutdown hstep hx
    (fun hmoves ↦ hoff hmoves.2) (fun hruns ↦ absurd hruns hoff), hret]

/-- What a step has to do to keep the points of the processes that wait. -/
theorem TransferInv.waitPoints_of (h : k.TransferInv layout m) (hsafe : k.MessagingSafe a)
    (hstep : k.step a = some k') (htransfer : k.TransferStep a k')
    (hentered : ∀ x ∈ k'.pcbNodes .waiting, x ∈ k.pcbNodes .waiting ∨ k'.Idle x ∨
      ∃ c q d u, k'.WaitsAt x c q d u ∧ (k'.running = some x → k'.supply c.op q ≤ 0))
    (hrunning : ∀ x ∈ k'.pcbNodes .waiting, k'.running = some x → k.running = some x)
    (hsupply : ∀ x ∈ k.pcbNodes .waiting, ∀ c q, k.Checked x c q → k.running = some x →
      k'.supply c.op q ≤ k.supply c.op q)
    (hmarks : ∀ x ∈ k.pcbNodes .waiting, x ∈ k'.pcbNodes .waiting → ∀ c q d u, k.WaitsAt x c q d u →
      k'.queueUsers.status u = .waiting)
    (hmarked : ∀ i, ∀ u ∈ k'.userNodes i, k'.queueUsers.status u = .waiting →
      (u ∈ k.userNodes i ∧ k.queueUsers.status u = .waiting ∧
        ∀ x ∈ k.pcbNodes .waiting, ∀ c d, k.WaitsAt x c i.1 d u → x ∈ k'.pcbNodes .waiting) ∨
      ∃ x ∈ k'.pcbNodes .waiting, ∃ c d, c.op.role = i.2 ∧ k'.WaitsAt x c i.1 d u)
    (hsleepers : ∀ x ∈ k'.sleepers, x ∈ k'.pcbNodes .waiting ∧ (x ∈ k.sleepers ∨ k'.Idle x))
    (hnodup : k'.sleepers.Nodup) : k'.WaitPoints where
  waiting x hx := by
    obtain hold | hnew := hentered x hx
    · obtain hidle | ⟨c, q, d, u, hwaits, hempty⟩ := h.points.waiting x hold
      · exact .inl (hidle.step h hsafe hstep (h.ordered.scheduled.allocated _ x hold)
          fun hruns ↦ hidle.1 (hrunning x hx hruns))
      · have hchecked := h.checked_step hsafe hstep htransfer hold hwaits.checked
        refine .inr ⟨c, q, d, u, ⟨hwaits.toEntryAt.step h.files hsafe.2.1 hstep hchecked,
          hmarks x hold hx c q d u hwaits⟩, fun hruns ↦ ?_⟩
        exact (hsupply x hold c q hwaits.checked (hrunning x hx hruns)).trans
          (hempty (hrunning x hx hruns))
    · exact hnew
  marked i u hu hmark := by
    obtain ⟨hold, hmark', hstays⟩ | hnew := hmarked i u hu hmark
    · obtain ⟨x, hx, c, d, hrole, hwaits⟩ := h.points.marked i u hold hmark'
      have hchecked := h.checked_step hsafe hstep htransfer hx hwaits.checked
      exact ⟨x, hstays x hx c d hwaits, c, d, hrole,
        hwaits.toEntryAt.step h.files hsafe.2.1 hstep hchecked, hmark⟩
    · exact hnew
  sleepers x hx := by
    obtain ⟨hwaiting, hold | hidle⟩ := hsleepers x hx
    · obtain ⟨hbefore, hidle⟩ := h.points.sleepers x hold
      exact ⟨hwaiting, hidle.step h hsafe hstep (h.ordered.scheduled.allocated _ x hbefore)
        fun hruns ↦ hidle.1 (hrunning x hwaiting hruns)⟩
    · exact ⟨hwaiting, hidle⟩
  nodup := hnodup

/-- The process that waits with a marked entry is the one with the pid of the entry. -/
theorem TransferInv.waitsAt_of_pid (h : k.TransferInv layout m) {i : Addr × Role}
    (hu : u ∈ k.userNodes i) (hmarked : k.queueUsers.status u = .waiting) (hx : x ∈ k.pcbNodes .waiting)
    (hpid : k.pcbs.pid x = k.queueUsers.pid u) : ∃ c d, c.op.role = i.2 ∧ k.WaitsAt x c i.1 d u := by
  obtain ⟨y, hy, c, d, hrole, hwaits⟩ := h.points.marked i u hu hmarked
  have hsame : k.pcbs.pid y = k.pcbs.pid x := by
    rw [← (hwaits.member h.members h.owners).2, hpid]
  obtain rfl := h.pids.inj y x (h.ordered.scheduled.allocated _ y hy)
    (h.ordered.scheduled.allocated _ x hx) hsame
  exact ⟨c, d, hrole, hwaits⟩

/-- A step that marks and unmarks nobody, and lets no process wait for a queue, or wake from it. -/
theorem TransferInv.waitPoints_other (h : k.TransferInv layout m) (hsafe : k.MessagingSafe a)
    (hstep : k.step a = some k') (htransfer : k.TransferStep a k') (hlists : k.OtherLists a k')
    (hmarks : k.KeepsMarks k')
    (hsupply : ∀ x ∈ k.pcbNodes .waiting, ∀ c q d u, k.WaitsAt x c q d u → k.running = some x →
      k'.supply c.op q ≤ k.supply c.op q) : k'.WaitPoints := by
  obtain ⟨users, henrolled, -⟩ := h.members.enrolled
  have husers : k.UsersOrdered k.userNodes :=
    henrolled.toUsersOrdered.userNodes_eq ▸ henrolled.toUsersOrdered
  have hparks {x : Addr} (hx : k.Parks a x) (hoff : k'.running ≠ some x) : k'.Idle x :=
    ⟨hoff, (hx.user hstep).2⟩
  have hstays {x : Addr} (hx : x ∈ k.pcbNodes .waiting) {c : TransferCall} {q d u : Addr}
      (hwaits : k.WaitsAt x c q d u) : x ∈ k'.pcbNodes .waiting :=
    (hlists.left x hx).resolve_right fun hsleeps ↦
      (h.points.sleepers x hsleeps.1).2.notChecked hwaits.checked
  refine h.waitPoints_of hsafe hstep htransfer ?_ hlists.running ?_ ?_ ?_ ?_ hlists.nodup
  · exact fun x hx ↦ (hlists.entered x hx).imp_right fun hnew ↦ .inl (hparks hnew.1 hnew.2)
  · intro x hx c q hchecked hrunning
    obtain hidle | ⟨c', q', d, u, hwaits, -⟩ := h.points.waiting x hx
    · exact absurd hchecked hidle.notChecked
    · obtain ⟨rfl, rfl⟩ := hchecked.eq hwaits.checked
      exact hsupply x hx c q d u hwaits hrunning
  · intro x hx _ c q d u hwaits
    rw [hmarks.kept u (husers.allocated _ u (hwaits.member h.members h.owners).1)]
    exact hwaits.marked
  · intro i u hu hmark
    obtain hold | hunmarked := hmarks.unmarked i u hu
    · rw [hmarks.kept u (husers.allocated i u hold)] at hmark
      exact .inl ⟨hold, hmark, fun x hx c d hwaits ↦ hstays hx hwaits⟩
    · rw [hunmarked] at hmark
      cases hmark
  · intro x hx
    obtain hold | ⟨hnew, hwaiting⟩ := hlists.sleepers x hx
    · obtain ⟨hwaiting, -⟩ := h.points.sleepers x hold
      refine ⟨(hlists.left x hwaiting).resolve_right fun hgone ↦ hgone.2 hx, .inl hold⟩
    · refine ⟨hwaiting, .inr (hparks hnew fun hruns ↦ ?_)⟩
      obtain hold | ⟨-, hoff⟩ := hlists.entered x hwaiting
      · obtain hidle | ⟨c, q, d, u, hwaits, -⟩ := h.points.waiting x hold
        · exact hidle.1 hnew.1
        · obtain ⟨ret, hret⟩ := (hnew.user hstep).1
          exact hwaits.checked.notUser ret hret
      · exact hoff hruns

/-- A SEND or RECV that waits. -/
theorem TransferInv.waitPoints_waits (h : k.TransferInv layout m) (hinv : k'.MembersInv layout m')
    (howners : k'.OpenedByOwner m') (hsafe : k.MessagingSafe a) (hstep : k.step a = some k')
    (htransfer : k.TransferStep a k') (hrunning : k.running = some p)
    (hcontext : k.pcbs.cpuState p = .transferCall c q)
    (hret : k'.pcbs.syscallRetvalue p = c.op.failure) (hsupply : k'.supply = k.supply)
    (hempty : k.supply c.op q ≤ 0) (hentries : k.queueEntries p c.fd = some (some d))
    (hentry : k.descriptors.rwn d c.op.role = some u)
    (hnodes : k'.pcbNodes = parkedNodes k.pcbNodes .waiting p) (hsame : k'.running = k.running)
    (hsleepers : k'.sleepers = k.sleepers)
    (hstatus : k'.queueUsers.status = update k.queueUsers.status u .waiting)
    (husers : k'.userNodes = k.userNodes) : k'.WaitPoints := by
  have hwaits (x : Addr) :
      x ∈ k'.pcbNodes .waiting ↔ x ∈ k.pcbNodes .waiting ∨ (x = p ∧ p ∉ k.pcbNodes .waiting) := by
    rw [hnodes, mem_parkedNodes]
    simp
  have hmark {v : Addr} (hv : k.queueUsers.status v = .waiting) : k'.queueUsers.status v = .waiting := by
    rw [hstatus, Function.update_apply]
    split_ifs <;> trivial
  have hnew : k'.WaitsAt p c q d u := by
    have hchecked : k'.Checked p c q := by
      obtain hafter | ⟨-, -, -, -, hmoved⟩ := Checked.step (.inl hcontext) h.ordered
        h.members.owns.noShutdown h.called hsafe.2.1.notShutdown hstep
        (h.ordered.scheduled.running_allocated p hrunning)
      · exact hafter
      · exact absurd hret hmoved
    obtain ⟨d', hd', hfd', hvalue⟩ := h.refers p c q (by rw [hcontext]; rfl)
    obtain ⟨hd, hfd⟩ := descriptorByFd_some h.files hentries
    obtain rfl := h.files.fd_inj p d hd d' hd' (hfd.trans hfd'.symm)
    have hbefore : k.EntryAt p c q d u := ⟨.inl hcontext, hd, hfd, hvalue, hentry⟩
    exact ⟨hbefore.step h.files hsafe.2.1 hstep hchecked, by rw [hstatus, Function.update_self]⟩
  refine h.waitPoints_of hsafe hstep htransfer ?_ (fun x _ hruns ↦ hsame.symm.trans hruns)
    (fun x _ c q _ _ ↦ (congrFun (congrFun hsupply _) _).le) ?_ ?_ ?_ (hsleepers ▸ h.points.nodup)
  · intro x hx
    obtain hold | ⟨rfl, -⟩ := (hwaits x).mp hx
    · exact .inl hold
    · exact .inr (.inr ⟨c, q, d, u, hnew, fun _ ↦ hsupply ▸ hempty⟩)
  · exact fun x _ _ c q d u hold ↦ hmark hold.marked
  · intro i v hv hmarked
    by_cases hvu : v = u
    · subst hvu
      refine .inr ⟨p, (hwaits p).mpr ?_, c, d, ?_⟩
      · by_cases hp : p ∈ k.pcbNodes .waiting
        · exact .inl hp
        · exact .inr ⟨rfl, hp⟩
      · obtain ⟨users, henrolled, -⟩ := hinv.enrolled
        have hmember := (hnew.member hinv howners).1
        rw [henrolled.toUsersOrdered.userNodes_eq] at hv hmember
        obtain rfl := henrolled.toUsersOrdered.lists.disjoint _ _ v hv hmember
        exact ⟨rfl, hnew⟩
    · rw [hstatus, Function.update_of_ne hvu] at hmarked
      exact .inl ⟨husers ▸ hv, hmarked, fun x hx _ _ _ ↦ (hwaits x).mpr (.inl hx)⟩
  · intro x hx
    rw [hsleepers] at hx
    exact ⟨(hwaits x).mpr (.inl (h.points.sleepers x hx).1), .inl hx⟩

/-- A WAKEUP that wakes process `x`. -/
theorem TransferInv.waitPoints_wakes (h : k.TransferInv layout m) (hsafe : k.MessagingSafe a)
    (hstep : k.step a = some k') (htransfer : k.TransferStep a k') {i : Addr × Role}
    (hx : x ∈ k.pcbNodes .waiting) (hu : u ∈ k.userNodes i) (hmarked : k.queueUsers.status u = .waiting)
    (hpid : k.pcbs.pid x = k.queueUsers.pid u) (hsupply : k'.supply = k.supply)
    (hnodes : k'.pcbNodes = wokenNodes k.pcbNodes (k.pcbNodes .ready) [x] [])
    (hsame : k'.running = k.running) (hsleepers : k'.sleepers = k.sleepers)
    (hstatus : k'.queueUsers.status = update k.queueUsers.status u .running)
    (husers : k'.userNodes = k.userNodes) : k'.WaitPoints := by
  have hwaits (y : Addr) : y ∈ k'.pcbNodes .waiting ↔ y ∈ k.pcbNodes .waiting ∧ y ≠ x := by
    rw [hnodes, wokenNodes, Function.update_of_ne (by decide), Function.update_self, List.mem_filter]
    simp
  obtain ⟨c, d, -, hwoken⟩ := h.waitsAt_of_pid hu hmarked hx hpid
  refine h.waitPoints_of hsafe hstep htransfer (fun y hy ↦ .inl ((hwaits y).mp hy).1)
    (fun y _ hruns ↦ hsame.symm.trans hruns) (fun y _ c q _ _ ↦ (congrFun (congrFun hsupply _) _).le)
    ?_ ?_ ?_ (hsleepers ▸ h.points.nodup)
  · intro y hy hy' c' q' d' v hwaits'
    have hvu : v ≠ u := by
      rintro rfl
      have hpids : k.pcbs.pid y = k.pcbs.pid x :=
        (hwaits'.member h.members h.owners).2.symm.trans hpid.symm
      exact ((hwaits y).mp hy').2 (h.pids.inj y x (h.ordered.scheduled.allocated _ y hy)
        (h.ordered.scheduled.allocated _ x hx) hpids)
    rw [hstatus, Function.update_of_ne hvu]
    exact hwaits'.marked
  · intro j v hv hmarked'
    have hvu : v ≠ u := by
      rintro rfl
      rw [hstatus, Function.update_self] at hmarked'
      cases hmarked'
    rw [hstatus, Function.update_of_ne hvu] at hmarked'
    refine .inl ⟨husers ▸ hv, hmarked', fun y hy c' d' hwaits' ↦ (hwaits y).mpr ⟨hy, ?_⟩⟩
    rintro rfl
    exact hvu (hwaits'.toEntryAt.eq hwoken.toEntryAt h.files).2.2
  · intro y hy
    rw [hsleepers] at hy
    obtain ⟨hwaiting, hidle⟩ := h.points.sleepers y hy
    refine ⟨(hwaits y).mpr ⟨hwaiting, ?_⟩, .inl hy⟩
    rintro rfl
    exact hidle.notChecked hwoken.checked

theorem Checked.attributeWrite_eq (h : k.Checked x c q) (hrunning : k.running = some x) (a : Action) :
    k.attributeWrite a = none := by
  cases a with
  | statement =>
    obtain hcontext | hcontext | ⟨hcontext, -⟩ := h <;>
      simp [attributeWrite, Kernel.context, hrunning, hcontext]
  | _ => rfl

/-- A step keeps the points of the processes that wait. -/
theorem TransferInv.waitPoints_step (h : k.TransferInv layout m) (hinv : k'.MembersInv layout m')
    (howners : k'.OpenedByOwner m') (hsafe : k.MessagingSafe a) (hstep : k.step a = some k')
    (htransfer : k.TransferStep a k') : k'.WaitPoints := by
  have hsame (hsame : k.SameWaits k')
      (hsupply : ∀ x ∈ k.pcbNodes .waiting, ∀ c q d u, k.WaitsAt x c q d u → k.running = some x →
        k'.supply c.op q ≤ k.supply c.op q) : k'.WaitPoints := by
    refine h.waitPoints_other hsafe hstep htransfer (.of_same hsame.running (by rw [hsame.nodes])
      (fun x hx ↦ by rwa [hsame.nodes]) hsame.sleepers h.points.nodup) ⟨fun u _ ↦ by rw [hsame.status],
        fun i u hu ↦ .inl (by rwa [← hsame.users])⟩ hsupply
  cases id htransfer with
  | moved p q c _ hrunning hcontext _ hroom _ hframe =>
    refine hsame hframe fun x hx c' q' d u hwaits hruns ↦ ?_
    obtain rfl := Option.some.inj (hrunning.symm.trans hruns)
    obtain ⟨rfl, rfl⟩ := hwaits.checked.eq (.inl hcontext)
    exact absurd hroom (h.empty_of_running hx hwaits.checked hruns).not_gt
  | refused p q c _ _ _ _ hsupply hframe | passes p q c _ _ _ hsupply _ hframe =>
    exact hsame hframe fun x _ c' q' _ _ _ _ ↦ by rw [hsupply]
  | waits p q d u c _ hrunning hcontext hret hsupply hempty hentries hentry hnodes hruns hsleepers hstatus
      husers =>
    exact h.waitPoints_waits hinv howners hsafe hstep htransfer hrunning hcontext hret hsupply hempty
      hentries hentry hnodes hruns hsleepers hstatus husers
  | wakes p q x u c _ _ _ hsupply hwaiting hmember hmarked hpid hnodes hruns hsleepers hstatus husers =>
    exact h.waitPoints_wakes hsafe hstep htransfer hwaiting hmember hmarked hpid hsupply hnodes hruns
      hsleepers hstatus husers
  | other hquiet hlists hmarks hsupply =>
    refine h.waitPoints_other hsafe hstep htransfer (hlists.otherLists h.ordered hquiet hsafe.noExit
      h.points.nodup fun x hx ↦ (h.points.sleepers x hx).2.1) hmarks fun x hx c q d u hwaits hruns ↦ ?_
    obtain hle | hfresh | ⟨-, newVal, hwrite, -⟩ := hsupply c.op q
    · exact hle
    · exact absurd (hwaits.queue_allocated h.members.owns.owned) hfresh
    · rw [hwaits.checked.attributeWrite_eq hruns] at hwrite
      cases hwrite

theorem TransferInv.transferStep (h : k.TransferInv layout m) (hsafe : k.MessagingSafe a)
    (hstep : k.step a = some k') : k.TransferStep a k' := by
  obtain ⟨nodes, hstored⟩ := h.stored
  exact Kernel.transferStep h.ordered h.members hstored h.refers hsafe hstep

theorem TransferInv.step (h : k.TransferInv layout m) (hsafe : k.MessagingSafe a)
    (hstep : k.step a = some k') : k'.TransferInv layout (noteOpening m k a k') := by
  obtain ⟨failed, hlists⟩ := h.lists
  obtain ⟨nodes, hstored⟩ := h.stored
  have hshutdown := hsafe.2.1.notShutdown
  have hnumbers := step_numbers h.ordered hsafe.1 hsafe.noExit hstep
  have hmembers := h.members.step hsafe.2.1 hstep
  have howners := h.owners.step h.members hsafe.2.1 hsafe.noExit hnumbers hstep
  exact {
    lists := ⟨_, hlists.step hsafe.1 hstep⟩
    members := hmembers
    stored := hstored.step hshutdown hstep
    called := called_step h.members.owns.noShutdown h.called hshutdown hstep
    owners := howners
    pids := h.pids.step hnumbers
    refers := refers_step h.members.owns.noShutdown h.files hsafe.2.1 h.refers hstep
    points := h.waitPoints_step hmembers howners hsafe hstep (h.transferStep hsafe hstep) }

end Step

/-! ### Marks and processes -/

/-- A process is in `waiting_list` because it sleeps or waits for a child, or because of a queue; and those that
wait for a queue and the entries that are marked `Waiting` belong together, one to one. -/
structure MarksMatch (k : Kernel) : Prop where
  process : ∀ i, ∀ u ∈ k.userNodes i, k.queueUsers.status u = .waiting →
    ∃! x, x ∈ k.pcbNodes .waiting ∧ k.pcbs.pid x = k.queueUsers.pid u ∧
      ∃ c, c.op.role = i.2 ∧ k.Checked x c i.1
  entry : ∀ x ∈ k.pcbNodes .waiting, k.Idle x ∨ ∃ c q, k.Checked x c q ∧
    ∃ u ∈ k.userNodes (q, c.op.role), k.queueUsers.status u = .waiting ∧ k.queueUsers.pid u = k.pcbs.pid x ∧
      ∀ i, ∀ v ∈ k.userNodes i, k.queueUsers.status v = .waiting → k.queueUsers.pid v = k.pcbs.pid x → v = u

theorem TransferInv.marksMatch (h : k.TransferInv layout m) : k.MarksMatch where
  process i u hu hmarked := by
    obtain ⟨x, hx, c, d, hrole, hwaits⟩ := h.points.marked i u hu hmarked
    have hpid := (hwaits.member h.members h.owners).2
    refine ⟨x, ⟨hx, hpid.symm, c, hrole, hwaits.checked⟩, ?_⟩
    rintro y ⟨hy, hsame, -⟩
    exact h.pids.inj y x (h.ordered.scheduled.allocated _ y hy) (h.ordered.scheduled.allocated _ x hx)
      (hsame.trans hpid)
  entry x hx := by
    refine (h.points.waiting x hx).imp_right ?_
    rintro ⟨c, q, d, u, hwaits, -⟩
    obtain ⟨hmember, hpid⟩ := hwaits.member h.members h.owners
    refine ⟨c, q, hwaits.checked, u, hmember, hwaits.marked, hpid, fun i v hv hmarked hsame ↦ ?_⟩
    obtain ⟨c', d', -, hwaits'⟩ := h.waitsAt_of_pid hv hmarked hx hsame.symm
    exact (hwaits'.toEntryAt.eq hwaits.toEntryAt h.files).2.2

end Kernel

/-! ### Whole runs -/

theorem Layout.boot_transferInv (layout : Layout) : layout.boot.TransferInv layout fun _ ↦ none := by
  have hnobody (p : Addr) : ¬ layout.boot.pcbs.allocator.Allocated p := by
    intro hp
    obtain hruns | ⟨i, hmem⟩ := layout.boot_scheduled.covered p hp
    · cases hruns
    · exact absurd hmem List.not_mem_nil
  exact
    { lists := ⟨false, layout.boot_listsInv⟩
      members := layout.boot_membersInv
      stored := ⟨_, layout.boot_stored⟩
      called := fun _ _ _ hcontext ↦ by cases hcontext
      owners := fun _ d hd ↦ absurd hd List.not_mem_nil
      pids := ⟨fun p hp ↦ absurd hp (hnobody p), fun p _ hp ↦ absurd hp (hnobody p)⟩
      refers := fun _ _ _ hcontext ↦ by cases hcontext
      points :=
        { waiting := fun x hx ↦ absurd hx List.not_mem_nil
          marked := fun _ u hu ↦ absurd hu List.not_mem_nil
          sleepers := fun x hx ↦ absurd hx List.not_mem_nil
          nodup := List.nodup_nil } }

/-- In every state of the runs, the marks in the queues are those of the processes that wait for them. -/
theorem marksMatch_of_safe (layout : Layout) {actions : List Action} {k : Kernel}
    (hsafe : Runs.Meets Kernel.step Kernel.MessagingSafe layout.boot actions)
    (hrun : Runs.run Kernel.step layout.boot actions = some k) : k.MarksMatch := by
  obtain ⟨m, hinv⟩ : ∃ m, k.TransferInv layout m := by
    refine Runs.run_invariant (P := fun k ↦ ∃ m, Kernel.TransferInv layout k m) ?_
      ⟨_, layout.boot_transferInv⟩ hsafe hrun
    rintro k a k' ⟨m, hinv⟩ hsafe hstep
    exact ⟨_, hinv.step hsafe hstep⟩
  exact hinv.marksMatch

/-- The first process waits for its two children. One of them makes a queue and waits for a message; and the
other one opens the queue and sends one, up to its WAKEUP. -/
def readerWaits : List Action :=
  [.start, .syscall .spawn, .syscall .spawn, .syscall (.wait 0 none)] ++
    .call (.openQueue 0 0o11) :: List.replicate 4 .statement ++
    .call (.receive 0 (some 0x900000) 128) :: List.replicate 7 .statement ++
    .call (.openQueue 0 0o2) :: List.replicate 4 .statement ++
    .call (.send 0 (some 0x800000) 2) :: List.replicate 5 .statement

/-- The first process waits for its children, and the reader for a message. -/
theorem marksMatch_of_safe_readerWaits : ∃ k,
    Runs.run Kernel.step sampleLayout.boot readerWaits = some k ∧ k.MarksMatch ∧
      k.pcbNodes .waiting = [0x400000, 0x404488] ∧ k.userNodes (0x1900000, .reader) = [0x1F00000] ∧
      k.queueUsers.status 0x1F00000 = .waiting := by
  have hends : ∃ k ∈ Runs.run Kernel.step sampleLayout.boot readerWaits,
      k.pcbNodes .waiting = [0x400000, 0x404488] ∧ k.userNodes (0x1900000, .reader) = [0x1F00000] ∧
        k.queueUsers.status 0x1F00000 = .waiting := by decide +kernel
  obtain ⟨k, hrun, hwaiting⟩ := hends
  exact ⟨k, hrun, marksMatch_of_safe sampleLayout (by decide +kernel) hrun, hwaiting⟩

end DisastrOS
