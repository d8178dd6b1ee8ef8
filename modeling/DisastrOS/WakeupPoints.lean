import DisastrOS.NonBlocking
import DisastrOS.QueuePermissions
import DisastrOS.Renumbering

/-!
# Points of the processes that wait for a queue

What the processes that wait for a queue are known by, and what each step does to it: the pids
(`step_numbers`), the pid that is noted of an opening (`OpenedByOwner.step`), the queue that the descriptor
of a call refers to (`refers_step`), and the marks of the users of the queues (`MembersInv.keepsMarks`).
-/

set_option autoImplicit false
set_option relaxedAutoImplicit false

namespace DisastrOS

open LinkedLists PoolAllocator
open Function (update)

namespace Kernel

variable {layout : Layout} {k k' : Kernel} {a : Action} {m : Addr → Option Opening}
  {users : Addr × Role → List Addr} {p q d u : Addr} {fd : ℤ}

/-! ### Pids -/

/-- What a step other than an exit does to the pids. -/
inductive NumberStep (k k' : Kernel) : Prop
  | same (hpid : k'.pcbs.pid = k.pcbs.pid) (hlast : k'.lastPid = k.lastPid)
    (hpool : ∀ x, k'.pcbs.allocator.Allocated x → k.pcbs.allocator.Allocated x)
  | create (child : Addr) (hfresh : ¬ k.pcbs.allocator.Allocated child)
    (hpid : k'.pcbs.pid = update k.pcbs.pid child k.lastPid) (hlast : k'.lastPid = k.lastPid + 1)
    (hpool : ∀ x, k'.pcbs.allocator.Allocated x → x = child ∨ k.pcbs.allocator.Allocated x)
    (hfiles : k'.files = k.files.reset child)

/-- The numbers of the processes, with the pool of their blocks. -/
def numbers (k : Kernel) : (Addr → ℤ) × ℤ × PoolAllocator :=
  (k.pcbs.pid, k.lastPid, k.pcbs.allocator)

theorem NumberStep.of_numbers (h : k'.numbers = k.numbers) : k.NumberStep k' := by
  obtain ⟨hpid, hrest⟩ := Prod.mk.inj h
  obtain ⟨hlast, hpool⟩ := Prod.mk.inj hrest
  exact .same hpid hlast fun x hx ↦ hpool ▸ hx

theorem step_numbers (hordered : k.Ordered) (hsafe : k.ListsSafe a)
    (hexit : ∀ value, k.request a ≠ some (.exit value)) (hstep : k.step a = some k') :
    k.NumberStep k' := by
  have hpool : k.pcbs.allocator.Ok := hordered.scheduled.pool
  have hcreate {k₁ : Kernel} {child : Addr} {pool : PoolAllocator}
      (hget : k.pcbs.allocator.getBlock = (some child, pool))
      (hpid : k₁.pcbs.pid = update k.pcbs.pid child k.lastPid) (hlast : k₁.lastPid = k.lastPid + 1)
      (hpool' : k₁.pcbs.allocator = pool) (hfiles : k₁.files = k.files.reset child) :
      k.NumberStep k₁ := by
    obtain ⟨-, -, hfresh, -, hallocated⟩ := getBlock_some hpool hget
    exact .create child hfresh hpid hlast (fun x hx ↦ (hallocated x).mp (hpool' ▸ hx)) hfiles
  obtain ⟨rfl, hstart⟩ | ⟨rfl, htimer⟩ | ⟨x, byte, rfl, -, rfl⟩ | ⟨c, p, ret, rfl, -, -, rfl⟩ |
    ⟨c, p, next, hp, hcalls, hcall⟩ | ⟨p, rfl, hp, -, hrun⟩ := step_cases hstep
  · obtain ⟨-, p, pool, hget, rfl⟩ := startProcess_cases hstart
    exact hcreate hget rfl rfl rfl rfl
  · obtain ⟨p, -, hschedule⟩ := Option.bind_eq_some_iff.mp htimer
    refine .of_numbers ?_
    rw [internalSchedule_eq hschedule]
    rfl
  · exact .of_numbers rfl
  · exact .of_numbers rfl
  · have hrequest := hcalls.request hp
    have hnew {child : Addr} {k₁ : Kernel} (h₁ : (k.trap p next c).newProcess = some (child, k₁)) :
        k.NumberStep k₁ := by
      obtain ⟨_, pool, _, _, -, hget, -, -, rfl⟩ := newProcess_cases h₁
      exact hcreate hget rfl rfl rfl rfl
    cases c with
    | preempt =>
      refine .of_numbers ?_
      rw [internalSchedule_eq hcall]
      rfl
    | fork | spawn =>
      obtain ⟨⟨child, k₁⟩, h₁, hk'⟩ := Option.bind_eq_some_iff.mp hcall
      obtain rfl := Option.some.inj hk'
      cases hnew h₁ with
      | same hpid hlast hpool => exact .same hpid hlast hpool
      | create child hfresh hpid hlast hpool hfiles => exact .create child hfresh hpid hlast hpool hfiles
    | wait pid result =>
      obtain ⟨p₁, hp₁, ⟨-, rfl⟩ | ⟨_, hchildren, hawaited, ⟨x, rfl, hzombie, rfl⟩ |
        ⟨-, ⟨-, rfl⟩ | ⟨-, -, rfl⟩⟩⟩⟩ := internalWait_cases hcall
      · exact .of_numbers rfl
      · obtain rfl := Option.some.inj (hp.symm.trans hp₁)
        refine .same rfl rfl fun y hy ↦ ?_
        have hsyscall : k.SyscallSafe p (.wait pid result) := by
          have hall := hsafe p hp
          cases a with
          | timer => cases hrequest
          | start | write | syscall | call | statement => exact hall _ hrequest
        have hmem : k.pcbPtrs.pcb x ∈ k.pcbNodes .zombie := hsyscall.2 _ ?_
        · exact ((hpool.release (hordered.scheduled.allocated _ _ hmem)).2.2 y).mp hy |>.2
        · have hsearch : ∀ bound awaited start,
              (k.trap p next (.wait pid result)).awaitedPcbPtr pid bound awaited start =
                k.awaitedPcbPtr pid bound awaited start := by
            intros
            apply awaitedPcbPtr_congr <;> rfl
          have hfound : k.awaitedPcbPtr pid walkBound none (k.pcbs.children p).first = some (some x) :=
            (hsearch _ _ _).symm.trans hawaited
          have hstatus : k.pcbs.status (k.pcbPtrs.pcb x) = .zombie := hzombie
          simp [awaitedZombie, hfound, hstatus]
      · exact .of_numbers rfl
      · exact .of_numbers rfl
    | exit value => exact absurd hrequest (hexit value)
    | sleep cycles =>
      obtain ⟨_, -, rfl | ⟨t, k₁, hadd, rfl⟩⟩ := internalSleep_cases hcall
      · exact .of_numbers rfl
      · refine .of_numbers ?_
        have hframe := timerListAdd_eq hadd
        have hnumbers : k₁.numbers = k.numbers := by
          rw [hframe]
          rfl
        exact hnumbers
    | openResource id type mode =>
      refine .of_numbers ?_
      rw [internalOpenResource_eq hcall]
      rfl
    | closeResource fd =>
      refine .of_numbers ?_
      rw [internalCloseResource_eq hcall]
      rfl
    | destroyResource id =>
      refine .of_numbers ?_
      rw [internalDestroyResource_eq hcall]
      rfl
    | shutdown => exact absurd hrequest hsafe.no_shutdown
    | sendMsg msg fd =>
      obtain ⟨_, _, _, -, -, -, ⟨-, haccept⟩ | ⟨-, hwait⟩⟩ := internalSendMessage_cases hcall
      · refine .of_numbers ?_
        rw [acceptMessage_eq haccept]
        rfl
      · obtain ⟨_, _, -, -, rfl⟩ := waitForQueue_eq hwait
        exact .of_numbers rfl
    | recvMsg msg fd =>
      obtain ⟨_, _, -, -, ⟨-, rfl⟩ | ⟨_, _, -, -, ⟨_, k₁, hpop, hdeliver⟩ | ⟨k₁, hpop, hwait⟩⟩⟩ :=
        internalRecvMessage_cases hcall
      · exact .of_numbers rfl
      · refine .of_numbers ?_
        rw [deliverMessage_eq hdeliver, ← (Prod.mk.inj hpop).2]
        rfl
      · obtain ⟨_, _, -, -, rfl⟩ := waitForQueue_eq hwait
        obtain ⟨-, rfl⟩ := popMessage_eq_none hpop
        exact .of_numbers rfl
    | wakeupQueue check q users =>
      obtain ⟨_, -, ⟨_, _, -, -, rfl⟩ | ⟨-, rfl⟩⟩ := internalWakeUpQueue_cases hcall <;>
        exact .of_numbers rfl
    | openQueue id fd mode =>
      refine .of_numbers ?_
      rw [internalOpenQueue_eq hcall]
      rfl
  · refine .of_numbers ?_
    rw [runStatement_eq hrun]
    rfl

/-! ### The pid that is noted -/

/-- A descriptor that a process has after a step is one that it had, or new. -/
theorem mem_descriptorNodes_step (hok : k.files.Ok) (hsafe : k.MembersSafe a)
    (hexit : ∀ value, k.request a ≠ some (.exit value)) (hstep : k.step a = some k')
    (hd : d ∈ k'.files.descriptorNodes p) :
    d ∈ k.files.descriptorNodes p ∨ ¬ k.descriptors.allocator.Allocated d := by
  cases step_files hsafe.notShutdown hstep with
  | same hfiles =>
    rw [hfiles] at hd
    exact .inl hd
  | newProcess p' _ hfiles =>
    rw [hfiles, (Files.Holds.reset hok p').descriptorNodes_eq, Function.update_apply] at hd
    split_ifs at hd
    · exact absurd hd List.not_mem_nil
    · exact .inl hd
  | call p' c next hp hcalls hkind hcall =>
    have hrequest := hcalls.request hp
    have hc := hsafe c hrequest
    cases c with
    | openResource id type mode =>
      have htrap : (k.trap p' next (.openResource id type mode)).files.Ok := hok
      obtain ⟨p₁, hp₁, hopens⟩ := internalOpenResource_files htrap hcall
      obtain rfl := Option.some.inj (hp.symm.trans hp₁)
      have hjoins {f : Files} {r d' x : Addr} {pool ptrPool : PoolAllocator} (hf : f.Ok)
          (hr : r ∈ f.resourceNodes) (hget : f.descriptors.allocator.getBlock = (some d', pool))
          (hgetPtr : f.descriptorPtrs.allocator.getBlock = (some x, ptrPool))
          (hd : d ∈ (f.join p' r d' x pool ptrPool).descriptorNodes p) :
          d ∈ f.descriptorNodes p ∨ ¬ f.descriptors.allocator.Allocated d := by
        obtain ⟨-, -, hfree, -⟩ := getBlock_some hf.descriptorPool hget
        rw [(Files.Holds.join hf hr hget hgetPtr).descriptorNodes_eq, Function.update_apply] at hd
        split_ifs at hd with hsame
        · subst hsame
          rw [List.mem_append, List.mem_singleton] at hd
          obtain hd | rfl := hd
          · exact .inl hd
          · exact .inr hfree
        · exact .inl hd
      cases hopens with
      | failed hfiles | created _ _ _ _ _ hfiles =>
        rw [hfiles] at hd
        exact .inl hd
      | joined r d' x pool ptrPool hfound _ hget hgetPtr hfiles =>
        rw [hfiles] at hd
        exact hjoins hok (resourceById_some hok hfound).1 hget hgetPtr hd
      | createdJoined r d' x resPool pool ptrPool hnone _ hnew hget hgetPtr hfiles =>
        have hcreated := Files.Holds.create hok id type hnew fun r' hr' ↦ resourceById_none hok hnone hr'
        have hr : r ∈ (k.files.create r resPool id type).resourceNodes := by
          rw [hcreated.resourceNodes_eq]
          exact List.mem_append_right _ (List.mem_singleton_self r)
        rw [hfiles] at hd
        exact hjoins (f := k.files.create r resPool id type) hcreated.ok hr hget hgetPtr hd
    | closeResource fd =>
      obtain ⟨p₁, hp₁, ⟨-, hfiles, -⟩ | ⟨d', x, hfound, hptr, hfiles, -⟩⟩ :=
        internalCloseResource_files hcall <;> rw [hfiles] at hd
      · exact .inl hd
      · obtain rfl := Option.some.inj (hp.symm.trans hp₁)
        have hdrop := Files.Holds.drop hok (descriptorByFd_some hok hfound).1 hptr
        have hd' : d ∈ (k.files.drop p' d' (k.files.descriptors.resource d') x).descriptorNodes p := hd
        rw [hdrop.descriptorNodes_eq, Function.update_apply] at hd'
        split_ifs at hd' with hsame
        · subst hsame
          exact .inl (List.mem_of_mem_erase hd')
        · exact .inl hd'
    | openQueue id fd mode =>
      obtain ⟨p₁, hp₁, hopens⟩ := internalOpenQueue_files hcall
      obtain rfl := Option.some.inj (hp.symm.trans hp₁)
      obtain ⟨rwn, value, hfiles⟩ := hopens.files_of_success (hc.2 p' hp k' hstep)
      rw [hfiles] at hd
      exact .inl hd
    | exit value => exact absurd hrequest (hexit value)
    | destroyResource => exact hc.elim
    | _ => cases hkind

/-- What is noted of a descriptor is an old note, or that of the process that opens it. -/
theorem noteOpening_some {o : Opening} (ho : noteOpening m k a k' d = some o) :
    (∃ o', m d = some o' ∧ o.pid = o'.pid) ∨
      ∃ p fd, k.running = some p ∧ k.descriptorByFd p fd = some (some d) ∧ o.pid = k.pcbs.pid p := by
  unfold noteOpening at ho
  split_ifs at ho
  split at ho
  · exact .inl ⟨o, ho, rfl⟩
  · split at ho
    · split_ifs at ho with hfound
      · obtain rfl := Option.some.inj ho
        exact .inr ⟨_, _, ‹_›, hfound.2, rfl⟩
      · exact .inl ⟨o, ho, rfl⟩
    · split_ifs at ho
      · obtain ⟨o', ho', rfl⟩ := Option.map_eq_some_iff.mp ho
        exact .inl ⟨o', ho', rfl⟩
      · exact .inl ⟨o, ho, rfl⟩
    · exact .inl ⟨o, ho, rfl⟩

/-- The openings of the descriptors of a process are noted with its pid. -/
def OpenedByOwner (k : Kernel) (m : Addr → Option Opening) : Prop :=
  ∀ p, ∀ d ∈ k.files.descriptorNodes p, ∀ o, m d = some o → o.pid = k.pcbs.pid p

theorem OpenedByOwner.step (h : k.OpenedByOwner m) (hinv : k.MembersInv layout m)
    (hsafe : k.MembersSafe a) (hexit : ∀ value, k.request a ≠ some (.exit value))
    (hnumbers : k.NumberStep k') (hstep : k.step a = some k') :
    k'.OpenedByOwner (noteOpening m k a k') := by
  intro p d hd o ho
  have hok : k.files.Ok := hinv.owns.owned.ok
  obtain ⟨users, henrolled, -⟩ := hinv.enrolled
  have hpid : k'.pcbs.pid p = k.pcbs.pid p := by
    cases hnumbers with
    | same hpid => rw [hpid]
    | create child _ hpid _ _ hfiles =>
      rw [hpid, Function.update_of_ne]
      rintro rfl
      rw [hfiles, (Files.Holds.reset hok p).descriptorNodes_eq, Function.update_self] at hd
      exact absurd hd List.not_mem_nil
  rw [hpid]
  have hbefore := mem_descriptorNodes_step hok hsafe hexit hstep hd
  obtain ⟨o', ho', hsame⟩ | ⟨p', fd, -, hfound, hsame⟩ := noteOpening_some ho
  · obtain hd | hfree := hbefore
    · exact hsame.trans (h p d hd o' ho')
    · exact absurd (henrolled.descriptor d o' ho').1 hfree
  · obtain ⟨hd', -⟩ := descriptorByFd_some hok hfound
    obtain hd | hfree := hbefore
    · have hp : p = p' := by
        by_contra hne
        exact hok.disjoint hne hd hd'
      rw [hp]
      exact hsame
    · exact absurd (hok.descriptor_allocated p' d hd') hfree

end Kernel

/-! ### The queue of a call -/

/-- The system call can mark the users of a queue as waiting, or take a mark away. -/
def Syscall.marksUsers : Syscall → Bool
  | .sendMsg .. | .recvMsg .. | .wakeupQueue .. => true
  | _ => false

theorem TransferCall.marksUsers_syscall (c : TransferCall) : c.syscall.marksUsers = true := by
  unfold TransferCall.syscall
  cases c.op <;> rfl

/-- A call that has found its queue. -/
def Context.transferAt : Context → Option (TransferCall × Addr)
  | .transferSize c q | .transferFind c q | .transferRoom c q _ | .transferCall c q | .transferResult c q
  | .transferRetry c q | .transferWake c q => some (c, q)
  | _ => none

namespace Kernel

variable {layout : Layout} {k k' : Kernel} {a : Action} {m : Addr → Option Opening}
  {users : Addr × Role → List Addr} {p q d u : Addr} {fd : ℤ}

/-- The descriptor of a call still refers to the queue that was found for it. -/
theorem refers_step (hnoShutdown : k.NoShutdown) (hok : k.files.Ok) (hsafe : k.MembersSafe a)
    (h : ∀ p c q, (k.pcbs.cpuState p).transferAt = some (c, q) → k.RefersTo p c.fd q)
    (hstep : k.step a = some k') (p : Addr) (c : TransferCall) (q : Addr)
    (hat : (k'.pcbs.cpuState p).transferAt = some (c, q)) : k'.RefersTo p c.fd q := by
  have hshutdown := hsafe.notShutdown
  have hkeeps (hrefers : k.RefersTo p c.fd q)
      (hquiet : ∀ call, k.request a = some call → call.touchesFiles = true → k.running ≠ some p) :
      k'.RefersTo p c.fd q := by
    obtain hsame | ⟨-, huser | hfork⟩ := step_descriptors hok hshutdown hstep hquiet
    · exact hrefers.of_sameFor hsame
    · rw [huser] at hat
      cases hat
    · exact (hsafe _ hfork).elim
  obtain ⟨hsame, hquiet⟩ | ⟨ret, hret⟩ | ⟨call, hentry⟩ | ⟨call, next, hnext, hp, hcalls, -⟩ |
    ⟨next, hnext, hp, rfl, hleads⟩ := (step_contexts hnoShutdown hshutdown hstep).at p
  · rw [hsame] at hat
    refine hkeeps (h p c q hat) fun call hrequest _ hp ↦ hquiet ⟨hp, call, ?_⟩
    obtain ⟨next, hcalls, -⟩ := step_syscall hp hrequest hstep
    exact ⟨next, hcalls⟩
  · rw [hret] at hat
    cases hat
  · rw [hentry] at hat
    cases call <;> cases hat
  · -- the calls of a SEND, a RECV or a PREEMPT
    rw [hnext] at hat
    have hrequest := hcalls.request hp
    have hrest (hkind : call.touchesFiles = false) : ∀ call', k.request a = some call' →
        call'.touchesFiles = true → k.running ≠ some p := by
      intro call' hrequest' hkind'
      obtain rfl := Option.some.inj (hrequest.symm.trans hrequest')
      exact absurd (hkind'.symm.trans hkind) Bool.noConfusion
    cases hcalls with
    | user _ ret => cases hat
    | statement _ _ hpoint =>
      generalize hcontext : k.pcbs.cpuState p = context at hpoint
      cases context with
      | transferCall c' q' =>
        obtain ⟨rfl, rfl⟩ := Prod.mk.inj (Option.some.inj hpoint)
        obtain ⟨rfl, rfl⟩ := Prod.mk.inj (Option.some.inj hat)
        exact hkeeps (h p c' q' (by rw [hcontext]; rfl)) (hrest c'.touchesFiles_syscall)
      | transferRetry c' q' =>
        obtain ⟨rfl, rfl⟩ := Prod.mk.inj (Option.some.inj hpoint)
        obtain ⟨rfl, rfl⟩ := Prod.mk.inj (Option.some.inj hat)
        exact hkeeps (h p c' q' (by rw [hcontext]; rfl)) (hrest rfl)
      | _ =>
        simp only [Context.request, Option.some.injEq, Prod.mk.injEq, reduceCtorEq] at hpoint <;>
          obtain ⟨-, rfl⟩ := hpoint <;> cases hat
  · have hquiet (hrequest : (k.pcbs.cpuState p).request = none) :
        ∀ call, k.request .statement = some call → call.touchesFiles = true → k.running ≠ some p := by
      intro call hcall _ _
      rw [request, context, hp, Option.map_some, Option.bind_some, hrequest] at hcall
      cases hcall
    have hpoint := h p
    rw [hnext] at hat
    generalize k.pcbs.cpuState p = context at hleads hquiet hpoint
    cases hleads with
    | transfer c' q' hqueue =>
      obtain ⟨rfl, rfl⟩ := Prod.mk.inj (Option.some.inj hat)
      exact hkeeps (refersTo_of_queueByFd hok hqueue) (hquiet rfl)
    | transferSize | transferFind | transferRoom | transferRetry | transferWake =>
      exact hkeeps (hpoint c q hat) (hquiet rfl)
    | _ => cases hat

/-! ### The marks of the users -/

/-- The users that are handed out keep their marks, and a user that comes into a list has none. -/
structure KeepsMarks (k k' : Kernel) : Prop where
  kept : ∀ u, k.queueUsers.allocator.Allocated u → k'.queueUsers.status u = k.queueUsers.status u
  unmarked : ∀ i, ∀ u ∈ k'.userNodes i, u ∈ k.userNodes i ∨ k'.queueUsers.status u = .running

theorem KeepsMarks.of_roll (hroll : k'.roll = k.roll)
    (hstatus : k'.queueUsers.status = k.queueUsers.status) : k.KeepsMarks k' := by
  obtain ⟨-, hrest⟩ := Prod.mk.inj hroll
  obtain ⟨hlist, hrest⟩ := Prod.mk.inj hrest
  have hheads := (Prod.mk.inj hrest).2
  refine ⟨fun u _ ↦ by rw [hstatus], fun i u hu ↦ .inl ?_⟩
  rw [userNodes, hlist, hheads] at hu
  exact hu

theorem KeepsMarks.trans {t : Kernel} (h : k.KeepsMarks t) (h' : t.KeepsMarks k')
    (hgrows : ∀ u, k.queueUsers.allocator.Allocated u → t.queueUsers.allocator.Allocated u)
    (hlisted : ∀ i, ∀ u ∈ t.userNodes i, t.queueUsers.allocator.Allocated u) : k.KeepsMarks k' where
  kept u hu := (h'.kept u (hgrows u hu)).trans (h.kept u hu)
  unmarked i u hu := by
    obtain hu | hrunning := h'.unmarked i u hu
    · refine (h.unmarked i u hu).imp_right fun hrunning ↦ ?_
      rw [h'.kept u (hlisted i u hu), hrunning]
    · exact .inr hrunning

/-- What a part of `Queue_add_pid` does to the users. -/
structure Enters (k k' : Kernel) : Prop extends k.KeepsMarks k' where
  ordered : k'.UsersOrdered k'.userNodes
  grows : ∀ u, k.queueUsers.allocator.Allocated u → k'.queueUsers.allocator.Allocated u

theorem Enters.trans {t : Kernel} (h : k.Enters t) (h' : t.Enters k') : k.Enters k' where
  toKeepsMarks := h.toKeepsMarks.trans h'.toKeepsMarks h.grows h.ordered.allocated
  ordered := h'.ordered
  grows u hu := h'.grows u (h.grows u hu)

theorem UsersOrdered.enters_role (h : k.UsersOrdered k.userNodes) {pid : ℤ} {mode : BitVec 32}
    {role : Role} (hadd : k.queueAddRole q pid mode (some d) role = some (true, k')) : k.Enters k' := by
  obtain ⟨-, rfl⟩ | ⟨-, u, rfl, hentered⟩ := h.enters hadd
  · exact ⟨⟨fun _ _ ↦ rfl, fun _ _ hu ↦ .inl hu⟩, h, fun _ hu ↦ hu⟩
  · have hstatus := hentered.status h
    have hnodes := hentered.listed.userNodes_eq
    refine ⟨⟨fun v hv ↦ ?_, fun i v hv ↦ ?_⟩, hnodes ▸ hentered.listed, fun v hv ↦ ?_⟩
    · rw [hstatus, Function.update_of_ne]
      rintro rfl
      exact hentered.free hv
    · rw [hnodes] at hv
      obtain hv | ⟨rfl, -⟩ := mem_update_append.mp hv
      · exact .inl hv
      · right
        rw [hstatus, Function.update_self]
    · exact (hentered.allocated v).mpr (.inr hv)

theorem Enters.of_roll (h : k.UsersOrdered k.userNodes) (hroll : k'.roll = k.roll)
    (hstatus : k'.queueUsers.status = k.queueUsers.status) : k.Enters k' := by
  have hordered := h.of_roll hroll
  have hnodes := hordered.userNodes_eq
  refine ⟨.of_roll hroll hstatus, hnodes ▸ hordered, fun u hu ↦ ?_⟩
  rw [(Prod.mk.inj hroll).1]
  exact hu

/-- A new queue has no users. -/
theorem UsersOrdered.enters_queueAlloc (h : k.UsersOrdered k.userNodes)
    (halloc : k.queueAlloc = (some q, k')) : k.Enters k' := by
  obtain ⟨users', hordered, hempty, hothers⟩ := h.queueAlloc halloc
  have hnodes := hordered.userNodes_eq
  have husers : k'.queueUsers = k.queueUsers := by
    rcases hget : k.queues.allocator.getBlock with ⟨_ | q', pool⟩
    · simp [Kernel.queueAlloc, hget] at halloc
    · simp only [Kernel.queueAlloc, hget, Prod.mk.injEq] at halloc
      rw [← halloc.2]
  refine ⟨⟨fun u _ ↦ by rw [husers], fun i u hu ↦ .inl ?_⟩, hnodes ▸ hordered, fun u hu ↦ by rwa [husers]⟩
  rw [hnodes] at hu
  by_cases hi : i.1 = q
  · obtain ⟨_, role⟩ := i
    obtain rfl := hi
    rw [hempty role] at hu
    exact absurd hu List.not_mem_nil
  · rwa [hothers i hi] at hu

/-- An `OPEN_QUEUE` that succeeds on a descriptor of its process marks nobody. -/
theorem UsersOrdered.enters_openQueue (h : k.UsersOrdered k.userNodes) (hok : k.files.Ok)
    (hp : k.running = some p) {id : ℤ} {mode : BitVec 32} (hd : d ∈ k.files.descriptorNodes p)
    (hfd : k.descriptors.fd d = fd) (hopen : internalOpenQueue id fd mode k = some k')
    (hret : 0 ≤ k'.pcbs.syscallRetvalue p) : k.Enters k' := by
  obtain ⟨r, q, k₁, ds, k₂, -, hqueue, hds, hadd, rfl⟩ := internalOpenQueue_success hp hopen hret
  obtain ⟨henters, hlookup⟩ : k.Enters k₁ ∧ k₁.descriptorByFd p fd = k.descriptorByFd p fd := by
    obtain ⟨-, rfl⟩ | ⟨-, k₀, halloc, rfl⟩ := hqueue
    · exact ⟨.of_roll h rfl rfl, rfl⟩
    · have halloc' := h.enters_queueAlloc halloc
      refine ⟨halloc'.trans (.of_roll halloc'.ordered rfl rfl), ?_⟩
      rcases hget : k.queues.allocator.getBlock with ⟨_ | q', pool⟩
      · simp [Kernel.queueAlloc, hget] at halloc
      · simp only [Kernel.queueAlloc, hget, Prod.mk.injEq] at halloc
        rw [← halloc.2]
        rfl
  rw [hlookup] at hds
  obtain rfl : ds = some d := descriptorByFd_unique hok hd (by rw [hfd]; exact hds)
  obtain ⟨k₃, k₄, k₅, h₃, h₄, h₅, rfl⟩ := queueAddPid_success hadd
  have henters₃ := henters.ordered.enters_role h₃
  have henters₄ := henters₃.ordered.enters_role h₄
  have henters₅ := henters₄.ordered.enters_role h₅
  exact (henters.trans (henters₃.trans (henters₄.trans henters₅))).trans
    (.of_roll henters₅.ordered rfl rfl)

/-- A step that is no SEND, RECV or WAKEUP, and no `OPEN_QUEUE`, marks nobody. -/
theorem step_userStatus (hsafe : k.MembersSafe a) (hexit : ∀ value, k.request a ≠ some (.exit value))
    (hquiet : ∀ c, k.request a = some c → c.marksUsers = false)
    (hopen : ∀ id fd mode, k.request a ≠ some (.openQueue id fd mode)) (hstep : k.step a = some k') :
    k'.queueUsers.status = k.queueUsers.status := by
  obtain ⟨rfl, hstart⟩ | ⟨rfl, htimer⟩ | ⟨x, byte, rfl, -, rfl⟩ | ⟨c, p, ret, rfl, -, -, rfl⟩ |
    ⟨c, p, next, hp, hcalls, hcall⟩ | ⟨p, rfl, hp, -, hrun⟩ := step_cases hstep
  · obtain ⟨-, p, pool, -, rfl⟩ := startProcess_cases hstart
    rfl
  · obtain ⟨p, -, hschedule⟩ := Option.bind_eq_some_iff.mp htimer
    rw [internalSchedule_eq hschedule]
  · rfl
  · rfl
  · have hrequest := hcalls.request hp
    have hc := hsafe c hrequest
    have hmarks := hquiet c hrequest
    cases c with
    | preempt => rw [internalSchedule_eq hcall]; rfl
    | spawn =>
      obtain ⟨⟨child, k₁⟩, h₁, hk'⟩ := Option.bind_eq_some_iff.mp hcall
      obtain ⟨_, _, _, _, -, -, -, -, rfl⟩ := newProcess_cases h₁
      rw [← Option.some.inj hk']
      rfl
    | wait pid result =>
      obtain ⟨_, -, ⟨-, rfl⟩ | ⟨_, -, -, ⟨x, -, -, rfl⟩ | ⟨-, ⟨-, rfl⟩ | ⟨-, -, rfl⟩⟩⟩⟩ :=
        internalWait_cases hcall <;> rfl
    | sleep cycles =>
      obtain ⟨_, -, rfl | ⟨t, k₁, hadd, rfl⟩⟩ := internalSleep_cases hcall
      · rfl
      · have hframe := timerListAdd_eq hadd
        have husers : k₁.queueUsers = k.queueUsers := by
          rw [hframe]
          rfl
        exact congrArg QueueUsers.status husers
    | openResource id type mode => rw [internalOpenResource_eq hcall]; rfl
    | closeResource fd => rw [internalCloseResource_eq hcall]; rfl
    | exit value => exact absurd hrequest (hexit value)
    | openQueue id fd mode => exact absurd hrequest (hopen id fd mode)
    | fork | destroyResource | shutdown => exact hc.elim
    | sendMsg | recvMsg | wakeupQueue => cases hmarks
  · rw [runStatement_eq hrun]

/-- A step that is no SEND, RECV or WAKEUP keeps the marks. -/
theorem MembersInv.keepsMarks (h : k.MembersInv layout m) (hsafe : k.MembersSafe a)
    (hexit : ∀ value, k.request a ≠ some (.exit value))
    (hquiet : ∀ c, k.request a = some c → c.marksUsers = false) (hstep : k.step a = some k') :
    k.KeepsMarks k' := by
  have hok : k.files.Ok := h.owns.owned.ok
  obtain ⟨users, henrolled, -⟩ := h.enrolled
  have hordered : k.UsersOrdered k.userNodes :=
    henrolled.toUsersOrdered.userNodes_eq ▸ henrolled.toUsersOrdered
  have hsame (hopen : ∀ id fd mode, k.request a ≠ some (.openQueue id fd mode)) :
      k'.queueUsers.status = k.queueUsers.status := step_userStatus hsafe hexit hquiet hopen hstep
  by_cases hkeeps : k.KeepsMembers a
  · exact .of_roll (hkeeps.roll hstep) (hsame fun id fd mode hrequest ↦
      Bool.noConfusion (hkeeps.1 _ hrequest))
  obtain ⟨c, hrequest, hleaves⟩ | ⟨p, hp, rfl, hleaves⟩ :
      (∃ c, k.request a = some c ∧ c.leavesQueue = true) ∨
        ∃ p, k.running = some p ∧ a = .statement ∧ (k.pcbs.cpuState p).leavesQueue = true := by
    simpa [KeepsMembers, imp_iff_not_or, not_and_or] using hkeeps
  · obtain ⟨p, hp⟩ := running_of_request hrequest
    have hcall := hsafe c hrequest
    obtain ⟨next, hcalls, hcalled⟩ := step_syscall hp hrequest hstep
    cases c with
    | exit value => exact absurd hrequest (hexit value)
    | destroyResource | shutdown => exact hcall.elim
    | closeResource fd =>
      have hroll : k'.roll = k.roll := by
        rw [internalCloseResource_eq hcalled]
        rfl
      exact .of_roll hroll (hsame fun id fd' mode hopen ↦ by rw [hrequest] at hopen; cases hopen)
    | openQueue id fd mode =>
      obtain ⟨rfl, hret⟩ := hcall
      have hcontext := (request_of_usesQueues rfl).2.2 hcalls
      have hpoint := h.owns.opens p
      rw [hcontext] at hpoint
      obtain ⟨d, hd, hfd, -, -⟩ := hpoint
      have hnodes : (k.trap p next (.openQueue id fd mode)).userNodes = k.userNodes :=
        userNodes_congr rfl rfl
      have htrap : (k.trap p next (.openQueue id fd mode)).UsersOrdered
          (k.trap p next (.openQueue id fd mode)).userNodes := by
        rw [hnodes]
        exact hordered.congr rfl rfl
      have henters := htrap.enters_openQueue hok hp hd hfd hcalled (hret p hp k' hstep)
      exact ⟨henters.kept, fun i u hu ↦ hnodes ▸ henters.unmarked i u hu⟩
    | _ => cases hleaves
  · -- two statements of `dmq_close`
    have hstatus := hsame fun id fd mode hopen ↦ by
      rw [request, context, hp, Option.map_some, Option.bind_some] at hopen
      generalize k.pcbs.cpuState p = point at hleaves hopen
      cases point with
      | closeDetach | closeFree => cases hopen
      | _ => cases hleaves
    refine ⟨fun u _ ↦ by rw [hstatus], fun i u hu ↦ .inl ?_⟩
    generalize hcontext : k.pcbs.cpuState p = point at hleaves
    cases point with
    | closeDetach fd q ds role =>
      rw [step_statement hp hcontext rfl] at hstep
      obtain rfl := Option.some.inj hstep
      cases hentry : k.descriptors.rwn ds role with
      | none =>
        rw [hentry, detachUser_null] at hu
        exact hu
      | some v =>
        obtain ⟨hds, hfd, hvalue⟩ := (h.points p).closing fd q ds (by rw [hcontext]; rfl)
        have hmem : v ∈ k.userNodes (q, role) := by
          have hleft : k.leftAt p fd = some role.passed := by
            rw [leftAt, hcontext]
            simp
          obtain ⟨o, ho, hpassed⟩ := Option.map_eq_some_iff.mp
            (((h.points p).notes ds hds).trans (hfd ▸ hleft))
          rw [henrolled.toUsersOrdered.userNodes_eq, henrolled.members]
          refine ⟨ds, ⟨o, ho, ?_⟩, hentry, hvalue⟩
          rw [hpassed]
          cases role <;> rfl
        have hleft := hordered.leave hmem
        have hnodes := hleft.userNodes_eq
        rw [hentry] at hu
        have hu' : u ∈ (k.detachUser (q, role) (some v)).userNodes i := hu
        rw [hnodes, hordered.lists.mem_update_erase hmem] at hu'
        exact hu'.1
    | closeFree fd q ds role entry =>
      have hnodes : k'.userNodes = k.userNodes := by
        rw [step_statement hp hcontext rfl, runStatement] at hstep
        cases hrole : role.next <;> rw [hrole] at hstep <;> rw [← Option.some.inj hstep] <;> rfl
      rwa [hnodes] at hu
    | _ => cases hleaves

end Kernel

end DisastrOS
