import DisastrOS.Boot
import DisastrOS.Frames

/-!
# Steps

What a step of the system can be (`step_cases`), and what it does to the points at which the
processes stand (`ContextStep`). A statement of the queue functions leads its process to one of the
points of `StatementNext`, with what it has found out on the way.
-/

set_option autoImplicit false
set_option relaxedAutoImplicit false

namespace DisastrOS

open LinkedLists
open Function (update)

namespace Kernel

variable {k k' : Kernel}

/-! ### Statements -/

/-- The points to which a statement can lead process `p`, with what it has found out. -/
inductive StatementNext (k : Kernel) (p : Addr) : Context → Context → Prop
  | returns (context : Context) (ret : ℤ) : StatementNext k p context (.user ret)
  | close (fd q ds : ℤ) (hqueue : k.queueByFd p fd = some (some q))
    (hentries : k.queueEntries p fd = some (some ds)) :
    StatementNext k p (.close fd) (.closeDetach fd q ds .reader)
  | closeDetach (fd q ds : ℤ) (role : Role) :
    StatementNext k p (.closeDetach fd q ds role)
      (.closeFree fd q ds role (k.descriptors.rwn ds role))
  | closeFree (fd q ds : ℤ) (role next : Role) (entry : Option Addr) (hnext : role.next = some next) :
    StatementNext k p (.closeFree fd q ds role entry) (.closeDetach fd q ds next)
  | closeLast (fd q ds : ℤ) (role : Role) (entry : Option Addr) (hlast : role.next = none) :
    StatementNext k p (.closeFree fd q ds role entry) (.closeResource fd q)
  | getattr (fd attr q : ℤ) (hqueue : k.queueByFd p fd = some (some q)) :
    StatementNext k p (.getattr fd attr) (.getattrRead q attr)
  | openResult (id : ℤ) (mode : BitVec 32) (hfd : 0 ≤ k.pcbs.syscallRetvalue p) :
    StatementNext k p (.openResult id mode) (.openQueue id (k.pcbs.syscallRetvalue p) mode)
  | transfer (c : TransferCall) (q : Addr) (hqueue : k.queueByFd p c.fd = some (some q)) :
    StatementNext k p (.transfer c) (.transferSize c q)
  | transferSize (c : TransferCall) (q : Addr) (hsize : k.transferSizeError c q = none) :
    StatementNext k p (.transferSize c q) (.transferFind c q)
  | transferFind (c : TransferCall) (q ds : Addr) (found : Addr)
    (hentries : k.queueEntries p c.fd = some (some ds))
    (hfind : listFind walkBound k.queueUsers.list (k.queues.users (q, c.op.role))
      (k.descriptors.rwn ds c.op.role) = some (some found)) :
    StatementNext k p (.transferFind c q) (.transferRoom c q ds)
  | transferRoom (c : TransferCall) (q ds : Addr) :
    StatementNext k p (.transferRoom c q ds) (.transferCall c q)
  | transferRetry (c : TransferCall) (q : Addr) (hfailed : k.pcbs.syscallRetvalue p = c.op.failure) :
    StatementNext k p (.transferResult c q) (.transferRetry c q)
  | transferWake (c : TransferCall) (q : Addr) (hmoved : k.pcbs.syscallRetvalue p ≠ c.op.failure) :
    StatementNext k p (.transferResult c q) (.transferWake c q)
  | setattr (fd attr newVal q : ℤ) (hqueue : k.queueByFd p fd = some (some q)) :
    StatementNext k p (.setattr fd attr newVal) (.setattrCheck q attr newVal)
  | setattrCheck (q attr newVal : ℤ) (hvalid : k.setattrError q attr newVal = none) :
    StatementNext k p (.setattrCheck q attr newVal) (.setattrWrite q attr newVal)

/-- A statement leads its process to another point of the queue functions or back to the user code,
and lets it run on, but for the end of a shutdown. -/
theorem runStatement_context {p : Addr} {context : Context} (hhalting : context ≠ .halting)
    (hrun : k.runStatement p context = some k') :
    k'.running = k.running ∧
      ∃ next, k'.pcbs.cpuState = update k.pcbs.cpuState p next ∧ k.StatementNext p context next := by
  have henter : ∀ {fd : ℤ} {next : Addr → Context},
      (∀ q, k.queueByFd p fd = some (some q) → k.StatementNext p context (next q)) →
      k.enterQueue p fd next = some k' → k'.running = k.running ∧
        ∃ next, k'.pcbs.cpuState = update k.pcbs.cpuState p next ∧
          k.StatementNext p context next := by
    intro fd next hnext h
    obtain ⟨queue, hqueue, hk'⟩ := Option.bind_eq_some_iff.mp h
    cases queue with
    | none =>
      rw [← Option.some.inj hk']
      exact ⟨rfl, _, rfl, .returns context invalidFd⟩
    | some q =>
      rw [← Option.some.inj hk']
      exact ⟨rfl, _, rfl, hnext q hqueue⟩
  have hset : ∀ {k₁ : Kernel} {next : Context}, k.StatementNext p context next →
      some (k₁.setContext p next) = some k' → k₁.running = k.running →
        k₁.pcbs.cpuState = k.pcbs.cpuState → k'.running = k.running ∧
          ∃ next, k'.pcbs.cpuState = update k.pcbs.cpuState p next ∧
            k.StatementNext p context next := by
    intro k₁ next hnext h hrunning hcontext
    rw [← Option.some.inj h]
    exact ⟨hrunning, next, by rw [← hcontext]; rfl, hnext⟩
  cases context with
  | close fd =>
    obtain ⟨queue, hqueue, hrest⟩ := Option.bind_eq_some_iff.mp hrun
    cases queue with
    | none => exact hset (.returns _ _) hrest rfl rfl
    | some q =>
      obtain ⟨entries, hentries, hrest⟩ := Option.bind_eq_some_iff.mp hrest
      obtain ⟨ds, rfl, hk'⟩ := Option.bind_eq_some_iff.mp hrest
      exact hset (.close fd q ds hqueue hentries) hk' rfl rfl
  | closeDetach fd q ds role => exact hset (.closeDetach fd q ds role) hrun rfl rfl
  | closeFree fd q ds role entry =>
    simp only [runStatement] at hrun
    split at hrun
    · exact hset (.closeFree fd q ds role _ entry ‹_›) hrun rfl rfl
    · exact hset (.closeLast fd q ds role entry ‹_›) hrun rfl rfl
  | closeResult q =>
    simp only [runStatement] at hrun
    split_ifs at hrun <;> exact hset (.returns _ _) hrun rfl rfl
  | getattr fd attr => exact henter (fun q hqueue ↦ .getattr fd attr q hqueue) hrun
  | getattrRead q attr => exact hset (.returns _ _) hrun rfl rfl
  | openResult id mode =>
    simp only [runStatement] at hrun
    split_ifs at hrun with hfd
    · exact hset (.returns _ _) hrun rfl rfl
    · exact hset (.openResult id mode (not_lt.mp hfd)) hrun rfl rfl
  | openReturn => exact hset (.returns _ _) hrun rfl rfl
  | transfer c => exact henter (fun q hqueue ↦ .transfer c q hqueue) hrun
  | transferSize c q =>
    simp only [runStatement] at hrun
    split at hrun
    · exact hset (.returns _ _) hrun rfl rfl
    · exact hset (.transferSize c q ‹_›) hrun rfl rfl
  | transferFind c q =>
    obtain ⟨entries, hentries, hrest⟩ := Option.bind_eq_some_iff.mp hrun
    obtain ⟨ds, rfl, hfound⟩ := Option.bind_eq_some_iff.mp hrest
    obtain ⟨found, hfind, hk'⟩ := Option.bind_eq_some_iff.mp hfound
    cases found with
    | none => exact hset (.returns _ _) hk' rfl rfl
    | some found => exact hset (.transferFind c q ds found hentries hfind) hk' rfl rfl
  | transferRoom c q ds =>
    simp only [runStatement] at hrun
    split_ifs at hrun
    · exact hset (.returns _ _) hrun rfl rfl
    · exact hset (.transferRoom c q ds) hrun rfl rfl
  | transferResult c q =>
    simp only [runStatement] at hrun
    split_ifs at hrun with hfailed
    · exact hset (.transferRetry c q hfailed) hrun rfl rfl
    · exact hset (.transferWake c q hfailed) hrun rfl rfl
  | setattr fd attr newVal => exact henter (fun q hqueue ↦ .setattr fd attr newVal q hqueue) hrun
  | setattrCheck q attr newVal =>
    simp only [runStatement] at hrun
    split at hrun
    · exact hset (.returns _ _) hrun rfl rfl
    · exact hset (.setattrCheck q attr newVal ‹_›) hrun rfl rfl
  | setattrWrite q attr newVal =>
    exact hset (.returns _ _) hrun (by rw [writeAttribute_eq]) (by rw [writeAttribute_eq])
  | unlinkReturn => exact hset (.returns _ _) hrun rfl rfl
  | halting => exact absurd rfl hhalting
  | user _ | closeResource _ _ | openResource _ _ | openQueue _ _ _ | transferCall _ _
  | transferRetry _ _ | transferWake _ _ | unlink _ | graveyard => simp [runStatement] at hrun

/-! ### The first process -/

/-- The first process, when nothing runs. -/
theorem startProcess_cases (hstart : k.startProcess = some k') :
    k.running = none ∧ ∃ p pool, k.pcbs.allocator.getBlock = (some p, pool) ∧
      k' = { (k.resetPcb p pool).setStatus p .running with
        running := some p
        initPcb := some p }.setContext p (.user 0) := by
  unfold startProcess at hstart
  split_ifs at hstart with hidle
  obtain ⟨⟨p, k₁⟩, halloc, hk'⟩ := Option.bind_eq_some_iff.mp hstart
  obtain ⟨pool, hget, -, rfl⟩ := pcbAlloc_eq_some halloc
  rw [not_or, Option.not_isSome_iff_eq_none] at hidle
  exact ⟨hidle.1, p, pool, hget, (Option.some.inj hk').symm⟩

/-- The first process is started once. -/
theorem initPcb_of_startProcess (hstart : k.startProcess = some k') : k.initPcb = none := by
  unfold startProcess at hstart
  split_ifs at hstart with hidle
  rw [not_or, not_or, Option.not_isSome_iff_eq_none, Option.not_isSome_iff_eq_none] at hidle
  exact hidle.2.1

theorem Scheduled.startProcess {nodes : PcbList → List Addr} (h : k.Scheduled nodes)
    (hstart : k.startProcess = some k') : k'.Scheduled nodes := by
  obtain ⟨hnone, p, pool, hget, rfl⟩ := startProcess_cases hstart
  obtain ⟨hok, -, hfree, -, hallocated⟩ := PoolAllocator.getBlock_some h.pool hget
  have hnotMem : ∀ i, p ∉ nodes i := fun i hmem ↦ hfree (h.allocated i p hmem)
  -- the fresh PCB was in no list, so it had no links before they were reset
  have hlinks : update k.pcbs.list p Links.unlinked = k.pcbs.list := by
    rw [← h.threads.tidy p hnotMem, Function.update_eq_self]
  refine ⟨?_, hok, fun i q hq ↦ (hallocated q).mpr (Or.inr (h.allocated i q hq)),
    fun q hq ↦ ?_, fun q hq ↦ ?_, fun q hq ↦ ?_, fun q hq ↦ ?_⟩
  · change Threads (update k.pcbs.list p Links.unlinked) k.lists nodes
    rw [hlinks]
    exact h.threads
  · rcases (hallocated q).mp hq with rfl | hq
    · exact Or.inl rfl
    · exact Or.inr ((h.covered q hq).resolve_left (by simp [hnone]))
  · obtain rfl := Option.some.inj hq
    exact (hallocated p).mpr (Or.inl rfl)
  · obtain rfl := Option.some.inj hq
    exact hnotMem .ready
  · obtain rfl := Option.some.inj hq
    exact hnotMem .zombie

/-! ### Steps -/

/-- The state in which a system call of process `p` is executed: the call is noted, and the process
goes on at `next`. -/
def trap (k : Kernel) (p : Addr) (next : Context) (c : Syscall) : Kernel :=
  { k.setContext p next with pcbs.syscall := update k.pcbs.syscall p (some c) }

/-- Process `p` makes the system call `c` by action `a`, and goes on at `next`. -/
inductive Calls (k : Kernel) (p : Addr) : Action → Syscall → Context → Prop
  | user (c : Syscall) (ret : ℤ) (h : k.pcbs.cpuState p = .user ret) :
    Calls k p (.syscall c) c (.user ret)
  | statement (c : Syscall) (next : Context) (h : (k.pcbs.cpuState p).request = some (c, next)) :
    Calls k p .statement c next

theorem atUser_iff : k.atUser = true ↔ ∃ p ret, k.running = some p ∧ k.pcbs.cpuState p = .user ret := by
  cases hrunning : k.running with
  | none => simp [atUser, context, hrunning]
  | some p =>
    cases hcontext : k.pcbs.cpuState p <;> simp [atUser, context, hrunning, hcontext]

theorem Calls.request {p : Addr} {a : Action} {c : Syscall} {next : Context}
    (h : k.Calls p a c next) (hrunning : k.running = some p) : k.request a = some c := by
  cases h with
  | user _ ret hcontext =>
    have hat : k.atUser = true := atUser_iff.mpr ⟨p, ret, hrunning, hcontext⟩
    simp [Kernel.request, hat]
  | statement _ _ hrequest => simp [Kernel.request, context, hrunning, hrequest]

/-- Only a running process makes a system call. -/
theorem running_of_request {a : Action} {c : Syscall} (h : k.request a = some c) :
    ∃ p, k.running = some p := by
  cases hrunning : k.running with
  | none =>
    cases a <;> simp [Kernel.request, atUser, context, hrunning] at h
  | some p => exact ⟨p, rfl⟩

/-- What a step can be. -/
theorem step_cases {a : Action} (hstep : k.step a = some k') :
    a = .start ∧ k.startProcess = some k' ∨
      a = .timer ∧ k.timerInterrupt = some k' ∨
      (∃ x byte, a = .write x byte ∧ k.atUser = true ∧
        k' = { k with userBytes := update k.userBytes x byte }) ∨
      (∃ c p ret, a = .call c ∧ k.running = some p ∧ k.pcbs.cpuState p = .user ret ∧
        k' = k.setContext p c.entry) ∨
      (∃ c p next, k.running = some p ∧ k.Calls p a c next ∧
        syscallVector c (k.trap p next c) = some k') ∨
      ∃ p, a = .statement ∧ k.running = some p ∧ (k.pcbs.cpuState p).request = none ∧
        k.runStatement p (k.pcbs.cpuState p) = some k' := by
  cases a with
  | start => exact Or.inl ⟨rfl, hstep⟩
  | timer => exact Or.inr (Or.inl ⟨rfl, hstep⟩)
  | write x byte =>
    rw [step] at hstep
    split_ifs at hstep with hat
    exact Or.inr (Or.inr (Or.inl ⟨x, byte, rfl, hat, (Option.some.inj hstep).symm⟩))
  | syscall c =>
    rw [step] at hstep
    split_ifs at hstep with hat
    obtain ⟨p, ret, hp, hcontext⟩ := atUser_iff.mp hat
    obtain ⟨p', hp', hrest⟩ := Option.bind_eq_some_iff.mp hstep
    obtain rfl := Option.some.inj (hp.symm.trans hp')
    have hsame : k.setContext p (.user ret) = k := by
      simp only [setContext, ← hcontext, Function.update_eq_self]
    refine Or.inr (Or.inr (Or.inr (Or.inr (Or.inl ⟨c, p, .user ret, hp, .user c ret hcontext, ?_⟩))))
    rw [trap, hsame]
    exact hrest
  | call c =>
    rw [step] at hstep
    split_ifs at hstep with hat
    obtain ⟨p, ret, hp, hcontext⟩ := atUser_iff.mp hat
    obtain ⟨p', hp', hrest⟩ := Option.bind_eq_some_iff.mp hstep
    obtain rfl := Option.some.inj (hp.symm.trans hp')
    exact Or.inr (Or.inr (Or.inr (Or.inl ⟨c, p, ret, rfl, hp, hcontext, (Option.some.inj hrest).symm⟩)))
  | statement =>
    obtain ⟨p, hp, hrest⟩ := Option.bind_eq_some_iff.mp hstep
    cases hrequest : (k.pcbs.cpuState p).request with
    | none =>
      simp only [hrequest] at hrest
      exact Or.inr (Or.inr (Or.inr (Or.inr (Or.inr ⟨p, rfl, hp, hrequest, hrest⟩))))
    | some pair =>
      obtain ⟨c, next⟩ := pair
      simp only [hrequest] at hrest
      obtain ⟨p', hp', hrest⟩ := Option.bind_eq_some_iff.mp hrest
      obtain rfl := Option.some.inj (hp.symm.trans hp')
      exact Or.inr (Or.inr (Or.inr (Or.inr (Or.inl
        ⟨c, p, next, hp, .statement c next hrequest, hrest⟩))))

/-- The step of a system call is the call in the state in which it is executed. -/
theorem step_eq_syscallVector {p : Addr} {a : Action} {c : Syscall} (hrunning : k.running = some p)
    (hrequest : k.request a = some c) :
    ∃ next, k.Calls p a c next ∧ k.step a = syscallVector c (k.trap p next c) := by
  cases a with
  | start | timer | write | call => simp [Kernel.request] at hrequest
  | syscall c' =>
    rw [Kernel.request, Option.ite_none_right_eq_some] at hrequest
    obtain ⟨hat, hsame⟩ := hrequest
    obtain rfl := Option.some.inj hsame
    obtain ⟨p', ret, hp', hcontext⟩ := atUser_iff.mp hat
    obtain rfl := Option.some.inj (hrunning.symm.trans hp')
    have hsame : k.setContext p (.user ret) = k := by
      simp only [setContext, ← hcontext, Function.update_eq_self]
    refine ⟨.user ret, .user c' ret hcontext, ?_⟩
    rw [step, if_pos hat, trap, hsame, disastrOSSyscall, hrunning]
    rfl
  | statement =>
    simp only [Kernel.request, context, hrunning, Option.map_some, Option.bind_some,
      Option.map_eq_some_iff] at hrequest
    obtain ⟨⟨c', next⟩, hpair, rfl⟩ := hrequest
    refine ⟨next, .statement c' next hpair, ?_⟩
    simp only [step, hrunning, hpair, disastrOSSyscall, Option.bind_eq_bind, Option.bind_some, trap,
      setContext]

theorem step_syscall {p : Addr} {a : Action} {c : Syscall} (hrunning : k.running = some p)
    (hrequest : k.request a = some c) (hstep : k.step a = some k') :
    ∃ next, k.Calls p a c next ∧ syscallVector c (k.trap p next c) = some k' := by
  obtain ⟨next, hcalls, hsame⟩ := step_eq_syscallVector hrunning hrequest
  exact ⟨next, hcalls, hsame ▸ hstep⟩

/-- A statement that makes a system call. -/
theorem step_request {p : Addr} {context next : Context} {c : Syscall} (hp : k.running = some p)
    (hcontext : k.pcbs.cpuState p = context) (hrequest : context.request = some (c, next)) :
    k.step .statement = syscallVector c (k.trap p next c) := by
  simp only [step, hp, hcontext, hrequest, disastrOSSyscall, Option.bind_eq_bind, Option.bind_some,
    trap, setContext]

/-- A statement that makes none. -/
theorem step_statement {p : Addr} {context : Context} (hp : k.running = some p)
    (hcontext : k.pcbs.cpuState p = context) (hquiet : context.request = none) :
    k.step .statement = k.runStatement p context := by
  simp [step, hp, hcontext, hquiet]

/-! ### The points of the user code -/

/-- A system call leaves all processes where they are; a spawn sets the new one to its start. -/
theorem syscallVector_cpuState {c : Syscall} (hc : c ≠ .shutdown)
    (hcall : syscallVector c k = some k') :
    k'.pcbs.cpuState = k.pcbs.cpuState ∨
      c = .spawn ∧ ∃ p, k.pcbs.allocator.getBlock.1 = some p ∧
        k'.pcbs.cpuState = update k.pcbs.cpuState p (.user 0) := by
  have hnew : ∀ {p : Addr} {k₁ : Kernel}, k.newProcess = some (p, k₁) →
      k.pcbs.allocator.getBlock.1 = some p ∧ k₁.pcbs.cpuState = k.pcbs.cpuState := by
    intro p k₁ h
    obtain ⟨_, pool, _, _, -, hget, -, -, rfl⟩ := newProcess_cases h
    exact ⟨by rw [hget], rfl⟩
  cases c with
  | preempt => exact Or.inl (by rw [internalSchedule_eq hcall])
  | fork =>
    obtain ⟨⟨p, k₁⟩, h₁, hk'⟩ := Option.bind_eq_some_iff.mp hcall
    exact Or.inl (by rw [← Option.some.inj hk', (hnew h₁).2])
  | spawn =>
    obtain ⟨⟨p, k₁⟩, h₁, hk'⟩ := Option.bind_eq_some_iff.mp hcall
    refine Or.inr ⟨rfl, p, (hnew h₁).1, ?_⟩
    rw [← Option.some.inj hk', ← (hnew h₁).2]
    rfl
  | wait pid result =>
    left
    obtain ⟨p, -, ⟨-, rfl⟩ | ⟨_, -, -, ⟨x, -, -, rfl⟩ | ⟨-, ⟨-, rfl⟩ | ⟨-, -, rfl⟩⟩⟩⟩ :=
      internalWait_cases hcall
    · rfl
    · rfl
    · rfl
    · rfl
  | exit value =>
    left
    obtain ⟨p, k₁, parent, -, hzombie, -, ⟨-, hexit⟩ | ⟨-, hexit⟩⟩ := internalExit_cases hcall
    · rw [exitToParent_eq hexit, becomeZombie_eq hzombie]
      rfl
    · rw [exitToReady_eq hexit, becomeZombie_eq hzombie]
      rfl
  | sleep cycles =>
    left
    obtain ⟨p, -, rfl | ⟨t, k₁, hadd, rfl⟩⟩ := internalSleep_cases hcall
    · rfl
    · have hframe := timerListAdd_eq hadd
      rw [hframe]
      rfl
  | openResource id type mode => exact Or.inl (by rw [internalOpenResource_eq hcall])
  | closeResource fd => exact Or.inl (by rw [internalCloseResource_eq hcall])
  | destroyResource id => exact Or.inl (by rw [internalDestroyResource_eq hcall])
  | shutdown => exact absurd rfl hc
  | sendMsg msg fd =>
    left
    obtain ⟨_, _, _, -, -, -, ⟨-, haccept⟩ | ⟨-, hwait⟩⟩ := internalSendMessage_cases hcall
    · rw [acceptMessage_eq haccept]
    · obtain ⟨_, _, -, -, rfl⟩ := waitForQueue_eq hwait
      rfl
  | recvMsg msg fd =>
    left
    obtain ⟨_, _, -, -, ⟨-, rfl⟩ | ⟨_, _, -, -, ⟨_, k₁, hpop, hdeliver⟩ | ⟨k₁, hpop, hwait⟩⟩⟩ :=
      internalRecvMessage_cases hcall
    · rfl
    · rw [deliverMessage_eq hdeliver, ← (Prod.mk.inj hpop).2]
    · obtain ⟨_, _, -, -, rfl⟩ := waitForQueue_eq hwait
      rw [(popMessage_eq_none hpop).2]
      rfl
  | wakeupQueue check q users =>
    left
    obtain ⟨_, -, ⟨_, _, -, -, rfl⟩ | ⟨-, rfl⟩⟩ := internalWakeUpQueue_cases hcall
    · rfl
    · rfl
  | openQueue id fd mode => exact Or.inl (by rw [internalOpenQueue_eq hcall])

/-- No process is at the end of a shutdown. -/
def NoShutdown (k : Kernel) : Prop := ∀ p, k.pcbs.cpuState p ≠ .halting

/-- What a step does to the points at which the processes stand. -/
inductive ContextStep (k : Kernel) (a : Action) (k' : Kernel) : Prop
  | same (hcontexts : k'.pcbs.cpuState = k.pcbs.cpuState) (hquiet : k.request a = none)
  | start (p : Addr) (hidle : k.running = none) (hfresh : k.pcbs.allocator.getBlock.1 = some p)
    (hcontexts : k'.pcbs.cpuState = update k.pcbs.cpuState p (.user 0))
  | call (p : Addr) (c : DmqCall) (ret : ℤ) (haction : a = .call c) (hrunning : k.running = some p)
    (hcontext : k.pcbs.cpuState p = .user ret) (hsame : k' = k.setContext p c.entry)
  | syscall (p : Addr) (c : Syscall) (next : Context) (hrunning : k.running = some p)
    (hcalls : k.Calls p a c next) (hcall : syscallVector c (k.trap p next c) = some k')
    (hcontexts : k'.pcbs.cpuState = update k.pcbs.cpuState p next)
  | spawn (p child : Addr) (next : Context) (hrunning : k.running = some p)
    (hcalls : k.Calls p a .spawn next) (hcall : syscallVector .spawn (k.trap p next .spawn) = some k')
    (hfresh : k.pcbs.allocator.getBlock.1 = some child)
    (hcontexts : k'.pcbs.cpuState = update (update k.pcbs.cpuState p next) child (.user 0))
  | statement (p : Addr) (next : Context) (haction : a = .statement)
    (hrunning : k.running = some p) (hrun : k.runStatement p (k.pcbs.cpuState p) = some k')
    (hnext : k.StatementNext p (k.pcbs.cpuState p) next) (hsame : k'.running = k.running)
    (hcontexts : k'.pcbs.cpuState = update k.pcbs.cpuState p next)

theorem step_contexts {a : Action} (h : k.NoShutdown) (hshutdown : k.request a ≠ some .shutdown)
    (hstep : k.step a = some k') : k.ContextStep a k' := by
  obtain ⟨rfl, hstart⟩ | ⟨rfl, htimer⟩ | ⟨x, byte, rfl, -, rfl⟩ | ⟨c, p, ret, rfl, hp, hret, rfl⟩ |
    ⟨c, p, next, hp, hcalls, hcall⟩ | ⟨p, rfl, hp, -, hrun⟩ := step_cases hstep
  · obtain ⟨hidle, p, pool, hget, rfl⟩ := startProcess_cases hstart
    exact .start p hidle (by rw [hget]) rfl
  · obtain ⟨p, hp, hschedule⟩ := Option.bind_eq_some_iff.mp htimer
    exact .same (by rw [internalSchedule_eq hschedule]) rfl
  · exact .same rfl rfl
  · exact .call p c ret rfl hp hret rfl
  · have hrequest := hcalls.request hp
    have hc : c ≠ .shutdown := fun hsame ↦ hshutdown (hsame ▸ hrequest)
    obtain hsame | ⟨rfl, child, hfresh, hsame⟩ := syscallVector_cpuState hc hcall
    · exact .syscall p c next hp hcalls hcall hsame
    · exact .spawn p child next hp hcalls hcall hfresh hsame
  · obtain ⟨hsame, next, hcontexts, hnext⟩ := runStatement_context (h p) hrun
    exact .statement p next rfl hp hrun hnext hsame hcontexts

/-- What holds of the point of every process holds of all points after a step, if it holds of the ones
that the step can lead to. -/
theorem ContextStep.forall_context {a : Action} (hstep : k.ContextStep a k')
    {P : Addr → Context → Prop} (h : ∀ p, P p (k.pcbs.cpuState p)) (huser : ∀ p ret, P p (.user ret))
    (hentry : ∀ p (c : DmqCall), P p c.entry)
    (hrequest : ∀ p c next, (k.pcbs.cpuState p).request = some (c, next) → P p next)
    (hstatement : ∀ p next, k.StatementNext p (k.pcbs.cpuState p) next → P p next) (p : Addr) :
    P p (k'.pcbs.cpuState p) := by
  have hupdate : ∀ {f : Addr → Context} {p : Addr} {next : Context}, (∀ q, P q (f q)) →
      P p next → ∀ q, P q (update f p next q) := by
    intro f p next hf hnext q
    by_cases hq : q = p
    · subst hq
      rwa [Function.update_self]
    · rw [Function.update_of_ne hq]
      exact hf q
  have hcalled : ∀ {p : Addr} {c : Syscall} {next : Context}, k.Calls p a c next → P p next := by
    intro p c next hcalls
    cases hcalls with
    | user _ ret _ => exact huser p ret
    | statement _ _ hreq => exact hrequest p c next hreq
  cases hstep with
  | same hcontexts => rw [hcontexts]; exact h p
  | start p' _ _ hcontexts => rw [hcontexts]; exact hupdate h (huser p' 0) p
  | call p' c _ _ _ _ hsame => rw [hsame]; exact hupdate h (hentry p' c) p
  | syscall p' c next _ hcalls _ hcontexts => rw [hcontexts]; exact hupdate h (hcalled hcalls) p
  | spawn p' child next _ hcalls _ _ hcontexts =>
    rw [hcontexts]
    exact hupdate (hupdate h (hcalled hcalls)) (huser child 0) p
  | statement p' next _ _ _ hnext _ hcontexts =>
    rw [hcontexts]
    exact hupdate h (hstatement p' next hnext) p

/-- Where a step leaves a process: where it is, at a point outside the queue functions or at the first
statement of one of them, or where the system call or the statement that it has executed leads. -/
theorem ContextStep.at {a : Action} (hstep : k.ContextStep a k') (p : Addr) :
    (k'.pcbs.cpuState p = k.pcbs.cpuState p ∧
        ¬ (k.running = some p ∧ ∃ c next, k.Calls p a c next)) ∨
      (∃ ret, k'.pcbs.cpuState p = .user ret) ∨
      (∃ c : DmqCall, k'.pcbs.cpuState p = c.entry) ∨
      (∃ c next, k'.pcbs.cpuState p = next ∧ k.running = some p ∧ k.Calls p a c next ∧
        syscallVector c (k.trap p next c) = some k') ∨
      ∃ next, k'.pcbs.cpuState p = next ∧ k.running = some p ∧ a = .statement ∧
        k.StatementNext p (k.pcbs.cpuState p) next := by
  cases hstep with
  | same hcontexts hquiet =>
    refine Or.inl ⟨by rw [hcontexts], ?_⟩
    rintro ⟨hp, c, next, hcalls⟩
    exact Option.some_ne_none c ((hcalls.request hp).symm.trans hquiet)
  | start p' hidle _ hcontexts =>
    rw [hcontexts]
    by_cases hp : p = p'
    · subst hp
      exact Or.inr (Or.inl ⟨0, Function.update_self ..⟩)
    · refine Or.inl ⟨Function.update_of_ne hp _ _, fun hrunning ↦ ?_⟩
      exact Option.some_ne_none p (hrunning.1.symm.trans hidle)
  | call p' c _ haction _ _ hsame =>
    by_cases hp : p = p'
    · subst hp
      refine Or.inr (Or.inr (Or.inl ⟨c, ?_⟩))
      rw [hsame]
      exact Function.update_self ..
    · refine Or.inl ⟨?_, ?_⟩
      · rw [hsame]
        exact Function.update_of_ne hp _ _
      · rintro ⟨-, c', next, hcalls⟩
        rw [haction] at hcalls
        cases hcalls
  | syscall p' c next hrunning hcalls hcall hcontexts =>
    rw [hcontexts]
    by_cases hp : p = p'
    · subst hp
      exact Or.inr (Or.inr (Or.inr (Or.inl ⟨c, next, Function.update_self .., hrunning, hcalls, hcall⟩)))
    · refine Or.inl ⟨Function.update_of_ne hp _ _, fun hother ↦ hp ?_⟩
      exact Option.some.inj (hother.1.symm.trans hrunning)
  | spawn p' child next hrunning hcalls hcall _ hcontexts =>
    rw [hcontexts]
    by_cases hchild : p = child
    · subst hchild
      exact Or.inr (Or.inl ⟨0, Function.update_self ..⟩)
    · rw [Function.update_of_ne hchild]
      by_cases hp : p = p'
      · subst hp
        exact Or.inr (Or.inr (Or.inr (Or.inl
          ⟨.spawn, next, Function.update_self .., hrunning, hcalls, hcall⟩)))
      · refine Or.inl ⟨Function.update_of_ne hp _ _, fun hother ↦ hp ?_⟩
        exact Option.some.inj (hother.1.symm.trans hrunning)
  | statement p' next haction hrunning hrun hnext _ hcontexts =>
    rw [hcontexts]
    by_cases hp : p = p'
    · subst hp
      exact Or.inr (Or.inr (Or.inr (Or.inr
        ⟨next, Function.update_self .., hrunning, haction, hnext⟩)))
    · refine Or.inl ⟨Function.update_of_ne hp _ _, fun hother ↦ hp ?_⟩
      exact Option.some.inj (hother.1.symm.trans hrunning)

/-- A run without a shutdown does not get to the end of one. -/
theorem NoShutdown.step {a : Action} (h : k.NoShutdown) (hshutdown : k.request a ≠ some .shutdown)
    (hstep : k.step a = some k') : k'.NoShutdown :=
  (step_contexts h hshutdown hstep).forall_context (P := fun _ context ↦ context ≠ .halting) h
    (fun _ _ ↦ by simp) (fun _ c ↦ by cases c <;> simp [DmqCall.entry])
    (fun p c next hrequest ↦ by
      cases hcontext : k.pcbs.cpuState p <;> rw [hcontext] at hrequest <;>
        simp only [Context.request, Option.some.injEq, Prod.mk.injEq, reduceCtorEq] at hrequest <;>
        simp [← hrequest.2])
    fun p next hnext ↦ by
      generalize k.pcbs.cpuState p = context at hnext
      cases hnext <;> simp

end Kernel

/-! ### At the start -/

/-- At the start the lists of PCBs are empty, and no PCB is allocated. -/
theorem Layout.boot_scheduled (layout : Layout) : layout.boot.Scheduled fun _ ↦ [] := by
  have hpcbs := freshPool_ok layout.sizeofPCB_pos (by decide) layout.sizeofPCB_fits layout.pcbBuffer
  exact
    { threads := threads_empty
      pool := hpcbs.1
      allocated := fun _ p hp ↦ absurd hp List.not_mem_nil
      covered := fun p hp ↦ absurd hp (hpcbs.2 p)
      running_allocated := fun p hp ↦ absurd hp (Option.some_ne_none p).symm
      running_notReady := fun _ _ ↦ List.not_mem_nil
      running_notZombie := fun _ _ ↦ List.not_mem_nil }

/-- At the start there are no timers. -/
theorem Layout.boot_timersListed (layout : Layout) : layout.boot.TimersListed [] := by
  have htimers := freshPool_ok (by decide : 1 ≤ sizeofTimerItem) (by decide : 1 ≤ maxNumProcesses)
    (by decide) layout.timerItemBuffer
  exact
    { represents := represents_empty _
      pool := htimers.1
      allocated := fun t ↦ iff_of_false (htimers.2 t) List.not_mem_nil }

end DisastrOS
