import DisastrOS.ProcessStorage

/-!
# When the processes cannot go on

A run of the processes goes on until a call dereferences a null pointer, fails an assertion or does not
return. `Processes.Stuck` lists when that is: nobody runs, or the first process was started before; a new
process finds no block or no pid; the first process exits; or a process exits that nobody waits for while
nobody is ready. In every state of every run these are the only ones (`processes_stuck_iff`): sleeping,
waiting, giving way and the timer interrupt always come to an end.

The runs make no `fork`: the machine state of the process it makes is whatever its block holds.
-/

set_option autoImplicit false
set_option relaxedAutoImplicit false

namespace DisastrOS

open LinkedLists PoolAllocator
open Function (update)

namespace Processes

variable {v v' : Processes} {e : Event} {p q : Addr}

/-- An action with which the processes cannot go on, after `made` children that no `wait` has taken
away. -/
inductive Stuck (made : ℕ) (v : Processes) : Action → Prop
  | nobody (a : Action) (ha : a ≠ .start) (hidle : v.running = none) : Stuck made v a
  | startAgain (hstarted : v.init ≠ none) : Stuck made v .start
  | spawnFull (hfull : maxNumProcesses ≤ v.all.length ∨ maxNumProcesses ≤ made ∨ v.nextPid = intMax) :
    Stuck made v (.syscall .spawn)
  | exitFirst (p : Addr) (value : ℤ) (hp : v.running = some p) (hparent : v.parent p = none) :
    Stuck made v (.syscall (.exit value))
  | exitAlone (p parent : Addr) (value : ℤ) (hp : v.running = some p)
    (hparent : v.parent p = some parent) (hawaits : ¬ v.Awaits parent p)
    (hready : v.queue .ready = []) : Stuck made v (.syscall (.exit value))

/-- Without a first process there is none at all, and no pid is used up. -/
def HasInit (v : Processes) : Prop := v.init = none → v.all = [] ∧ v.nextPid = 0

/-- Whoever runs, there is a first process. -/
theorem HasInit.ne_none (h : v.HasInit) (hp : v.running = some p) : v.init ≠ none := by
  intro hnone
  have hmem := mem_all_of_running hp
  rw [(h hnone).1] at hmem
  exact List.not_mem_nil hmem

theorem HasInit.step (h : v.HasInit) (hstep : v.Step e v') : v'.HasInit := by
  have hkeeps : ∀ p, v.running = some p → v'.init = v.init → v'.HasInit :=
    fun p hp hinit hnone ↦ absurd (hinit.symm.trans hnone) (h.ne_none hp)
  cases hstep with
  | quiet => exact h
  | start p => exact fun hnone ↦ absurd hnone (Option.some_ne_none p)
  | tick p hp => exact hkeeps p hp (by rw [schedule_eq])
  | preempt p hp => exact hkeeps p hp (by rw [schedule_eq]; rfl)
  | create p _ _ _ _ hp => exact hkeeps p hp rfl
  | sleepFails p _ hp => exact hkeeps p hp rfl
  | sleep p _ _ hp => exact hkeeps p hp rfl
  | waitFails p _ _ hp => exact hkeeps p hp rfl
  | reap p _ _ _ hp => exact hkeeps p hp rfl
  | wait p _ _ _ hp => exact hkeeps p hp rfl
  | exitToParent p _ _ _ hp => exact hkeeps p hp rfl
  | exitToReady p _ _ _ _ hp => exact hkeeps p hp rfl
  | other p _ hp => exact hkeeps p hp rfl

/-- An exit that comes to an end has a parent, and somebody to run. -/
theorem Step.not_stuck_exit {made : ℕ} {value : ℤ} (hstep : v.Step (.call (.exit value)) v') :
    ¬ v.Stuck made (.syscall (.exit value)) := by
  have hends : ∀ p parent, v.running = some p → v.parent p = some parent →
      v.Awaits parent p ∨ v.queue .ready ≠ [] → ¬ v.Stuck made (.syscall (.exit value)) := by
    intro p parent hp hparent hgoes hstuck
    cases hstuck with
    | nobody _ _ hidle => exact Option.noConfusion rfl (heq_of_eq (hidle.symm.trans hp))
    | exitFirst q _ hq hnone =>
      obtain rfl := Option.some.inj (hp.symm.trans hq)
      exact absurd (hnone.symm.trans hparent) (by simp)
    | exitAlone q parent' _ hq hparent' hawaits hready =>
      obtain rfl := Option.some.inj (hp.symm.trans hq)
      obtain rfl := Option.some.inj (hparent.symm.trans hparent')
      exact hgoes.elim hawaits fun hsome ↦ hsome hready
  cases hstep with
  | exitToParent p i parent _ hp _ hparent hawaits => exact hends p parent hp hparent (Or.inl hawaits)
  | exitToReady p i parent next _ hp _ hparent _ hnext =>
    refine hends p parent hp hparent (Or.inr fun hready ↦ ?_)
    rw [hready] at hnext
    exact absurd hnext (by simp)
  | create p _ _ _ hcall => exact absurd hcall (by simp)
  | other p _ _ hother => exact absurd hother (by simp [Syscall.concernsProcesses])

end Processes

namespace Kernel

variable {k k' : Kernel} {v v' : Processes} {a : Action} {p i parent : Addr} {made : ℕ}

/-! ### What comes to an end -/

/-- An exit ends if the parent waits for it. -/
theorem Lists.internalExit_isSome_of_awaits (h : k.Lists v) (hv : v.Consistent) (hbounded : k.Bounded)
    (hp : v.running = some p) (hinit : v.init = some i) (hparent : v.parent p = some parent)
    (hawaits : v.Awaits parent p) (hdescriptors : (k.pcbs.descriptors p).first = none) (value : ℤ) :
    (Kernel.internalExit value k).isSome := by
  have hrunning : k.running = some p := h.running.trans hp
  have hne : i ≠ p := fun hsame ↦
    absurd ((hv.init_live i hinit).2.symm.trans (hsame ▸ hparent)) (by simp)
  obtain ⟨k₁, hzombie⟩ := Option.isSome_iff_exists.mp <|
    becomeZombie_isSome h.children (h.initPcb.trans hinit) hne.symm (h.children_length hbounded p) value
  have hframe := becomeZombie_eq hzombie
  have hparent₁ : k₁.pcbs.parent p = some parent := by
    rw [hframe]
    exact (congrFun h.parent p).trans hparent
  have hwaits : (k₁.sendSignal parent dsosSigchld).awaits parent p = true := by
    rw [becomeZombie_awaits hzombie, Bool.and_eq_true, decide_eq_true_iff, h.awaits_iff]
    exact ⟨fun hsame ↦ hv.not_awaits_self hp (hsame ▸ hawaits), hawaits⟩
  obtain ⟨i', hi', hkids⟩ := h.becomeZombie_children
    (fun j hj ↦ Option.some.inj (hinit.symm.trans hj) ▸ hne) hzombie
  have htimers : (k₁.sendSignal parent dsosSigchld).TimersListed v.timers :=
    h.timersListed.congr (by rw [hframe]; rfl) (by rw [hframe]; rfl)
  simp only [Kernel.internalExit, hrunning, Option.bind_eq_bind, Option.bind_some, hzombie, hparent₁,
    hwaits, if_true]
  refine exitToParent_isSome htimers (hkids.represents parent) (h.timers_length hbounded)
    (h.pointers_length hbounded hkids (fun _ _ ↦ Processes.exists_of_mem_hand) parent) ?_
  rw [hframe]
  exact hdescriptors

theorem startProcess_isSome_iff : k.startProcess.isSome ↔
    (k.running = none ∧ k.initPcb = none ∧ k.shutdownNow = false) ∧
      k.pcbs.allocator.getBlock.1 ≠ none ∧ k.lastPid ≠ intMax := by
  unfold startProcess
  split_ifs with hidle
  · refine iff_of_false (by simp) fun h ↦ ?_
    simp [h.1.1, h.1.2.1, h.1.2.2] at hidle
  · rw [not_or, not_or, Option.not_isSome_iff_eq_none, Option.not_isSome_iff_eq_none,
      Bool.not_eq_true] at hidle
    rw [and_iff_right hidle]
    rcases hget : k.pcbs.allocator.getBlock with ⟨_ | c, pool⟩
    · simp [pcbAlloc, hget]
    · by_cases hpid : k.lastPid = intMax
      · simp [pcbAlloc, hget, hpid]
      · simp [pcbAlloc, hget, hpid]

theorem step_shutdownNow (ha : a.ofProcesses = true) (hstep : k.step a = some k') :
    k'.shutdownNow = k.shutdownNow := by
  obtain ⟨rfl, hstart⟩ | ⟨rfl, htimer⟩ | ⟨x, byte, rfl, -, rfl⟩ | ⟨c, p, ret, rfl, hp, -, rfl⟩ |
    ⟨c, p, next, hp, hcalls, hcall⟩ | ⟨p, rfl, -, -, hrun⟩ := step_cases hstep
  · obtain ⟨-, p, pool, -, rfl⟩ := startProcess_cases hstart
    rfl
  · obtain ⟨p, -, hschedule⟩ := Option.bind_eq_some_iff.mp htimer
    rw [internalSchedule_eq hschedule]
  · rfl
  · rfl
  · have hprocesses := concernsProcesses_of_request ha (hcalls.request hp)
    cases c with
    | preempt => rw [internalSchedule_eq hcall]; rfl
    | fork | spawn =>
      obtain ⟨⟨child, k₁⟩, hnew, hk'⟩ := Option.bind_eq_some_iff.mp hcall
      obtain rfl := Option.some.inj hk'
      obtain ⟨_, pool, x, ptrPool, -, -, -, -, rfl⟩ := newProcess_cases hnew
      rfl
    | sleep cycles =>
      obtain ⟨p', -, rfl | ⟨t, k₁, hadd, rfl⟩⟩ := internalSleep_cases hcall
      · rfl
      · change k₁.shutdownNow = _
        rw [timerListAdd_eq hadd]
        rfl
    | wait pid result =>
      obtain ⟨p', -, ⟨-, rfl⟩ | ⟨awaited, -, -, ⟨x, -, -, rfl⟩ | ⟨-, ⟨-, rfl⟩ | ⟨-, -, rfl⟩⟩⟩⟩ :=
        internalWait_cases hcall
      · rfl
      · rw [reapZombie_eq]; rfl
      · rfl
      · rfl
    | exit value =>
      obtain ⟨p, k₁, parent, -, hzombie, -, ⟨-, hexit⟩ | ⟨-, hexit⟩⟩ := internalExit_cases hcall
      · rw [exitToParent_eq hexit, becomeZombie_eq hzombie]; rfl
      · rw [exitToReady_eq hexit, becomeZombie_eq hzombie]; rfl
    | openResource | closeResource | destroyResource | shutdown | sendMsg | recvMsg | wakeupQueue
    | openQueue => exact absurd hprocesses Bool.false_ne_true
  · exact absurd ha Bool.false_ne_true

/-! ### Runs of the processes -/

/-- What the processes have reached that use neither queues nor resources. -/
structure Underway (made : ℕ) (k : Kernel) (v : Processes) : Prop where
  counted : k.Counted made v
  plain : k.Plain
  hasInit : v.HasInit
  noShutdown : k.shutdownNow = false

theorem callsNoUsers_of_processes (ha : a.ofProcesses = true) : k.CallsNoUsers a :=
  fun _ hrequest ↦ concernsUsers_of_processes (concernsProcesses_of_request ha hrequest)

theorem Underway.step {e : Processes.Event} (h : k.Underway made v) (hshows : k.Shows v)
    (hv : v.Consistent) (ha : a.ofProcesses = true) (hstep : k.step a = some k') (hstep' : v.Step e v') :
    k'.Underway (noteChildren made k a k') v' where
  counted := h.counted.step hshows hv (callsNoUsers_of_processes ha) hstep hstep'
  plain := h.plain.step ha hstep
  hasInit := h.hasInit.step hstep'
  noShutdown := (step_shutdownNow ha hstep).trans h.noShutdown

theorem Underway.request (h : k.Underway made v) (hp : k.running = some p) (c : Syscall) :
    k.request (.syscall c) = some c := by
  simp [Kernel.request, h.plain.atUser hp]

theorem Shows.lastPid (h : k.Shows v) : k.lastPid = v.nextPid := by
  obtain ⟨s, hlists⟩ := h
  exact hlists.lastPid

/-- The first process starts if it was not started before. -/
theorem Underway.start_isSome_iff (h : k.Underway made v) (hshows : k.Shows v) (hv : v.Consistent) :
    (k.step .start).isSome ↔ v.init = none := by
  rw [Kernel.step, startProcess_isSome_iff, hshows.running, hshows.initPcb, hshows.lastPid]
  refine ⟨fun hstart ↦ hstart.1.2.1, fun hfirst ↦ ?_⟩
  obtain ⟨hall, hpid⟩ := h.hasInit hfirst
  have hpcbs := (h.counted.processStorage hshows hv).pcbs
  have hidle : v.running = none :=
    Option.eq_none_iff_forall_ne_some.mpr fun p hp ↦ h.hasInit.ne_none hp hfirst
  refine ⟨⟨hidle, hfirst, h.noShutdown⟩, ?_, ?_⟩
  · rw [ne_eq, hshows.pcbPool.getBlock_eq_none_iff]
    rw [hall] at hpcbs
    exact fun hfull ↦ absurd (hfull ▸ hpcbs) (by decide)
  · rw [hpid]
    decide

theorem Underway.exit_isSome (h : k.Underway made v) (hshows : k.Shows v) (hv : v.Consistent)
    (hp : v.running = some p) {value : ℤ} (hparent : v.parent p = some parent)
    (hgoes : v.Awaits parent p ∨ v.queue .ready ≠ []) : (k.step (.syscall (.exit value))).isSome := by
  have hkp : k.running = some p := hshows.running.trans hp
  obtain ⟨i, hi⟩ := Option.ne_none_iff_exists'.mp (h.hasInit.ne_none hp)
  by_cases hready : v.queue .ready = []
  · have hawaits := hgoes.resolve_right fun hne ↦ hne hready
    obtain ⟨s, hlists⟩ := hshows
    obtain ⟨next, -, hsame⟩ := step_eq_syscallVector hkp (h.request hkp (.exit value))
    have htrap : ((k.trap p next (.exit value)).recount s).Lists (v.trap p (.exit value)) :=
      hlists.trap p next _
    rw [hsame, ← Option.isSome_map (f := fun k' : Kernel ↦ k'.recount s), ← recount_syscallVector rfl]
    exact htrap.internalExit_isSome_of_awaits (hv.trap hp _) (h.counted.bounded.congr rfl rfl rfl) hp hi
      hparent ((hv.trap_awaits hp).mpr hawaits) (h.plain.descriptors p) value
  · refine hshows.step_isSome hv h.plain h.counted.bounded hp rfl Action.noConfusion ⟨?_, ?_⟩ ?_
    · simp
    · simp
    · exact fun _ _ ↦ ⟨h.hasInit.ne_none hp, by simp [hparent], hready⟩

/-- The processes go on, unless they are stuck. -/
theorem Underway.step_isSome (h : k.Underway made v) (hshows : k.Shows v) (hv : v.Consistent)
    (ha : a.ofProcesses = true) (hfork : a ≠ .syscall .fork) (hgoes : ¬ v.Stuck made a) :
    (k.step a).isSome := by
  by_cases hstart : a = .start
  · subst hstart
    refine (h.start_isSome_iff hshows hv).mpr ?_
    by_contra hstarted
    exact hgoes (.startAgain hstarted)
  obtain ⟨p, hp⟩ : ∃ p, v.running = some p :=
    Option.ne_none_iff_exists'.mp fun hidle ↦ hgoes (.nobody a hstart hidle)
  have hkp : k.running = some p := hshows.running.trans hp
  by_cases hspawn : a = .syscall .spawn
  · subst hspawn
    have hroom := mt Processes.Stuck.spawnFull hgoes
    rw [not_or, not_or, not_le, not_le] at hroom
    refine ((h.counted.processStorage hshows hv).create p _ hkp (Or.inr (h.request hkp .spawn))).mpr ?_
    exact ⟨hroom.1, hroom.2.1, hshows.lastPid ▸ hroom.2.2⟩
  by_cases hexit : ∃ value, a = .syscall (.exit value)
  · obtain ⟨value, rfl⟩ := hexit
    obtain ⟨parent, hparent⟩ : ∃ parent, v.parent p = some parent :=
      Option.ne_none_iff_exists'.mp fun hnone ↦ hgoes (.exitFirst p value hp hnone)
    refine h.exit_isSome hshows hv hp hparent ?_
    by_contra hnot
    rw [not_or, not_not] at hnot
    exact hgoes (.exitAlone p parent value hp hparent hnot.1 hnot.2)
  · exact hshows.step_isSome hv h.plain h.counted.bounded hp ha hstart ⟨hfork, hspawn⟩
      fun value hsame ↦ absurd ⟨value, hsame⟩ hexit

theorem step_of_nobody (hnobody : k.running = none) (ha : a.ofProcesses = true) (hstart : a ≠ .start) :
    k.step a = none := by
  cases a with
  | start => exact absurd rfl hstart
  | timer => simp [Kernel.step, timerInterrupt, hnobody]
  | write | syscall => simp [Kernel.step, atUser, context, hnobody]
  | call | statement => exact absurd ha Bool.false_ne_true

/-- A step that is done was not one with which the processes are stuck. -/
theorem Underway.not_stuck (h : k.Underway made v) (hshows : k.Shows v) (hv : v.Consistent)
    (ha : a.ofProcesses = true) (hstep : k.step a = some k') : ¬ v.Stuck made a := by
  intro hstuck
  have hexit : ∀ value, a ≠ .syscall (.exit value) := by
    rintro value rfl
    obtain ⟨v', hstep', -⟩ := hshows.step hv h.plain.noShutdown (callsNoUsers_of_processes ha) hstep
    rw [event_eq_call.mpr (request_of_step hstep)] at hstep'
    exact hstep'.not_stuck_exit hstuck
  cases hstuck with
  | nobody a hstart hidle =>
    exact absurd (hstep.symm.trans (step_of_nobody (hshows.running.trans hidle) ha hstart)) (by simp)
  | startAgain hstarted =>
    exact hstarted ((h.start_isSome_iff hshows hv).mp (Option.isSome_of_eq_some hstep))
  | spawnFull hfull =>
    obtain ⟨p, hp⟩ : ∃ p, k.running = some p := Option.ne_none_iff_exists'.mp fun hnobody ↦
      absurd (hstep.symm.trans (step_of_nobody hnobody ha Action.noConfusion)) (by simp)
    obtain ⟨hroom, hmade, hpid⟩ := ((h.counted.processStorage hshows hv).create p _ hp
      (Or.inr (h.request hp .spawn))).mp (Option.isSome_of_eq_some hstep)
    rw [hshows.lastPid] at hpid
    exact hfull.elim (not_le.mpr hroom) fun hrest ↦ hrest.elim (not_le.mpr hmade) hpid
  | exitFirst p value => exact hexit value rfl
  | exitAlone p parent value => exact hexit value rfl

end Kernel

/-- In every run of the processes an action of theirs goes no further exactly if they are stuck. -/
theorem processes_stuck_iff (layout : Layout) {actions : List Action} {k : Kernel} {a : Action}
    (hactions : ∀ a ∈ actions, a.ofProcesses = true ∧ a ≠ .syscall .fork)
    (hrun : Runs.run Kernel.step layout.boot actions = some k)
    (ha : a.ofProcesses = true) (hfork : a ≠ .syscall .fork) :
    ∃ v, k.Shows v ∧ v.Consistent ∧ (k.step a = none ↔ v.Stuck
      (Runs.monitor Kernel.step Kernel.noteChildren 0 layout.boot actions) a) := by
  have hstart : layout.boot.Satisfies (Kernel.Underway 0) := layout.boot_satisfies
    { counted := layout.boot_counted
      plain := layout.boot_plain
      hasInit := fun _ ↦ ⟨rfl, rfl⟩
      noShutdown := rfl }
  obtain ⟨-, v, hshows, hv, hunderway⟩ := Kernel.satisfies_monitor
    (P := Kernel.Underway) (fun k a ha c hrequest ↦ Kernel.callsNoUsers_of_processes ha c hrequest)
    (fun _ _ _ _ _ _ ha hstep hshows hv h hstep' _ ↦ h.step hshows hv ha hstep hstep') hstart
    (Runs.Meets.of_forall layout.boot fun a ha ↦ (hactions a ha).1) hrun
  refine ⟨v, hshows, hv, ?_⟩
  constructor
  · intro hnone
    by_contra hgoes
    have hsome := hunderway.step_isSome hshows hv ha hfork hgoes
    rw [hnone] at hsome
    exact absurd hsome (by simp)
  · intro hstuck
    by_contra hsome
    obtain ⟨k', hk'⟩ := Option.ne_none_iff_exists'.mp hsome
    exact hunderway.not_stuck hshows hv ha hk' hstuck

/-- A child exits while its parent, the only other process, sleeps: there is nobody to run. -/
theorem processes_stuck_iff_parentSleeps : ∃ k v, Runs.run Kernel.step sampleLayout.boot
    [.start, .syscall .spawn, .syscall (.sleep 3)] = some k ∧ k.Shows v ∧ v.Consistent ∧
      v.Stuck 1 (.syscall (.exit 0)) := by
  have hruns : ∃ k ∈ Runs.run Kernel.step sampleLayout.boot [.start, .syscall .spawn,
      .syscall (.sleep 3)], (k.step (.syscall (.exit 0))).isNone ∧
        Runs.monitor Kernel.step Kernel.noteChildren 0 sampleLayout.boot [.start, .syscall .spawn,
          .syscall (.sleep 3)] = 1 := by decide +kernel
  obtain ⟨k, hk, hnone, hmade⟩ := hruns
  obtain ⟨v, hshows, hv, hstuck⟩ :=
    processes_stuck_iff (a := .syscall (.exit 0)) sampleLayout (by simp [Action.ofProcesses,
      Syscall.concernsProcesses]) hk rfl (by simp)
  rw [hmade] at hstuck
  exact ⟨k, v, hk, hshows, hv, hstuck.mp (Option.isNone_iff_eq_none.mp hnone)⟩

end DisastrOS
