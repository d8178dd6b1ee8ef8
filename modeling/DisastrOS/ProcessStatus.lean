import DisastrOS.ListSafety
import DisastrOS.ProcessSteps

/-!
# The status of the processes

In a run of processes the status of every listed process names its list, and a running process is
`Running` unless it was dispatched by a `sleep` or a `wait` (`statusesAgree_of_safe`).
`internal_schedule` and `internal_exit` set the status of the process that they dispatch;
`internal_sleep` and `internal_wait` make the first ready process run and leave it `Ready`.
`sleepingParent_not_statusesAgree` is the smallest run in which this happens.
-/

set_option autoImplicit false
set_option relaxedAutoImplicit false

namespace DisastrOS

open LinkedLists
open Function (update)

namespace Processes

variable {v v' : Processes} {e : Event}

/-- The running process has the status of one. -/
def RunsRunning (v : Processes) : Prop := ∀ p, v.running = some p → v.status p = .running

/-- A `sleep` and a `wait` either leave the running process or find none ready. -/
def DispatchesNone (v : Processes) (e : Event) (v' : Processes) : Prop :=
  ∀ c, e = .call c → ((∃ cycles, c = .sleep cycles) ∨ ∃ pid result, c = .wait pid result) →
    v'.running = v.running ∨ v.queue .ready = []

theorem RunsRunning.schedule {p : Addr} (h : v.RunsRunning) : (v.schedule p).RunsRunning := by
  intro q hq
  cases hcases : v.due ++ v.queue .ready with
  | nil =>
    rw [schedule_nil hcases] at hq ⊢
    exact h q hq
  | cons next rest =>
    rw [schedule_cons hcases] at hq ⊢
    obtain rfl := Option.some.inj hq
    exact Function.update_self ..

/-- A process that blocks leaves nobody running, if nobody is ready or it keeps running. -/
theorem Consistent.runsRunning_block {p : Addr} (h : v.Consistent) (hp : v.running = some p)
    (hready : (v'.block p).running = v.running ∨ v.queue .ready = [])
    (hqueue : v'.queue .ready = v.queue .ready) : (v'.block p).RunsRunning := by
  intro q hq
  change (v'.queue .ready).head? = some q at hq
  rw [hqueue] at hq
  rcases hready with hsame | hnone
  · change (v'.queue .ready).head? = v.running at hsame
    rw [hqueue, hp] at hsame
    exact absurd (List.mem_of_head? hsame) (h.unlisted hp .ready)
  · rw [hnone] at hq
    exact absurd hq (by simp)

/-- Every other step dispatches with the right status. -/
theorem RunsRunning.step (h : v.RunsRunning) (hv : v.Consistent) (hstep : v.Step e v')
    (hdispatch : v.DispatchesNone e v') : v'.RunsRunning := by
  cases hstep with
  | quiet => exact h
  | start p _ _ =>
    intro q hq
    obtain rfl := Option.some.inj hq
    exact Function.update_self ..
  | tick p _ =>
    have htick : ({ v with time := toInt (v.time + 1) } : Processes).RunsRunning := h
    exact htick.schedule
  | preempt p _ =>
    have htrap : (v.trap p .preempt).RunsRunning := h
    exact htrap.schedule
  | create p c x call _ hp hfresh _ =>
    intro q hq
    have hne : q ≠ c := fun hsame ↦ hfresh (hsame ▸ mem_all_of_running hq)
    exact (Function.update_of_ne hne _ _).trans (h q hq)
  | sleep p t cycles hp _ =>
    exact hv.runsRunning_block hp (hdispatch _ rfl (Or.inl ⟨cycles, rfl⟩)) rfl
  | wait p x pid result hp _ _ =>
    exact hv.runsRunning_block hp (hdispatch _ rfl (Or.inr ⟨pid, result, rfl⟩)) rfl
  | sleepFails | waitFails | reap | other => exact h
  | exitToParent p i parent value _ _ _ _ =>
    intro q hq
    obtain rfl := Option.some.inj hq
    exact Function.update_self ..
  | exitToReady p i parent next value _ _ _ _ _ =>
    intro q hq
    obtain rfl := Option.some.inj hq
    exact Function.update_self ..

end Processes

namespace Kernel

variable {k k' : Kernel} {v v' : Processes} {a : Action}

/-! ### When a step dispatches with the right status -/

/-- A `sleep` or a `wait` of process `p` would block: there is a timer block left, or a child to wait
for. -/
def callBlocks (k : Kernel) (p : Addr) : Syscall → Bool
  | .sleep _ => k.timerItems.allocator.getBlock.1.isSome
  | .wait pid _ => k.waitBlocks p pid
  | _ => false

/-- A step of the processes in which no process blocks while another one is ready. -/
def StatusSafe (k : Kernel) (a : Action) : Prop :=
  a.ofProcesses = true ∧
    ∀ p ∈ k.running, ∀ c ∈ k.request a, k.callBlocks p c = true → (k.lists .ready).first = none

instance (k : Kernel) (a : Action) : Decidable (k.StatusSafe a) :=
  inferInstanceAs (Decidable (_ ∧ ∀ p ∈ k.running, ∀ c ∈ k.request a, _))

theorem callBlocks_trap (k : Kernel) (p : Addr) (next : Context) (c : Syscall) :
    (k.trap p next c).callBlocks p c = k.callBlocks p c := by
  cases c with
  | wait pid result =>
    have hsearch : ∀ bound awaited start,
        (k.trap p next (.wait pid result)).awaitedPcbPtr pid bound awaited start =
          k.awaitedPcbPtr pid bound awaited start := by
      intros
      apply awaitedPcbPtr_congr <;> rfl
    simp only [callBlocks, waitBlocks, hsearch]
    rfl
  | preempt | fork | exit | spawn | sleep | openResource | closeResource | destroyResource | shutdown
  | sendMsg | recvMsg | wakeupQueue | openQueue => rfl

/-- A `sleep` or `wait` that does not block leaves the process running. -/
theorem running_of_not_callBlocks {p : Addr} {c : Syscall} (hp : k.running = some p)
    (hc : (∃ cycles, c = .sleep cycles) ∨ ∃ pid result, c = .wait pid result)
    (hblocks : k.callBlocks p c = false) (hcall : syscallVector c k = some k') :
    k'.running = k.running := by
  obtain ⟨cycles, rfl⟩ | ⟨pid, result, rfl⟩ := hc
  · obtain ⟨p', -, rfl | ⟨t, k₁, hadd, -⟩⟩ := internalSleep_cases hcall
    · rfl
    · obtain ⟨previous, -, halloc⟩ := Option.bind_eq_some_iff.mp hadd
      have hnone : k.timerItems.allocator.getBlock.1 = none := by
        simpa [callBlocks] using hblocks
      rcases hget : k.timerItems.allocator.getBlock with ⟨_ | t', pool⟩
      · simp [timerItemAlloc, hget] at halloc
      · simp [hget] at hnone
  · obtain ⟨p', hp', ⟨-, rfl⟩ | ⟨awaited, hsome, hawaited, hcases⟩⟩ := internalWait_cases hcall
    · rfl
    · obtain rfl := Option.some.inj (hp.symm.trans hp')
      obtain ⟨x, -, -, rfl⟩ | ⟨hnotZombie, ⟨hpid, -⟩ | ⟨-, -, rfl⟩⟩ := hcases
      · rfl
      · have hsome' := Option.ne_none_iff_isSome.mp hsome
        rw [callBlocks, waitBlocks, hsome', Bool.true_and, hawaited] at hblocks
        cases awaited with
        | none => exact absurd (hpid rfl) (of_decide_eq_false hblocks)
        | some x => exact absurd (hnotZombie x rfl) (of_decide_eq_false hblocks)
      · rfl

/-- A step of the kernel that meets the condition dispatches no process that is merely ready. -/
theorem StatusSafe.dispatchesNone (hsafe : k.StatusSafe a) (hstep : k.step a = some k')
    (hshows : k.Shows v) (hshows' : k'.Shows v') : v.DispatchesNone (k.event a) v' := by
  intro c hevent hc
  by_cases hready : v.queue .ready = []
  · exact Or.inr hready
  left
  have hrequest := event_eq_call.mp hevent
  obtain ⟨p, hp⟩ := running_of_request hrequest
  obtain ⟨next, -, hcall⟩ := step_syscall hp hrequest hstep
  have hnotBlocks : k.callBlocks p c = false := by
    by_contra hblocks
    rw [Bool.not_eq_false] at hblocks
    have hfirst := hsafe.2 p hp c hrequest hblocks
    rw [hshows.first, List.head?_eq_none_iff] at hfirst
    exact hready hfirst
  have hsame := running_of_not_callBlocks (k := k.trap p next c) hp hc
    ((callBlocks_trap k p next c).trans hnotBlocks) hcall
  rw [← hshows'.running, ← hshows.running, hsame]
  rfl

/-! ### Whole runs -/

/-- The running process is `Running`, and the status of a process in a list names the list. -/
def StatusesAgree (k : Kernel) : Prop :=
  (∀ p, k.running = some p → k.pcbs.status p = .running) ∧
    ∀ l p, Reaches k.pcbs.list (k.lists l).first p → k.pcbs.status p = l.status

theorem Shows.statusesAgree (h : k.Shows v) (hv : v.Consistent) (hruns : v.RunsRunning) :
    k.StatusesAgree := by
  constructor
  · intro p hp
    rw [h.status]
    exact hruns p (h.running.symm.trans hp)
  · intro l p hp
    rw [h.status]
    exact hv.listed l p ((h.reaches_iff l).mp hp)

end Kernel

/-- In every run of processes in which no process blocks while another is ready, the statuses agree
with the lists. -/
theorem statusesAgree_of_safe (layout : Layout) {actions : List Action} {k : Kernel}
    (hsafe : Runs.Meets Kernel.step Kernel.StatusSafe layout.boot actions)
    (hrun : Runs.run Kernel.step layout.boot actions = some k) : k.StatusesAgree := by
  have hstart : layout.boot.Satisfies fun _ v ↦ v.RunsRunning := by
    apply layout.boot_satisfies
    intro p hp
    exact absurd hp (by simp [Kernel.processes, Layout.boot])
  obtain ⟨-, v, hshows, hv, hruns⟩ := Kernel.satisfies_run
    (fun k a hsafe c hrequest ↦ Kernel.concernsUsers_of_processes
      (Kernel.concernsProcesses_of_request hsafe.1 hrequest))
    (fun k k' a v v' hsafe hstep hshows hv hruns hstep' hshows' ↦
      hruns.step hv hstep' (hsafe.dispatchesNone hstep hshows hshows')) hstart hsafe hrun
  exact hshows.statusesAgree hv hruns

/-- The first process spawns a child, is interrupted by the timer, and later takes the child away;
then it sleeps, with nobody else there. -/
theorem statusesAgree_of_safe_reapedChild : ∃ k,
    Runs.run Kernel.step sampleLayout.boot
      [.start, .syscall .spawn, .timer, .syscall (.exit 7), .syscall (.wait 0 none),
        .syscall (.sleep 3)] = some k ∧ k.StatusesAgree := by
  have hruns : (Runs.run Kernel.step sampleLayout.boot [.start, .syscall .spawn, .timer,
      .syscall (.exit 7), .syscall (.wait 0 none), .syscall (.sleep 3)]).isSome := by decide +kernel
  obtain ⟨k, hk⟩ := Option.isSome_iff_exists.mp hruns
  exact ⟨k, hk, statusesAgree_of_safe sampleLayout (by decide +kernel) hk⟩

/-- The first process spawns a child and sleeps. -/
def sleepingParent : List Action := [.start, .syscall .spawn, .syscall (.sleep 3)]

/-- The child of a parent that sleeps runs with the status `Ready`. -/
theorem sleepingParent_not_statusesAgree : ∃ k,
    (∀ a ∈ sleepingParent, a.ofProcesses = true) ∧
      Runs.run Kernel.step sampleLayout.boot sleepingParent = some k ∧ ¬ k.StatusesAgree := by
  have hends : (Runs.run Kernel.step sampleLayout.boot sleepingParent).map (fun k ↦
      (k.running, k.pcbs.status (0x400000 + 17544))) =
        some (some (0x400000 + 17544), .ready) := by decide +kernel
  obtain ⟨k, hk, hpair⟩ := Option.map_eq_some_iff.mp hends
  obtain ⟨hruns, hready⟩ := Prod.mk.inj hpair
  refine ⟨k, by decide, hk, fun hagree ↦ ?_⟩
  rw [hagree.1 _ hruns] at hready
  exact absurd hready (by decide)

end DisastrOS
