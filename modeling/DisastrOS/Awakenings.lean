import DisastrOS.Library.StableOrder
import DisastrOS.Sleeping

/-!
# Awakenings

A process that sleeps wakes on time. `timer_list` is in the order in which the timers are due
(`TimersSorted`), so a schedule, which looks at the first timers only, leaves none that is due
(`TimersSorted.lt_of_mem_schedule`); and the clock moves with a schedule only, by one. So a sleep ends
at the tick at which its timer is due (`Napping.step`), in every run of the processes that goes so far
(`sleep_endsOnTime`).
-/

set_option autoImplicit false
set_option relaxedAutoImplicit false

namespace DisastrOS

open LinkedLists StableOrder
open Function (update)

namespace Processes

variable {v v' : Processes} {e : Event} {p q t : Addr} {wake : ℤ}

/-! ### The order of the timers -/

/-- The timers are in the order in which they are due, and those that are due at once in the order in
which they were added. -/
def TimersSorted (v : Processes) : Prop :=
  ∃ number count, StablySorted v.wakeTime number v.timers ∧ ∀ t ∈ v.timers, number t < count

theorem TimersSorted.sublist (h : v.TimersSorted) (htimes : v'.wakeTime = v.wakeTime)
    (htimers : v'.timers.Sublist v.timers) : v'.TimersSorted := by
  obtain ⟨number, count, hsorted, hcount⟩ := h
  refine ⟨number, count, ?_, fun t ht ↦ hcount t (htimers.subset ht)⟩
  rw [htimes]
  exact List.Pairwise.sublist htimers hsorted

theorem TimersSorted.addTimer (h : v.TimersSorted) (hfresh : t ∉ v.timers) (p : Addr) (time : ℤ) :
    (v.addTimer t p time).TimersSorted := by
  obtain ⟨number, count, hsorted, hcount⟩ := h
  refine ⟨update number t count, count + 1, hsorted.place hfresh hcount, fun s hs ↦ ?_⟩
  rcases mem_place.mp hs with rfl | hmem
  · rw [Function.update_self]
    exact Nat.lt_succ_self _
  · rw [Function.update_of_ne (ne_of_mem_of_not_mem hmem hfresh)]
    exact (hcount s hmem).trans (Nat.lt_succ_self _)

theorem schedule_timers_sublist (v : Processes) (p : Addr) :
    (v.schedule p).timers.Sublist v.timers := by
  unfold schedule
  split
  · exact List.Sublist.refl _
  · exact List.dropWhile_sublist _

theorem TimersSorted.schedule (h : v.TimersSorted) (p : Addr) : (v.schedule p).TimersSorted :=
  h.sublist (by rw [schedule_eq]) (v.schedule_timers_sublist p)

theorem TimersSorted.step (h : v.TimersSorted) (hstep : v.Step e v') : v'.TimersSorted := by
  cases hstep with
  | quiet | start | create | sleepFails | waitFails | reap | wait | exitToReady | other => exact h
  | tick p =>
    have htick : ({ v with time := toInt (v.time + 1) } : Processes).TimersSorted := h
    exact htick.schedule p
  | preempt p =>
    have htrap : (v.trap p .preempt).TimersSorted := h
    exact htrap.schedule p
  | sleep p t cycles _ hfresh =>
    have htrap : (v.trap p (.sleep cycles)).TimersSorted := h
    exact htrap.addTimer hfresh p _
  | exitToParent => exact h.sublist rfl List.filter_sublist

/-! ### The end of a sleep -/

/-- Process `p` runs or is ready. -/
def Runnable (p : Addr) (v : Processes) : Prop := v.running = some p ∨ p ∈ v.queue .ready

/-- The clock is not below the least `int`. -/
def ClockFits (v : Processes) : Prop := -2147483648 ≤ v.time

/-- Process `p` sleeps, and its timer is not due. -/
structure Napping (p : Addr) (wake : ℤ) (v : Processes) : Prop where
  sleeps : v.Sleeps p wake
  early : v.time < wake

theorem Sleeps.mem_due (h : v.Sleeps p wake) (hsorted : v.TimersSorted) (hdue : wake ≤ v.time) :
    p ∈ v.due := by
  obtain ⟨-, t, ht, rfl, rfl⟩ := h
  obtain ⟨number, -, hstable, -⟩ := hsorted
  rw [← List.takeWhile_append_dropWhile (p := fun t ↦ decide (v.wakeTime t ≤ v.time)) (l := v.timers),
    List.mem_append] at ht
  rcases ht with htaken | hleft
  · exact List.mem_map_of_mem htaken
  · exact absurd (hstable.lt_of_mem_dropWhile t hleft) (not_lt.mpr hdue)

/-- A schedule wakes the processes whose timers are due. -/
theorem runnable_schedule (hdue : p ∈ v.due) (q : Addr) : (v.schedule q).Runnable p := by
  cases hcases : v.due ++ v.queue .ready with
  | nil => exact absurd ((List.append_eq_nil_iff.mp hcases).1 ▸ hdue) List.not_mem_nil
  | cons next rest =>
    have hmem : p ∈ next :: rest := hcases ▸ List.mem_append_left _ hdue
    rw [schedule_cons hcases]
    rcases List.mem_cons.mp hmem with rfl | hrest
    · exact Or.inl rfl
    · have hmem : p ∈ rest ++ [q] := List.mem_append_left _ hrest
      exact Or.inr (by simpa using hmem)

/-- The clock moves with the timer interrupts only. -/
theorem Step.time_eq (hstep : v.Step e v') (hne : e ≠ .tick) : v'.time = v.time := by
  cases hstep with
  | tick => exact absurd rfl hne
  | preempt p => rw [schedule_eq]; rfl
  | quiet | start | create | sleepFails | sleep | waitFails | reap | wait | exitToParent | exitToReady
  | other => rfl

theorem ClockFits.step (h : v.ClockFits) (hstep : v.Step e v') : v'.ClockFits := by
  by_cases htick : e = .tick
  · subst htick
    cases hstep with
    | tick p =>
      rw [schedule_eq]
      exact Int.le_bmod (by decide)
  · rw [ClockFits, hstep.time_eq htick]
    exact h

/-- A sleep goes on, or a timer interrupt ends it at its time. -/
theorem Napping.step (h : v.Napping p wake) (hv : v.Consistent) (hsorted : v.TimersSorted)
    (hclock : v.ClockFits) (hhigh : wake ≤ intMax) (hstep : v.Step e v') :
    v'.Napping p wake ∨ e = .tick ∧ v'.time = wake ∧ v'.Runnable p := by
  have hearly := h.early
  by_cases htick : e = .tick
  · subst htick
    cases hstep with
    | tick q hq =>
      have hnext : toInt (v.time + 1) = v.time + 1 := by
        unfold intMax at hhigh
        unfold ClockFits at hclock
        exact PoolAllocator.toInt_eq (by omega) (by omega)
      set v₁ : Processes := { v with time := toInt (v.time + 1) } with hv₁
      have htime : (v₁.schedule q).time = v.time + 1 := by
        rw [schedule_eq]
        exact hnext
      have hsleeps : v₁.Sleeps p wake := h.sleeps
      by_cases hdue : wake ≤ v.time + 1
      · refine Or.inr ⟨rfl, by omega, runnable_schedule ?_ q⟩
        have hsorted₁ : v₁.TimersSorted := hsorted
        exact hsleeps.mem_due hsorted₁ (hdue.trans_eq hnext.symm)
      · have hearly₁ : v₁.time < wake := lt_of_eq_of_lt hnext (not_le.mp hdue)
        have hconsistent : v₁.Consistent := { hv with }
        exact Or.inl ⟨hsleeps.schedule hconsistent hearly₁ q, by omega⟩
  · have hsame := hstep.time_eq htick
    have hlater : v'.time < wake := hsame ▸ hearly
    exact Or.inl ⟨h.sleeps.step hv hstep hlater, hlater⟩

end Processes

namespace Kernel

variable {k k' : Kernel} {v v' : Processes} {a : Action} {p : Addr} {wake : ℤ}

/-! ### Whole runs -/

/-- Process `p` runs or is ready. -/
def Runnable (p : Addr) (k : Kernel) : Prop :=
  k.running = some p ∨ Reaches k.pcbs.list (k.lists .ready).first p

theorem Shows.runnable_iff (h : k.Shows v) : k.Runnable p ↔ v.Runnable p := by
  rw [Runnable, Processes.Runnable, h.running, h.reaches_iff]

theorem eq_timer_of_event (h : k.event a = .tick) : a = .timer := by
  cases a with
  | timer => rfl
  | start => exact Processes.Event.noConfusion h
  | write | syscall | call | statement =>
    simp only [event] at h
    split at h <;> exact Processes.Event.noConfusion h

/-- The invariant of the runs, up to a sleep and during it. -/
structure Timely (k : Kernel) (v : Processes) : Prop where
  bounded : k.Bounded
  sorted : v.TimersSorted
  clock : v.ClockFits

theorem Timely.step (h : k.Timely v) (ha : a.ofProcesses = true) (hstep : k.step a = some k')
    (hstep' : v.Step (k.event a) v') : k'.Timely v' :=
  ⟨h.bounded.step ha hstep, h.sorted.step hstep', h.clock.step hstep'⟩

/-- Process `p` sleeps until `wake`. -/
def Dozes (p : Addr) (wake : ℤ) (k : Kernel) : Prop :=
  k.Satisfies fun k v ↦ k.Timely v ∧ v.Napping p wake

theorem Dozes.step (h : k.Dozes p wake) (hwake : wake ≤ intMax) (ha : a.ofProcesses = true)
    (hstep : k.step a = some k') :
    k'.Dozes p wake ∨ a = .timer ∧ k'.disastrOSTime = wake ∧ k'.Runnable p := by
  obtain ⟨hshutdown, v, hshows, hv, htimely, hnapping⟩ := h
  have hrequests : ∀ c, k.request a = some c → c.concernsUsers = false := fun _ hrequest ↦
    concernsUsers_of_processes (concernsProcesses_of_request ha hrequest)
  obtain ⟨v', hstep', hshows'⟩ := hshows.step hv hshutdown hrequests hstep
  rcases hnapping.step hv htimely.sorted htimely.clock hwake hstep' with hsleeps | ⟨htick, htime, hrunnable⟩
  · have hshutdown' : k'.NoShutdown :=
      hshutdown.step (fun hrequest ↦ Bool.noConfusion (hrequests _ hrequest)) hstep
    exact Or.inl ⟨hshutdown', v', hshows', hv.step hstep', htimely.step ha hstep hstep', hsleeps⟩
  · exact Or.inr ⟨eq_timer_of_event htick, hshows'.time.trans htime, hshows'.runnable_iff.mpr hrunnable⟩

theorem Dozes.asleep (h : k.Dozes p wake) : k.Asleep p := by
  obtain ⟨-, v, hshows, hv, -, hnapping⟩ := h
  exact hshows.asleep hv hnapping.sleeps

theorem Dozes.time_lt (h : k.Dozes p wake) : k.disastrOSTime < wake := by
  obtain ⟨-, v, hshows, -, -, hnapping⟩ := h
  exact hshows.time.trans_lt hnapping.early

end Kernel

theorem Layout.boot_timely (layout : Layout) :
    layout.boot.Timely (layout.boot.processes (fun _ ↦ []) [] fun _ ↦ []) :=
  ⟨layout.boot_bounded, ⟨fun _ ↦ 0, 0, stablySorted_nil, fun _ h ↦ absurd h List.not_mem_nil⟩,
    (by decide : (-2147483648 : ℤ) ≤ 0)⟩

/-- A process that sleeps is asleep until the clock has advanced by its argument, and wakes at that timer
interrupt. -/
theorem sleep_endsOnTime (layout : Layout) {before after : List Action} {k k₁ k' : Kernel}
    {p : Addr} {n : ℤ} (hbefore : ∀ a ∈ before, a.ofProcesses = true)
    (hboot : Runs.run Kernel.step layout.boot before = some k) (hp : k.running = some p)
    (hn : 0 < n) (hrange : k.disastrOSTime + n ≤ intMax)
    (hsleep : k.step (.syscall (.sleep n)) = some k₁)
    (hafter : ∀ a ∈ after, a.ofProcesses = true) (hrun : Runs.run Kernel.step k₁ after = some k')
    (hend : k.disastrOSTime + n ≤ k'.disastrOSTime) :
    ∃ nap rest u, after = nap ++ .timer :: rest ∧
      Runs.Meets Kernel.step (fun s _ ↦ s.Asleep p) k₁ (nap ++ [.timer]) ∧
        Runs.run Kernel.step k₁ (nap ++ [.timer]) = some u ∧
          u.disastrOSTime = k.disastrOSTime + n ∧ u.Runnable p := by
  have hrequests : ∀ (k : Kernel) (a : Action), a.ofProcesses = true → ∀ c, k.request a = some c →
      c.concernsUsers = false := fun _ _ ha _ hrequest ↦
    Kernel.concernsUsers_of_processes (Kernel.concernsProcesses_of_request ha hrequest)
  -- up to the sleep
  obtain ⟨hshutdown, v, hshows, hv, htimely⟩ := Kernel.satisfies_run (P := Kernel.Timely) hrequests
    (fun k k' a v v' ha hstep _ _ h hstep' _ ↦ h.step ha hstep hstep')
    (layout.boot_satisfies layout.boot_timely) (Runs.Meets.of_forall _ hbefore) hboot
  -- the sleep
  have hnoUsers := hrequests k (.syscall (.sleep n)) rfl
  obtain ⟨v₁, hstep₁, hshows₁⟩ := hshows.step hv hshutdown hnoUsers hsleep
  have hevent := Kernel.event_eq_call.mpr (Kernel.request_of_step hsleep)
  have htime : v₁.time = k.disastrOSTime :=
    (hstep₁.time_eq (by rw [hevent]; exact Processes.Event.noConfusion)).trans hshows.time.symm
  have hnap : v₁.Napping p (k.disastrOSTime + n) := by
    have hlow : -2147483648 ≤ k.disastrOSTime := hshows.time.symm ▸ htimely.clock
    have hwake : toInt (k.disastrOSTime + n) = k.disastrOSTime + n :=
      PoolAllocator.toInt_eq (by omega) hrange
    have hsleeps := hshows.sleeps hv htimely.bounded hp hsleep hshows₁ (hevent ▸ hstep₁)
    exact ⟨hwake ▸ hsleeps, by omega⟩
  have hdozes : k₁.Dozes p (k.disastrOSTime + n) :=
    ⟨hshutdown.step (fun hrequest ↦ Bool.noConfusion (hnoUsers _ hrequest)) hsleep, v₁, hshows₁,
      hv.step hstep₁, htimely.step rfl hsleep hstep₁, hnap⟩
  -- the rest of the run
  rcases Runs.run_until_step (Q := fun a k' ↦ a = .timer ∧ k'.disastrOSTime = k.disastrOSTime + n ∧
      k'.Runnable p) (fun s a t hs ha hstep ↦ hs.step hrange ha hstep) hdozes
      (Runs.Meets.of_forall _ hafter) hrun with hstill | hwakes
  · exact absurd hend (not_le.mpr hstill.time_lt)
  · obtain ⟨nap, _, rest, u, hsplit, hlasts, hnapRun, rfl, hend, hrunnable⟩ := hwakes
    exact ⟨nap, rest, u, hsplit, hlasts.mono fun s _ hs ↦ hs.asleep, hnapRun, hend, hrunnable⟩

/-- The first process spawns a child and sleeps for three cycles. It wakes in a run that lasts for five. -/
theorem sleep_endsOnTime_fiveTicks : ∃ k k₁ k',
    Runs.run Kernel.step sampleLayout.boot [.start, .syscall .spawn] = some k ∧
      k.step (.syscall (.sleep 3)) = some k₁ ∧
        Runs.run Kernel.step k₁ (.replicate 5 .timer) = some k' ∧
          ∃ nap rest u, List.replicate 5 .timer = nap ++ .timer :: rest ∧
            Runs.Meets Kernel.step (fun s _ ↦ s.Asleep 0x400000) k₁ (nap ++ [.timer]) ∧
              Runs.run Kernel.step k₁ (nap ++ [.timer]) = some u ∧
                u.disastrOSTime = k.disastrOSTime + 3 ∧ u.Runnable 0x400000 := by
  have hruns : ∃ k ∈ Runs.run Kernel.step sampleLayout.boot [.start, .syscall .spawn],
      k.running = some 0x400000 ∧ k.disastrOSTime = 0 ∧ ∃ k₁ ∈ k.step (.syscall (.sleep 3)),
        ∃ k' ∈ Runs.run Kernel.step k₁ (.replicate 5 .timer), k'.disastrOSTime = 5 := by
    decide +kernel
  obtain ⟨k, hboot, hp, htime, k₁, hsleep, k', hrun, hend⟩ := hruns
  refine ⟨k, k₁, k', hboot, hsleep, hrun, ?_⟩
  exact sleep_endsOnTime sampleLayout (by decide) hboot hp (by decide) (by rw [htime]; decide) hsleep
    (by decide) hrun (by omega)

end DisastrOS
