import DisastrOS.Termination
import Mathlib.Data.List.TakeWhile

/-!
# Sleeping

A process that calls `sleep` is in `waiting_list` with a timer, and is left there until the timer is
due (`Sleeps.step`). The timer is due at the sum of the time and the argument, computed in machine
integers: `sleep_neverEarly` says that nobody wakes early whose sum is one, and `longSleep_wakesEarly`
shows what happens when it is not. A sleep never fails, since there are as many timers as processes
(`Shows.timer_left`).
-/

set_option autoImplicit false
set_option relaxedAutoImplicit false

namespace DisastrOS

open LinkedLists
open Function (update)

namespace Processes

variable {v v' : Processes} {e : Event} {p q t : Addr} {wake : ℤ}

/-- Process `p` waits with a timer that is due at `wake`. -/
def Sleeps (p : Addr) (wake : ℤ) (v : Processes) : Prop :=
  p ∈ v.queue .waiting ∧ ∃ t ∈ v.timers, v.sleeper t = p ∧ v.wakeTime t = wake

/-- Nobody has two timers. -/
theorem Consistent.timer_unique (h : v.Consistent) {t' : Addr} (ht : t ∈ v.timers)
    (ht' : t' ∈ v.timers) (hsame : v.sleeper t = v.sleeper t') : t = t' :=
  List.inj_on_of_nodup_map h.oneTimer ht ht' hsame

theorem Sleeps.notMem_due (h : v.Sleeps p wake) (hv : v.Consistent) (hearly : v.time < wake) :
    p ∉ v.due := by
  obtain ⟨-, t, ht, htp, hwake⟩ := h
  intro hdue
  obtain ⟨t', ht', ht'p⟩ := List.mem_map.mp hdue
  have htest := List.mem_takeWhile_imp ht'
  have hsame : t' = t :=
    hv.timer_unique ((List.takeWhile_sublist _).subset ht') ht (ht'p.trans htp.symm)
  rw [hsame, hwake, decide_eq_true_iff] at htest
  omega

/-- A schedule wakes nobody early. -/
theorem Sleeps.schedule (h : v.Sleeps p wake) (hv : v.Consistent) (hearly : v.time < wake)
    (q : Addr) : (v.schedule q).Sleeps p wake := by
  have hnotDue := h.notMem_due hv hearly
  obtain ⟨hmem, t, ht, htp, hwake⟩ := h
  have hstays : t ∈ v.timers.dropWhile fun t ↦ v.wakeTime t ≤ v.time := by
    rw [← List.takeWhile_append_dropWhile (p := fun t ↦ decide (v.wakeTime t ≤ v.time))
      (l := v.timers)] at ht
    refine (List.mem_append.mp ht).resolve_left fun htaken ↦ hnotDue ?_
    exact htp ▸ List.mem_map_of_mem htaken
  cases hcases : v.due ++ v.queue .ready with
  | nil =>
    rw [schedule_nil hcases]
    exact ⟨hmem, t, ht, htp, hwake⟩
  | cons next rest =>
    rw [schedule_cons hcases]
    refine ⟨?_, t, hstays, htp, hwake⟩
    have hfilter : p ∈ (v.queue .waiting).filter (· ∉ v.due) := by
      rw [List.mem_filter, decide_eq_true_eq]
      exact ⟨hmem, hnotDue⟩
    simpa using hfilter

theorem Sleeps.addTimer (h : v.Sleeps p wake) (hfresh : t ∉ v.timers) (q : Addr) (time : ℤ) :
    (v.addTimer t q time).Sleeps p wake := by
  obtain ⟨hmem, t', ht', ht'p, hwake⟩ := h
  have hne : t' ≠ t := fun hsame ↦ hfresh (hsame ▸ ht')
  refine ⟨hmem, t', ?_, (Function.update_of_ne hne _ _).trans ht'p,
    (Function.update_of_ne hne _ _).trans hwake⟩
  rw [← List.takeWhile_append_dropWhile (p := fun t ↦ decide (v.wakeTime t ≤ time))
    (l := v.timers), List.mem_append] at ht'
  change t' ∈ _ ++ t :: _
  rw [List.mem_append, List.mem_cons]
  exact ht'.imp_right Or.inr

theorem Sleeps.block (h : v.Sleeps p wake) (q : Addr) : (v.block q).Sleeps p wake := by
  obtain ⟨hmem, htimer⟩ := h
  refine ⟨?_, htimer⟩
  have happend : p ∈ v.queue .waiting ++ [q] := List.mem_append_left _ hmem
  simpa [Processes.block] using happend

/-- Until its timer is due a process is left alone. -/
theorem Sleeps.step (h : v.Sleeps p wake) (hv : v.Consistent) (hstep : v.Step e v')
    (hearly : v'.time < wake) : v'.Sleeps p wake := by
  cases hstep with
  | quiet | start | sleepFails | waitFails | other => exact h
  | tick q hq =>
    have htick : ({ v with time := toInt (v.time + 1) } : Processes).Sleeps p wake := h
    rw [schedule_eq] at hearly
    exact htick.schedule { hv with } hearly q
  | preempt q hq =>
    have htrap : (v.trap q .preempt).Sleeps p wake := h
    rw [schedule_eq] at hearly
    exact htrap.schedule (hv.trap hq _) hearly q
  | create q c x call _ _ _ _ =>
    refine ⟨?_, h.2⟩
    have hmem : p ∈ (v.trap q call).queue .waiting := h.1
    simpa [Processes.create] using hmem
  | sleep q t cycles _ hfresh =>
    have htrap : (v.trap q (.sleep cycles)).Sleeps p wake := h
    exact (htrap.addTimer hfresh q _).block q
  | reap q x pid result _ _ _ =>
    refine ⟨?_, h.2⟩
    rw [reap_queue, Function.update_of_ne (by decide)]
    exact h.1
  | wait q x pid result _ _ _ =>
    have htrap : (v.trap q (.wait pid result)).Sleeps p wake := h
    exact htrap.block q
  | exitToParent q i parent value hq _ _ hawaits =>
    obtain ⟨hmem, t, ht, htp, hwake⟩ := h
    refine ⟨?_, t, ?_, htp, hwake⟩
    · rw [exitToParent_queue, Function.update_self]
      exact (List.mem_erase_of_ne (htp ▸ hv.awaits_sleeper hawaits ht)).mpr hmem
    · refine List.mem_filter.mpr ⟨ht, decide_eq_true fun hsame ↦ ?_⟩
      exact hv.unlisted hq .waiting (hsame ▸ htp ▸ hmem)
  | exitToReady q i parent next value _ _ _ _ _ =>
    refine ⟨?_, h.2⟩
    have hmem : p ∈ (v.trap q (.exit value)).queue .waiting := h.1
    simpa [Processes.exitToReady] using hmem

/-- The process that falls asleep. -/
theorem sleeps_block (v : Processes) (t p : Addr) (time : ℤ) :
    ((v.addTimer t p time).block p).Sleeps p time := by
  refine ⟨?_, t, ?_, Function.update_self .., Function.update_self ..⟩
  · simp [Processes.block, Processes.addTimer]
  · change t ∈ _ ++ t :: _
    simp

end Processes

namespace Kernel

variable {k k' : Kernel} {v v' : Processes} {a : Action} {p : Addr} {wake : ℤ}

/-! ### A timer for every sleeper -/

/-- While a process runs, a timer is left: those in use belong to different processes that wait. -/
theorem Lists.timer_left (h : k.Lists v) (hv : v.Consistent) (hbounded : k.Bounded)
    (hp : v.running = some p) : k.timerItems.allocator.getBlock.1 ≠ none := by
  intro hnone
  have hsize := h.timersListed.pool.getBlock_eq_none_iff.mp hnone
  -- all timers are in use
  have htimers : (maxNumProcesses : ℤ) ≤ v.timers.length := by
    have hcard := h.timersListed.pool.card_add_size (by rw [hbounded.timerItems]; decide)
    have hsub : k.timerItems.allocator.allocatedBlocks ⊆ v.timers.toFinset := by
      intro t ht
      rw [PoolAllocator.mem_allocatedBlocks, h.timersListed.allocated] at ht
      exact List.mem_toFinset.mpr ht
    have hle := (Finset.card_le_card hsub).trans (List.toFinset_card_le _)
    rw [hbounded.timerItems, hsize] at hcard
    lia
  -- with the running process the sleepers are too many
  have hnodup : (p :: v.timers.map v.sleeper).Nodup := by
    refine List.nodup_cons.mpr ⟨fun hmem ↦ ?_, hv.oneTimer⟩
    obtain ⟨t, ht, rfl⟩ := List.mem_map.mp hmem
    exact hv.unlisted hp .waiting (hv.sleeps t ht).1
  have hprocesses : ∀ q ∈ p :: v.timers.map v.sleeper, k.pcbs.allocator.Allocated q := by
    intro q hq
    rw [h.allocated_iff]
    rcases List.mem_cons.mp hq with rfl | hsleeper
    · exact Processes.mem_all_of_running hp
    · obtain ⟨t, ht, rfl⟩ := List.mem_map.mp hsleeper
      exact Processes.mem_all_of_queue (hv.sleeps t ht).1
  have hlength := h.scheduled.pool.length_le hnodup hprocesses (by rw [hbounded.pcbs]; decide)
  have hnonneg := h.scheduled.pool.size_nonneg
  rw [hbounded.pcbs, List.length_cons, List.length_map] at hlength
  lia

/-- A sleep blocks. -/
theorem internalSleep_running {cycles : ℤ} (hp : k.running = some p)
    (hnone : k.pcbs.timer p = none) (hleft : k.timerItems.allocator.getBlock.1 ≠ none)
    (hsleep : internalSleep cycles k = some k') : k'.running = (k.lists .ready).first := by
  rw [internalSleep, hp, Option.bind_eq_bind, Option.bind_some, hnone] at hsleep
  obtain ⟨⟨r, k₁⟩, hadd, hk'⟩ := Option.bind_eq_some_iff.mp hsleep
  have hframe := timerListAdd_eq hadd
  cases r with
  | none =>
    obtain ⟨previous, -, halloc⟩ := Option.bind_eq_some_iff.mp hadd
    rcases hget : k.timerItems.allocator.getBlock with ⟨_ | t, pool⟩
    · exact absurd (by rw [hget]) hleft
    · simp [timerItemAlloc, hget] at halloc
  | some t =>
    rw [← Option.some.inj hk', hframe]
    rfl

/-- A process that sleeps waits with a timer for the sum of the time and the argument. -/
theorem Shows.sleeps (h : k.Shows v) (hv : v.Consistent) (hbounded : k.Bounded)
    (hp : k.running = some p) {cycles : ℤ} (hsleep : k.step (.syscall (.sleep cycles)) = some k')
    (h' : k'.Shows v') (hstep : v.Step (.call (.sleep cycles)) v') :
    v'.Sleeps p (toInt (k.disastrOSTime + cycles)) := by
  obtain ⟨s, hlists⟩ := h
  have hrunning : v.running = some p := hlists.running.symm.trans hp
  have htime : k.disastrOSTime = v.time := hlists.time
  cases hstep with
  | create q c x _ hcall => exact absurd hcall (by simp)
  | sleep q t _ hq _ =>
    obtain rfl : p = q := Option.some.inj (hrunning.symm.trans hq)
    rw [htime]
    exact Processes.sleeps_block _ t p _
  | sleepFails q _ hq =>
    -- the process that runs now was ready before
    obtain ⟨next, -, hcall⟩ := step_syscall hp (request_of_step hsleep) hsleep
    have hleft := hlists.timer_left hv ⟨hbounded.pcbs, hbounded.pcbPtrs, hbounded.timerItems⟩
      hrunning
    have hruns : k'.running = (k.lists .ready).first :=
      internalSleep_running (k := k.trap p next (.sleep cycles)) hp (hlists.noTimer p) hleft hcall
    have hfirst : (k.lists .ready).first = (v.queue .ready).head? :=
      (hlists.scheduled.threads.represents .ready).first
    have hready : (v.queue .ready).head? = some p :=
      hfirst.symm.trans (hruns.symm.trans (h'.running.trans hrunning))
    exact absurd (List.mem_of_head? hready) (hv.unlisted hrunning .ready)
  | other _ _ _ hother => exact Bool.noConfusion hother

/-! ### Whole runs -/

/-- Process `p` waits, and neither runs nor is ready. -/
def Asleep (p : Addr) (k : Kernel) : Prop :=
  Reaches k.pcbs.list (k.lists .waiting).first p ∧ k.pcbs.status p = .waiting ∧
    k.running ≠ some p ∧ ¬ Reaches k.pcbs.list (k.lists .ready).first p

/-- The invariant of the runs while `p` sleeps. -/
structure Slumber (p : Addr) (wake : ℤ) (k : Kernel) (v : Processes) : Prop where
  bounded : k.Bounded
  sleeps : v.time < wake → v.Sleeps p wake

theorem Slumber.step (h : k.Slumber p wake v) (hshows : k.Shows v) (hv : v.Consistent)
    (ha : a.ofProcesses = true) (hearly : k.disastrOSTime < wake) (hstep : k.step a = some k')
    (hstep' : v.Step (k.event a) v') : k'.Slumber p wake v' where
  bounded := h.bounded.step ha hstep
  sleeps := by
    rw [hshows.time] at hearly
    exact (h.sleeps hearly).step hv hstep'

theorem Shows.asleep (h : k.Shows v) (hv : v.Consistent) (hsleeps : v.Sleeps p wake) :
    k.Asleep p := by
  have hmem := hsleeps.1
  refine ⟨(h.reaches_iff .waiting).mpr hmem, ?_, fun hruns ↦ ?_, fun hready ↦ ?_⟩
  · rw [h.status]
    exact hv.listed .waiting p hmem
  · exact hv.unlisted (h.running.symm.trans hruns) .waiting hmem
  · have hlist := hv.queue_unique hmem ((h.reaches_iff .ready).mp hready)
    exact PcbList.noConfusion hlist

end Kernel

/-- A process that sleeps does not wake before its time, if its time is an `int`. -/
theorem sleep_neverEarly (layout : Layout) {before after : List Action} {k k₁ k' : Kernel}
    {p : Addr} {n : ℤ} (hbefore : ∀ a ∈ before, a.ofProcesses = true)
    (hboot : Runs.run Kernel.step layout.boot before = some k) (hp : k.running = some p)
    (htime : 0 ≤ k.disastrOSTime) (hn : 0 ≤ n) (hrange : k.disastrOSTime + n ≤ intMax)
    (hsleep : k.step (.syscall (.sleep n)) = some k₁)
    (hafter : Runs.Meets Kernel.step
      (fun s a ↦ a.ofProcesses = true ∧ s.disastrOSTime < k.disastrOSTime + n) k₁ after)
    (hrun : Runs.run Kernel.step k₁ after = some k')
    (hend : k'.disastrOSTime < k.disastrOSTime + n) : k'.Asleep p := by
  have hcalls : ∀ a : Action, a.ofProcesses = true → ∀ (k : Kernel) (c : Syscall),
      k.request a = some c → c.concernsUsers = false := fun a ha k c hrequest ↦
    Kernel.concernsUsers_of_processes (Kernel.concernsProcesses_of_request ha hrequest)
  -- up to the sleep
  obtain ⟨hshutdown, v, hshows, hv, hbounded⟩ := Kernel.satisfies_run
    (P := fun k _ ↦ k.Bounded) (fun k a ha ↦ hcalls a ha k)
    (fun k k' a v v' ha hstep _ _ h _ _ ↦ h.step ha hstep)
    (layout.boot_satisfies layout.boot_bounded) (Runs.Meets.of_forall _ hbefore) hboot
  -- the sleep
  have hrequests := hcalls (.syscall (.sleep n)) rfl k
  obtain ⟨v₁, hstep₁, hshows₁⟩ := hshows.step hv hshutdown hrequests hsleep
  have hwake : toInt (k.disastrOSTime + n) = k.disastrOSTime + n :=
    PoolAllocator.toInt_eq (by omega) hrange
  have hslumber : k₁.Slumber p (k.disastrOSTime + n) v₁ := by
    refine ⟨hbounded.step rfl hsleep, fun _ ↦ ?_⟩
    have hevent := Kernel.event_eq_call.mpr (Kernel.request_of_step hsleep)
    have hsleeps := hshows.sleeps hv hbounded hp hsleep hshows₁ (hevent ▸ hstep₁)
    rwa [hwake] at hsleeps
  -- the rest of the run
  obtain ⟨-, v', hshows', hv', hslumber'⟩ := Kernel.satisfies_run
    (fun k a ha ↦ hcalls a ha.1 k)
    (fun k k' a v v' ha hstep hshows hv h hstep' _ ↦ h.step hshows hv ha.1 ha.2 hstep hstep')
    ⟨hshutdown.step (fun hrequest ↦ Bool.noConfusion (hrequests _ hrequest)) hsleep, v₁, hshows₁,
      hv.step hstep₁, hslumber⟩ hafter hrun
  rw [hshows'.time] at hend
  exact hshows'.asleep hv' (hslumber'.sleeps hend)

/-- The first process spawns a child and sleeps for three cycles. After two it is asleep. -/
theorem sleep_neverEarly_twoTicks : ∃ k k₁ k',
    Runs.run Kernel.step sampleLayout.boot [.start, .syscall .spawn] = some k ∧
      k.step (.syscall (.sleep 3)) = some k₁ ∧
        Runs.run Kernel.step k₁ [.timer, .timer] = some k' ∧ k'.Asleep 0x400000 := by
  have hruns : ∃ k ∈ Runs.run Kernel.step sampleLayout.boot [.start, .syscall .spawn],
      k.running = some 0x400000 ∧ k.disastrOSTime = 0 ∧ ∃ k₁ ∈ k.step (.syscall (.sleep 3)),
        Runs.Meets Kernel.step (fun s a ↦ a.ofProcesses = true ∧
          s.disastrOSTime < k.disastrOSTime + 3) k₁ [.timer, .timer] ∧
        ∃ k' ∈ Runs.run Kernel.step k₁ [.timer, .timer], k'.disastrOSTime = 2 := by
    decide +kernel
  obtain ⟨k, hboot, hp, htime, k₁, hsleep, hmeets, k', hrun, hend⟩ := hruns
  refine ⟨k, k₁, k', hboot, hsleep, hrun, ?_⟩
  exact sleep_neverEarly sampleLayout (by decide) hboot hp (by omega) (by decide)
    (by rw [htime]; decide) hsleep hmeets hrun (by omega)

/-- A child that sleeps for as long as an `int` can say runs again at the next tick: the sum of the time
and the argument is negative. -/
theorem longSleep_wakesEarly : ∃ k k₁ k',
    Runs.run Kernel.step sampleLayout.boot [.start, .syscall .spawn, .timer] = some k ∧
      k.running = some (0x400000 + 17544) ∧ 0 ≤ k.disastrOSTime ∧
        k.step (.syscall (.sleep intMax)) = some k₁ ∧
          Runs.Meets Kernel.step (fun s a ↦ a.ofProcesses = true ∧
            s.disastrOSTime < k.disastrOSTime + intMax) k₁ [.timer] ∧
          Runs.run Kernel.step k₁ [.timer] = some k' ∧
            k'.disastrOSTime < k.disastrOSTime + intMax ∧ ¬ k'.Asleep (0x400000 + 17544) := by
  have hruns : ∃ k ∈ Runs.run Kernel.step sampleLayout.boot [.start, .syscall .spawn, .timer],
      k.running = some (0x400000 + 17544) ∧ 0 ≤ k.disastrOSTime ∧
        ∃ k₁ ∈ k.step (.syscall (.sleep intMax)),
          Runs.Meets Kernel.step (fun s a ↦ a.ofProcesses = true ∧
            s.disastrOSTime < k.disastrOSTime + intMax) k₁ [.timer] ∧
          ∃ k' ∈ Runs.run Kernel.step k₁ [.timer],
            k'.disastrOSTime < k.disastrOSTime + intMax ∧
              k'.running = some (0x400000 + 17544) := by
    decide +kernel
  obtain ⟨k, hboot, hp, htime, k₁, hsleep, hmeets, k', hrun, hend, hruns⟩ := hruns
  exact ⟨k, k₁, k', hboot, hp, htime, hsleep, hmeets, hrun, hend, fun hasleep ↦
    hasleep.2.2.1 hruns⟩

end DisastrOS
