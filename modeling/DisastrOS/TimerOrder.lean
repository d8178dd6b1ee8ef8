import DisastrOS.Library.Runs
import DisastrOS.Library.StableOrder
import DisastrOS.Termination

/-!
# The order of `timer_list`

`TimerList_add` walks past the timers that are not due later than the new one and inserts it there,
and `TimerList_removeCurrent` takes the first timer away. In every run of the two from an empty list
the timers stand in the order in which they are due, those that are due at the same time in the order
in which they were added (`timerList_sorted_stable`). So the first timer says all: it is the current
one if it has elapsed, and otherwise none has.

Blocks are used again, so the order of the additions is not that of the addresses: `Additions` numbers
the successful calls of `TimerList_add`, and remembers for each timer the call it is from.
-/

set_option autoImplicit false
set_option relaxedAutoImplicit false

namespace DisastrOS

open StableOrder PoolAllocator
open Function (update)

/-- A call of `TimerList_add` or `TimerList_removeCurrent` on `timer_list`. -/
inductive TimerCall
  | add (awakeningTime : ℤ) (pcb : Addr)
  | removeCurrent

def Kernel.timerCall (k : Kernel) : TimerCall → Option Kernel
  | .add awakeningTime pcb => (k.timerListAdd awakeningTime pcb).map Prod.snd
  | .removeCurrent => some k.timerListRemoveCurrent

/-- How many timers were added, and at which number each timer was added last. -/
structure Additions where
  count : ℕ
  number : Addr → ℕ

/-- A call that returns a timer gives it the next number. -/
def Additions.observe (additions : Additions) (k : Kernel) (c : TimerCall) (_ : Kernel) :
    Additions :=
  match c with
  | .add awakeningTime pcb =>
    match k.timerListAdd awakeningTime pcb with
    | some (some t, _) => ⟨additions.count + 1, update additions.number t additions.count⟩
    | _ => additions
  | .removeCurrent => additions

/-- The additions of a run that starts with an empty list. -/
def Kernel.additions (k : Kernel) (calls : List TimerCall) : Additions :=
  Runs.monitor Kernel.timerCall Additions.observe ⟨0, fun _ ↦ 0⟩ k calls

namespace Kernel

variable {k k' : Kernel} {additions : Additions}

/-! ### One call after the other -/

/-- `timer_list` holds the timers that are in use, in the order in which they are due, and those that
are due together in the order of their additions. -/
structure TimersOrdered (additions : Additions) (k : Kernel) : Prop where
  listed : k.TimersListed k.timerNodes
  pool : k.timerItems.allocator.sizeMax = maxNumProcesses
  sorted : StablySorted k.timerItems.awakeningTime additions.number k.timerNodes
  numbered : ∀ t ∈ k.timerNodes, additions.number t < additions.count

theorem TimersOrdered.length_le (h : TimersOrdered additions k) :
    k.timerNodes.length ≤ walkBound :=
  length_le_walkBound h.listed.pool h.pool h.listed.represents.nodup
    fun t ht ↦ (h.listed.allocated t).mpr ht

/-- The first timer is removed, if there is one. -/
theorem TimersOrdered.removeCurrent (h : TimersOrdered additions k) :
    TimersOrdered additions k.timerListRemoveCurrent := by
  have hpool := (timerListRemoveCurrent_samePool k rfl).sizeMax.trans h.pool
  cases hnodes : k.timerNodes with
  | nil =>
    have hfirst : k.timerList.first = none := by
      rw [h.listed.represents.first, hnodes]
      rfl
    have hsame : k.timerListRemoveCurrent = k := by rw [timerListRemoveCurrent, hfirst]
    rw [hsame]
    exact h
  | cons t rest =>
    have hlisted := h.listed
    have hordered := h.sorted
    rw [hnodes] at hlisted hordered
    have hrest : k.timerListRemoveCurrent.TimersListed rest := hlisted.removeCurrent
    have htimes : k.timerListRemoveCurrent.timerItems.awakeningTime = k.timerItems.awakeningTime := by
      rw [timerListRemoveCurrent_eq]
    refine ⟨?_, hpool, ?_, fun s hs ↦ ?_⟩
    · rw [hrest.timerNodes_eq]
      exact hrest
    · rw [hrest.timerNodes_eq, htimes]
      exact hordered.tail
    · rw [hrest.timerNodes_eq] at hs
      apply h.numbered s
      rw [hnodes]
      exact List.mem_cons_of_mem t hs

/-- What adding a timer for `time` does: nothing if the pool is used up, and otherwise one new timer
stands after those that are not due later, and before the others. -/
structure AddsTimer (time : ℤ) (k : Kernel) (r : Option Addr) (k' : Kernel) : Prop where
  returned : r = k.timerItems.allocator.getBlock.1
  exhausted : r = none → k' = k
  added : ∀ t ∈ r, t ∉ k.timerNodes ∧ ∃ front back,
    k.timerNodes = front ++ back ∧ k'.timerNodes = front ++ t :: back ∧
    (∀ s ∈ front, k.timerItems.awakeningTime s ≤ time) ∧
    (∀ s ∈ back, time < k.timerItems.awakeningTime s) ∧
    k'.timerItems.awakeningTime = update k.timerItems.awakeningTime t time

/-- Adding a timer ends, and keeps the order with the new timer as the last one added. -/
theorem TimersOrdered.add (h : TimersOrdered additions k) (time : ℤ) (p : Addr) :
    ∃ r k', k.timerListAdd time p = some (r, k') ∧ k.AddsTimer time r k' ∧
      TimersOrdered (additions.observe k (.add time p) k') k' := by
  obtain ⟨k', hadd⟩ := timerListAdd_eq_some h.listed h.length_le time p
  have hpool := (timerListAdd_samePool hadd).sizeMax.trans h.pool
  refine ⟨_, k', hadd, ?_⟩
  obtain ⟨hnone, rfl⟩ | ⟨t, ht, hnew, hlisted, -, htimes, -⟩ := timerListAdd_place h.listed hadd
  · have hobserve : additions.observe k' (.add time p) k' = additions := by
      rw [hnone] at hadd
      simp only [Additions.observe, hadd]
    rw [hobserve]
    refine ⟨⟨rfl, fun _ ↦ rfl, ?_⟩, h⟩
    intro t ht
    rw [hnone] at ht
    exact absurd ht (Option.not_mem_none t)
  · have hobserve : additions.observe k (.add time p) k' =
        ⟨additions.count + 1, update additions.number t additions.count⟩ := by
      rw [ht] at hadd
      simp only [Additions.observe, hadd]
    rw [hobserve]
    constructor
    · refine ⟨rfl, fun hnone ↦ absurd (ht.symm.trans hnone) (Option.some_ne_none t), ?_⟩
      intro t' ht'
      obtain rfl : t = t' := Option.some.inj (ht.symm.trans ht')
      refine ⟨hnew, _, _, List.takeWhile_append_dropWhile.symm, hlisted.timerNodes_eq, ?_, ?_,
        htimes⟩
      · intro s hs
        simpa using List.mem_takeWhile_imp hs
      · exact h.sorted.lt_of_mem_dropWhile
    · refine ⟨?_, hpool, ?_, ?_⟩
      · rw [hlisted.timerNodes_eq]
        exact hlisted
      · rw [hlisted.timerNodes_eq, htimes]
        exact h.sorted.place hnew h.numbered
      · intro s hs
        rw [hlisted.timerNodes_eq, mem_place] at hs
        change update additions.number t additions.count s < additions.count + 1
        rcases hs with rfl | hmem
        · rw [Function.update_self]
          exact Nat.lt_succ_self _
        · rw [Function.update_of_ne (ne_of_mem_of_not_mem hmem hnew)]
          exact (h.numbered s hmem).trans (Nat.lt_succ_self _)

/-- A run of the two calls ends, and has kept the order. -/
theorem TimersOrdered.calls (h : TimersOrdered additions k) (calls : List TimerCall) :
    ∃ k', Runs.run timerCall k calls = some k' ∧
      TimersOrdered (Runs.monitor timerCall Additions.observe additions k calls) k' := by
  have hstep : ∀ additions k (c : TimerCall), TimersOrdered additions k → True →
      ∃ k', timerCall k c = some k' ∧ TimersOrdered (additions.observe k c k') k' := by
    intro additions k c h _
    cases c with
    | add time p =>
      obtain ⟨r, k', hadd, -, h'⟩ := h.add time p
      exact ⟨k', congrArg (Option.map Prod.snd) hadd, h'⟩
    | removeCurrent => exact ⟨_, rfl, h.removeCurrent⟩
  have hcalls : Runs.Meets timerCall (fun _ _ ↦ True) k calls :=
    Runs.Meets.of_forall k fun _ _ ↦ trivial
  exact Runs.run_total hstep h hcalls

/-! ### The current timer -/

/-- The timer that the first test of `TimerList_current` looks at says all: if it has not elapsed, no
timer has, and if it has, it comes before all others. -/
theorem TimersOrdered.current (h : TimersOrdered additions k) (now : ℤ) :
    (({ k with disastrOSTime := now } : Kernel).timerListCurrent = none ↔
      ∀ t ∈ k.timerNodes, now < k.timerItems.awakeningTime t) ∧
    ∀ t ∈ ({ k with disastrOSTime := now } : Kernel).timerListCurrent,
      t ∈ k.timerNodes ∧ k.timerItems.awakeningTime t ≤ now ∧
        ∀ s ∈ k.timerNodes, s ≠ t → Before k.timerItems.awakeningTime additions.number t s := by
  have hordered := h.sorted
  have hfirst : k.timerList.first = k.timerNodes.head? := h.listed.represents.first
  rw [timerListCurrent, hfirst]
  cases hnodes : k.timerNodes with
  | nil => simp
  | cons first rest =>
    rw [hnodes] at hordered
    have hbefore := hordered.head_before
    rw [List.head?_cons]
    dsimp only
    by_cases hdue : k.timerItems.awakeningTime first ≤ now
    · rw [if_pos hdue]
      constructor
      · refine iff_of_false (Option.some_ne_none first) fun hlate ↦ ?_
        exact absurd (hlate first List.mem_cons_self) (not_lt.mpr hdue)
      · intro t ht
        obtain rfl : first = t := Option.some.inj ht
        refine ⟨List.mem_cons_self, hdue, fun s hs hne ↦ ?_⟩
        exact hbefore s ((List.mem_cons.mp hs).resolve_left hne)
    · rw [if_neg hdue]
      constructor
      · refine iff_of_true rfl fun t ht ↦ ?_
        rcases List.mem_cons.mp ht with rfl | hrest
        · exact not_le.mp hdue
        · exact (not_le.mp hdue).trans_le (hbefore t hrest).key_le
      · exact fun t ht ↦ absurd ht (Option.not_mem_none t)

end Kernel

/-! ### Whole runs -/

/-- In every run of `TimerList_add` and `TimerList_removeCurrent` from an empty list the timers stand
in the order in which they are due, and those that are due together in the order in which they were
added. The next timer goes after all that are not due later and before the others, or, if the pool is
used up, null is returned and nothing changes. At any time the current timer is null exactly when no
timer has elapsed, and otherwise it comes before all others. -/
theorem timerList_sorted_stable {k : Kernel} (hempty : k.TimersListed [])
    (hpool : k.timerItems.allocator.sizeMax = maxNumProcesses) (calls : List TimerCall) :
    ∃ k', Runs.run Kernel.timerCall k calls = some k' ∧ k'.TimersListed k'.timerNodes ∧
      StablySorted k'.timerItems.awakeningTime (k.additions calls).number k'.timerNodes ∧
      (∀ time p, ∃ r k'', k'.timerListAdd time p = some (r, k'') ∧ k'.AddsTimer time r k'') ∧
      ∀ now, (({ k' with disastrOSTime := now } : Kernel).timerListCurrent = none ↔
          ∀ t ∈ k'.timerNodes, now < k'.timerItems.awakeningTime t) ∧
        ∀ t ∈ ({ k' with disastrOSTime := now } : Kernel).timerListCurrent,
          t ∈ k'.timerNodes ∧ k'.timerItems.awakeningTime t ≤ now ∧
            ∀ s ∈ k'.timerNodes, s ≠ t →
              Before k'.timerItems.awakeningTime (k.additions calls).number t s := by
  have hstart : Kernel.TimersOrdered ⟨0, fun _ ↦ 0⟩ k := by
    have hnodes := hempty.timerNodes_eq
    refine ⟨hnodes ▸ hempty, hpool, ?_, ?_⟩
    · rw [hnodes]
      exact stablySorted_nil
    · rw [hnodes]
      exact fun t ht ↦ absurd ht List.not_mem_nil
  obtain ⟨k', hrun, hend⟩ := hstart.calls calls
  refine ⟨k', hrun, hend.listed, hend.sorted, fun time p ↦ ?_, hend.current⟩
  obtain ⟨r, k'', hadd, hadds, -⟩ := hend.add time p
  exact ⟨r, k'', hadd, hadds⟩

/-- Two timers for time 5, one that is due earlier in between, and one that leaves. -/
def fewTimers : List TimerCall :=
  [.add 5 1, .add 3 2, .add 5 3, .add 4 4, .removeCurrent]

theorem timerList_sorted_stable_fewTimers :
    ∃ k', Runs.run Kernel.timerCall sampleLayout.boot fewTimers = some k' ∧
      StablySorted k'.timerItems.awakeningTime (sampleLayout.boot.additions fewTimers).number
        k'.timerNodes ∧
      k'.timerNodes.map (fun t ↦ (k'.timerItems.awakeningTime t, k'.timerItems.pcb t)) =
        [(4, 4), (5, 1), (5, 3)] := by
  obtain ⟨k', hrun, -, hordered, -, -⟩ :=
    timerList_sorted_stable sampleLayout.boot_timersListed rfl fewTimers
  refine ⟨k', hrun, hordered, ?_⟩
  have hshown : ((Runs.run Kernel.timerCall sampleLayout.boot fewTimers).any fun k ↦
      k.timerNodes.map (fun t ↦ (k.timerItems.awakeningTime t, k.timerItems.pcb t)) =
        [(4, 4), (5, 1), (5, 3)]) = true := by
    decide +kernel
  rw [hrun] at hshown
  exact of_decide_eq_true hshown

end DisastrOS
