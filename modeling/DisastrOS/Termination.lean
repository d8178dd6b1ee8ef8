import DisastrOS.ProcessSteps

/-!
# The calls of the processes come to an end

The handlers walk along the timers and along the children of a process. A list holds each block of its
pool at most once, so no walk reaches the bound at which a walk counts as endless. `Bounded` says how
large the pools are; `Shows.timer_isSome` and its companions say that a handler returns.
-/

set_option autoImplicit false
set_option relaxedAutoImplicit false

namespace DisastrOS

open LinkedLists PoolAllocator
open Function (update)

/-- A list of different allocated blocks is no longer than the pool is large. -/
theorem PoolAllocator.Ok.length_le {a : PoolAllocator} (h : a.Ok) {blocks : List Addr}
    (hnodup : blocks.Nodup) (hallocated : ∀ x ∈ blocks, a.Allocated x) (hmax : 0 ≤ a.sizeMax) :
    blocks.length + a.size ≤ a.sizeMax := by
  have hsub : blocks.toFinset ⊆ a.allocatedBlocks := by
    intro x hx
    exact mem_allocatedBlocks.mpr (hallocated x (List.mem_toFinset.mp hx))
  have hcard := Finset.card_le_card hsub
  rw [List.toFinset_card_of_nodup hnodup] at hcard
  have htotal := h.card_add_size hmax
  lia

namespace Kernel

variable {k k' : Kernel} {v v' : Processes} {a : Action} {p i : Addr} {timers : List Addr}

/-! ### The sizes of the pools -/

/-- How many blocks the pools of processes, of pointers to them and of timers have. -/
structure Bounded (k : Kernel) : Prop where
  pcbs : k.pcbs.allocator.sizeMax = maxNumProcesses
  pcbPtrs : k.pcbPtrs.allocator.sizeMax = maxNumProcesses
  timerItems : k.timerItems.allocator.sizeMax = maxNumProcesses

theorem Bounded.of_samePool (h : k.Bounded) (hpcbs : SamePool k.pcbs.allocator k'.pcbs.allocator)
    (hptrs : SamePool k.pcbPtrs.allocator k'.pcbPtrs.allocator)
    (htimers : SamePool k.timerItems.allocator k'.timerItems.allocator) : k'.Bounded where
  pcbs := hpcbs.sizeMax.trans h.pcbs
  pcbPtrs := hptrs.sizeMax.trans h.pcbPtrs
  timerItems := htimers.sizeMax.trans h.timerItems

theorem timerListRemoveCurrent_samePool (k : Kernel) {pool : PoolAllocator}
    (hpool : k.timerItems.allocator = pool) :
    SamePool pool k.timerListRemoveCurrent.timerItems.allocator := by
  unfold timerListRemoveCurrent
  subst hpool
  split
  · exact SamePool.refl _
  · exact releaseBlock_samePool _ _

theorem wakeProcess_samePool (k : Kernel) (previousPcb : Option Addr) (t : Addr) :
    SamePool k.timerItems.allocator (k.wakeProcess previousPcb t).timerItems.allocator := by
  simp only [wakeProcess]
  exact timerListRemoveCurrent_samePool _ rfl

theorem wakeElapsed_samePool {bound : ℕ} {previousPcb : Option Addr}
    (hwake : wakeElapsed bound previousPcb k = some k') :
    SamePool k.timerItems.allocator k'.timerItems.allocator := by
  induction bound generalizing k previousPcb with
  | zero =>
    rw [wakeElapsed] at hwake
    split_ifs at hwake
    obtain rfl := Option.some.inj hwake
    exact SamePool.refl _
  | succ bound ih =>
    rw [wakeElapsed] at hwake
    split at hwake
    · obtain rfl := Option.some.inj hwake
      exact SamePool.refl _
    · exact (wakeProcess_samePool k previousPcb _).trans (ih hwake)

theorem internalSchedule_samePool (hschedule : k.internalSchedule = some k') :
    SamePool k.timerItems.allocator k'.timerItems.allocator := by
  obtain ⟨k₁, hwake, hswitch⟩ := Option.bind_eq_some_iff.mp hschedule
  have hsame : k'.timerItems = k₁.timerItems := by
    unfold switchToReady at hswitch
    split at hswitch
    · rw [Option.some.inj hswitch]
    · obtain ⟨_, -, hk'⟩ := Option.bind_eq_some_iff.mp hswitch
      rw [← Option.some.inj hk']
      rfl
  rw [hsame]
  exact wakeElapsed_samePool hwake

theorem releaseTimers_samePool {bound : ℕ} {start : Option Addr}
    (hrelease : releaseTimers p bound start k = some k') :
    SamePool k.timerItems.allocator k'.timerItems.allocator := by
  induction bound generalizing k start with
  | zero =>
    cases start with
    | none =>
      obtain rfl := Option.some.inj hrelease
      exact SamePool.refl _
    | some t => simp [releaseTimers] at hrelease
  | succ bound ih =>
    cases start with
    | none =>
      obtain rfl := Option.some.inj hrelease
      exact SamePool.refl _
    | some t =>
      rw [releaseTimers] at hrelease
      split_ifs at hrelease
      · exact (releaseBlock_samePool _ t).trans (ih hrelease)
      · exact ih hrelease

theorem Bounded.internalSchedule (h : k.Bounded) (hschedule : k.internalSchedule = some k') :
    k'.Bounded := by
  have hframe := internalSchedule_eq hschedule
  refine h.of_samePool ?_ ?_ (internalSchedule_samePool hschedule)
  · rw [hframe]
    exact SamePool.refl _
  · rw [hframe]
    exact SamePool.refl _

theorem Bounded.newProcess {c : Addr} (h : k.Bounded) (hnew : k.newProcess = some (c, k')) :
    k'.Bounded := by
  obtain ⟨_, pool, x, ptrPool, -, hget, -, hgetPtr, rfl⟩ := newProcess_cases hnew
  have hpcbs := getBlock_samePool k.pcbs.allocator
  have hptrs := getBlock_samePool k.pcbPtrs.allocator
  rw [hget] at hpcbs
  rw [hgetPtr] at hptrs
  exact h.of_samePool hpcbs hptrs (SamePool.refl _)

theorem timerListAdd_samePool {time : ℤ} {r : Option Addr}
    (hadd : k.timerListAdd time p = some (r, k')) :
    SamePool k.timerItems.allocator k'.timerItems.allocator := by
  obtain ⟨previous, -, halloc⟩ := Option.bind_eq_some_iff.mp hadd
  have hsame := getBlock_samePool k.timerItems.allocator
  rcases hget : k.timerItems.allocator.getBlock with ⟨_ | t, pool⟩
  · simp only [timerItemAlloc, hget, Option.some.injEq, Prod.mk.injEq] at halloc
    rw [← halloc.2]
    exact SamePool.refl _
  · simp only [timerItemAlloc, hget, Option.some.injEq, Prod.mk.injEq] at halloc
    rw [hget] at hsame
    rw [← halloc.2]
    exact hsame

theorem Bounded.internalSleep {cycles : ℤ} (h : k.Bounded)
    (hsleep : Kernel.internalSleep cycles k = some k') : k'.Bounded := by
  obtain ⟨p, -, rfl | ⟨t, k₁, hadd, rfl⟩⟩ := internalSleep_cases hsleep
  · exact ⟨h.pcbs, h.pcbPtrs, h.timerItems⟩
  · have hframe := timerListAdd_eq hadd
    have hpool : SamePool k.timerItems.allocator k₁.timerItems.allocator :=
      timerListAdd_samePool hadd
    refine h.of_samePool ?_ ?_ hpool
    · change SamePool _ k₁.pcbs.allocator
      rw [hframe]
      exact SamePool.refl _
    · change SamePool _ k₁.pcbPtrs.allocator
      rw [hframe]
      exact SamePool.refl _

theorem Bounded.internalWait {pid : ℤ} {result : Option Addr} (h : k.Bounded)
    (hwait : Kernel.internalWait pid result k = some k') : k'.Bounded := by
  obtain ⟨p, -, ⟨-, rfl⟩ | ⟨awaited, -, -, ⟨x, -, -, rfl⟩ | ⟨-, ⟨-, rfl⟩ | ⟨-, -, rfl⟩⟩⟩⟩ :=
    internalWait_cases hwait
  · exact ⟨h.pcbs, h.pcbPtrs, h.timerItems⟩
  · rw [reapZombie_eq]
    exact h.of_samePool (releaseBlock_samePool _ _) (releaseBlock_samePool _ _) (SamePool.refl _)
  · exact ⟨h.pcbs, h.pcbPtrs, h.timerItems⟩
  · exact ⟨h.pcbs, h.pcbPtrs, h.timerItems⟩

theorem Bounded.internalExit {value : ℤ} (h : k.Bounded)
    (hexit : Kernel.internalExit value k = some k') : k'.Bounded := by
  obtain ⟨p, k₁, parent, -, hzombie, -, ⟨-, hexit⟩ | ⟨-, hexit⟩⟩ := internalExit_cases hexit
  · have hframe := becomeZombie_eq hzombie
    have hexitFrame := exitToParent_eq hexit
    refine h.of_samePool ?_ ?_ ?_
    · rw [hexitFrame, hframe]
      exact releaseBlock_samePool _ _
    · rw [hexitFrame, hframe]
      exact SamePool.refl _
    · obtain ⟨self, k₂, k₃, hk₂, -, htimers, k₄, hdescriptors, rfl⟩ := exitToParent_cases hexit
      have hpool := releaseTimers_samePool htimers
      have hbefore : k₂.timerItems = k.timerItems := by
        rw [hk₂, hframe]
        rfl
      have hafter : k₄.timerItems = k₃.timerItems := by
        rw [releaseDescriptors_eq hdescriptors]
      rw [hbefore, ← hafter] at hpool
      exact hpool
  · have hframe := becomeZombie_eq hzombie
    have hexitFrame := exitToReady_eq hexit
    refine h.of_samePool ?_ ?_ ?_
    all_goals
      rw [hexitFrame, hframe]
      exact SamePool.refl _

/-- A step of the processes leaves the sizes of the pools. -/
theorem Bounded.step (h : k.Bounded) (ha : a.ofProcesses = true) (hstep : k.step a = some k') :
    k'.Bounded := by
  obtain ⟨rfl, hstart⟩ | ⟨rfl, htimer⟩ | ⟨x, byte, rfl, -, rfl⟩ | ⟨c, p, ret, rfl, hp, -, rfl⟩ |
    ⟨c, p, next, hp, hcalls, hcall⟩ | ⟨p, rfl, hp, -, hrun⟩ := step_cases hstep
  · obtain ⟨-, p, pool, hget, rfl⟩ := startProcess_cases hstart
    have hpcbs := getBlock_samePool k.pcbs.allocator
    rw [hget] at hpcbs
    exact h.of_samePool hpcbs (SamePool.refl _) (SamePool.refl _)
  · obtain ⟨p, hp, hschedule⟩ := Option.bind_eq_some_iff.mp htimer
    have htick : ({ k with disastrOSTime := toInt (k.disastrOSTime + 1) } : Kernel).Bounded :=
      ⟨h.pcbs, h.pcbPtrs, h.timerItems⟩
    exact htick.internalSchedule hschedule
  · exact ⟨h.pcbs, h.pcbPtrs, h.timerItems⟩
  · exact absurd ha Bool.false_ne_true
  · have hprocesses := concernsProcesses_of_request ha (hcalls.request hp)
    have htrap : (k.trap p next c).Bounded := ⟨h.pcbs, h.pcbPtrs, h.timerItems⟩
    cases c with
    | preempt => exact htrap.internalSchedule hcall
    | fork =>
      obtain ⟨⟨child, k₁⟩, hnew, hk'⟩ := Option.bind_eq_some_iff.mp hcall
      obtain rfl := Option.some.inj hk'
      exact htrap.newProcess hnew
    | spawn =>
      obtain ⟨⟨child, k₁⟩, hnew, hk'⟩ := Option.bind_eq_some_iff.mp hcall
      obtain rfl := Option.some.inj hk'
      have hbounded := htrap.newProcess hnew
      exact ⟨hbounded.pcbs, hbounded.pcbPtrs, hbounded.timerItems⟩
    | sleep cycles => exact htrap.internalSleep hcall
    | wait pid result => exact htrap.internalWait hcall
    | exit value => exact htrap.internalExit hcall
    | openResource | closeResource | destroyResource | shutdown | sendMsg | recvMsg | wakeupQueue
    | openQueue => exact absurd hprocesses Bool.false_ne_true
  · exact absurd ha Bool.false_ne_true

/-! ### The walks -/

theorem wakeElapsed_isSome {bound : ℕ} (h : k.TimersListed timers) (hbound : timers.length ≤ bound)
    (previousPcb : Option Addr) : (wakeElapsed bound previousPcb k).isSome := by
  induction bound generalizing k timers previousPcb with
  | zero =>
    obtain rfl := List.length_eq_zero_iff.mp (Nat.le_zero.mp hbound)
    rw [wakeElapsed, h.current]
    simp [dueTimers]
  | succ bound ih =>
    rw [wakeElapsed, h.current]
    cases timers with
    | nil => simp [dueTimers]
    | cons t rest =>
      by_cases hdue : k.timerItems.awakeningTime t ≤ k.disastrOSTime
      · have hremoved : (k.wakeProcess previousPcb t).TimersListed rest :=
          TimersListed.removeCurrent (h.congr rfl rfl)
        have hrest := ih hremoved (Nat.le_of_succ_le_succ hbound) (some (k.timerItems.pcb t))
        simpa [dueTimers, hdue] using hrest
      · simp [dueTimers, hdue]

theorem internalSchedule_isSome (h : k.TimersListed timers) (hbound : timers.length ≤ walkBound)
    (hp : k.running = some p) : k.internalSchedule.isSome := by
  obtain ⟨k₁, hwake⟩ := Option.isSome_iff_exists.mp (wakeElapsed_isSome h hbound none)
  have hrunning : k₁.running = some p := by
    rw [wakeElapsed_eq walkBound hwake]
    exact hp
  simp only [Kernel.internalSchedule, hwake, Option.bind_eq_bind, Option.bind_some]
  unfold switchToReady
  split
  · rfl
  · simp [detachPcb, hrunning]

theorem timerListPrevious_isSome {items : TimerItems} {before : Option Addr} {nodes : List Addr}
    {bound : ℕ} (h : Segment items.list before nodes none) (hbound : nodes.length ≤ bound)
    (time : ℤ) (previous : Option Addr) :
    (timerListPrevious items time bound previous nodes.head?).isSome := by
  induction nodes generalizing before previous bound with
  | nil => cases bound <;> rfl
  | cons t rest ih =>
    cases bound with
    | zero => exact absurd hbound (by simp)
    | succ bound =>
      have hnext : (items.list t).next = rest.head? := by rw [h.1, Option.or_none]
      rw [List.head?_cons, timerListPrevious, hnext]
      split_ifs
      · rfl
      · exact ih h.2 (Nat.le_of_succ_le_succ hbound) (some t)

/-- Adding a timer ends, and returns the block of the pool. -/
theorem timerListAdd_eq_some (h : k.TimersListed timers) (hbound : timers.length ≤ walkBound)
    (time : ℤ) (p : Addr) :
    ∃ k', k.timerListAdd time p = some (k.timerItems.allocator.getBlock.1, k') := by
  have hprevious := timerListPrevious_isSome h.represents.segment hbound time none
  rw [← h.represents.first] at hprevious
  obtain ⟨previous, hprevious⟩ := Option.isSome_iff_exists.mp hprevious
  rw [timerListAdd, hprevious, Option.bind_eq_bind, Option.bind_some]
  rcases hget : k.timerItems.allocator.getBlock with ⟨_ | t, pool⟩
  · simp only [timerItemAlloc, hget]
    exact ⟨k, rfl⟩
  · simp only [timerItemAlloc, hget]
    exact ⟨_, rfl⟩

theorem internalSleep_isSome (h : k.TimersListed timers) (hbound : timers.length ≤ walkBound)
    (hp : k.running = some p) (cycles : ℤ) : (Kernel.internalSleep cycles k).isSome := by
  obtain ⟨k₁, hadd⟩ := timerListAdd_eq_some h hbound (toInt (k.disastrOSTime + cycles)) p
  simp only [Kernel.internalSleep, hp, hadd, Option.bind_eq_bind, Option.bind_some]
  split_ifs
  · rfl
  · cases k.timerItems.allocator.getBlock.1 <;> rfl

theorem awaitedPcbPtr_isSome {before : Option Addr} {nodes : List Addr} {bound : ℕ}
    (h : Segment k.pcbPtrs.list before nodes none) (hbound : nodes.length ≤ bound) (pid : ℤ)
    (awaited : Option Addr) : (k.awaitedPcbPtr pid bound awaited nodes.head?).isSome := by
  induction nodes generalizing before awaited bound with
  | nil => cases bound <;> rfl
  | cons x rest ih =>
    cases bound with
    | zero => exact absurd hbound (by simp)
    | succ bound =>
      have hnext : (k.pcbPtrs.list x).next = rest.head? := by rw [h.1, Option.or_none]
      rw [List.head?_cons, awaitedPcbPtr, hnext]
      split_ifs
      · rfl
      · rfl
      · exact ih h.2 (Nat.le_of_succ_le_succ hbound) (some x)

theorem internalWait_isSome {kids : Addr → List Addr}
    (h : Family k.pcbPtrs.list k.pcbs.children kids) (hbound : (kids p).length ≤ walkBound)
    (hp : k.running = some p) (pid : ℤ) (result : Option Addr) :
    (Kernel.internalWait pid result k).isSome := by
  have hsearch := awaitedPcbPtr_isSome (h.represents p).segment hbound pid none
  rw [← (h.represents p).first] at hsearch
  obtain ⟨awaited, hsearch⟩ := Option.isSome_iff_exists.mp hsearch
  simp only [Kernel.internalWait, hp, hsearch, Option.bind_eq_bind, Option.bind_some]
  cases awaited with
  | none => split_ifs <;> rfl
  | some x => dsimp only; split_ifs <;> rfl

theorem reparent_isSome {kids : Addr → List Addr} {bound : ℕ}
    (h : Family k.pcbPtrs.list k.pcbs.children kids) (hne : p ≠ i)
    (hbound : (kids p).length ≤ bound) : (reparent p i bound k).isSome := by
  induction bound generalizing k kids with
  | zero =>
    have hnil := List.length_eq_zero_iff.mp (Nat.le_zero.mp hbound)
    rw [reparent, (h.represents p).first, hnil]
    rfl
  | succ bound ih =>
    rw [reparent, (h.represents p).first]
    cases hkids : kids p with
    | nil => rfl
    | cons x rest =>
      refine ih (handToInit_children h hne hkids) ?_
      rw [Function.update_of_ne hne, Function.update_self]
      rw [hkids] at hbound
      exact Nat.le_of_succ_le_succ hbound

theorem releaseTimers_isSome {bound : ℕ} {front back : List Addr}
    (h : k.TimersListed (front ++ back)) (hbound : back.length ≤ bound) :
    (releaseTimers p bound back.head? k).isSome := by
  induction bound generalizing k front back with
  | zero =>
    obtain rfl := List.length_eq_zero_iff.mp (Nat.le_zero.mp hbound)
    rfl
  | succ bound ih =>
    cases back with
    | nil => rfl
    | cons t rest =>
      have hnext : (k.timerItems.list t).next = rest.head? := by rw [h.represents.links]
      rw [List.head?_cons, releaseTimers, hnext]
      split_ifs
      · exact ih h.release (Nat.le_of_succ_le_succ hbound)
      · have hsplit : k.TimersListed ((front ++ [t]) ++ rest) := by simpa using h
        exact ih hsplit (Nat.le_of_succ_le_succ hbound)

/-- A process that has no descriptors has none to release. -/
theorem releaseDescriptors_nil (bound : ℕ) (hnone : (k.pcbs.descriptors p).first = none) :
    releaseDescriptors p bound k = some k := by
  cases bound <;> simp [releaseDescriptors, hnone]

/-! ### The calls -/

/-- A list of blocks of one pool ends before the bound of the walks is reached. -/
theorem length_le_of_sizeMax {a : PoolAllocator} (h : a.Ok) (hpos : 0 ≤ a.sizeMax)
    (hmax : a.sizeMax ≤ walkBound) {blocks : List Addr} (hnodup : blocks.Nodup)
    (hallocated : ∀ x ∈ blocks, a.Allocated x) : blocks.length ≤ walkBound := by
  have hlength := h.length_le hnodup hallocated hpos
  have hsize := h.size_nonneg
  omega

theorem length_le_walkBound {a : PoolAllocator} (h : a.Ok) (hmax : a.sizeMax = maxNumProcesses)
    {blocks : List Addr} (hnodup : blocks.Nodup) (hallocated : ∀ x ∈ blocks, a.Allocated x) :
    blocks.length ≤ walkBound :=
  length_le_of_sizeMax h (by rw [hmax]; decide) (by rw [hmax]; decide) hnodup hallocated

theorem Lists.timers_length (h : k.Lists v) (hbounded : k.Bounded) :
    v.timers.length ≤ walkBound :=
  length_le_walkBound h.timersListed.pool hbounded.timerItems h.timersListed.represents.nodup
    fun t ht ↦ (h.timersListed.allocated t).mpr ht

/-- Lists of pointers that were in the lists of children before. -/
theorem Lists.pointers_length (h : k.Lists v) (hbounded : k.Bounded) {list : Memory Addr}
    {heads : Addr → ListHead Addr} {kids : Addr → List Addr} (hkids : Family list heads kids)
    (hold : ∀ q, ∀ x ∈ kids q, ∃ q', x ∈ v.children q') (p : Addr) :
    (kids p).length ≤ walkBound := by
  refine length_le_walkBound h.pointerPool hbounded.pcbPtrs (hkids.represents p).nodup ?_
  intro x hx
  obtain ⟨q', hx'⟩ := hold p x hx
  exact h.pointer_allocated q' x hx'

theorem Lists.children_length (h : k.Lists v) (hbounded : k.Bounded) (p : Addr) :
    (v.children p).length ≤ walkBound :=
  h.pointers_length hbounded h.children (fun q _ hx ↦ ⟨q, hx⟩) p

theorem becomeZombie_isSome {kids : Addr → List Addr}
    (h : Family k.pcbPtrs.list k.pcbs.children kids) (hi : k.initPcb = some i) (hne : p ≠ i)
    (hbound : (kids p).length ≤ walkBound) (value : ℤ) : (k.becomeZombie p value).isSome := by
  obtain ⟨k₁, hreparent⟩ := Option.isSome_iff_exists.mp <|
    reparent_isSome (k := { k with pcbs.returnValue := update k.pcbs.returnValue p value })
      h hne hbound
  exact Option.isSome_iff_exists.mpr ⟨_, Option.bind_eq_some_iff.mpr
    ⟨i, hi, Option.bind_eq_some_iff.mpr ⟨k₁, hreparent, rfl⟩⟩⟩

theorem exitToParent_isSome {parent : Addr} {kids : List Addr} (h : k.TimersListed timers)
    (hkids : Represents k.pcbPtrs.list (k.pcbs.children parent) kids)
    (htimers : timers.length ≤ walkBound) (hlength : kids.length ≤ walkBound)
    (hdescriptors : (k.pcbs.descriptors p).first = none) : (k.exitToParent p parent).isSome := by
  obtain ⟨self, hself⟩ : ∃ self,
      ((k.detachPcb .waiting (some parent)).setStatus parent .running).pcbPtrByPID
        (k.pcbs.children parent) (k.pcbs.pid p) = some self :=
    ⟨_, hkids.scan_terminates (fun x ↦ k.pcbs.pid (k.pcbPtrs.pcb x) = k.pcbs.pid p) hlength⟩
  -- the state in which the timers are released
  let k₁ := ((((k.detachPcb .waiting (some parent)).setStatus parent .running).detachChild parent
    self).setRetvalue parent (k.pcbs.pid p)).storeResult (k.waitResult parent) (k.pcbs.returnValue p)
  have h₁ : k₁.TimersListed ([] ++ timers) := h.congr rfl rfl
  obtain ⟨k₂, hrelease⟩ : ∃ k₂, releaseTimers p walkBound k₁.timerList.first k₁ = some k₂ := by
    rw [h₁.represents.first]
    exact Option.isSome_iff_exists.mp (releaseTimers_isSome h₁ htimers)
  have hnone : (k₂.pcbs.descriptors p).first = none := by
    rw [releaseTimers_eq hrelease]
    exact hdescriptors
  exact Option.isSome_iff_exists.mpr ⟨_, Option.bind_eq_some_iff.mpr
    ⟨self, hself, Option.bind_eq_some_iff.mpr
      ⟨k₂, hrelease, Option.bind_eq_some_iff.mpr ⟨k₂, releaseDescriptors_nil _ hnone, rfl⟩⟩⟩⟩

/-- An exit ends if there are a first process, a parent and somebody to run. -/
theorem Lists.internalExit_isSome (h : k.Lists v) (hv : v.Consistent) (hbounded : k.Bounded)
    (hp : v.running = some p) (hinit : v.init = some i) (hparent : v.parent p ≠ none)
    (hready : v.queue .ready ≠ []) (hdescriptors : (k.pcbs.descriptors p).first = none)
    (value : ℤ) : (Kernel.internalExit value k).isSome := by
  have hrunning : k.running = some p := h.running.trans hp
  have hne : i ≠ p := by
    rintro rfl
    exact hparent (hv.init_live i hinit).2
  obtain ⟨parent, hparent⟩ := Option.ne_none_iff_exists'.mp hparent
  obtain ⟨k₁, hzombie⟩ := Option.isSome_iff_exists.mp <|
    becomeZombie_isSome h.children (h.initPcb.trans hinit) hne.symm (h.children_length hbounded p)
      value
  have hframe := becomeZombie_eq hzombie
  have hparent₁ : k₁.pcbs.parent p = some parent := by
    rw [hframe]
    exact (congrFun h.parent p).trans hparent
  simp only [Kernel.internalExit, hrunning, Option.bind_eq_bind, Option.bind_some, hzombie, hparent₁]
  split_ifs
  · -- the parent takes the value
    obtain ⟨i', hi', hkids⟩ := h.becomeZombie_children
      (fun j hj ↦ Option.some.inj (hinit.symm.trans hj) ▸ hne) hzombie
    have htimers : (k₁.sendSignal parent dsosSigchld).TimersListed v.timers :=
      h.timersListed.congr (by rw [hframe]; rfl) (by rw [hframe]; rfl)
    refine exitToParent_isSome htimers (hkids.represents parent) (h.timers_length hbounded)
      (h.pointers_length hbounded hkids (fun _ _ ↦ Processes.exists_of_mem_hand) parent) ?_
    rw [hframe]
    exact hdescriptors
  · -- the first ready process runs
    have hnotWaiting := hv.unlisted hp .waiting
    have hthreads := threads_becomeZombie h.scheduled hrunning
      (fun hsame ↦ hnotWaiting (hsame ▸ List.mem_singleton_self p)) hzombie
    have hfirst := (hthreads.represents .ready).first
    rw [parkedNodes_of_ne p (by decide)] at hfirst
    obtain ⟨next, rest, hcons⟩ := List.exists_cons_of_ne_nil hready
    rw [hcons, List.head?_cons] at hfirst
    simp only [Kernel.exitToReady, sendSignal, hfirst, Option.bind_eq_bind, Option.bind_some,
      Option.isSome_some]

/-! ### Runs without queues -/

/-- No process is in a queue function or has a descriptor. -/
structure Plain (k : Kernel) : Prop where
  contexts : ∀ p, ∃ ret, k.pcbs.cpuState p = .user ret
  descriptors : ∀ p, (k.pcbs.descriptors p).first = none

theorem Plain.noShutdown (h : k.Plain) : k.NoShutdown := by
  intro p hhalting
  obtain ⟨ret, hret⟩ := h.contexts p
  rw [hhalting] at hret
  exact Context.noConfusion hret

/-- The running process may make any call. -/
theorem Plain.atUser (h : k.Plain) (hp : k.running = some p) : k.atUser = true := by
  obtain ⟨ret, hret⟩ := h.contexts p
  exact atUser_iff.mpr ⟨p, ret, hp, hret⟩

theorem descriptors_reset {heads : Addr → ListHead Addr} (h : ∀ p, (heads p).first = none)
    (c p : Addr) : (update heads c listInit p).first = none := by
  rw [Function.update_apply]
  split_ifs
  · rfl
  · exact h p

theorem internalExit_descriptors (h : ∀ p, (k.pcbs.descriptors p).first = none) {value : ℤ}
    (hexit : Kernel.internalExit value k = some k') : k'.pcbs.descriptors = k.pcbs.descriptors := by
  obtain ⟨p, k₁, parent, -, hzombie, -, ⟨-, hexit⟩ | ⟨-, hexit⟩⟩ := internalExit_cases hexit
  · have hframe := becomeZombie_eq hzombie
    obtain ⟨self, k₂, k₃, hk₂, -, htimers, k₄, hdescriptors, rfl⟩ := exitToParent_cases hexit
    have hsame : k₃.pcbs.descriptors = k.pcbs.descriptors := by
      rw [releaseTimers_eq htimers, hk₂, hframe]
      rfl
    rw [releaseDescriptors_nil _ (by rw [hsame]; exact h p)] at hdescriptors
    obtain rfl := Option.some.inj hdescriptors
    exact hsame
  · rw [exitToReady_eq hexit, becomeZombie_eq hzombie]
    rfl

theorem Plain.step (h : k.Plain) (ha : a.ofProcesses = true) (hstep : k.step a = some k') :
    k'.Plain := by
  have hshutdown : k.request a ≠ some .shutdown := fun hrequest ↦
    Bool.noConfusion (concernsProcesses_of_request ha hrequest)
  constructor
  · have huser : ∀ (p : Addr) (next : Context), (∃ ret, next = .user ret) → ∀ q, ∃ ret,
        update k.pcbs.cpuState p next q = .user ret := by
      rintro p next ⟨ret, rfl⟩ q
      rw [Function.update_apply]
      split_ifs
      · exact ⟨ret, rfl⟩
      · exact h.contexts q
    have hnext : ∀ p c next, k.Calls p a c next → ∃ ret, next = .user ret := by
      intro p c next hcalls
      cases hcalls with
      | user _ ret _ => exact ⟨ret, rfl⟩
      | statement => exact absurd ha Bool.false_ne_true
    intro q
    cases step_contexts h.noShutdown hshutdown hstep with
    | same hcontexts _ =>
      rw [hcontexts]
      exact h.contexts q
    | start p _ _ hcontexts =>
      rw [hcontexts]
      exact huser p _ ⟨0, rfl⟩ q
    | call p c ret haction _ _ _ =>
      rw [haction] at ha
      exact absurd ha Bool.false_ne_true
    | syscall p c next _ hcalls _ hcontexts =>
      rw [hcontexts]
      exact huser p next (hnext p c next hcalls) q
    | spawn p child next _ hcalls _ _ hcontexts =>
      rw [hcontexts, Function.update_apply]
      split_ifs
      · exact ⟨0, rfl⟩
      · exact huser p next (hnext p _ next hcalls) q
    | statement p next haction _ _ _ _ _ =>
      rw [haction] at ha
      exact absurd ha Bool.false_ne_true
  · obtain ⟨rfl, hstart⟩ | ⟨rfl, htimer⟩ | ⟨x, byte, rfl, -, rfl⟩ | ⟨c, p, ret, rfl, hp, -, rfl⟩ |
      ⟨c, p, next, hp, hcalls, hcall⟩ | ⟨p, rfl, hp, -, hrun⟩ := step_cases hstep
    · obtain ⟨-, p, pool, -, rfl⟩ := startProcess_cases hstart
      exact descriptors_reset h.descriptors p
    · obtain ⟨p, hp, hschedule⟩ := Option.bind_eq_some_iff.mp htimer
      rw [internalSchedule_eq hschedule]
      exact h.descriptors
    · exact h.descriptors
    · exact absurd ha Bool.false_ne_true
    · have hprocesses := concernsProcesses_of_request ha (hcalls.request hp)
      cases c with
      | preempt =>
        rw [internalSchedule_eq hcall]
        exact h.descriptors
      | fork =>
        obtain ⟨⟨child, k₁⟩, hnew, hk'⟩ := Option.bind_eq_some_iff.mp hcall
        obtain rfl := Option.some.inj hk'
        obtain ⟨_, pool, x, ptrPool, -, -, -, -, rfl⟩ := newProcess_cases hnew
        exact descriptors_reset h.descriptors child
      | spawn =>
        obtain ⟨⟨child, k₁⟩, hnew, hk'⟩ := Option.bind_eq_some_iff.mp hcall
        obtain rfl := Option.some.inj hk'
        obtain ⟨_, pool, x, ptrPool, -, -, -, -, rfl⟩ := newProcess_cases hnew
        exact descriptors_reset h.descriptors child
      | sleep cycles =>
        obtain ⟨p', -, rfl | ⟨t, k₁, hadd, rfl⟩⟩ := internalSleep_cases hcall
        · exact h.descriptors
        · change ∀ q, (k₁.pcbs.descriptors q).first = none
          rw [timerListAdd_eq hadd]
          exact h.descriptors
      | wait pid result =>
        obtain ⟨p', -, ⟨-, rfl⟩ | ⟨awaited, -, -, ⟨x, -, -, rfl⟩ | ⟨-, ⟨-, rfl⟩ | ⟨-, -, rfl⟩⟩⟩⟩ :=
          internalWait_cases hcall
        · exact h.descriptors
        · rw [reapZombie_eq]
          exact h.descriptors
        · exact h.descriptors
        · exact h.descriptors
      | exit value =>
        have hsame := internalExit_descriptors (k := k.trap p next (.exit value)) h.descriptors hcall
        rw [hsame]
        exact h.descriptors
      | openResource | closeResource | destroyResource | shutdown | sendMsg | recvMsg
      | wakeupQueue | openQueue => exact absurd hprocesses Bool.false_ne_true
    · exact absurd ha Bool.false_ne_true

/-- What the running process asks for is done, and so is a timer interrupt. An exit needs a parent, a
first process and somebody who is ready. -/
theorem Shows.step_isSome (h : k.Shows v) (hv : v.Consistent) (hplain : k.Plain)
    (hbounded : k.Bounded) (hp : v.running = some p) (ha : a.ofProcesses = true) (hstart : a ≠ .start)
    (hnew : a ≠ .syscall .fork ∧ a ≠ .syscall .spawn)
    (hexit : ∀ value, a = .syscall (.exit value) →
      v.init ≠ none ∧ v.parent p ≠ none ∧ v.queue .ready ≠ []) : (k.step a).isSome := by
  obtain ⟨s, hlists⟩ := h
  have hrunning : k.running = some p := hlists.running.trans hp
  have huser := hplain.atUser hrunning
  have hrecount : (k.recount s).Bounded := ⟨hbounded.pcbs, hbounded.pcbPtrs, hbounded.timerItems⟩
  cases a with
  | start => exact absurd rfl hstart
  | write x byte => simp [Kernel.step, huser]
  | timer =>
    have hends : (({ k with disastrOSTime := toInt (k.disastrOSTime + 1) } : Kernel).recount
        s).internalSchedule.isSome :=
      internalSchedule_isSome hlists.tick.timersListed (hlists.timers_length hrecount) hrunning
    rw [recount_internalSchedule, Option.isSome_map] at hends
    simpa [Kernel.step, timerInterrupt, hrunning] using hends
  | syscall c =>
    have hrequest : k.request (.syscall c) = some c := by simp [Kernel.request, huser]
    obtain ⟨next, -, hsame⟩ := step_eq_syscallVector hrunning hrequest
    have htrap : ((k.trap p next c).recount s).Lists (v.trap p c) := hlists.trap p next c
    have hbound : ((k.trap p next c).recount s).Bounded :=
      ⟨hbounded.pcbs, hbounded.pcbPtrs, hbounded.timerItems⟩
    rw [hsame, ← Option.isSome_map (f := fun k' : Kernel ↦ k'.recount s),
      ← recount_syscallVector ha]
    cases c with
    | preempt =>
      exact internalSchedule_isSome htrap.timersListed (htrap.timers_length hbound) hrunning
    | fork => exact absurd rfl hnew.1
    | spawn => exact absurd rfl hnew.2
    | sleep cycles =>
      exact internalSleep_isSome htrap.timersListed (htrap.timers_length hbound) hrunning cycles
    | wait pid result =>
      exact internalWait_isSome htrap.children (htrap.children_length hbound p) hrunning pid result
    | exit value =>
      obtain ⟨hinit, hparent, hready⟩ := hexit value rfl
      obtain ⟨i, hi⟩ := Option.ne_none_iff_exists'.mp hinit
      exact htrap.internalExit_isSome (hv.trap hp _) hbound hp hi hparent hready
        (hplain.descriptors p) value
    | openResource | closeResource | destroyResource | shutdown | sendMsg | recvMsg | wakeupQueue
    | openQueue => exact absurd ha Bool.false_ne_true
  | call c => exact absurd ha Bool.false_ne_true
  | statement => exact absurd ha Bool.false_ne_true

end Kernel

theorem Layout.boot_bounded (layout : Layout) : layout.boot.Bounded := ⟨rfl, rfl, rfl⟩

theorem Layout.boot_plain (layout : Layout) : layout.boot.Plain :=
  ⟨fun _ ↦ ⟨0, rfl⟩, fun _ ↦ rfl⟩

end DisastrOS
