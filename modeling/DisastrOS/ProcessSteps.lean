import DisastrOS.Library.Runs
import DisastrOS.ListCounters
import DisastrOS.Processes
import DisastrOS.Steps

/-!
# The kernel and its processes

`Kernel.Shows k v` relates the kernel to the abstract processes: the lists of PCBs, the children and
the timers show the sequences of `v`, up to the counters of the lists of PCBs, and everything else is
read off. `Shows.step` is the simulation: a step of the kernel is a step of the processes, as long as
no process waits for a queue.
-/

set_option autoImplicit false
set_option relaxedAutoImplicit false

namespace DisastrOS

open LinkedLists PoolAllocator
open Function (update)

theorem drop_length_takeWhile {α : Type*} (test : α → Bool) (l : List α) :
    l.drop (l.takeWhile test).length = l.dropWhile test := by
  induction l with
  | nil => rfl
  | cons a l ih => cases htest : test a <;> simp [htest, ih]

namespace Kernel

variable {k k' : Kernel} {v v' : Processes} {a : Action} {p q c i x : Addr}

/-! ### What the kernel shows -/

/-- The processes of a kernel whose lists show the given sequences. -/
def processes (k : Kernel) (queue : PcbList → List Addr) (timers : List Addr)
    (children : Addr → List Addr) : Processes where
  running := k.running
  init := k.initPcb
  queue := queue
  status := k.pcbs.status
  pid := k.pcbs.pid
  nextPid := k.lastPid
  returnValue := k.pcbs.returnValue
  parent := k.pcbs.parent
  children := children
  child := k.pcbPtrs.pcb
  syscall := k.pcbs.syscall
  timers := timers
  sleeper := k.timerItems.pcb
  wakeTime := k.timerItems.awakeningTime
  time := k.disastrOSTime

/-- The lists of the kernel show the processes `v`. -/
structure Lists (k : Kernel) (v : Processes) : Prop where
  same : k.processes v.queue v.timers v.children = v
  scheduled : k.Scheduled v.queue
  timersListed : k.TimersListed v.timers
  children : Family k.pcbPtrs.list k.pcbs.children v.children
  pointerPool : k.pcbPtrs.allocator.Ok
  pointer_allocated : ∀ p, ∀ x ∈ v.children p, k.pcbPtrs.allocator.Allocated x
  child_isBlock : ∀ p, ∀ x ∈ v.children p, k.pcbs.allocator.IsBlock (k.pcbPtrs.pcb x)
  noTimer : ∀ p, k.pcbs.timer p = none

/-- The same, whatever the counters of the lists of PCBs say. -/
def Shows (k : Kernel) (v : Processes) : Prop := ∃ s, (k.recount s).Lists v

theorem Lists.running (h : k.Lists v) : k.running = v.running := congrArg Processes.running h.same

theorem Lists.initPcb (h : k.Lists v) : k.initPcb = v.init := congrArg Processes.init h.same

theorem Lists.status (h : k.Lists v) : k.pcbs.status = v.status := congrArg Processes.status h.same

theorem Lists.pid (h : k.Lists v) : k.pcbs.pid = v.pid := congrArg Processes.pid h.same

theorem Lists.lastPid (h : k.Lists v) : k.lastPid = v.nextPid := congrArg Processes.nextPid h.same

theorem Lists.returnValue (h : k.Lists v) : k.pcbs.returnValue = v.returnValue :=
  congrArg Processes.returnValue h.same

theorem Lists.parent (h : k.Lists v) : k.pcbs.parent = v.parent := congrArg Processes.parent h.same

theorem Lists.child (h : k.Lists v) : k.pcbPtrs.pcb = v.child := congrArg Processes.child h.same

theorem Lists.syscall (h : k.Lists v) : k.pcbs.syscall = v.syscall :=
  congrArg Processes.syscall h.same

theorem Lists.sleeper (h : k.Lists v) : k.timerItems.pcb = v.sleeper :=
  congrArg Processes.sleeper h.same

theorem Lists.wakeTime (h : k.Lists v) : k.timerItems.awakeningTime = v.wakeTime :=
  congrArg Processes.wakeTime h.same

theorem Lists.time (h : k.Lists v) : k.disastrOSTime = v.time := congrArg Processes.time h.same

theorem Lists.shows (h : k.Lists v) : k.Shows v := ⟨fun _ ↦ 0, by rwa [recount_zero]⟩

theorem Shows.of_recount {s : PcbList → ℤ} (h : (k.recount s).Shows v) : k.Shows v := by
  obtain ⟨t, ht⟩ := h
  rw [recount_recount] at ht
  exact ⟨_, ht⟩

/-- The processes are the PCBs that are allocated. -/
theorem Lists.allocated_iff (h : k.Lists v) : k.pcbs.allocator.Allocated p ↔ p ∈ v.all := by
  rw [Processes.mem_all, ← h.running]
  constructor
  · exact h.scheduled.covered p
  · rintro (hp | ⟨i, hp⟩)
    · exact h.scheduled.running_allocated p hp
    · exact h.scheduled.allocated i p hp

/-- A step that leaves the processes alone, but for the last system call. -/
theorem Lists.congr (h : k.Lists v) {call : Addr → Option Syscall}
    (hsame : k'.processes v.queue v.timers v.children =
      { k.processes v.queue v.timers v.children with syscall := call })
    (hlist : k'.pcbs.list = k.pcbs.list) (hlists : k'.lists = k.lists)
    (hpool : k'.pcbs.allocator = k.pcbs.allocator) (hitems : k'.timerItems = k.timerItems)
    (htimerList : k'.timerList = k.timerList) (hptrs : k'.pcbPtrs = k.pcbPtrs)
    (hchildren : k'.pcbs.children = k.pcbs.children) (htimer : k'.pcbs.timer = k.pcbs.timer) :
    k'.Lists { v with syscall := call } where
  same := hsame.trans (by rw [h.same])
  scheduled := h.scheduled.congr hlist hlists hpool (congrArg Processes.running hsame)
  timersListed := h.timersListed.congr hitems htimerList
  children := by rw [hptrs, hchildren]; exact h.children
  pointerPool := by rw [hptrs]; exact h.pointerPool
  pointer_allocated := by rw [hptrs]; exact h.pointer_allocated
  child_isBlock := by rw [hptrs, hpool]; exact h.child_isBlock
  noTimer := by rw [htimer]; exact h.noTimer

/-- A step that leaves the processes alone. -/
theorem Lists.quiet (h : k.Lists v)
    (hsame : k'.processes v.queue v.timers v.children = k.processes v.queue v.timers v.children)
    (hlist : k'.pcbs.list = k.pcbs.list) (hlists : k'.lists = k.lists)
    (hpool : k'.pcbs.allocator = k.pcbs.allocator) (hitems : k'.timerItems = k.timerItems)
    (htimerList : k'.timerList = k.timerList) (hptrs : k'.pcbPtrs = k.pcbPtrs)
    (hchildren : k'.pcbs.children = k.pcbs.children) (htimer : k'.pcbs.timer = k.pcbs.timer) :
    k'.Lists v := by
  have hv : k'.Lists { v with syscall := v.syscall } :=
    h.congr (hsame.trans (by rw [← h.syscall]; rfl)) hlist hlists hpool hitems htimerList hptrs
      hchildren htimer
  exact hv

theorem Lists.trap (h : k.Lists v) (p : Addr) (next : Context) (c : Syscall) :
    (k.trap p next c).Lists (v.trap p c) := by
  have htrap : (k.trap p next c).Lists
      { v with syscall := update k.pcbs.syscall p (some c) } := by
    apply h.congr <;> rfl
  rw [h.syscall] at htrap
  exact htrap

/-! ### Scheduling -/

theorem Lists.duePcbs (h : k.Lists v) : k.duePcbs v.timers = v.due := by
  simp only [Kernel.duePcbs, dueTimers, Processes.due, h.sleeper, h.wakeTime, h.time]

theorem wakeElapsed_noTimer {bound : ℕ} {previousPcb : Option Addr}
    (h : ∀ p, k.pcbs.timer p = none) (hwake : wakeElapsed bound previousPcb k = some k') (p : Addr) :
    k'.pcbs.timer p = none := by
  induction bound generalizing k previousPcb with
  | zero =>
    rw [wakeElapsed] at hwake
    split_ifs at hwake
    rw [← Option.some.inj hwake]
    exact h p
  | succ bound ih =>
    rw [wakeElapsed] at hwake
    split at hwake
    · rw [← Option.some.inj hwake]
      exact h p
    · refine ih (fun q ↦ ?_) hwake
      rw [wakeProcess_eq]
      change update k.pcbs.timer _ none q = none
      rw [Function.update_apply]
      split_ifs
      · rfl
      · exact h q

theorem internalSchedule_noTimer (h : ∀ p, k.pcbs.timer p = none)
    (hschedule : k.internalSchedule = some k') (p : Addr) : k'.pcbs.timer p = none := by
  obtain ⟨k₁, hwake, hswitch⟩ := Option.bind_eq_some_iff.mp hschedule
  have hsame : k'.pcbs.timer = k₁.pcbs.timer := by
    unfold switchToReady at hswitch
    split at hswitch
    · rw [Option.some.inj hswitch]
    · obtain ⟨_, -, hk'⟩ := Option.bind_eq_some_iff.mp hswitch
      rw [← Option.some.inj hk']
      rfl
  rw [hsame]
  exact wakeElapsed_noTimer h hwake p

theorem Lists.internalSchedule (h : k.Lists v) (hv : v.Consistent) (hp : v.running = some p)
    (hschedule : k.internalSchedule = some k') : k'.Lists (v.schedule p) := by
  have hrunning : k.running = some p := h.running.trans hp
  have hframe := internalSchedule_eq hschedule
  have hdue := h.duePcbs
  have hnotDue : p ∉ v.due := fun hmem ↦ hv.unlisted hp .waiting (hv.waiting_of_due hmem)
  obtain ⟨htimers, hcases⟩ := internalSchedule_spec h.scheduled h.timersListed
    (hdue ▸ hv.oneTimer.sublist ((List.takeWhile_sublist _).map _))
    (fun q hq ↦ hv.waiting_of_due (hdue ▸ hq))
    (fun q hq hrun ↦ hnotDue (Option.some.inj (hrun.symm.trans hrunning) ▸ hdue ▸ hq))
    (fun q hq _ hsame ↦ by
      have hmem : q ∈ (v.queue .waiting).filter (· ∉ k.duePcbs v.timers) :=
        hsame ▸ List.mem_singleton_self q
      rw [← Option.some.inj (hrunning.symm.trans hq)] at hmem
      exact hv.unlisted hp .waiting (List.mem_filter.mp hmem).1)
    hschedule
  have hdrop : v.timers.drop (k.dueTimers v.timers).length =
      v.timers.dropWhile fun t ↦ v.wakeTime t ≤ v.time := by
    rw [dueTimers, h.wakeTime, h.time]
    exact drop_length_takeWhile _ _
  rw [hdrop] at htimers
  rw [hdue] at hcases
  have hrest : ∀ {w : Processes}, w.children = v.children →
      k'.processes w.queue w.timers w.children = w → k'.Scheduled w.queue →
        k'.TimersListed w.timers → k'.Lists w := by
    intro w hchildren hsame hscheduled htimersListed
    have hptrs : k'.pcbPtrs = k.pcbPtrs := by rw [hframe]
    have hlists : k'.pcbs.children = k.pcbs.children := by rw [hframe]
    have hpool : k'.pcbs.allocator = k.pcbs.allocator := by rw [hframe]
    refine ⟨hsame, hscheduled, htimersListed, ?_, ?_, ?_, ?_,
      internalSchedule_noTimer h.noTimer hschedule⟩
    · rw [hchildren, hptrs, hlists]
      exact h.children
    · rw [hptrs]
      exact h.pointerPool
    · rw [hchildren, hptrs]
      exact h.pointer_allocated
    · rw [hchildren, hptrs, hpool]
      exact h.child_isBlock
  obtain ⟨hnone, hscheduled, hsame, hstatus⟩ | ⟨p', next, rest, hp', hnext, hruns, hscheduled,
    hstatus⟩ := hcases
  · rw [Processes.schedule_nil hnone]
    have hdueNil : (v.timers.takeWhile fun t ↦ v.wakeTime t ≤ v.time) = [] :=
      List.map_eq_nil_iff.mp (List.append_eq_nil_iff.mp hnone).1
    have htimers' : (v.timers.dropWhile fun t ↦ v.wakeTime t ≤ v.time) = v.timers := by
      conv_rhs => rw [← List.takeWhile_append_dropWhile
        (p := fun t ↦ decide (v.wakeTime t ≤ v.time)) (l := v.timers), hdueNil]
      rfl
    refine hrest rfl ?_ hscheduled (htimers' ▸ htimers)
    have hview : k'.processes v.queue v.timers v.children =
        { k.processes v.queue v.timers v.children with
          running := k'.running
          status := k'.pcbs.status } := by
      rw [hframe]
      rfl
    rw [hview, h.same, hsame, hstatus, h.running, h.status]
  · obtain rfl : p = p' := Option.some.inj (hrunning.symm.trans hp')
    have hqueue : (v.schedule p).queue =
        switchedNodes (wokenNodes v.queue [] v.due (v.queue .ready)) p := by
      funext l
      cases l with
      | ready =>
        have hnotWaiting : p ∉ wokenNodes v.queue [] v.due (v.queue .ready) .waiting := by
          rw [mem_wokenNodes_waiting]
          exact fun hmem ↦ hv.unlisted hp .waiting hmem.1
        rw [switchedNodes, if_neg hnotWaiting, Function.update_self, wokenNodes,
          Function.update_self, List.nil_append, hnext, List.tail_cons]
        simp [Processes.schedule_cons hnext]
      | waiting => simp [Processes.schedule_cons hnext, switchedNodes, wokenNodes]
      | zombie => simp [Processes.schedule_cons hnext, switchedNodes, wokenNodes]
    refine hrest (by rw [Processes.schedule_cons hnext]) ?_ (hqueue ▸ hscheduled) ?_
    · have hview : k'.processes (v.schedule p).queue (v.schedule p).timers (v.schedule p).children =
          { k.processes v.queue v.timers v.children with
            running := k'.running
            status := k'.pcbs.status
            queue := (v.schedule p).queue
            timers := (v.schedule p).timers
            children := (v.schedule p).children } := by
        rw [hframe]
        rfl
      rw [hview, h.same, hruns, hstatus, h.status, Processes.schedule_cons hnext]
    · rw [Processes.schedule_cons hnext]
      exact htimers

/-! ### New processes -/

theorem Lists.newProcess (h : k.Lists v) (hp : v.running = some p)
    (hnew : k.newProcess = some (c, k')) :
    ∃ x, c ∉ v.all ∧ (∀ q, x ∉ v.children q) ∧ k'.Lists (v.create p c x) := by
  obtain ⟨hscheduled, hfree⟩ := h.scheduled.newProcess hnew
  obtain ⟨p', pool, x, ptrPool, hp', hget, -, hgetPtr, rfl⟩ := newProcess_cases hnew
  obtain rfl := Option.some.inj ((h.running.trans hp).symm.trans hp')
  obtain ⟨-, hblock, -⟩ := getBlock_some h.scheduled.pool hget
  have hsamePool : SamePool k.pcbs.allocator pool := by
    have hsame := getBlock_samePool k.pcbs.allocator
    rwa [hget] at hsame
  obtain ⟨hok, -, hfreePtr, -, hallocated⟩ := getBlock_some h.pointerPool hgetPtr
  have hfresh : c ∉ v.all := fun hmem ↦ hfree (h.allocated_iff.mpr hmem)
  have hpointer : ∀ q, x ∉ v.children q := fun q hx ↦ hfreePtr (h.pointer_allocated q x hx)
  refine ⟨x, hfresh, hpointer, ?_⟩
  have hpc : p ≠ c := fun hsame ↦ hfresh (hsame ▸ Processes.mem_all_of_running hp)
  have hchildren : (v.create p c x).children = update (update v.children c []) p
      (update v.children c [] p ++ [x]) := by
    rw [Function.update_of_ne hpc]
    rfl
  -- a pointer of the new lists is the new one or an old one
  have hcases : ∀ q y, y ∈ (v.create p c x).children q → y = x ∨ y ≠ x ∧ ∃ q', y ∈ v.children q' := by
    intro q y hy
    rw [hchildren, mem_update_append] at hy
    rcases hy with hy | ⟨rfl, -⟩
    · have hold : y ∈ v.children q := by
        by_cases hq : q = c
        · subst hq
          rw [Function.update_self] at hy
          exact absurd hy List.not_mem_nil
        · rwa [Function.update_of_ne hq] at hy
      exact Or.inr ⟨fun hyx ↦ hpointer q (hyx ▸ hold), q, hold⟩
    · exact Or.inl rfl
  refine
    { same := ?_
      scheduled := hscheduled
      timersListed := h.timersListed.congr rfl rfl
      children := ?_
      pointerPool := hok
      pointer_allocated := ?_
      child_isBlock := ?_
      noTimer := ?_ }
  · calc _ = { k.processes v.queue v.timers v.children with
          queue := (v.create p c x).queue
          status := update (update k.pcbs.status c .invalid) c .ready
          pid := update k.pcbs.pid c k.lastPid
          nextPid := k.lastPid + 1
          returnValue := update k.pcbs.returnValue c 0
          parent := update (update k.pcbs.parent c none) c (some p)
          children := (v.create p c x).children
          child := update k.pcbPtrs.pcb x c } := rfl
      _ = v.create p c x := by
        rw [h.same, Function.update_idem, Function.update_idem, h.status, h.pid, h.lastPid, h.parent,
          h.child, h.returnValue]
        rfl
  · have hlist : Family (update k.pcbPtrs.list x Links.unlinked) k.pcbs.children v.children :=
      h.children.congr fun q y hy ↦ Function.update_of_ne
        (fun hsame : y = x ↦ hpointer q (hsame ▸ hy)) _ _
    have hnotMem : ∀ q, x ∉ update v.children c [] q := by
      intro q hmem
      by_cases hq : q = c
      · subst hq
        rw [Function.update_self] at hmem
        exact List.not_mem_nil hmem
      · rw [Function.update_of_ne hq] at hmem
        exact hpointer q hmem
    rw [hchildren]
    exact (hlist.clear c).listInsert_last p (Function.update_self ..) hnotMem
  · intro q y hy
    refine (hallocated y).mpr ?_
    rcases hcases q y hy with rfl | ⟨-, q', hold⟩
    · exact Or.inl rfl
    · exact Or.inr (h.pointer_allocated q' y hold)
  · intro q y hy
    change pool.IsBlock (update k.pcbPtrs.pcb x c y)
    rw [hsamePool.isBlock]
    rcases hcases q y hy with rfl | ⟨hne, q', hold⟩
    · rwa [Function.update_self]
    · rw [Function.update_of_ne hne]
      exact h.child_isBlock q' y hold
  · intro q
    change update k.pcbs.timer c none q = none
    rw [Function.update_apply]
    split_ifs
    · rfl
    · exact h.noTimer q

theorem Lists.startProcess (h : k.Lists v) (hstart : k.startProcess = some k') :
    ∃ p, v.running = none ∧ p ∉ v.all ∧ k'.Lists (v.start p) := by
  have hscheduled := h.scheduled.startProcess hstart
  obtain ⟨hidle, p, pool, hget, rfl⟩ := startProcess_cases hstart
  obtain ⟨-, -, hfree, -, -⟩ := getBlock_some h.scheduled.pool hget
  have hsamePool : SamePool k.pcbs.allocator pool := by
    have hsame := getBlock_samePool k.pcbs.allocator
    rwa [hget] at hsame
  have hfresh : p ∉ v.all := fun hmem ↦ hfree (h.allocated_iff.mpr hmem)
  have hsub : ∀ q, update v.children p [] q ⊆ v.children q := by
    intro q
    by_cases hq : q = p
    · subst hq
      simp
    · rw [Function.update_of_ne hq]
      exact List.Subset.refl _
  refine ⟨p, h.running.symm.trans hidle, hfresh, ?_⟩
  refine
    { same := ?_
      scheduled := hscheduled
      timersListed := h.timersListed.congr rfl rfl
      children := h.children.clear p
      pointerPool := h.pointerPool
      pointer_allocated := fun q y hy ↦ h.pointer_allocated q y (hsub q hy)
      child_isBlock := ?_
      noTimer := ?_ }
  · calc _ = { k.processes v.queue v.timers v.children with
          running := some p
          init := some p
          status := update (update k.pcbs.status p .invalid) p .running
          pid := update k.pcbs.pid p k.lastPid
          nextPid := k.lastPid + 1
          returnValue := update k.pcbs.returnValue p 0
          parent := update k.pcbs.parent p none
          children := update v.children p [] } := rfl
      _ = v.start p := by
        rw [h.same, Function.update_idem, h.status, h.pid, h.lastPid, h.parent, h.returnValue]
        rfl
  · intro q y hy
    change pool.IsBlock (k.pcbPtrs.pcb y)
    rw [hsamePool.isBlock]
    exact h.child_isBlock q y (hsub q hy)
  · intro q
    change update k.pcbs.timer p none q = none
    rw [Function.update_apply]
    split_ifs
    · rfl
    · exact h.noTimer q

/-! ### Blocking -/

/-- The running process goes to `waiting_list`. It may have got a timer before. -/
theorem Lists.park {w : Processes} (h : k.Lists v) (hv : v.Consistent) (hp : v.running = some p)
    (hw : w = { v with timers := w.timers, sleeper := w.sleeper, wakeTime := w.wakeTime })
    (hsame : k'.processes v.queue w.timers v.children = w)
    (htimers : k'.TimersListed w.timers)
    (hframe : k' = { k with timerItems := k'.timerItems, timerList := k'.timerList }) :
    (((k'.setStatus p .waiting).insertPcb .waiting (k'.lists .waiting).last
      (some p)).dispatchReady).Lists (w.block p) := by
  have hrunning : k.running = some p := h.running.trans hp
  have hnotMem := hv.unlisted hp .waiting
  have halone : v.queue .waiting ≠ [p] := fun hsame ↦
    hnotMem (hsame ▸ List.mem_singleton_self p)
  obtain ⟨hscheduled, hruns⟩ := h.scheduled.park (k'.setStatus p .waiting) (i := .waiting)
    (by decide) hrunning halone (by rw [hframe]; rfl) (by rw [hframe]; rfl) (by rw [hframe]; rfl)
  have hqueue : w.queue = v.queue := by rw [hw]
  have hchildren : w.children = v.children := by rw [hw]
  have hptrs : k'.pcbPtrs = k.pcbPtrs := by rw [hframe]
  have hpcbs : k'.pcbs = k.pcbs := by rw [hframe]
  have hblocked : (w.block p).queue =
      update (parkedNodes v.queue .waiting p) .ready (v.queue .ready).tail := by
    rw [parkedNodes, if_neg hnotMem, ← hqueue]
    rfl
  refine
    { same := ?_
      scheduled := by rw [hblocked]; exact hscheduled
      timersListed := htimers.congr rfl rfl
      children := ?_
      pointerPool := by change k'.pcbPtrs.allocator.Ok; rw [hptrs]; exact h.pointerPool
      pointer_allocated := ?_
      child_isBlock := ?_
      noTimer := by change ∀ q, k'.pcbs.timer q = none; rw [hpcbs]; exact h.noTimer }
  · calc _ = { k'.processes v.queue w.timers v.children with
          running := (((k'.setStatus p .waiting).insertPcb .waiting (k'.lists .waiting).last
            (some p)).dispatchReady).running
          queue := (w.block p).queue
          status := update k'.pcbs.status p .waiting
          children := w.children } := rfl
      _ = w.block p := by
        have hstatus : k'.pcbs.status = w.status := congrArg Processes.status hsame
        rw [hsame, hstatus]
        change _ = { w with
          running := (w.queue .ready).head?
          queue := (w.block p).queue
          status := update w.status p .waiting }
        rw [hqueue, ← hruns]
        rfl
  · change Family k'.pcbPtrs.list k'.pcbs.children w.children
    rw [hptrs, hpcbs, hchildren]
    exact h.children
  · change ∀ q, ∀ y ∈ w.children q, k'.pcbPtrs.allocator.Allocated y
    rw [hptrs, hchildren]
    exact h.pointer_allocated
  · change ∀ q, ∀ y ∈ w.children q, k'.pcbs.allocator.IsBlock (k'.pcbPtrs.pcb y)
    rw [hptrs, hpcbs, hchildren]
    exact h.child_isBlock

/-- A call that fails. -/
theorem Lists.setRetvalue (h : k.Lists v) (p : Addr) (retvalue : ℤ) :
    (k.setRetvalue p retvalue).Lists v := by
  apply h.quiet <;> rfl

theorem Lists.internalSleep (h : k.Lists v) (hv : v.Consistent) (hp : v.running = some p)
    {cycles : ℤ} (hsleep : internalSleep cycles k = some k') :
    k'.Lists v ∨ ∃ t, t ∉ v.timers ∧
      k'.Lists ((v.addTimer t p (toInt (v.time + cycles))).block p) := by
  obtain ⟨p', hp', rfl | ⟨t, k₁, hadd, rfl⟩⟩ := internalSleep_cases hsleep
  · exact Or.inl (h.setRetvalue p' dsosEsleep)
  · obtain rfl : p = p' := Option.some.inj ((h.running.trans hp).symm.trans hp')
    obtain ⟨hnone, -⟩ | ⟨t', ht, hnew, hlisted, hsleeper, hwake, hframe⟩ :=
      timerListAdd_place h.timersListed hadd
    · exact absurd hnone (by simp)
    · obtain rfl := Option.some.inj ht
      rw [h.wakeTime, h.time] at hlisted
      rw [h.sleeper] at hsleeper
      rw [h.wakeTime, h.time] at hwake
      refine Or.inr ⟨t, hnew, ?_⟩
      refine h.park hv hp (w := v.addTimer t p (toInt (v.time + cycles))) rfl ?_ hlisted hframe
      have hview : ∀ timers, k₁.processes v.queue timers v.children =
          { k.processes v.queue v.timers v.children with
            timers := timers
            sleeper := k₁.timerItems.pcb
            wakeTime := k₁.timerItems.awakeningTime } := by
        intro timers
        rw [hframe]
        rfl
      rw [hview, h.same, hsleeper, hwake]
      rfl

/-! ### Waiting for a child -/

/-- The search of `wait` ends at the first child that it looks for, or else at the last one. -/
theorem awaitedPcbPtr_eq {pid : ℤ} {bound : ℕ} {before previous r : Option Addr} {nodes : List Addr}
    (h : Segment k.pcbPtrs.list before nodes none)
    (hsearch : k.awaitedPcbPtr pid bound previous nodes.head? = some r) :
    r = (nodes.find? fun x ↦ if pid = 0 then k.pcbs.status (k.pcbPtrs.pcb x) = .zombie
      else k.pcbs.pid (k.pcbPtrs.pcb x) = pid).or (nodes.getLast?.or previous) := by
  induction nodes generalizing before previous bound with
  | nil => cases bound <;> simpa [awaitedPcbPtr, eq_comm] using hsearch
  | cons x rest ih =>
    cases bound with
    | zero => simp [awaitedPcbPtr] at hsearch
    | succ bound =>
      have hnext : (k.pcbPtrs.list x).next = rest.head? := by rw [h.1, Option.or_none]
      have hlast : (x :: rest).getLast?.or previous = rest.getLast?.or (some x) := by
        cases rest with
        | nil => rfl
        | cons _ _ => simp [List.getLast?_cons]
      rw [List.head?_cons, awaitedPcbPtr, hnext] at hsearch
      rw [List.find?_cons, hlast]
      by_cases hpid : pid = 0
      · by_cases hzombie : k.pcbs.status (k.pcbPtrs.pcb x) = .zombie
        · simpa [hpid, hzombie, eq_comm] using hsearch
        · have hrest := ih h.2 (by simpa [hpid, hzombie] using hsearch)
          simpa [hpid, hzombie] using hrest
      · by_cases hfound : k.pcbs.pid (k.pcbPtrs.pcb x) = pid
        · simpa [hpid, hfound, eq_comm] using hsearch
        · have hrest := ih h.2 (by simpa [hpid, hfound] using hsearch)
          simpa [hpid, hfound] using hrest

theorem Lists.awaitedPcbPtr (h : k.Lists v) {pid : ℤ} {r : Option Addr}
    (hsearch : k.awaitedPcbPtr pid walkBound none (k.pcbs.children p).first = some r) :
    r = v.awaited p pid := by
  have hrep := h.children.represents p
  rw [hrep.first] at hsearch
  have hfound := awaitedPcbPtr_eq hrep.segment hsearch
  rwa [Option.or_none, h.status, h.child, h.pid] at hfound

/-- The lists after a process that is gone was taken away as a zombie: only the counter of
`zombie_list` is off. -/
theorem Scheduled.reapGone {nodes : PcbList → List Addr} (h : k.Scheduled nodes)
    (hgone : ¬ k.pcbs.allocator.Allocated (k.pcbPtrs.pcb x))
    (hblock : k.pcbs.allocator.IsBlock (k.pcbPtrs.pcb x)) (p : Addr) (result : Option Addr) :
    ((k.reapZombie p x result).recount fun l ↦ if l = .zombie then 1 else 0).Scheduled nodes := by
  set c := k.pcbPtrs.pcb x
  have hnotMem : ∀ l, c ∉ nodes l := fun l hmem ↦ hgone (h.allocated l c hmem)
  have hunlinked : k.pcbs.list c = Links.unlinked := h.threads.tidy c hnotMem
  have hrep := h.threads.represents .zombie
  have hfirst : (k.lists .zombie).first ≠ some c := fun hsame ↦
    hnotMem .zombie (List.mem_of_head? (hrep.first.symm.trans hsame))
  have hlast : (k.lists .zombie).last ≠ some c := fun hsame ↦
    hnotMem .zombie (List.mem_of_getLast? (hrep.last.symm.trans hsame))
  have hdetach : listDetach k.pcbs.list (k.lists .zombie) (some c) =
      ⟨k.pcbs.list, { k.lists .zombie with size := (k.lists .zombie).size - 1 }, some c⟩ := by
    simp only [listDetach, hunlinked, Links.unlinked, setNext, setPrev, if_neg hfirst, if_neg hlast]
    rw [show (⟨none, none⟩ : Links Addr) = k.pcbs.list c from hunlinked.symm,
      Function.update_eq_self]
  have hpool := releaseBlock_free h.pool hblock hgone
  rw [reapZombie_eq]
  refine h.congr ?_ ?_ ?_ rfl
  · change (listDetach k.pcbs.list (k.lists .zombie) (some c)).list = k.pcbs.list
    rw [hdetach]
  · funext l
    by_cases hl : l = .zombie
    · subst hl
      simp [recount, c, hdetach]
    · simp [recount, hl]
  · change (k.pcbs.allocator.releaseBlock c).2 = k.pcbs.allocator
    rw [hpool]

theorem Lists.reapZombie (h : k.Lists v) (hv : v.Consistent) (hx : x ∈ v.children p)
    (hzombie : v.status (v.child x) = .zombie) (result : Option Addr) :
    (k.reapZombie p x result).Shows (v.reap p x) := by
  have hscheduled : ∃ s, ((k.reapZombie p x result).recount s).Scheduled (v.reap p x).queue := by
    rw [Processes.reap_queue]
    by_cases hmem : v.child x ∈ v.queue .zombie
    · refine ⟨fun _ ↦ 0, ?_⟩
      rw [recount_zero, ← h.child]
      exact h.scheduled.reapZombie (h.child ▸ hmem) p result
    · have hgone : v.child x ∉ v.all := by
        intro hall
        obtain hrun | ⟨l, hl⟩ := Processes.mem_all.mp hall
        · rcases hv.status_running _ hrun with hstatus | hstatus <;> simp [hzombie] at hstatus
        · have hstatus := (hv.listed l _ hl).symm.trans hzombie
          cases l with
          | zombie => exact hmem hl
          | ready | waiting => simp [PcbList.status] at hstatus
      refine ⟨fun l ↦ if l = .zombie then 1 else 0, ?_⟩
      rw [List.erase_of_not_mem hmem, Function.update_eq_self]
      refine h.scheduled.reapGone ?_ (h.child_isBlock p x hx) p result
      rw [h.child, h.allocated_iff]
      exact hgone
  obtain ⟨s, hscheduled⟩ := hscheduled
  obtain ⟨hok, -, hallocated⟩ := h.pointerPool.release (h.pointer_allocated p x hx)
  have hsamePool := releaseBlock_samePool k.pcbs.allocator (k.pcbPtrs.pcb x)
  have hsub : ∀ q y, y ∈ (v.reap p x).children q → y ∈ v.children q ∧ y ≠ x :=
    fun q y ↦ (h.children.mem_update_erase hx).mp
  refine ⟨s, ?_⟩
  exact
    { same := by
        calc _ = { k.processes v.queue v.timers v.children with
            queue := (v.reap p x).queue
            children := (v.reap p x).children } := rfl
          _ = v.reap p x := by
            rw [h.same]
            rfl
      scheduled := hscheduled
      timersListed := h.timersListed.congr rfl rfl
      children := h.children.listDetach hx
      pointerPool := hok
      pointer_allocated := fun q y hy ↦ (hallocated y).mpr
        ⟨(hsub q y hy).2, h.pointer_allocated q y (hsub q y hy).1⟩
      child_isBlock := fun q y hy ↦
        (hsamePool.isBlock _).mpr (h.child_isBlock q y (hsub q y hy).1)
      noTimer := h.noTimer }

theorem Lists.internalWait (h : k.Lists v) (hv : v.Consistent) (hp : v.running = some p) {pid : ℤ}
    {result : Option Addr} (hwait : internalWait pid result k = some k') :
    v.children p = [] ∧ k'.Lists v ∨
      ∃ x, v.awaited p pid = some x ∧
        (v.status (v.child x) = .zombie ∧ k'.Shows (v.reap p x) ∨
          v.status (v.child x) ≠ .zombie ∧ k'.Lists (v.block p)) := by
  have hempty : (k.pcbs.children p).first = none ↔ v.children p = [] := by
    rw [(h.children.represents p).first, List.head?_eq_none_iff]
  obtain ⟨p', hp', ⟨hnone, rfl⟩ | ⟨awaited, hsome, hawaited, hcases⟩⟩ := internalWait_cases hwait
  · obtain rfl : p = p' := Option.some.inj ((h.running.trans hp).symm.trans hp')
    exact Or.inl ⟨hempty.mp hnone, h.setRetvalue p dsosEwait⟩
  · obtain rfl : p = p' := Option.some.inj ((h.running.trans hp).symm.trans hp')
    have hfound := h.awaitedPcbPtr hawaited
    obtain ⟨x, hx⟩ : ∃ x, awaited = some x := by
      cases awaited with
      | some x => exact ⟨x, rfl⟩
      | none =>
        have hnone := Option.or_eq_none_iff.mp hfound.symm
        exact absurd (hempty.mpr (List.getLast?_eq_none_iff.mp hnone.2)) hsome
    subst hx
    refine Or.inr ⟨x, hfound.symm, ?_⟩
    have hmem := Processes.mem_of_awaited hfound.symm
    rw [h.status, h.child] at hcases
    obtain ⟨y, hy, hzombie, rfl⟩ | ⟨hnotZombie, ⟨-, rfl⟩ | ⟨-, hnone, -⟩⟩ := hcases
    · obtain rfl := Option.some.inj hy
      exact Or.inl ⟨hzombie, h.reapZombie hv hmem hzombie result⟩
    · exact Or.inr ⟨hnotZombie x rfl, h.park hv hp rfl h.same h.timersListed rfl⟩
    · exact absurd hnone (by simp)

/-! ### Exit -/

theorem handed_nil {kids : Addr → List Addr} (hnil : kids p = []) (i : Addr) :
    update (update kids p []) i (kids i ++ kids p) = kids := by
  rw [hnil, List.append_nil, ← hnil, Function.update_eq_self, Function.update_eq_self]

/-- Handing over the first child and then the others is handing over all of them. -/
theorem handed_cons {kids kids' : Addr → List Addr} {rest : List Addr} (hne : p ≠ i)
    (hcons : kids p = x :: rest)
    (hfirst : kids' = update (update kids p rest) i (kids i ++ [x])) :
    update (update kids' p []) i (kids' i ++ kids' p) =
      update (update kids p []) i (kids i ++ kids p) := by
  have hp : kids' p = rest := by rw [hfirst, Function.update_of_ne hne, Function.update_self]
  have hi : kids' i = kids i ++ [x] := by rw [hfirst, Function.update_self]
  rw [hp, hi, hcons, List.append_assoc, List.singleton_append]
  funext q
  by_cases hqi : q = i
  · rw [hqi, Function.update_self, Function.update_self]
  · rw [Function.update_of_ne hqi, Function.update_of_ne hqi, hfirst]
    by_cases hqp : q = p
    · rw [hqp, Function.update_self, Function.update_self]
    · rw [Function.update_of_ne hqp, Function.update_of_ne hqi, Function.update_of_ne hqp,
        Function.update_of_ne hqp]

theorem handToInit_children {kids : Addr → List Addr} {rest : List Addr}
    (h : Family k.pcbPtrs.list k.pcbs.children kids) (hne : p ≠ i) (hkids : kids p = x :: rest) :
    Family (k.handToInit p i x).pcbPtrs.list (k.handToInit p i x).pcbs.children
      (update (update kids p rest) i (kids i ++ [x])) := by
  have hx : x ∈ kids p := hkids ▸ List.mem_cons_self
  have hdetach := h.listDetach hx
  have hlast := hdetach.listInsert_last i (listDetach_list_self ..) (h.notMem_erase hx)
  rw [hkids, List.erase_cons_head, Function.update_of_ne hne.symm _ kids] at hlast
  exact hlast

/-- The children of `p` go to the end of those of `i`, in order. -/
theorem reparent_spec {kids : Addr → List Addr} {bound : ℕ}
    (h : Family k.pcbPtrs.list k.pcbs.children kids) (hne : p ≠ i)
    (hreparent : reparent p i bound k = some k') :
    Family k'.pcbPtrs.list k'.pcbs.children (update (update kids p []) i (kids i ++ kids p)) := by
  induction bound generalizing k kids with
  | zero =>
    rw [reparent, (h.represents p).first] at hreparent
    split_ifs at hreparent with hsome
    obtain rfl := Option.some.inj hreparent
    rw [Option.not_isSome_iff_eq_none, List.head?_eq_none_iff] at hsome
    rw [handed_nil hsome]
    exact h
  | succ bound ih =>
    rw [reparent, (h.represents p).first] at hreparent
    cases hkids : kids p with
    | nil =>
      rw [hkids] at hreparent
      obtain rfl := Option.some.inj hreparent
      have hsame := handed_nil hkids i
      rw [hkids] at hsame
      rw [hsame]
      exact h
    | cons x rest =>
      rw [hkids] at hreparent
      have hend := ih (handToInit_children h hne hkids) hreparent
      rw [handed_cons hne hkids rfl, hkids] at hend
      exact hend

/-- A step that moves processes and pointers between the lists, and creates none of them. -/
theorem Lists.exchange (h : k.Lists v) (hsame : k'.processes v'.queue v'.timers v'.children = v')
    (hscheduled : k'.Scheduled v'.queue) (htimers : k'.TimersListed v'.timers)
    (hchildren : Family k'.pcbPtrs.list k'.pcbs.children v'.children)
    (hptrs : k'.pcbPtrs.allocator = k.pcbPtrs.allocator) (hchild : k'.pcbPtrs.pcb = k.pcbPtrs.pcb)
    (hpool : SamePool k.pcbs.allocator k'.pcbs.allocator)
    (hold : ∀ q, ∀ x ∈ v'.children q, ∃ q', x ∈ v.children q')
    (htimer : k'.pcbs.timer = k.pcbs.timer) : k'.Lists v' where
  same := hsame
  scheduled := hscheduled
  timersListed := htimers
  children := hchildren
  pointerPool := by rw [hptrs]; exact h.pointerPool
  pointer_allocated q x hx := by
    obtain ⟨q', hx'⟩ := hold q x hx
    rw [hptrs]
    exact h.pointer_allocated q' x hx'
  child_isBlock q x hx := by
    obtain ⟨q', hx'⟩ := hold q x hx
    rw [hchild, hpool.isBlock]
    exact h.child_isBlock q' x hx'
  noTimer := by rw [htimer]; exact h.noTimer

theorem exitToReady_cases (hexit : k.exitToReady = some k') :
    ∃ next, (k.lists .ready).first = some next ∧
      k' = { (k.detachPcb .ready (some next)).setStatus next .running with running := some next } := by
  obtain ⟨next, hfirst, hk'⟩ := Option.bind_eq_some_iff.mp hexit
  exact ⟨next, hfirst, (Option.some.inj hk').symm⟩

/-- The children and the pointers to them after the exiting process gave its value to its parent. -/
theorem exitToParent_children {parent : Addr} {kids : Addr → List Addr}
    (h : Family k.pcbPtrs.list k.pcbs.children kids) (hexit : k.exitToParent p parent = some k') :
    Family k'.pcbPtrs.list k'.pcbs.children
      (match (kids parent).find? fun x ↦ k.pcbs.pid (k.pcbPtrs.pcb x) = k.pcbs.pid p with
      | none => kids
      | some x => update kids parent ((kids parent).erase x)) := by
  obtain ⟨self, k₁, k₂, hk₁, hself, htimers, k₃, hdescriptors, rfl⟩ := exitToParent_cases hexit
  have hfound := (h.represents parent).scan_eq hself
  have hlist : k₃.pcbPtrs.list = (k.detachChild parent self).pcbPtrs.list := by
    rw [releaseDescriptors_eq hdescriptors, releaseTimers_eq htimers, hk₁]
    rfl
  have hchildren : k₃.pcbs.children = (k.detachChild parent self).pcbs.children := by
    rw [releaseDescriptors_eq hdescriptors, releaseTimers_eq htimers, hk₁]
    rfl
  change Family k₃.pcbPtrs.list k₃.pcbs.children _
  rw [hlist, hchildren]
  change self = (kids parent).find? fun x ↦ k.pcbs.pid (k.pcbPtrs.pcb x) = k.pcbs.pid p at hfound
  cases hfind : (kids parent).find? fun x ↦ k.pcbs.pid (k.pcbPtrs.pcb x) = k.pcbs.pid p with
  | none =>
    rw [hfound, hfind, detachChild, listDetach_null, Function.update_eq_self]
    exact h
  | some x =>
    rw [hfound, hfind]
    exact h.listDetach (List.mem_of_find?_eq_some hfind)

/-- The children of a process that exits go to the first process. -/
theorem Lists.becomeZombie_children (h : k.Lists v) {value : ℤ} (hne : ∀ i, v.init = some i → i ≠ p)
    (hzombie : k.becomeZombie p value = some k') :
    ∃ i, k.initPcb = some i ∧ Family k'.pcbPtrs.list k'.pcbs.children (v.hand p i) := by
  obtain ⟨i, k₁, hi, hreparent, rfl⟩ := becomeZombie_cases hzombie
  have hspec := reparent_spec (k := { k with pcbs.returnValue := update k.pcbs.returnValue p value })
    h.children (hne i (h.initPcb.symm.trans hi)).symm hreparent
  exact ⟨i, hi, hspec⟩

theorem Lists.awaits_iff (h : k.Lists v) (parent p : Addr) :
    k.awaits parent p = true ↔ v.Awaits parent p := by
  rw [awaits, Processes.Awaits, ← h.status, ← h.syscall, ← h.pid, Bool.and_eq_true,
    decide_eq_true_iff]
  refine and_congr_right fun _ ↦ ?_
  cases hcall : k.pcbs.syscall parent with
  | none => simp
  | some c => cases c <;> simp

theorem Lists.internalExit (h : k.Lists v) (hv : v.Consistent) (hp : v.running = some p) {value : ℤ}
    (hexit : internalExit value k = some k') :
    ∃ i parent, v.init = some i ∧ v.parent p = some parent ∧
      (v.Awaits parent p ∧ k'.Lists (v.exitToParent p i parent value) ∨
        ¬ v.Awaits parent p ∧ ∃ next, (v.queue .ready).head? = some next ∧
          k'.Lists (v.exitToReady p i next value)) := by
  obtain ⟨p', k₁, parent, hp', hzombie, hparent, hcases⟩ := internalExit_cases hexit
  obtain rfl : p = p' := Option.some.inj ((h.running.trans hp).symm.trans hp')
  have hrunning : k.running = some p := h.running.trans hp
  have hnotWaiting := hv.unlisted hp .waiting
  have halone : v.queue .waiting ≠ [p] := fun hsame ↦
    hnotWaiting (hsame ▸ List.mem_singleton_self p)
  have hframe := becomeZombie_eq hzombie
  have hparent' : v.parent p = some parent := by
    rw [← h.parent, ← hparent, hframe]
  obtain ⟨i, hi, hkids⟩ := h.becomeZombie_children
    (fun i hinit hsame ↦ absurd ((hv.init_live i hinit).2.symm.trans (hsame ▸ hparent')) (by simp))
    hzombie
  have hinit : v.init = some i := h.initPcb.symm.trans hi
  have hawaits : (k₁.sendSignal parent dsosSigchld).awaits parent p = true ↔ v.Awaits parent p := by
    rw [becomeZombie_awaits hzombie, Bool.and_eq_true, decide_eq_true_iff, h.awaits_iff]
    exact ⟨And.right, fun hw ↦ ⟨fun hsame ↦ hv.not_awaits_self hp (hsame ▸ hw), hw⟩⟩
  refine ⟨i, parent, hinit, hparent', ?_⟩
  rcases hcases with ⟨haw, hexit⟩ | ⟨haw, hexit⟩
  · have hw := hawaits.mp haw
    refine Or.inl ⟨hw, ?_⟩
    have hscheduled := h.scheduled.exitToParent hrunning hnotWaiting hzombie
      (hv.waiting_of_status hw.1) hexit
    have hexitFrame := exitToParent_eq hexit
    have hkids' := exitToParent_children (k := k₁.sendSignal parent dsosSigchld) hkids hexit
    have htimers : (k₁.sendSignal parent dsosSigchld).TimersListed v.timers :=
      h.timersListed.congr (by rw [hframe]; rfl) (by rw [hframe]; rfl)
    have htimers' := htimers.exitToParent hexit
    have hpids : (k₁.sendSignal parent dsosSigchld).pcbs.pid = v.pid := by
      rw [hframe]
      exact h.pid
    have hchild : (k₁.sendSignal parent dsosSigchld).pcbPtrs.pcb = v.child := by
      rw [hframe]
      exact h.child
    have hsleeper : (k₁.sendSignal parent dsosSigchld).timerItems.pcb = v.sleeper := by
      rw [hframe]
      exact h.sleeper
    rw [hpids, hchild] at hkids'
    rw [hsleeper] at htimers'
    refine h.exchange ?_ hscheduled htimers' hkids' ?_ ?_ ?_ ?_ ?_
    · calc _ = { k.processes v.queue v.timers v.children with
            running := some parent
            queue := (v.exitToParent p i parent value).queue
            status := update (update k.pcbs.status p .zombie) parent .running
            returnValue := update k.pcbs.returnValue p value
            children := (v.exitToParent p i parent value).children
            timers := (v.exitToParent p i parent value).timers } := by
            rw [hexitFrame, hframe]
            rfl
        _ = v.exitToParent p i parent value := by
          rw [h.same, h.status, h.returnValue]
          rfl
    · rw [hexitFrame, hframe]
      rfl
    · rw [hexitFrame, hframe]
      rfl
    · rw [hexitFrame, hframe]
      exact releaseBlock_samePool k.pcbs.allocator p
    · intro q x hx
      rw [Processes.exitToParent_children] at hx
      refine Processes.exists_of_mem_hand (p := p) (i := i) (q := q) ?_
      split at hx
      · exact hx
      · rw [Function.update_apply] at hx
        split_ifs at hx with hq
        · exact hq ▸ List.mem_of_mem_erase hx
        · exact hx
    · rw [hexitFrame, hframe]
      rfl
  · rw [← Bool.not_eq_true, hawaits] at haw
    obtain ⟨next, rest, hready, hruns, hscheduled⟩ :=
      h.scheduled.exitToReady hrunning halone hzombie parent hexit
    refine Or.inr ⟨haw, next, by rw [hready, List.head?_cons], ?_⟩
    have hexitFrame := exitToReady_eq hexit
    have htimers : k'.TimersListed v.timers :=
      h.timersListed.congr (by rw [hexitFrame, hframe]; rfl) (by rw [hexitFrame, hframe]; rfl)
    have hkids' : Family k'.pcbPtrs.list k'.pcbs.children (v.hand p i) := by
      have hlist : k'.pcbPtrs = k₁.pcbPtrs := by rw [hexitFrame]; rfl
      have hchildren : k'.pcbs.children = k₁.pcbs.children := by rw [hexitFrame]; rfl
      rw [hlist, hchildren]
      exact hkids
    have hqueue : (v.exitToReady p i next value).queue =
        update (parkedNodes v.queue .zombie p) .ready rest := by
      have htail : (v.queue .ready).tail = rest := by rw [hready, List.tail_cons]
      rw [parkedNodes, if_neg hnotWaiting, ← htail]
      rfl
    have hstatus : k'.pcbs.status = update (update k.pcbs.status p .zombie) next .running := by
      obtain ⟨next', -, rfl⟩ := exitToReady_cases hexit
      obtain rfl := Option.some.inj hruns
      change update k₁.pcbs.status next' .running = _
      rw [hframe]
    refine h.exchange ?_ (hqueue ▸ hscheduled) htimers hkids' ?_ ?_ ?_ (fun _ _ ↦ Processes.exists_of_mem_hand) ?_
    · calc _ = { k.processes v.queue v.timers v.children with
            running := k'.running
            queue := (v.exitToReady p i next value).queue
            status := k'.pcbs.status
            returnValue := update k.pcbs.returnValue p value
            children := (v.exitToReady p i next value).children } := by
            rw [hexitFrame, hframe]
            rfl
        _ = v.exitToReady p i next value := by
          rw [h.same, hruns, hstatus, h.status, h.returnValue]
          rfl
    · rw [hexitFrame, hframe]
      rfl
    · rw [hexitFrame, hframe]
      rfl
    · rw [hexitFrame, hframe]
      exact SamePool.refl _
    · rw [hexitFrame, hframe]
      rfl

/-! ### One step -/

theorem recount_syscallVector {s : PcbList → ℤ} {c : Syscall} (hc : c.concernsProcesses = true) :
    syscallVector c (k.recount s) = (syscallVector c k).map (·.recount s) := by
  cases c with
  | preempt => exact recount_internalSchedule k s
  | fork =>
    simp only [syscallVector, internalFork, recount_newProcess]
    cases k.newProcess <;> rfl
  | wait pid result => exact recount_internalWait k s pid result
  | exit value => exact recount_internalExit k s value
  | spawn =>
    simp only [syscallVector, internalSpawn, recount_newProcess]
    cases k.newProcess <;> rfl
  | sleep cycles => exact recount_internalSleep k s cycles
  | openResource | closeResource | destroyResource | shutdown | sendMsg | recvMsg | wakeupQueue
  | openQueue => exact absurd hc Bool.false_ne_true

/-- A system call of a process is a step of the processes. -/
theorem Lists.syscallVector {c : Syscall} (h : k.Lists (v.trap p c)) (hv : v.Consistent)
    (hp : v.running = some p) (hc : c.concernsProcesses = true)
    (hcall : Kernel.syscallVector c k = some k') :
    ∃ v', v.Step (.call c) v' ∧ k'.Shows v' := by
  have htrap := hv.trap hp c
  cases c with
  | preempt =>
    have hschedule := h.internalSchedule htrap hp hcall
    exact ⟨_, .preempt p hp, hschedule.shows⟩
  | fork =>
    obtain ⟨⟨child, k₁⟩, hnew, hk'⟩ := Option.bind_eq_some_iff.mp hcall
    obtain rfl := Option.some.inj hk'
    obtain ⟨x, hfresh, hpointer, hlists⟩ := h.newProcess hp hnew
    exact ⟨_, .create p child x .fork (Or.inl rfl) hp hfresh hpointer, hlists.shows⟩
  | spawn =>
    obtain ⟨⟨child, k₁⟩, hnew, hk'⟩ := Option.bind_eq_some_iff.mp hcall
    obtain rfl := Option.some.inj hk'
    obtain ⟨x, hfresh, hpointer, hlists⟩ := h.newProcess hp hnew
    refine ⟨_, .create p child x .spawn (Or.inr rfl) hp hfresh hpointer, Lists.shows ?_⟩
    apply hlists.quiet <;> rfl
  | sleep cycles =>
    obtain hfails | ⟨t, hfresh, hlists⟩ := h.internalSleep htrap hp hcall
    · exact ⟨_, .sleepFails p cycles hp, hfails.shows⟩
    · exact ⟨_, .sleep p t cycles hp hfresh, hlists.shows⟩
  | wait pid result =>
    obtain ⟨hnone, hlists⟩ | ⟨x, hawaited, ⟨hzombie, hshows⟩ | ⟨hnotZombie, hlists⟩⟩ :=
      h.internalWait htrap hp hcall
    · exact ⟨_, .waitFails p pid result hp hnone, hlists.shows⟩
    · exact ⟨_, .reap p x pid result hp hawaited hzombie, hshows⟩
    · exact ⟨_, .wait p x pid result hp hawaited hnotZombie, hlists.shows⟩
  | exit value =>
    obtain ⟨i, parent, hinit, hparent, ⟨hawaits, hlists⟩ | ⟨hawaits, next, hnext, hlists⟩⟩ :=
      h.internalExit htrap hp hcall
    · rw [hv.trap_awaits hp] at hawaits
      exact ⟨_, .exitToParent p i parent value hp hinit hparent hawaits, hlists.shows⟩
    · rw [hv.trap_awaits hp] at hawaits
      exact ⟨_, .exitToReady p i parent next value hp hinit hparent hawaits hnext, hlists.shows⟩
  | openResource | closeResource | destroyResource | shutdown | sendMsg | recvMsg | wakeupQueue
  | openQueue => exact absurd hc Bool.false_ne_true

/-- What an action is for the processes. -/
def event (k : Kernel) : Action → Processes.Event
  | .start => .start
  | .timer => .tick
  | a =>
    match k.request a with
    | some c => .call c
    | none => .quiet

theorem event_eq_start : k.event a = .start ↔ a = .start := by
  constructor
  · intro h
    cases a with
    | start => rfl
    | timer => exact Processes.Event.noConfusion h
    | write | syscall | call | statement =>
      simp only [event] at h
      split at h <;> exact Processes.Event.noConfusion h
  · rintro rfl
    rfl

theorem event_eq_call {c : Syscall} : k.event a = .call c ↔ k.request a = some c := by
  cases a with
  | start => exact iff_of_false Processes.Event.noConfusion (by simp [Kernel.request])
  | timer => exact iff_of_false Processes.Event.noConfusion (by simp [Kernel.request])
  | write | syscall | call | statement =>
    simp only [event]
    split
    · next hrequest => rw [hrequest, Processes.Event.call.injEq, Option.some.injEq]
    · next hrequest => simp [hrequest]

theorem request_of_step {call : Syscall} (hstep : k.step (.syscall call) = some k') :
    k.request (.syscall call) = some call := by
  rw [Kernel.step] at hstep
  split_ifs at hstep with huser
  simp [Kernel.request, huser]

theorem Calls.event {c : Syscall} {next : Context} (hcalls : k.Calls p a c next)
    (hrunning : k.running = some p) : k.event a = .call c :=
  event_eq_call.mpr (hcalls.request hrunning)

theorem Lists.tick (h : k.Lists v) :
    ({ k with disastrOSTime := toInt (k.disastrOSTime + 1) } : Kernel).Lists
      { v with time := toInt (v.time + 1) } where
  same := by
    calc _ = { k.processes v.queue v.timers v.children with
          time := toInt (k.disastrOSTime + 1) } := rfl
      _ = { v with time := toInt (v.time + 1) } := by rw [h.same, h.time]
  scheduled := h.scheduled.congr rfl rfl rfl rfl
  timersListed := h.timersListed.congr rfl rfl
  children := h.children
  pointerPool := h.pointerPool
  pointer_allocated := h.pointer_allocated
  child_isBlock := h.child_isBlock
  noTimer := h.noTimer

/-- A call that concerns files only. -/
theorem Lists.other {c : Syscall} {s : PcbList → ℤ} (h : (k.recount s).Lists v)
    (hprocesses : c.concernsProcesses = false) (husers : c.concernsUsers = false)
    (hcall : Kernel.syscallVector c k = some k') : (k'.recount s).Lists v := by
  cases c with
  | openResource id type mode =>
    have hframe := internalOpenResource_eq hcall
    apply h.quiet <;> (rw [hframe]; rfl)
  | closeResource fd =>
    have hframe := internalCloseResource_eq hcall
    apply h.quiet <;> (rw [hframe]; rfl)
  | destroyResource id =>
    have hframe := internalDestroyResource_eq hcall
    apply h.quiet <;> (rw [hframe]; rfl)
  | openQueue id fd mode =>
    have hframe := internalOpenQueue_eq hcall
    apply h.quiet <;> (rw [hframe]; rfl)
  | preempt | fork | wait | exit | spawn | sleep => exact absurd hprocesses Bool.noConfusion
  | sendMsg | recvMsg | wakeupQueue | shutdown => exact absurd husers Bool.noConfusion

/-- A step of the kernel is a step of the processes, as long as no process waits for a queue. -/
theorem Shows.step (h : k.Shows v) (hv : v.Consistent) (hshutdown : k.NoShutdown)
    (hcalls : ∀ c, k.request a = some c → c.concernsUsers = false) (hstep : k.step a = some k') :
    ∃ v', v.Step (k.event a) v' ∧ k'.Shows v' := by
  obtain ⟨s, hlists⟩ := h
  obtain ⟨rfl, hstart⟩ | ⟨rfl, htimer⟩ | ⟨x, byte, rfl, -, rfl⟩ | ⟨c, p, ret, rfl, hp, -, rfl⟩ |
    ⟨c, p, next, hp, hcall, hsyscall⟩ | ⟨p, rfl, hp, hrequest, hrun⟩ := step_cases hstep
  · have hstart' : (k.recount s).startProcess = some (k'.recount s) := by
      rw [recount_startProcess, hstart]
      rfl
    obtain ⟨p, hidle, hfresh, hstarted⟩ := hlists.startProcess hstart'
    have hfirst : v.init = none := hlists.initPcb.symm.trans (initPcb_of_startProcess hstart')
    exact ⟨_, .start p hidle hfresh hfirst, hstarted.shows.of_recount⟩
  · obtain ⟨p, hp, hschedule⟩ := Option.bind_eq_some_iff.mp htimer
    have hticks : ({ v with time := toInt (v.time + 1) } : Processes).Consistent := { hv with }
    have hvp : v.running = some p := hlists.running.symm.trans hp
    have hschedule' := recount_internalSchedule
      { k with disastrOSTime := toInt (k.disastrOSTime + 1) } s
    rw [hschedule] at hschedule'
    have hscheduled := hlists.tick.internalSchedule hticks hvp hschedule'
    exact ⟨_, .tick p hvp, hscheduled.shows.of_recount⟩
  · refine ⟨v, .quiet, s, ?_⟩
    apply hlists.quiet <;> rfl
  · refine ⟨v, .quiet, s, ?_⟩
    apply hlists.quiet <;> rfl
  · have hvp : v.running = some p := hlists.running.symm.trans hp
    have htrap : ((k.trap p next c).recount s).Lists (v.trap p c) := hlists.trap p next c
    rw [hcall.event hp]
    by_cases hc : c.concernsProcesses = true
    · have hsyscall' := recount_syscallVector (k := k.trap p next c) (s := s) hc
      rw [hsyscall] at hsyscall'
      obtain ⟨v', hstep, hshows⟩ := htrap.syscallVector hv hvp hc hsyscall'
      exact ⟨v', hstep, hshows.of_recount⟩
    · rw [Bool.not_eq_true] at hc
      exact ⟨_, .other p c hvp hc, s, htrap.other hc (hcalls c (hcall.request hp)) hsyscall⟩
  · have hquiet : k.event .statement = .quiet := by
      simp [event, Kernel.request, context, hp, hrequest]
    have hframe := runStatement_eq hrun
    obtain ⟨hrunning, -⟩ := runStatement_context (hshutdown p) hrun
    rw [hquiet]
    refine ⟨v, .quiet, s, ?_⟩
    apply hlists.quiet
    · rw [hframe, hrunning]
      rfl
    all_goals
      rw [hframe]
      rfl

/-! ### Reading the lists -/

theorem Shows.running (h : k.Shows v) : k.running = v.running := by
  obtain ⟨s, hlists⟩ := h
  exact hlists.running

theorem Shows.initPcb (h : k.Shows v) : k.initPcb = v.init := by
  obtain ⟨s, hlists⟩ := h
  exact hlists.initPcb

theorem Shows.status (h : k.Shows v) : k.pcbs.status = v.status := by
  obtain ⟨s, hlists⟩ := h
  exact hlists.status

theorem Shows.parent (h : k.Shows v) : k.pcbs.parent = v.parent := by
  obtain ⟨s, hlists⟩ := h
  exact hlists.parent

theorem Shows.pid (h : k.Shows v) : k.pcbs.pid = v.pid := by
  obtain ⟨s, hlists⟩ := h
  exact hlists.pid

theorem Shows.syscall (h : k.Shows v) : k.pcbs.syscall = v.syscall := by
  obtain ⟨s, hlists⟩ := h
  exact hlists.syscall

theorem Shows.time (h : k.Shows v) : k.disastrOSTime = v.time := by
  obtain ⟨s, hlists⟩ := h
  exact hlists.time

theorem Shows.child (h : k.Shows v) : k.pcbPtrs.pcb = v.child := by
  obtain ⟨s, hlists⟩ := h
  exact hlists.child

theorem Shows.allocated_iff (h : k.Shows v) : k.pcbs.allocator.Allocated p ↔ p ∈ v.all := by
  obtain ⟨s, hlists⟩ := h
  exact hlists.allocated_iff

/-- What can be reached from the head of a list is what is shown in it. -/
theorem Shows.reaches_iff (h : k.Shows v) (l : PcbList) :
    Reaches k.pcbs.list (k.lists l).first p ↔ p ∈ v.queue l := by
  obtain ⟨s, hlists⟩ := h
  exact (hlists.scheduled.threads.represents l).reaches_iff p

theorem Shows.children_reaches_iff (h : k.Shows v) (p : Addr) :
    Reaches k.pcbPtrs.list (k.pcbs.children p).first x ↔ x ∈ v.children p := by
  obtain ⟨s, hlists⟩ := h
  exact (hlists.children.represents p).reaches_iff x

theorem Shows.children_eq_nil (h : k.Shows v) :
    (k.pcbs.children p).first = none ↔ v.children p = [] := by
  obtain ⟨s, hlists⟩ := h
  have hfirst : (k.pcbs.children p).first = (v.children p).head? :=
    (hlists.children.represents p).first
  rw [hfirst, List.head?_eq_none_iff]

theorem Shows.first (h : k.Shows v) (l : PcbList) : (k.lists l).first = (v.queue l).head? := by
  obtain ⟨s, hlists⟩ := h
  exact (hlists.scheduled.threads.represents l).first

/-! ### Runs -/

/-- The kernel shows processes that are in order and satisfy `P`. -/
def Satisfies (P : Kernel → Processes → Prop) (k : Kernel) : Prop :=
  k.NoShutdown ∧ ∃ v, k.Shows v ∧ v.Consistent ∧ P k v

theorem concernsUsers_of_processes {c : Syscall} (hc : c.concernsProcesses = true) :
    c.concernsUsers = false := by
  cases c <;> simp_all [Syscall.concernsProcesses, Syscall.concernsUsers]

/-- What the steps of the processes preserve, together with an observation of the run, holds at its end. -/
theorem satisfies_monitor {μ : Type*} {observe : μ → Kernel → Action → Kernel → μ}
    {P : μ → Kernel → Processes → Prop} {allowed : Kernel → Action → Prop}
    (hcalls : ∀ k a, allowed k a → ∀ c, k.request a = some c → c.concernsUsers = false)
    (hkeeps : ∀ m k k' a v v', allowed k a → k.step a = some k' → k.Shows v → v.Consistent →
      P m k v → v.Step (k.event a) v' → k'.Shows v' → P (observe m k a k') k' v') {m : μ}
    {actions : List Action} (h : k.Satisfies (P m))
    (hmeets : Runs.Meets Kernel.step allowed k actions)
    (hrun : Runs.run Kernel.step k actions = some k') :
    k'.Satisfies (P (Runs.monitor Kernel.step observe m k actions)) := by
  refine Runs.monitor_invariant (P := fun m k ↦ k.Satisfies (P m))
    (fun m k a k' hk hallowed hstep ↦ ?_) h hmeets hrun
  obtain ⟨hshutdown, v, hshows, hv, hP⟩ := hk
  have hrequests := hcalls k a hallowed
  obtain ⟨v', hstep', hshows'⟩ := hshows.step hv hshutdown hrequests hstep
  refine ⟨hshutdown.step ?_ hstep, v', hshows', hv.step hstep', ?_⟩
  · exact fun hrequest ↦ Bool.noConfusion (hrequests _ hrequest)
  · exact hkeeps m k k' a v v' hallowed hstep hshows hv hP hstep' hshows'

/-- What the steps of the processes preserve holds at the end of a run. -/
theorem satisfies_run {P : Kernel → Processes → Prop} {allowed : Kernel → Action → Prop}
    (hcalls : ∀ k a, allowed k a → ∀ c, k.request a = some c → c.concernsUsers = false)
    (hkeeps : ∀ k k' a v v', allowed k a → k.step a = some k' → k.Shows v → v.Consistent → P k v →
      v.Step (k.event a) v' → k'.Shows v' → P k' v') {actions : List Action}
    (h : k.Satisfies P) (hmeets : Runs.Meets Kernel.step allowed k actions)
    (hrun : Runs.run Kernel.step k actions = some k') : k'.Satisfies P :=
  @satisfies_monitor k k' Unit (fun _ _ _ _ ↦ ()) (fun _ ↦ P) allowed hcalls (fun _ ↦ hkeeps) ()
    actions h hmeets hrun

end Kernel

/-- The actions that concern the processes only, and the writes of user code. -/
def Action.ofProcesses : Action → Bool
  | .start | .timer | .write .. => true
  | .syscall c => c.concernsProcesses
  | .call _ | .statement => false

theorem Kernel.concernsProcesses_of_request {k : Kernel} {a : Action} {c : Syscall}
    (ha : a.ofProcesses = true) (hrequest : k.request a = some c) : c.concernsProcesses = true := by
  cases a with
  | syscall c' =>
    rw [Kernel.request] at hrequest
    split_ifs at hrequest
    obtain rfl := Option.some.inj hrequest
    exact ha
  | start | timer | write => simp [Kernel.request] at hrequest
  | call | statement => exact absurd ha Bool.false_ne_true

theorem Layout.boot_noProcess (layout : Layout) (p : Addr) :
    p ∉ (layout.boot.processes (fun _ ↦ []) [] fun _ ↦ []).all := by
  intro hp
  rw [Processes.mem_all] at hp
  rcases hp with hp | ⟨l, hp⟩
  · exact absurd hp (by simp [Kernel.processes, Layout.boot])
  · exact absurd hp List.not_mem_nil

/-- There are no processes before the first. -/
theorem Layout.boot_satisfies (layout : Layout) {P : Kernel → Processes → Prop}
    (hP : P layout.boot (layout.boot.processes (fun _ ↦ []) [] fun _ ↦ [])) :
    layout.boot.Satisfies P := by
  have hptrs := freshPool_ok (by decide : 1 ≤ sizeofPCBPtr) (by decide : 1 ≤ maxNumProcesses)
    (by decide) layout.pcbPtrBuffer
  have hlists : layout.boot.Lists (layout.boot.processes (fun _ ↦ []) [] fun _ ↦ []) :=
    { same := rfl
      scheduled := layout.boot_scheduled
      timersListed := layout.boot_timersListed
      children := ⟨fun _ ↦ represents_empty _, fun _ _ _ h ↦ absurd h List.not_mem_nil⟩
      pointerPool := hptrs.1
      pointer_allocated := fun _ _ h ↦ absurd h List.not_mem_nil
      child_isBlock := fun _ _ h ↦ absurd h List.not_mem_nil
      noTimer := fun _ ↦ rfl }
  refine ⟨fun _ ↦ by simp [Layout.boot], _, hlists.shows, ?_, hP⟩
  have hnone := layout.boot_noProcess
  constructor
  · exact List.nodup_nil
  · exact fun l p hp ↦ absurd hp List.not_mem_nil
  · exact fun p hp ↦ absurd hp (by simp [Kernel.processes, Layout.boot])
  · exact fun p _ ↦ by simp [Kernel.processes, Layout.boot]
  · exact fun t ht ↦ absurd ht List.not_mem_nil
  · exact List.nodup_nil
  · exact fun p hp ↦ absurd hp (by simp [Kernel.processes, Layout.boot])
  · exact fun p hp ↦ absurd hp List.not_mem_nil
  · exact fun p hp ↦ absurd hp (hnone p)
  · exact fun p hp ↦ absurd hp (hnone p)

end DisastrOS
