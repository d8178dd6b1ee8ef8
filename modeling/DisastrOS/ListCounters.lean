import DisastrOS.Rendezvous
import DisastrOS.System

/-!
# The counters of the lists of PCBs

The handlers of the processes write the counters of `ready_list`, `waiting_list` and `zombie_list` and
never read them: each of them does the same to a kernel whose counters are other ones
(`recount`). A counter is off after `internal_wait` has taken away a zombie that was gone before, which
is detached from `zombie_list` once more.
-/

set_option autoImplicit false
set_option relaxedAutoImplicit false

namespace DisastrOS

open LinkedLists
open Function (update)

section Lists

variable {α : Type*} [DecidableEq α] (list : Memory α) (head : ListHead α) (prev item : Option α) (n : ℤ)

theorem listInsert_size : listInsert list { head with size := head.size + n } prev item =
    { listInsert list head prev item with
      head := { (listInsert list head prev item).head with
        size := (listInsert list head prev item).head.size + n } } := by
  cases item with
  | none => rfl
  | some node =>
    have hsize : head.size + n + 1 = head.size + 1 + n := by omega
    by_cases hlinked : ((list node).next.isSome || (list node).prev.isSome) = true
    · simp only [listInsert, if_pos hlinked]
    · simp only [listInsert, if_neg hlinked, hsize]

theorem listDetach_size : listDetach list { head with size := head.size + n } item =
    { listDetach list head item with
      head := { (listDetach list head item).head with
        size := (listDetach list head item).head.size + n } } := by
  cases item with
  | none => rfl
  | some node =>
    simp only [listDetach, ListResult.mk.injEq, Head.mk.injEq, true_and, and_true]
    omega

end Lists

namespace Kernel

variable (k : Kernel) (s : PcbList → ℤ)

/-- The kernel with `s` added to the counters of the lists of PCBs. -/
def recount : Kernel :=
  { k with lists := fun i ↦ { k.lists i with size := (k.lists i).size + s i } }

theorem recount_zero : k.recount (fun _ ↦ 0) = k := by
  simp [recount]

theorem recount_recount (t : PcbList → ℤ) :
    (k.recount s).recount t = k.recount fun i ↦ s i + t i := by
  simp [recount, add_assoc]

variable {k s}

/-- What is read at the start of a handler is the same in both kernels. -/
theorem recount_bind {α : Type*} (read : Option α) {f g : α → Option Kernel}
    (h : ∀ a, f a = (g a).map (·.recount s)) : read.bind f = (read.bind g).map (·.recount s) := by
  cases read with
  | none => rfl
  | some a => exact h a

/-- A handler goes on with what its first part makes of both kernels. -/
theorem recount_bind_map {first first' : Option Kernel} {f g : Kernel → Option Kernel}
    (hfirst : first' = first.map (·.recount s)) (h : ∀ k, f (k.recount s) = (g k).map (·.recount s)) :
    first'.bind f = (first.bind g).map (·.recount s) := by
  rw [hfirst]
  cases first with
  | none => rfl
  | some k => exact h k

variable (k s)

/-! ### Lists -/

theorem recount_insertPcb (i : PcbList) (prev item : Option Addr) :
    (k.recount s).insertPcb i prev item = (k.insertPcb i prev item).recount s := by
  have hlists : update (k.recount s).lists i
      { (listInsert k.pcbs.list (k.lists i) prev item).head with
        size := (listInsert k.pcbs.list (k.lists i) prev item).head.size + s i } =
      ((k.insertPcb i prev item).recount s).lists := by
    funext j
    by_cases hj : j = i
    · subst hj
      simp [recount, insertPcb]
    · simp [recount, insertPcb, hj]
  have hinsert := listInsert_size k.pcbs.list (k.lists i) prev item (s i)
  change { k with
    pcbs.list := (listInsert k.pcbs.list ((k.recount s).lists i) prev item).list
    lists := update (k.recount s).lists i
      (listInsert k.pcbs.list ((k.recount s).lists i) prev item).head } = _
  rw [show (k.recount s).lists i = { k.lists i with size := (k.lists i).size + s i } from rfl,
    hinsert, hlists]
  rfl

theorem recount_detachPcb (i : PcbList) (item : Option Addr) :
    (k.recount s).detachPcb i item = (k.detachPcb i item).recount s := by
  have hlists : update (k.recount s).lists i
      { (listDetach k.pcbs.list (k.lists i) item).head with
        size := (listDetach k.pcbs.list (k.lists i) item).head.size + s i } =
      ((k.detachPcb i item).recount s).lists := by
    funext j
    by_cases hj : j = i
    · subst hj
      simp [recount, detachPcb]
    · simp [recount, detachPcb, hj]
  have hdetach := listDetach_size k.pcbs.list (k.lists i) item (s i)
  change { k with
    pcbs.list := (listDetach k.pcbs.list ((k.recount s).lists i) item).list
    lists := update (k.recount s).lists i
      (listDetach k.pcbs.list ((k.recount s).lists i) item).head } = _
  rw [show (k.recount s).lists i = { k.lists i with size := (k.lists i).size + s i } from rfl,
    hdetach, hlists]
  rfl

/-! ### Scheduling -/

theorem recount_timerListRemoveCurrent :
    (k.recount s).timerListRemoveCurrent = k.timerListRemoveCurrent.recount s := by
  have hsame : (k.recount s).timerList = k.timerList := rfl
  cases hfirst : k.timerList.first with
  | none => simp only [timerListRemoveCurrent, hsame, hfirst]
  | some t =>
    simp only [timerListRemoveCurrent, hsame, hfirst]
    rfl

theorem recount_wakeProcess (previousPcb : Option Addr) (t : Addr) :
    (k.recount s).wakeProcess previousPcb t = (k.wakeProcess previousPcb t).recount s := by
  have hdetach := k.recount_detachPcb s .waiting (some (k.timerItems.pcb t))
  set k₁ : Kernel := k.detachPcb .waiting (some (k.timerItems.pcb t)) with hk₁
  set k₂ : Kernel := { k₁.setStatus (k.timerItems.pcb t) .ready with
    pcbs.timer := update k₁.pcbs.timer (k.timerItems.pcb t) none } with hk₂
  have hinsert := k₂.recount_insertPcb s .ready previousPcb (some (k.timerItems.pcb t))
  calc (k.recount s).wakeProcess previousPcb t
      = ((k₂.recount s).insertPcb .ready previousPcb
          (some (k.timerItems.pcb t))).timerListRemoveCurrent := by
        rw [wakeProcess]
        change (Kernel.insertPcb { ((k.recount s).detachPcb .waiting
          (some (k.timerItems.pcb t))).setStatus (k.timerItems.pcb t) .ready with
            pcbs.timer := _ } .ready previousPcb _).timerListRemoveCurrent = _
        rw [hdetach]
        rfl
    _ = ((k₂.insertPcb .ready previousPcb
          (some (k.timerItems.pcb t))).timerListRemoveCurrent).recount s := by
        rw [hinsert, recount_timerListRemoveCurrent]
    _ = (k.wakeProcess previousPcb t).recount s := rfl

theorem recount_wakeElapsed (bound : ℕ) (previousPcb : Option Addr) :
    wakeElapsed bound previousPcb (k.recount s) =
      (wakeElapsed bound previousPcb k).map (·.recount s) := by
  have hsame : (k.recount s).timerListCurrent = k.timerListCurrent := rfl
  induction bound generalizing k previousPcb with
  | zero =>
    rw [wakeElapsed, wakeElapsed, hsame]
    split_ifs <;> rfl
  | succ bound ih =>
    cases hcurrent : k.timerListCurrent with
    | none => simp only [wakeElapsed, hsame, hcurrent, Option.map_some]
    | some t =>
      simp only [wakeElapsed, hsame, hcurrent]
      rw [recount_wakeProcess]
      exact ih _ _ rfl

theorem recount_switchToReady :
    (k.recount s).switchToReady = k.switchToReady.map (·.recount s) := by
  have hfirst : ((k.recount s).lists .ready).first = (k.lists .ready).first := rfl
  cases hready : (k.lists .ready).first with
  | none => simp only [switchToReady, hfirst, hready, Option.map_some]
  | some next =>
    simp only [switchToReady, hfirst, hready, recount_detachPcb]
    set k₁ : Kernel := k.detachPcb .ready (some next)
    have hsame : (k₁.recount s).running = k₁.running := rfl
    rw [hsame]
    cases k₁.running with
    | none => rfl
    | some p =>
      have hinsert := (k₁.setStatus p .ready).recount_insertPcb s .ready
        ((k₁.setStatus p .ready).lists .ready).last (some p)
      exact congrArg (fun k₂ : Kernel ↦
        some { k₂.setStatus next .running with running := some next }) hinsert

theorem recount_internalSchedule :
    (k.recount s).internalSchedule = k.internalSchedule.map (·.recount s) := by
  rw [internalSchedule, recount_wakeElapsed]
  cases hwake : wakeElapsed walkBound none k with
  | none => simp [internalSchedule, hwake]
  | some k₁ => simp [internalSchedule, hwake, recount_switchToReady]

theorem recount_dispatchReady : (k.recount s).dispatchReady = k.dispatchReady.recount s :=
  congrArg (fun k₁ : Kernel ↦ { k₁ with running := (k.lists .ready).first })
    (k.recount_detachPcb s .ready (k.lists .ready).first)

/-- The running process goes to the end of a list. -/
theorem recount_park (i : PcbList) (p : Addr) :
    ((k.recount s).insertPcb i ((k.recount s).lists i).last (some p)).dispatchReady =
      ((k.insertPcb i (k.lists i).last (some p)).dispatchReady).recount s := by
  rw [← recount_dispatchReady, ← recount_insertPcb]
  rfl

/-! ### New processes -/

theorem recount_pcbAlloc :
    (k.recount s).pcbAlloc = k.pcbAlloc.map fun r ↦ (r.1, r.2.recount s) := by
  have hpool : (k.recount s).pcbs.allocator = k.pcbs.allocator := rfl
  have hpid : (k.recount s).lastPid = k.lastPid := rfl
  rcases hget : k.pcbs.allocator.getBlock with ⟨_ | c, pool⟩
  · simp [pcbAlloc, hget, hpool]
  · by_cases hmax : k.lastPid = intMax
    · simp [pcbAlloc, hget, hpool, hpid, hmax]
    · simp only [pcbAlloc, hget, hpool, hpid, if_neg hmax, Option.map_some]
      rfl

theorem recount_pcbPtrAlloc (c : Addr) :
    (k.recount s).pcbPtrAlloc c = (k.pcbPtrAlloc c).map fun r ↦ (r.1, r.2.recount s) := by
  have hpool : (k.recount s).pcbPtrs.allocator = k.pcbPtrs.allocator := rfl
  rcases hget : k.pcbPtrs.allocator.getBlock with ⟨_ | x, pool⟩
  · simp [pcbPtrAlloc, hget, hpool]
  · simp only [pcbPtrAlloc, hget, hpool, Option.map_some]
    rfl

theorem recount_adopt (p c x : Addr) : (k.recount s).adopt p c x = (k.adopt p c x).recount s := by
  set k₁ : Kernel := k.insertChild p (k.pcbs.children p).last (some x)
  exact congrArg (fun k₂ : Kernel ↦ k₂.setRetvalue p (k₂.pcbs.pid c))
    (k₁.recount_insertPcb s .ready (k₁.lists .ready).last (some c))

theorem recount_newProcess :
    (k.recount s).newProcess = k.newProcess.map fun r ↦ (r.1, r.2.recount s) := by
  have hsame : (k.recount s).running = k.running := rfl
  simp only [newProcess, hsame, recount_pcbAlloc, Option.bind_eq_bind]
  cases k.running with
  | none => rfl
  | some p =>
    rw [Option.bind_some, Option.bind_some]
    cases k.pcbAlloc with
    | none => rfl
    | some r =>
      obtain ⟨c, k₁⟩ := r
      rw [Option.map_some, Option.bind_some, Option.bind_some]
      have hptr := ((k₁.setStatus c .ready).setParent c p).recount_pcbPtrAlloc s c
      change (((k₁.setStatus c .ready).setParent c p).recount s).pcbPtrAlloc c >>= _ = _
      rw [hptr]
      cases ((k₁.setStatus c .ready).setParent c p).pcbPtrAlloc c with
      | none => rfl
      | some r => exact congrArg (fun k₂ ↦ some (c, k₂)) (r.2.recount_adopt s p c r.1)

theorem recount_startProcess :
    (k.recount s).startProcess = k.startProcess.map (·.recount s) := by
  have hrunning : (k.recount s).running = k.running := rfl
  have hinit : (k.recount s).initPcb = k.initPcb := rfl
  have hshutdown : (k.recount s).shutdownNow = k.shutdownNow := rfl
  rw [startProcess, startProcess, hrunning, hinit, hshutdown]
  split_ifs
  · rfl
  · rw [recount_pcbAlloc]
    cases k.pcbAlloc <;> rfl

/-! ### Blocking and waiting -/

theorem recount_timerListAdd (time : ℤ) (p : Addr) : (k.recount s).timerListAdd time p =
    (k.timerListAdd time p).map fun r ↦ (r.1, r.2.recount s) := by
  have hpool : (k.recount s).timerItems = k.timerItems := rfl
  have hlist : (k.recount s).timerList = k.timerList := rfl
  rw [timerListAdd, timerListAdd, hpool, hlist]
  cases timerListPrevious k.timerItems time walkBound none k.timerList.first with
  | none => rfl
  | some previous =>
    rcases hget : k.timerItems.allocator.getBlock with ⟨_ | t, pool⟩
    · simp [timerItemAlloc, hget, hpool]
    · simp only [timerItemAlloc, hget, hpool, Option.bind_eq_bind, Option.bind_some,
        Option.map_some]
      rfl

theorem recount_internalSleep (cycles : ℤ) :
    internalSleep cycles (k.recount s) = (internalSleep cycles k).map (·.recount s) := by
  have hsame : (k.recount s).running = k.running := rfl
  rw [internalSleep, internalSleep, hsame]
  cases k.running with
  | none => rfl
  | some p =>
    have htimer : (k.recount s).pcbs.timer = k.pcbs.timer := rfl
    have htime : (k.recount s).disastrOSTime = k.disastrOSTime := rfl
    simp only [Option.bind_eq_bind, Option.bind_some, htimer, htime, recount_timerListAdd]
    split_ifs
    · rfl
    · cases k.timerListAdd (toInt (k.disastrOSTime + cycles)) p with
      | none => rfl
      | some r =>
        obtain ⟨_ | t, k₁⟩ := r
        · rfl
        · exact congrArg some ((k₁.setStatus p .waiting).recount_park s .waiting p)

theorem recount_reapZombie (p x : Addr) (result : Option Addr) :
    (k.recount s).reapZombie p x result = (k.reapZombie p x result).recount s := by
  set k₁ : Kernel := (k.detachChild p (some x)).pcbPtrFree x
  exact congrArg (fun k₂ : Kernel ↦ ((k₂.setRetvalue p (k₂.pcbs.pid (k.pcbPtrs.pcb x))).storeResult
    result (k₂.pcbs.returnValue (k.pcbPtrs.pcb x))).pcbFree (k.pcbPtrs.pcb x))
    (k₁.recount_detachPcb s .zombie (some (k.pcbPtrs.pcb x)))

theorem recount_internalWait (pid : ℤ) (result : Option Addr) :
    internalWait pid result (k.recount s) = (internalWait pid result k).map (·.recount s) := by
  refine recount_bind k.running fun p ↦ ?_
  have hsearch : ∀ bound awaited start, (k.recount s).awaitedPcbPtr pid bound awaited start =
      k.awaitedPcbPtr pid bound awaited start := by
    intros
    apply awaitedPcbPtr_congr <;> rfl
  have hblock : (k.recount s).blockInWait p = (k.blockInWait p).recount s :=
    (k.setStatus p .waiting).recount_park s .waiting p
  have hchildren : ((k.recount s).pcbs.children p).first = (k.pcbs.children p).first := rfl
  rw [hchildren]
  by_cases hnone : (k.pcbs.children p).first.isNone = true
  · rw [if_pos hnone, if_pos hnone]
    rfl
  · rw [if_neg hnone, if_neg hnone, hsearch]
    refine recount_bind (k.awaitedPcbPtr pid walkBound none (k.pcbs.children p).first) ?_
    rintro (_ | x)
    · dsimp only
      rw [hblock]
      split_ifs
      · rfl
      · rfl
    · have hzombie : (k.recount s).pcbs.status ((k.recount s).pcbPtrs.pcb x) =
          k.pcbs.status (k.pcbPtrs.pcb x) := rfl
      dsimp only
      rw [hblock, recount_reapZombie, hzombie]
      split_ifs
      · rfl
      · rfl

/-! ### Exit -/

theorem recount_reparent (p initPcb : Addr) (bound : ℕ) :
    reparent p initPcb bound (k.recount s) = (reparent p initPcb bound k).map (·.recount s) := by
  have hpcbs : (k.recount s).pcbs = k.pcbs := rfl
  induction bound generalizing k with
  | zero =>
    rw [reparent, reparent, hpcbs]
    split_ifs <;> rfl
  | succ bound ih =>
    cases hfirst : (k.pcbs.children p).first with
    | none => simp only [reparent, hpcbs, hfirst, Option.map_some]
    | some x =>
      simp only [reparent, hpcbs, hfirst]
      exact ih (k.handToInit p initPcb x) rfl

theorem recount_becomeZombie (p : Addr) (value : ℤ) :
    (k.recount s).becomeZombie p value = (k.becomeZombie p value).map (·.recount s) := by
  set k₁ : Kernel := { k with pcbs.returnValue := update k.pcbs.returnValue p value }
  refine recount_bind k.initPcb fun initPcb ↦ ?_
  refine recount_bind_map (k₁.recount_reparent s p initPcb walkBound) fun k₂ ↦ ?_
  exact congrArg some ((k₂.setStatus p .zombie).recount_insertPcb s .zombie
    ((k₂.setStatus p .zombie).lists .zombie).last (some p))

theorem recount_releaseTimers (p : Addr) (bound : ℕ) (start : Option Addr) :
    releaseTimers p bound start (k.recount s) =
      (releaseTimers p bound start k).map (·.recount s) := by
  have hitems : (k.recount s).timerItems = k.timerItems := rfl
  induction bound generalizing k start with
  | zero => cases start <;> rfl
  | succ bound ih =>
    cases start with
    | none => rfl
    | some t =>
      rw [releaseTimers, releaseTimers, hitems]
      split_ifs
      · exact ih ((k.detachTimer (some t)).timerItemFree t) _ rfl
      · exact ih k _ rfl

theorem recount_leaveQueue (p des : Addr) :
    (k.recount s).leaveQueue p des = (k.leaveQueue p des).map (·.recount s) := by
  have hentry : ∀ (k : Kernel) (q : Option Addr) (role : Role) (entry : Option Addr),
      (k.recount s).detachEntry q role entry = (k.detachEntry q role entry).map (·.recount s) := by
    intro k q role entry
    cases entry with
    | none => rfl
    | some qu => cases q <;> rfl
  have htype : (k.recount s).resources = k.resources := rfl
  have hdes : (k.recount s).descriptors = k.descriptors := rfl
  unfold leaveQueue
  rw [htype, hdes]
  split_ifs
  · refine recount_bind (k.queueEntries p (k.descriptors.fd des)) fun entries ↦ ?_
    refine recount_bind entries fun ds ↦ ?_
    refine recount_bind_map (hentry k _ _ _) fun k₁ ↦ ?_
    refine recount_bind_map (hentry k₁ _ _ _) fun k₂ ↦ ?_
    exact hentry k₂ _ _ _
  · rfl

theorem recount_releaseDescriptors (p : Addr) (bound : ℕ) :
    releaseDescriptors p bound (k.recount s) =
      (releaseDescriptors p bound k).map (·.recount s) := by
  have hpcbs : (k.recount s).pcbs = k.pcbs := rfl
  induction bound generalizing k with
  | zero =>
    rw [releaseDescriptors, releaseDescriptors, hpcbs]
    split_ifs <;> rfl
  | succ bound ih =>
    cases hfirst : (k.pcbs.descriptors p).first with
    | none => simp only [releaseDescriptors, hpcbs, hfirst, Option.map_some]
    | some des =>
      simp only [releaseDescriptors, hpcbs, hfirst, recount_leaveQueue, Option.bind_eq_bind]
      cases k.leaveQueue p des with
      | none => rfl
      | some k₁ => exact ih (k₁.dropDescriptor p des) rfl

theorem recount_exitToParent (p parent : Addr) :
    (k.recount s).exitToParent p parent = (k.exitToParent p parent).map (·.recount s) := by
  have hdetach := k.recount_detachPcb s .waiting (some parent)
  set k₁ : Kernel := (k.detachPcb .waiting (some parent)).setStatus parent .running with hk₁
  have hrun : ((k.recount s).detachPcb .waiting (some parent)).setStatus parent .running =
      k₁.recount s := by
    rw [hdetach]
    rfl
  unfold exitToParent
  simp only [hrun]
  refine recount_bind (k₁.pcbPtrByPID (k₁.pcbs.children parent) (k₁.pcbs.pid p)) fun self ↦ ?_
  set k₂ : Kernel := ((k₁.detachChild parent self).setRetvalue parent (k₁.pcbs.pid p)).storeResult
    (k₁.waitResult parent) (k₁.pcbs.returnValue p)
  refine recount_bind_map (k₂.recount_releaseTimers s p walkBound k₂.timerList.first) fun k₃ ↦ ?_
  refine recount_bind_map (k₃.recount_releaseDescriptors s p walkBound) fun k₄ ↦ ?_
  exact congrArg (fun k₅ : Kernel ↦ some { k₅.pcbFree p with running := some parent })
    (k₄.recount_detachPcb s .zombie (some p))

theorem recount_exitToReady :
    (k.recount s).exitToReady = k.exitToReady.map (·.recount s) := by
  refine recount_bind (k.lists .ready).first fun next ↦ ?_
  exact congrArg (fun k₁ : Kernel ↦
    some { k₁.setStatus next .running with running := some next })
    (k.recount_detachPcb s .ready (some next))

theorem recount_internalExit (value : ℤ) :
    internalExit value (k.recount s) = (internalExit value k).map (·.recount s) := by
  refine recount_bind k.running fun p ↦ ?_
  refine recount_bind_map (k.recount_becomeZombie s p value) fun k₁ ↦ ?_
  refine recount_bind (k₁.pcbs.parent p) fun parent ↦ ?_
  have hawaits : ((k₁.recount s).sendSignal parent dsosSigchld).awaits parent p =
      (k₁.sendSignal parent dsosSigchld).awaits parent p := rfl
  dsimp only
  rw [hawaits]
  split_ifs
  · exact (k₁.sendSignal parent dsosSigchld).recount_exitToParent s p parent
  · exact (k₁.sendSignal parent dsosSigchld).recount_exitToReady s

end Kernel

end DisastrOS
