import DisastrOS.Children
import DisastrOS.Refinement

/-!
# The storage of the processes

As long as nobody waits for a queue, the blocks of the pools of PCBs and timers that are handed out are
those of the processes and of the timers of `timer_list`.

The pointers to the children are another matter. A `wait` that takes a zombie away gives the pointer back;
an exit that hands its value to a waiting parent takes the pointer out of the list of children and leaves
it handed out. So the pool counts the children that were made against those that a `wait` has taken away,
not against those that live (`processStorage_of_run`).
-/

set_option autoImplicit false
set_option relaxedAutoImplicit false

namespace DisastrOS

open LinkedLists PoolAllocator
open Function (update)

/-- The blocks of a list, which are all that are handed out, and the free ones make up the pool. -/
theorem PoolAllocator.Ok.size_add_length {a : PoolAllocator} (h : a.Ok) {blocks : List Addr}
    (hnodup : blocks.Nodup) (hallocated : ∀ x, a.Allocated x ↔ x ∈ blocks) (hmax : 0 ≤ a.sizeMax) :
    a.size + blocks.length = a.sizeMax := by
  have hsame : a.allocatedBlocks = blocks.toFinset := by
    ext x
    rw [mem_allocatedBlocks, List.mem_toFinset, hallocated]
  have htotal := h.card_add_size hmax
  rw [hsame, List.toFinset_card_of_nodup hnodup] at htotal
  omega

/-- Giving back a block that is handed out takes it out of the set. -/
theorem PoolAllocator.Ok.allocatedBlocks_releaseBlock {a : PoolAllocator} {block : Addr} (h : a.Ok)
    (hblock : a.Allocated block) :
    (a.releaseBlock block).2.allocatedBlocks = a.allocatedBlocks.erase block := by
  obtain ⟨-, -, hallocated⟩ := h.release hblock
  ext x
  rw [Finset.mem_erase, mem_allocatedBlocks, mem_allocatedBlocks, hallocated]

namespace Kernel

variable {k k' : Kernel} {v v' : Processes} {a : Action} {p x : Addr} {made : ℕ}

/-! ### The pointers -/

/-- The children that were made, without those that a `wait` has taken away. -/
def noteChildren (made : ℕ) (k : Kernel) (a : Action) (k' : Kernel) : ℕ :=
  match k.running, k.request a with
  | some _, some .fork | some _, some .spawn => made + 1
  | some p, some (.wait ..) =>
    if k'.running = some p ∧ k'.pcbs.syscallRetvalue p ≠ dsosEwait then made - 1 else made
  | _, _ => made

/-- What a step does to the pool of pointers: nothing, or a new process gets one, or a `wait` gives one
back and returns the pid of the child. -/
inductive PointerStep (k : Kernel) (v : Processes) (a : Action) (k' : Kernel) : Prop
  | same (hcount : ∀ made, noteChildren made k a k' = made)
    (hpool : k'.pcbPtrs.allocator = k.pcbPtrs.allocator)
  | create (p x : Addr) (pool : PoolAllocator) (hp : k.running = some p)
    (hrequest : k.request a = some .fork ∨ k.request a = some .spawn)
    (hget : k.pcbPtrs.allocator.getBlock = (some x, pool)) (hpool : k'.pcbPtrs.allocator = pool)
  | reap (p x : Addr) (pid : ℤ) (result : Option Addr) (hp : k.running = some p)
    (hrequest : k.request a = some (.wait pid result)) (hx : x ∈ v.children p)
    (hruns : k'.running = some p) (hret : k'.pcbs.syscallRetvalue p = v.pid (v.child x))
    (hpool : k'.pcbPtrs.allocator = (k.pcbPtrs.allocator.releaseBlock x).2)

theorem noteChildren_of_request {c : Syscall} (hp : k.running = some p) (hrequest : k.request a = some c)
    (hfork : c ≠ .fork) (hspawn : c ≠ .spawn) (hwait : ∀ pid result, c = .wait pid result →
      k'.running = some p → k'.pcbs.syscallRetvalue p = dsosEwait) (made : ℕ) :
    noteChildren made k a k' = made := by
  unfold noteChildren
  rw [hp, hrequest]
  cases c with
  | fork => exact absurd rfl hfork
  | spawn => exact absurd rfl hspawn
  | wait pid result => exact if_neg fun h ↦ h.2 (hwait pid result rfl h.1)
  | _ => rfl

theorem noteChildren_of_none (hrequest : k.request a = none) (made : ℕ) :
    noteChildren made k a k' = made := by
  unfold noteChildren
  rw [hrequest]
  cases k.running <;> rfl

theorem Shows.awaitedPcbPtr (h : k.Shows v) {pid : ℤ} {r : Option Addr}
    (hsearch : k.awaitedPcbPtr pid walkBound none (k.pcbs.children p).first = some r) :
    r = v.awaited p pid := by
  obtain ⟨s, hlists⟩ := h
  have hrep : Represents k.pcbPtrs.list (k.pcbs.children p) (v.children p) :=
    hlists.children.represents p
  rw [hrep.first] at hsearch
  have hfound := awaitedPcbPtr_eq hrep.segment hsearch
  have hstatus : k.pcbs.status = v.status := hlists.status
  have hchild : k.pcbPtrs.pcb = v.child := hlists.child
  have hpid : k.pcbs.pid = v.pid := hlists.pid
  rwa [Option.or_none, hstatus, hchild, hpid] at hfound

/-- A `wait` that lets its process go on takes a zombie away, or fails. -/
theorem Shows.internalWait_pointers (h : k.Shows v) (hv : v.Consistent) (hp : v.running = some p)
    {pid : ℤ} {result : Option Addr} (hwait : Kernel.internalWait pid result k = some k') :
    (∃ x ∈ v.children p, k'.running = some p ∧ k'.pcbs.syscallRetvalue p = v.pid (v.child x) ∧
        k'.pcbPtrs.allocator = (k.pcbPtrs.allocator.releaseBlock x).2) ∨
      (k'.running = some p → k'.pcbs.syscallRetvalue p = dsosEwait) ∧
        k'.pcbPtrs.allocator = k.pcbPtrs.allocator := by
  have hrunning : k.running = some p := h.running.trans hp
  obtain ⟨p', hp', ⟨-, rfl⟩ | ⟨awaited, -, hawaited, hcases⟩⟩ := internalWait_cases hwait
  · obtain rfl : p = p' := Option.some.inj (hrunning.symm.trans hp')
    exact Or.inr ⟨fun _ ↦ Function.update_self .., rfl⟩
  · obtain rfl : p = p' := Option.some.inj (hrunning.symm.trans hp')
    obtain ⟨x, rfl, -, rfl⟩ | ⟨-, ⟨-, rfl⟩ | ⟨-, -, rfl⟩⟩ := hcases
    · rw [reapZombie_eq]
      refine Or.inl ⟨x, Processes.mem_of_awaited (h.awaitedPcbPtr hawaited).symm, hrunning, ?_, rfl⟩
      change update k.pcbs.syscallRetvalue p (k.pcbs.pid (k.pcbPtrs.pcb x)) p = _
      rw [Function.update_self, h.pid, h.child]
    · refine Or.inr ⟨fun hruns ↦ ?_, rfl⟩
      -- the process is not the first of `ready_list`
      have hfirst : (k.lists .ready).first = some p := hruns
      rw [h.first] at hfirst
      exact absurd (List.mem_of_head? hfirst) (hv.unlisted hp .ready)
    · exact Or.inr ⟨fun _ ↦ Function.update_self .., rfl⟩

/-- A call that concerns files only leaves the pools of the processes alone. -/
theorem syscallVector_processPools {c : Syscall} (hprocesses : c.concernsProcesses = false)
    (husers : c.concernsUsers = false) (hcall : syscallVector c k = some k') :
    k'.pcbs.allocator = k.pcbs.allocator ∧ k'.pcbPtrs = k.pcbPtrs ∧ k'.timerItems = k.timerItems := by
  cases c with
  | openResource id type mode =>
    rw [internalOpenResource_eq hcall]
    exact ⟨rfl, rfl, rfl⟩
  | closeResource fd =>
    rw [internalCloseResource_eq hcall]
    exact ⟨rfl, rfl, rfl⟩
  | destroyResource id =>
    rw [internalDestroyResource_eq hcall]
    exact ⟨rfl, rfl, rfl⟩
  | openQueue id fd mode =>
    rw [internalOpenQueue_eq hcall]
    exact ⟨rfl, rfl, rfl⟩
  | preempt | fork | wait | exit | spawn | sleep => exact absurd hprocesses Bool.noConfusion
  | sendMsg | recvMsg | wakeupQueue | shutdown => exact absurd husers Bool.noConfusion

/-- The calls other than these three do not concern the pool of pointers. -/
theorem syscallVector_pointers {c : Syscall} (husers : c.concernsUsers = false) (hfork : c ≠ .fork)
    (hspawn : c ≠ .spawn) (hwait : ∀ pid result, c ≠ .wait pid result)
    (hcall : syscallVector c k = some k') : k'.pcbPtrs.allocator = k.pcbPtrs.allocator := by
  cases c with
  | preempt => rw [internalSchedule_eq hcall]
  | sleep cycles =>
    obtain ⟨p', -, rfl | ⟨t, k₁, hadd, rfl⟩⟩ := internalSleep_cases hcall
    · rfl
    · change k₁.pcbPtrs.allocator = _
      rw [timerListAdd_eq hadd]
  | exit value =>
    obtain ⟨p, k₁, parent, -, hzombie, -, ⟨-, hexit⟩ | ⟨-, hexit⟩⟩ := internalExit_cases hcall
    · rw [exitToParent_eq hexit, becomeZombie_eq hzombie]
      rfl
    · rw [exitToReady_eq hexit, becomeZombie_eq hzombie]
      rfl
  | fork => exact absurd rfl hfork
  | spawn => exact absurd rfl hspawn
  | wait pid result => exact absurd rfl (hwait pid result)
  | openResource | closeResource | destroyResource | openQueue | shutdown | sendMsg | recvMsg
  | wakeupQueue => exact congrArg (·.allocator) (syscallVector_processPools rfl husers hcall).2.1

theorem newProcess_pointers {c : Addr} (hnew : k.newProcess = some (c, k')) :
    ∃ x, k.pcbPtrs.allocator.getBlock = (some x, k'.pcbPtrs.allocator) := by
  obtain ⟨_, pool, x, ptrPool, -, -, -, hget, rfl⟩ := newProcess_cases hnew
  exact ⟨x, hget⟩

theorem Shows.pointerStep (h : k.Shows v) (hv : v.Consistent)
    (hcalls : ∀ c, k.request a = some c → c.concernsUsers = false) (hstep : k.step a = some k') :
    k.PointerStep v a k' := by
  obtain ⟨rfl, hstart⟩ | ⟨rfl, htimer⟩ | ⟨x, byte, rfl, -, rfl⟩ | ⟨c, p, ret, rfl, hp, -, rfl⟩ |
    ⟨c, p, next, hp, hcall, hsyscall⟩ | ⟨p, rfl, hp, hrequest, hrun⟩ := step_cases hstep
  · obtain ⟨-, p, pool, -, rfl⟩ := startProcess_cases hstart
    exact .same (noteChildren_of_none rfl) rfl
  · obtain ⟨p, -, hschedule⟩ := Option.bind_eq_some_iff.mp htimer
    refine .same (noteChildren_of_none rfl) ?_
    rw [internalSchedule_eq hschedule]
  · exact .same (noteChildren_of_none rfl) rfl
  · exact .same (noteChildren_of_none rfl) rfl
  · have hrequest := hcall.request hp
    have hvp : v.running = some p := h.running.symm.trans hp
    have htrap : (k.trap p next c).Shows (v.trap p c) := h.imp fun s hlists ↦ hlists.trap p next c
    have husers := hcalls c hrequest
    by_cases hcreate : c = .fork ∨ c = .spawn
    · have hnew : ∃ child k₁, (k.trap p next c).newProcess = some (child, k₁) ∧
          k'.pcbPtrs.allocator = k₁.pcbPtrs.allocator := by
        rcases hcreate with rfl | rfl
        all_goals
          obtain ⟨⟨child, k₁⟩, hnew, hk'⟩ := Option.bind_eq_some_iff.mp hsyscall
          obtain rfl := Option.some.inj hk'
          exact ⟨child, k₁, hnew, rfl⟩
      obtain ⟨child, k₁, hnew, hpool⟩ := hnew
      obtain ⟨x, hget⟩ := newProcess_pointers hnew
      refine .create p x _ hp ?_ hget hpool
      rcases hcreate with rfl | rfl
      · exact Or.inl hrequest
      · exact Or.inr hrequest
    · push Not at hcreate
      by_cases hwaits : ∃ pid result, c = .wait pid result
      · obtain ⟨pid, result, rfl⟩ := hwaits
        obtain ⟨x, hx, hruns, hret, hpool⟩ | ⟨hret, hpool⟩ :=
          htrap.internalWait_pointers (hv.trap hvp _) hvp hsyscall
        · exact .reap p x pid result hp hrequest hx hruns hret hpool
        · refine .same (noteChildren_of_request hp hrequest hcreate.1 hcreate.2 ?_) hpool
          exact fun _ _ _ ↦ hret
      · push Not at hwaits
        refine .same (noteChildren_of_request hp hrequest hcreate.1 hcreate.2 ?_)
          (syscallVector_pointers (k := k.trap p next c) husers hcreate.1 hcreate.2 hwaits hsyscall)
        exact fun pid result hsame ↦ absurd hsame (hwaits pid result)
  · refine .same (noteChildren_of_none ?_) ?_
    · simp [Kernel.request, context, hp, hrequest]
    · rw [runStatement_eq hrun]

/-! ### The sizes of the pools -/

theorem Bounded.congr (h : k.Bounded) (hpcbs : k'.pcbs.allocator = k.pcbs.allocator)
    (hptrs : k'.pcbPtrs = k.pcbPtrs) (htimers : k'.timerItems = k.timerItems) : k'.Bounded where
  pcbs := by rw [hpcbs]; exact h.pcbs
  pcbPtrs := by rw [hptrs]; exact h.pcbPtrs
  timerItems := by rw [htimers]; exact h.timerItems

theorem Bounded.syscallVector {c : Syscall} (h : k.Bounded) (husers : c.concernsUsers = false)
    (hcall : Kernel.syscallVector c k = some k') : k'.Bounded := by
  cases c with
  | preempt => exact h.internalSchedule hcall
  | fork =>
    obtain ⟨⟨child, k₁⟩, hnew, hk'⟩ := Option.bind_eq_some_iff.mp hcall
    obtain rfl := Option.some.inj hk'
    exact h.newProcess hnew
  | spawn =>
    obtain ⟨⟨child, k₁⟩, hnew, hk'⟩ := Option.bind_eq_some_iff.mp hcall
    obtain rfl := Option.some.inj hk'
    exact (h.newProcess hnew).congr rfl rfl rfl
  | sleep cycles => exact h.internalSleep hcall
  | wait pid result => exact h.internalWait hcall
  | exit value => exact h.internalExit hcall
  | openResource | closeResource | destroyResource | openQueue | shutdown | sendMsg | recvMsg
  | wakeupQueue =>
    obtain ⟨hpcbs, hptrs, htimers⟩ := syscallVector_processPools rfl husers hcall
    exact h.congr hpcbs hptrs htimers

theorem Bounded.step_of_calls (h : k.Bounded)
    (hcalls : ∀ c, k.request a = some c → c.concernsUsers = false) (hstep : k.step a = some k') :
    k'.Bounded := by
  obtain ⟨rfl, -⟩ | ⟨rfl, -⟩ | ⟨x, byte, rfl, -, rfl⟩ | ⟨c, p, ret, rfl, hp, -, rfl⟩ |
    ⟨c, p, next, hp, hcall, hsyscall⟩ | ⟨p, rfl, hp, -, hrun⟩ := step_cases hstep
  · exact h.step rfl hstep
  · exact h.step rfl hstep
  · exact h.congr rfl rfl rfl
  · exact h.congr rfl rfl rfl
  · have htrap : (k.trap p next c).Bounded := h.congr rfl rfl rfl
    exact htrap.syscallVector (hcalls c (hcall.request hp)) hsyscall
  · rw [runStatement_eq hrun]
    exact h.congr rfl rfl rfl

/-! ### Runs -/

/-- The pools of the processes hold what the counters say, and no pid is negative. -/
structure Counted (made : ℕ) (k : Kernel) (v : Processes) : Prop where
  bounded : k.Bounded
  pointers : k.pcbPtrs.allocator.allocatedBlocks.card = made
  pid_nonneg : ∀ p, 0 ≤ v.pid p
  nextPid_nonneg : 0 ≤ v.nextPid

end Kernel

theorem Processes.Step.pid_nonneg {v v' : Processes} {e : Processes.Event} (hstep : v.Step e v')
    (hpid : ∀ p, 0 ≤ v.pid p) (hnext : 0 ≤ v.nextPid) : (∀ p, 0 ≤ v'.pid p) ∧ 0 ≤ v'.nextPid := by
  have hnew : ∀ c q, 0 ≤ update v.pid c v.nextPid q := by
    intro c q
    rw [Function.update_apply]
    split_ifs
    · exact hnext
    · exact hpid q
  cases hstep with
  | start p => exact ⟨hnew p, by change 0 ≤ v.nextPid + 1; omega⟩
  | create p c x => exact ⟨hnew c, by change 0 ≤ v.nextPid + 1; omega⟩
  | tick p =>
    rw [Processes.schedule_eq]
    exact ⟨hpid, hnext⟩
  | preempt p =>
    rw [Processes.schedule_eq]
    exact ⟨hpid, hnext⟩
  | quiet | sleepFails | sleep | waitFails | reap | wait | exitToParent | exitToReady | other =>
    exact ⟨hpid, hnext⟩

namespace Kernel

variable {k k' : Kernel} {v v' : Processes} {a : Action} {p : Addr} {made : ℕ}

theorem Counted.step {e : Processes.Event} (h : k.Counted made v) (hshows : k.Shows v)
    (hv : v.Consistent) (hcalls : k.CallsNoUsers a) (hstep : k.step a = some k')
    (hstep' : v.Step e v') : k'.Counted (noteChildren made k a k') v' := by
  have hpids := hstep'.pid_nonneg h.pid_nonneg h.nextPid_nonneg
  have hpointers : k'.pcbPtrs.allocator.allocatedBlocks.card = noteChildren made k a k' := by
    have hlists := hshows
    obtain ⟨s, hlists⟩ := hlists
    have hok : k.pcbPtrs.allocator.Ok := hlists.pointerPool
    cases hshows.pointerStep hv hcalls hstep with
    | same hcount hpool => rw [hcount, hpool, h.pointers]
    | create p x pool hp hrequest hget hpool =>
      have hfresh : x ∉ k.pcbPtrs.allocator.allocatedBlocks :=
        (getBlock_some hok hget).2.2.1 ∘ mem_allocatedBlocks.mp
      have hcount : noteChildren made k a k' = made + 1 := by
        unfold noteChildren
        rcases hrequest with hrequest | hrequest <;> rw [hp, hrequest]
      rw [hcount, hpool, hok.allocatedBlocks_getBlock hget, Finset.card_insert_of_notMem hfresh,
        h.pointers]
    | reap p x pid result hp hrequest hx hruns hret hpool =>
      have hallocated : k.pcbPtrs.allocator.Allocated x := hlists.pointer_allocated p x hx
      have hcount : noteChildren made k a k' = made - 1 := by
        unfold noteChildren
        rw [hp, hrequest]
        refine if_pos ⟨hruns, ?_⟩
        rw [hret]
        exact ne_of_gt (lt_of_lt_of_le (by decide) (h.pid_nonneg _))
      rw [hcount, hpool, hok.allocatedBlocks_releaseBlock hallocated,
        Finset.card_erase_of_mem (mem_allocatedBlocks.mpr hallocated), h.pointers]
  exact ⟨h.bounded.step_of_calls hcalls hstep, hpointers, hpids.1, hpids.2⟩

/-- The free blocks of the pools of the processes, and when a new process can be made. -/
structure ProcessStorage (made : ℕ) (k : Kernel) (v : Processes) : Prop where
  pcbs : k.pcbs.allocator.size + v.all.length = maxNumProcesses
  timers : k.timerItems.allocator.size + v.timers.length = maxNumProcesses
  pointers : k.pcbPtrs.allocator.size + made = maxNumProcesses
  create : ∀ p a, k.running = some p → k.request a = some .fork ∨ k.request a = some .spawn →
    ((k.step a).isSome ↔ (v.all.length : ℤ) < maxNumProcesses ∧ (made : ℤ) < maxNumProcesses ∧
      k.lastPid ≠ intMax)

/-- A new process is made if there are a block for it, one for the pointer to it and a pid. -/
theorem newProcess_isSome_iff (hp : k.running = some p) : k.newProcess.isSome ↔
    k.pcbs.allocator.getBlock.1 ≠ none ∧ k.pcbPtrs.allocator.getBlock.1 ≠ none ∧
      k.lastPid ≠ intMax := by
  constructor
  · intro hsome
    obtain ⟨⟨c, k'⟩, hnew⟩ := Option.isSome_iff_exists.mp hsome
    obtain ⟨_, pool, x, ptrPool, -, hget, hpid, hgetPtr, -⟩ := newProcess_cases hnew
    rw [hget, hgetPtr]
    exact ⟨Option.some_ne_none c, Option.some_ne_none x, hpid⟩
  · rintro ⟨hpcb, hptr, hpid⟩
    rcases hget : k.pcbs.allocator.getBlock with ⟨_ | c, pool⟩
    · exact absurd (congrArg Prod.fst hget) hpcb
    rcases hgetPtr : k.pcbPtrs.allocator.getBlock with ⟨_ | x, ptrPool⟩
    · exact absurd (congrArg Prod.fst hgetPtr) hptr
    rw [newProcess_eq hp hget hpid hgetPtr]
    rfl

theorem step_create_isSome (hp : k.running = some p)
    (hrequest : k.request a = some .fork ∨ k.request a = some .spawn) : (k.step a).isSome ↔
    k.pcbs.allocator.getBlock.1 ≠ none ∧ k.pcbPtrs.allocator.getBlock.1 ≠ none ∧
      k.lastPid ≠ intMax := by
  have hsome : ∀ next c, ((k.trap p next c).newProcess.isSome ↔
      k.pcbs.allocator.getBlock.1 ≠ none ∧ k.pcbPtrs.allocator.getBlock.1 ≠ none ∧
        k.lastPid ≠ intMax) := fun next c ↦ newProcess_isSome_iff (k := k.trap p next c) hp
  rcases hrequest with hrequest | hrequest
  · obtain ⟨next, -, hsame⟩ := step_eq_syscallVector hp hrequest
    rw [hsame, ← hsome next .fork, syscallVector, internalFork]
    cases (k.trap p next .fork).newProcess <;> rfl
  · obtain ⟨next, -, hsame⟩ := step_eq_syscallVector hp hrequest
    rw [hsame, ← hsome next .spawn, syscallVector, internalSpawn]
    cases (k.trap p next .spawn).newProcess <;> rfl

theorem Counted.processStorage (h : k.Counted made v) (hshows : k.Shows v) (hv : v.Consistent) :
    k.ProcessStorage made v := by
  obtain ⟨s, hlists⟩ := hshows
  have hpcbOk : k.pcbs.allocator.Ok := hlists.scheduled.pool
  have hptrOk : k.pcbPtrs.allocator.Ok := hlists.pointerPool
  have hpcbs := hpcbOk.size_add_length hv.distinct (fun x ↦ hlists.allocated_iff)
    (by rw [h.bounded.pcbs]; decide)
  have htimerOk : k.timerItems.allocator.Ok := hlists.timersListed.pool
  have htimers := htimerOk.size_add_length hlists.timersListed.represents.nodup
    hlists.timersListed.allocated (by rw [h.bounded.timerItems]; decide)
  have hpointers := hptrOk.card_add_size (by rw [h.bounded.pcbPtrs]; decide)
  rw [h.bounded.pcbs] at hpcbs
  rw [h.bounded.timerItems] at htimers
  rw [h.bounded.pcbPtrs, h.pointers] at hpointers
  have hfree := hpcbOk.size_nonneg
  have hfreePtr := hptrOk.size_nonneg
  refine ⟨hpcbs, htimers, by omega, fun p a hp hrequest ↦ ?_⟩
  rw [step_create_isSome hp hrequest, ne_eq, ne_eq, hpcbOk.getBlock_eq_none_iff,
    hptrOk.getBlock_eq_none_iff]
  refine and_congr ?_ (and_congr_left' ?_) <;> omega

end Kernel

/-! ### Whole runs -/

theorem Layout.boot_counted (layout : Layout) :
    layout.boot.Counted 0 (layout.boot.processes (fun _ ↦ []) [] fun _ ↦ []) where
  bounded := layout.boot_bounded
  pointers := Finset.card_eq_zero.mpr (Finset.eq_empty_of_forall_notMem fun x hx ↦
    (freshPool_ok (by decide : 1 ≤ sizeofPCBPtr) (by decide : 1 ≤ maxNumProcesses) (by decide)
      layout.pcbPtrBuffer).2 x (mem_allocatedBlocks.mp hx))
  pid_nonneg _ := le_rfl
  nextPid_nonneg := le_rfl

theorem Layout.counted_of_run (layout : Layout) {actions : List Action} {k : Kernel}
    (hmeets : Runs.Meets Kernel.step Kernel.CallsNoUsers layout.boot actions)
    (hrun : Runs.run Kernel.step layout.boot actions = some k) : k.Satisfies
      (Kernel.Counted (Runs.monitor Kernel.step Kernel.noteChildren 0 layout.boot actions)) :=
  Kernel.satisfies_monitor (fun _ _ hcalls c hrequest ↦ hcalls c hrequest)
    (fun _ _ _ _ _ _ hcalls hstep hshows hv h hstep' _ ↦ h.step hshows hv hcalls hstep hstep')
    (layout.boot_satisfies layout.boot_counted) hmeets hrun

/-- In every run in which nobody waits for a queue, the free blocks of the pools of the processes are
counted by the processes, the timers and the children that no `wait` has taken away. -/
theorem processStorage_of_run (layout : Layout) {actions : List Action} {k : Kernel}
    (hmeets : Runs.Meets Kernel.step Kernel.CallsNoUsers layout.boot actions)
    (hrun : Runs.run Kernel.step layout.boot actions = some k) :
    ∃ v, k.Shows v ∧ v.Consistent ∧ k.ProcessStorage
      (Runs.monitor Kernel.step Kernel.noteChildren 0 layout.boot actions) v := by
  obtain ⟨-, v, hshows, hv, hcounted⟩ := layout.counted_of_run hmeets hrun
  exact ⟨v, hshows, hv, hcounted.processStorage hshows hv⟩

/-- A process makes two children and waits for one, which hands its value over: a pointer is left over. -/
theorem processStorage_of_run_handedOver : ∃ k v,
    Runs.run Kernel.step sampleLayout.boot [.start, .syscall .spawn, .syscall .spawn,
      .syscall (.wait 0 none), .syscall (.exit 3)] = some k ∧ k.Shows v ∧ v.Consistent ∧
      k.ProcessStorage 2 v := by
  have hends : (Runs.run Kernel.step sampleLayout.boot [.start, .syscall .spawn, .syscall .spawn,
      .syscall (.wait 0 none), .syscall (.exit 3)]).isSome ∧
      Runs.monitor Kernel.step Kernel.noteChildren 0 sampleLayout.boot [.start, .syscall .spawn,
        .syscall .spawn, .syscall (.wait 0 none), .syscall (.exit 3)] = 2 := by
    decide +kernel
  obtain ⟨k, hk⟩ := Option.isSome_iff_exists.mp hends.1
  obtain ⟨v, hshows, hv, hstorage⟩ := processStorage_of_run sampleLayout (by decide +kernel) hk
  exact ⟨k, v, hk, hshows, hv, hends.2 ▸ hstorage⟩

end DisastrOS
