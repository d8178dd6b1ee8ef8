import DisastrOS.Boot
import DisastrOS.FileTable
import DisastrOS.Steps

/-!
# Descriptors and resources

`FileStep` says which steps touch the descriptors of the processes and the resources: a new process
starts without descriptors, and the system calls that open, close or destroy a resource and the exit
of a process are the only others that do.
-/

set_option autoImplicit false
set_option relaxedAutoImplicit false

namespace DisastrOS

open LinkedLists PoolAllocator
open Function (update)

/-- The system calls that may change the descriptors or the resources. -/
def Syscall.touchesFiles : Syscall → Bool
  | .openResource .. | .closeResource _ | .destroyResource _ | .openQueue .. | .exit _ => true
  | _ => false

namespace Kernel

variable {k k' : Kernel} {a : Action}

/-! ### Steps -/

/-- The descriptors of the processes and the resources. -/
def files (k : Kernel) : Files :=
  ⟨k.descriptors, k.descriptorPtrs, k.resources, k.resourcesList, k.pcbs.descriptors, k.pcbs.lastFd⟩

@[simp]
theorem files_trap (k : Kernel) (p : Addr) (next : Context) (c : Syscall) :
    (k.trap p next c).files = k.files := rfl

@[simp]
theorem files_setRetvalue (k : Kernel) (p : Addr) (value : ℤ) :
    (k.setRetvalue p value).files = k.files := rfl

@[simp]
theorem files_setStatus (k : Kernel) (p : Addr) (status : ProcessStatus) :
    (k.setStatus p status).files = k.files := rfl

@[simp]
theorem files_insertPcb (k : Kernel) (l : PcbList) (previous item : Option Addr) :
    (k.insertPcb l previous item).files = k.files := rfl

@[simp]
theorem files_dispatchReady (k : Kernel) : k.dispatchReady.files = k.files := rfl

@[simp]
theorem files_blockInWait (k : Kernel) (p : Addr) : (k.blockInWait p).files = k.files := rfl

@[simp]
theorem files_wakeUser (k : Kernel) (entry p : Addr) : (k.wakeUser entry p).files = k.files := rfl

@[simp]
theorem files_reapZombie (k : Kernel) (p x : Addr) (result : Option Addr) :
    (k.reapZombie p x result).files = k.files := rfl

theorem files_waitForQueue {p : Addr} {entries : Option Addr} {role : Role} {retvalue : ℤ}
    (hwait : k.waitForQueue p entries role retvalue = some k') : k'.files = k.files := by
  obtain ⟨_, _, -, -, rfl⟩ := waitForQueue_eq hwait
  rfl

theorem queues_waitForQueue {p : Addr} {entries : Option Addr} {role : Role} {retvalue : ℤ}
    (hwait : k.waitForQueue p entries role retvalue = some k') :
    k'.queues.allocator = k.queues.allocator := by
  obtain ⟨_, _, -, -, rfl⟩ := waitForQueue_eq hwait
  rfl

/-- What a step does to the descriptors and the resources, and to the pool of the queues. -/
inductive FileStep (k : Kernel) (a : Action) (k' : Kernel) : Prop
  | same (hfiles : k'.files = k.files) (hqueues : k'.queues.allocator = k.queues.allocator)
  | newProcess (p : Addr) (hfresh : k.pcbs.allocator.getBlock.1 = some p)
    (hfiles : k'.files = k.files.reset p) (hqueues : k'.queues.allocator = k.queues.allocator)
    (hcontext : k'.pcbs.cpuState p = .user 0 ∨ k.request a = some .fork)
  | call (p : Addr) (c : Syscall) (next : Context) (hrunning : k.running = some p)
    (hcalls : k.Calls p a c next) (hkind : c.touchesFiles = true)
    (hcall : syscallVector c (k.trap p next c) = some k')

theorem step_files (hshutdown : k.request a ≠ some .shutdown) (hstep : k.step a = some k') :
    k.FileStep a k' := by
  obtain ⟨rfl, hstart⟩ | ⟨rfl, htimer⟩ | ⟨x, byte, rfl, -, rfl⟩ | ⟨c, p, ret, rfl, -, -, rfl⟩ |
    ⟨c, p, next, hp, hcalls, hcall⟩ | ⟨p, rfl, hp, -, hrun⟩ := step_cases hstep
  · obtain ⟨-, p, pool, hget, rfl⟩ := startProcess_cases hstart
    exact .newProcess p (by rw [hget]) rfl rfl (Or.inl (Function.update_self ..))
  · obtain ⟨p, hp, hschedule⟩ := Option.bind_eq_some_iff.mp htimer
    rw [internalSchedule_eq hschedule]
    exact .same rfl rfl
  · exact .same rfl rfl
  · exact .same rfl rfl
  · have hnew : ∀ {child : Addr} {k₁ : Kernel}, (k.trap p next c).newProcess = some (child, k₁) →
        k.pcbs.allocator.getBlock.1 = some child ∧ k₁.files = k.files.reset child ∧
          k₁.queues.allocator = k.queues.allocator := by
      intro child k₁ h
      obtain ⟨_, pool, _, _, -, hget, -, -, rfl⟩ := newProcess_cases h
      have hget' : k.pcbs.allocator.getBlock = (some child, pool) := hget
      exact ⟨by rw [hget'], rfl, rfl⟩
    cases c with
    | preempt =>
      rw [internalSchedule_eq hcall]
      exact .same rfl rfl
    | fork =>
      obtain ⟨⟨child, k₁⟩, h₁, hk'⟩ := Option.bind_eq_some_iff.mp hcall
      rw [← Option.some.inj hk']
      exact .newProcess child (hnew h₁).1 (hnew h₁).2.1 (hnew h₁).2.2 (Or.inr (hcalls.request hp))
    | spawn =>
      obtain ⟨⟨child, k₁⟩, h₁, hk'⟩ := Option.bind_eq_some_iff.mp hcall
      rw [← Option.some.inj hk']
      exact .newProcess child (hnew h₁).1 (hnew h₁).2.1 (hnew h₁).2.2
        (Or.inl (Function.update_self ..))
    | wait pid result =>
      obtain ⟨p', -, ⟨-, rfl⟩ | ⟨_, -, -, ⟨x, -, -, rfl⟩ | ⟨-, ⟨-, rfl⟩ | ⟨-, -, rfl⟩⟩⟩⟩ :=
        internalWait_cases hcall <;> exact .same (by simp) rfl
    | sleep cycles =>
      obtain ⟨p', -, rfl | ⟨t, k₁, hadd, rfl⟩⟩ := internalSleep_cases hcall
      · exact .same (by simp) rfl
      · have hframe := timerListAdd_eq hadd
        have hfiles : k₁.files = (k.trap p next (.sleep cycles)).files := by rw [hframe]; rfl
        have hqueues : k₁.queues = k.queues := by rw [hframe]; rfl
        exact .same (by simp [hfiles]) (congrArg (·.allocator) hqueues)
    | exit _ | openResource _ _ _ | closeResource _ | destroyResource _ | openQueue _ _ _ =>
      exact .call p _ next hp hcalls rfl hcall
    | shutdown => exact absurd (hcalls.request hp) hshutdown
    | sendMsg msg fd =>
      obtain ⟨_, _, _, -, -, -, ⟨-, haccept⟩ | ⟨-, hwait⟩⟩ := internalSendMessage_cases hcall
      · have hframe := acceptMessage_eq haccept
        have hfiles : k'.files = k.files := by rw [hframe]; rfl
        exact .same hfiles (by rw [hframe]; rfl)
      · have hqueues : k'.queues.allocator = k.queues.allocator :=
          queues_waitForQueue (k := k.trap p next (.sendMsg msg fd)) hwait
        exact .same ((files_waitForQueue hwait).trans (files_trap ..)) hqueues
    | recvMsg msg fd =>
      obtain ⟨_, _, -, -, ⟨-, rfl⟩ | ⟨_, _, -, -, ⟨_, k₁, hpop, hdeliver⟩ | ⟨k₁, hpop, hwait⟩⟩⟩ :=
        internalRecvMessage_cases hcall
      · exact .same (by simp) rfl
      · have hframe := deliverMessage_eq hdeliver
        rw [← (Prod.mk.inj hpop).2] at hframe
        have hfiles : k'.files = k.files := by rw [hframe]; rfl
        exact .same hfiles (by rw [hframe]; rfl)
      · obtain ⟨-, rfl⟩ := popMessage_eq_none hpop
        have hqueues : k'.queues.allocator = k.queues.allocator :=
          queues_waitForQueue (k := k.trap p next (.recvMsg msg fd)) hwait
        exact .same ((files_waitForQueue hwait).trans (files_trap ..)) hqueues
    | wakeupQueue check q users =>
      obtain ⟨_, -, ⟨_, _, -, -, rfl⟩ | ⟨-, rfl⟩⟩ := internalWakeUpQueue_cases hcall <;>
        exact .same (by simp) rfl
  · rw [runStatement_eq hrun]
    exact .same rfl rfl

/-! ### Lookups -/

variable {descs ptrs : Addr → List Addr} {ress : List Addr} {p r d : Addr} {id fd : ℤ}

/-- A lookup by file descriptor finds the descriptor of the process with this number. -/
theorem descriptorByFd_some (h : k.files.Holds descs ptrs ress)
    (hfind : k.descriptorByFd p fd = some (some d)) : d ∈ descs p ∧ k.descriptors.fd d = fd := by
  have hscan := (h.descriptorLists.represents p).scan_eq hfind
  exact ⟨List.mem_of_find?_eq_some hscan.symm, by simpa using List.find?_some hscan.symm⟩

theorem descriptorByFd_unique (h : k.files.Holds descs ptrs ress) (hd : d ∈ descs p)
    {found : Option Addr} (hfind : k.descriptorByFd p (k.descriptors.fd d) = some found) :
    found = some d := by
  have hscan := (h.descriptorLists.represents p).scan_eq hfind
  cases found with
  | none =>
    have hnone := List.find?_eq_none.mp hscan.symm d hd
    simp at hnone
  | some d' =>
    obtain ⟨hd', hfd⟩ := descriptorByFd_some h hfind
    rw [h.fd_inj p d' hd' d hd hfd]

/-- A lookup by id finds the resource of this id. -/
theorem resourceById_some (h : k.files.Holds descs ptrs ress)
    (hfind : k.resourceById id = some (some r)) : r ∈ ress ∧ k.resources.id r = id := by
  have hscan := h.resourceList.scan_eq hfind
  exact ⟨List.mem_of_find?_eq_some hscan.symm, by simpa using List.find?_some hscan.symm⟩

theorem resourceById_none (h : k.files.Holds descs ptrs ress)
    (hfind : k.resourceById id = some none) (hr : r ∈ ress) : k.resources.id r ≠ id := by
  have hscan := h.resourceList.scan_eq hfind
  simpa using List.find?_eq_none.mp hscan.symm r hr

theorem resourceById_unique (h : k.files.Holds descs ptrs ress) (hr : r ∈ ress)
    {found : Option Addr} (hfind : k.resourceById (k.resources.id r) = some found) :
    found = some r := by
  cases found with
  | none => exact absurd rfl (resourceById_none h hfind hr)
  | some r' =>
    obtain ⟨hr', hid⟩ := resourceById_some h hfind
    rw [h.ids r' hr' r hr hid]

/-! ### The system calls -/

/-- What `internal_openResource` does for process `p`. -/
inductive Opens (k : Kernel) (p : Addr) (id type : ℤ) (mode : BitVec 32) (k' : Kernel) : Prop
  | failed (hfiles : k'.files = k.files) (hret : k'.pcbs.syscallRetvalue p < 0)
  | joined (r d x : Addr) (pool ptrPool : PoolAllocator) (hfound : k.resourceById id = some (some r))
    (htype : k.resources.type r = type)
    (hget : k.descriptors.allocator.getBlock = (some d, pool))
    (hgetPtr : k.descriptorPtrs.allocator.getBlock = (some x, ptrPool))
    (hfiles : k'.files = k.files.join p r d x pool ptrPool)
    (hret : k'.pcbs.syscallRetvalue p = k.pcbs.lastFd p)
  | created (r : Addr) (resPool : PoolAllocator) (hnone : k.resourceById id = some none)
    (hmode : hasBit mode dsosCreate = true)
    (hnew : k.resources.allocator.getBlock = (some r, resPool))
    (hfiles : k'.files = k.files.create r resPool id type)
    (hret : k'.pcbs.syscallRetvalue p < 0)
  | createdJoined (r d x : Addr) (resPool pool ptrPool : PoolAllocator)
    (hnone : k.resourceById id = some none) (hmode : hasBit mode dsosCreate = true)
    (hnew : k.resources.allocator.getBlock = (some r, resPool))
    (hget : k.descriptors.allocator.getBlock = (some d, pool))
    (hgetPtr : k.descriptorPtrs.allocator.getBlock = (some x, ptrPool))
    (hfiles : k'.files = (k.files.create r resPool id type).join p r d x pool ptrPool)
    (hret : k'.pcbs.syscallRetvalue p = k.pcbs.lastFd p)

/-- The end of `internal_openResource`: no descriptor is left, or the process gets one. -/
theorem openDescriptor_files (h : k.files.Holds descs ptrs ress)
    (hopen : k.openDescriptor p r = some k') :
    k'.files = k.files ∧ k'.pcbs.syscallRetvalue p < 0 ∨
      ∃ d x pool ptrPool, k.descriptors.allocator.getBlock = (some d, pool) ∧
        k.descriptorPtrs.allocator.getBlock = (some x, ptrPool) ∧
        k'.files = k.files.join p r d x pool ptrPool ∧
        k'.pcbs.syscallRetvalue p = k.pcbs.lastFd p := by
  unfold openDescriptor at hopen
  rcases hget : k.descriptors.allocator.getBlock with ⟨_ | d, pool⟩
  · simp only [descriptorAlloc, hget, Option.some.injEq] at hopen
    rw [← hopen]
    refine Or.inl ⟨rfl, ?_⟩
    change update k.pcbs.syscallRetvalue p dsosEresourcenofd p < 0
    rw [Function.update_self]
    decide
  · simp only [descriptorAlloc, hget, Option.ite_none_left_eq_some, Option.some.injEq] at hopen
    rcases hgetPtr : k.descriptorPtrs.allocator.getBlock with ⟨_ | x, ptrPool⟩
    · -- the pointers do not run out before the descriptors
      have hempty := h.pointerPool.getBlock_eq_none_iff.mp (congrArg Prod.fst hgetPtr)
      have hnone := h.descriptorPool.getBlock_eq_none_iff.mpr (h.sameSize.trans hempty)
      exact absurd ((congrArg Prod.fst hget).symm.trans hnone) (by simp)
    · simp only [descriptorPtrAlloc, hgetPtr] at hopen
      rw [← hopen.2]
      refine Or.inr ⟨d, x, pool, ptrPool, rfl, rfl, rfl, ?_⟩
      exact (Function.update_self ..).trans (Function.update_self ..)

theorem openFound_files (h : k.files.Holds descs ptrs ress) {res : Option Addr} {type : ℤ}
    {mode : BitVec 32} (hopen : k.openFound p res type mode = some k') :
    k'.files = k.files ∧ k'.pcbs.syscallRetvalue p < 0 ∨
      ∃ r d x pool ptrPool, res = some r ∧ k.resources.type r = type ∧
        k.descriptors.allocator.getBlock = (some d, pool) ∧
        k.descriptorPtrs.allocator.getBlock = (some x, ptrPool) ∧
        k'.files = k.files.join p r d x pool ptrPool ∧
        k'.pcbs.syscallRetvalue p = k.pcbs.lastFd p := by
  have hfailed : ∀ {err : ℤ}, err < 0 → some (k.setRetvalue p err) = some k' →
      k'.files = k.files ∧ k'.pcbs.syscallRetvalue p < 0 := by
    intro err herr hk'
    rw [← Option.some.inj hk']
    refine ⟨rfl, ?_⟩
    change update k.pcbs.syscallRetvalue p err p < 0
    rwa [Function.update_self]
  unfold openFound at hopen
  split at hopen
  · exact Or.inl (hfailed (by decide) hopen)
  · split_ifs at hopen with htype hexcl
    · exact Or.inl (hfailed (by decide) hopen)
    · exact Or.inl (hfailed (by decide) hopen)
    · obtain hsame | ⟨d, x, pool, ptrPool, hjoin⟩ := openDescriptor_files h hopen
      · exact Or.inl hsame
      · exact Or.inr ⟨_, d, x, pool, ptrPool, rfl, not_not.mp htype, hjoin⟩

theorem internalOpenResource_files (h : k.files.Holds descs ptrs ress) {type : ℤ}
    {mode : BitVec 32} (hopen : internalOpenResource id type mode k = some k') :
    ∃ p, k.running = some p ∧ k.Opens p id type mode k' := by
  obtain ⟨p, hp, hrest⟩ := Option.bind_eq_some_iff.mp hopen
  obtain ⟨found, hfound, hrest⟩ := Option.bind_eq_some_iff.mp hrest
  refine ⟨p, hp, ?_⟩
  have hfailed : ∀ {err : ℤ}, err < 0 → some (k.setRetvalue p err) = some k' →
      k.Opens p id type mode k' := by
    intro err herr hk'
    rw [← Option.some.inj hk']
    refine .failed rfl ?_
    change update k.pcbs.syscallRetvalue p err p < 0
    rwa [Function.update_self]
  have hjoins : k.openFound p found type mode = some k' → k.Opens p id type mode k' := by
    intro hopen
    obtain ⟨hfiles, hret⟩ | ⟨r, d, x, pool, ptrPool, rfl, htype, hget, hgetPtr, hfiles, hret⟩ :=
      openFound_files h hopen
    · exact .failed hfiles hret
    · exact .joined r d x pool ptrPool hfound htype hget hgetPtr hfiles hret
  split_ifs at hrest with hcreate hexcl
  · exact hfailed (by decide) hrest
  · cases found with
    | some r => exact hjoins hrest
    | none =>
      rcases hnew : k.resources.allocator.getBlock with ⟨_ | r, resPool⟩
      · simp only [resourceAlloc, hnew] at hrest
        exact hfailed (by decide) hrest
      · simp only [resourceAlloc, hnew] at hrest
        have hcreated := h.create id type hnew fun r' hr' ↦
          resourceById_none h hfound hr'
        obtain ⟨hfiles, hret⟩ | ⟨_, d, x, pool, ptrPool, hr, -, hget, hgetPtr, hfiles, hret⟩ :=
          openFound_files (by exact hcreated) hrest
        · exact .created r resPool hfound hcreate hnew hfiles hret
        · obtain rfl := Option.some.inj hr
          exact .createdJoined r d x resPool pool ptrPool hfound hcreate hnew hget hgetPtr hfiles
            hret
  · exact hjoins hrest

theorem internalCloseResource_files (hclose : internalCloseResource fd k = some k') :
    ∃ p, k.running = some p ∧
      (k.descriptorByFd p fd = some none ∧ k'.files = k.files ∧ k'.pcbs.syscallRetvalue p < 0 ∨
        ∃ d x, k.descriptorByFd p fd = some (some d) ∧ k.descriptors.ptr d = some x ∧
          k'.files = k.files.drop p d (k.descriptors.resource d) x ∧
          k'.pcbs.syscallRetvalue p = 0) := by
  obtain ⟨p, hp, hrest⟩ := Option.bind_eq_some_iff.mp hclose
  obtain ⟨found, hfound, hrest⟩ := Option.bind_eq_some_iff.mp hrest
  refine ⟨p, hp, ?_⟩
  cases found with
  | none =>
    rw [← Option.some.inj hrest]
    refine Or.inl ⟨hfound, rfl, ?_⟩
    change update k.pcbs.syscallRetvalue p dsosEresourceclose p < 0
    rw [Function.update_self]
    decide
  | some d =>
    obtain ⟨x, hx, hk'⟩ := Option.bind_eq_some_iff.mp hrest
    rw [← Option.some.inj hk']
    exact Or.inr ⟨d, x, hfound, hx, rfl, Function.update_self ..⟩

theorem freeValue_files (hfree : k.freeValue r = some k') : k'.files = k.files := by
  obtain ⟨q, -, hqueue⟩ | ⟨-, rfl⟩ := freeValue_cases hfree
  · rw [queueFree_eq hqueue]
    rfl
  · rfl

/-- The queue of the resource goes back to its pool. -/
theorem freeValue_queues (hfree : k.freeValue r = some k') :
    k'.queues.allocator = match k.freedQueue r with
      | some q => (k.queues.allocator.releaseBlock q).2
      | none => k.queues.allocator := by
  obtain ⟨q, hq, hqueue⟩ | ⟨hnone, rfl⟩ := freeValue_cases hfree
  · obtain ⟨_, _, _, _, _, hpool⟩ := queueFree_cases hqueue
    simpa only [hq] using hpool
  · simp only [hnone]

theorem internalDestroyResource_files (hdestroy : internalDestroyResource id k = some k') :
    ∃ p, k.running = some p ∧
      (k'.files = k.files ∧ k'.queues.allocator = k.queues.allocator ∧
          k'.pcbs.syscallRetvalue p < 0 ∨
        ∃ r, k.resourceById id = some (some r) ∧ (k.resources.descriptorsPtrs r).size = 0 ∧
          k'.files = k.files.destroy r ∧
          (k'.queues.allocator = match k.freedQueue r with
            | some q => (k.queues.allocator.releaseBlock q).2
            | none => k.queues.allocator) ∧
          k'.pcbs.syscallRetvalue p = 0) := by
  obtain ⟨p, found, hp, hfound, ⟨err, herr, rfl⟩ | ⟨r, k₁, rfl, hsize, hfree, -, -, rfl⟩⟩ :=
    internalDestroyResource_cases hdestroy
  · refine ⟨p, hp, Or.inl ⟨rfl, rfl, ?_⟩⟩
    change update k.pcbs.syscallRetvalue p err p < 0
    rwa [Function.update_self]
  · have hqueues := freeValue_queues hfree
    refine ⟨p, hp, Or.inr ⟨r, hfound, hsize, ?_, hqueues, Function.update_self ..⟩⟩
    have hfiles := freeValue_files hfree
    obtain ⟨hdescs, hptrs, hres, hlist, hlists, hlast⟩ := Files.mk.inj hfiles
    simp only [files, setRetvalue, Files.destroy, hdescs, hptrs, hres, hlist, hlists, hlast]
    rfl

/-- What `internal_openQueue` does for process `p`: the resource has a queue; it gets a new one; or
there is none left, and the resource is given up. -/
inductive OpensQueue (k : Kernel) (p : Addr) (id fd : ℤ) (mode : BitVec 32) (k' : Kernel) : Prop
  | joined (r q : Addr) (hfound : k.resourceById id = some (some r))
    (hvalue : k.resources.value r = some q)
    (hfiles : k'.files = { k.files with descriptors.rwn := k'.descriptors.rwn })
    (hqueues : k'.queues.allocator = k.queues.allocator)
  | fresh (r q : Addr) (pool : PoolAllocator) (hfound : k.resourceById id = some (some r))
    (hvalue : k.resources.value r = none) (hget : k.queues.allocator.getBlock = (some q, pool))
    (hfiles : k'.files = { k.files with
      descriptors.rwn := k'.descriptors.rwn
      resources.value := update k.resources.value r (some q) })
    (hqueues : k'.queues.allocator = pool)
    (k₁ : Kernel) (halloc : k.queueAlloc = (some q, k₁))
    (hjoin : ({ k₁ with
      resources.value := update k₁.resources.value r (some q) }).joinQueue p r q fd mode = some k')
  | refused (hfiles : k'.files = k.files) (hqueues : k'.queues.allocator = k.queues.allocator)
    (hret : k'.pcbs.syscallRetvalue p < 0)
  | closed (d x : Addr) (hfound : k.descriptorByFd p fd = some (some d))
    (hptr : k.descriptors.ptr d = some x)
    (hfiles : k'.files = k.files.drop p d (k.descriptors.resource d) x)
    (hqueues : k'.queues.allocator = k.queues.allocator) (hret : k'.pcbs.syscallRetvalue p < 0)
  | gaveUp (r d x : Addr) (hfound : k.descriptorByFd p fd = some (some d))
    (hptr : k.descriptors.ptr d = some x) (hres : k.resourceById id = some (some r))
    (hvalue : k.resources.value r = none)
    (hunused : ((k.files.drop p d (k.descriptors.resource d) x).resources.descriptorsPtrs r).size = 0)
    (hfiles : k'.files = (k.files.drop p d (k.descriptors.resource d) x).destroy r)
    (hqueues : k'.queues.allocator = k.queues.allocator) (hret : k'.pcbs.syscallRetvalue p < 0)

/-- A resource that is there and is not open is destroyed. -/
theorem internalDestroyResource_unused (hp : k.running = some p)
    (hfound : k.resourceById id = some (some r)) (hunused : (k.resources.descriptorsPtrs r).size = 0)
    (hdestroy : internalDestroyResource id k = some k') : k'.pcbs.syscallRetvalue p = 0 := by
  rw [internalDestroyResource, hp, hfound] at hdestroy
  simp only [Option.bind_eq_bind, Option.bind_some, hunused, ne_eq, not_true_eq_false,
    if_false] at hdestroy
  obtain ⟨k₁, -, hrest⟩ := Option.bind_eq_some_iff.mp hdestroy
  obtain ⟨k₂, -, hk'⟩ := Option.bind_eq_some_iff.mp hrest
  rw [← Option.some.inj hk']
  exact Function.update_self ..

/-- Without a queue to give it, the resource is closed again, and destroyed if nobody else has it
open. -/
theorem giveUpResource_files (hp : k.running = some p) (hfound : k.resourceById id = some (some r))
    (hgive : k.giveUpResource p id fd = some k') :
    k'.pcbs.syscallRetvalue p < 0 ∧
      (k.descriptorByFd p fd = some none ∧ k'.files = k.files ∨
        ∃ d x, k.descriptorByFd p fd = some (some d) ∧ k.descriptors.ptr d = some x ∧
          (((k.files.drop p d (k.descriptors.resource d) x).resources.descriptorsPtrs r).size ≠ 0 ∧
              k'.files = k.files.drop p d (k.descriptors.resource d) x ∨
            ((k.files.drop p d (k.descriptors.resource d) x).resources.descriptorsPtrs r).size = 0 ∧
              k'.files = (k.files.drop p d (k.descriptors.resource d) x).destroy r)) := by
  obtain ⟨k₁, hclose, hrest⟩ := Option.bind_eq_some_iff.mp hgive
  have hframe := internalCloseResource_eq hclose
  have hrunning₁ : k₁.running = some p := by rw [hframe]; exact hp
  obtain ⟨p₁, hp₁, ⟨hnone, hfiles, hret⟩ | ⟨d, x, hd, hx, hfiles, hret⟩⟩ :=
    internalCloseResource_files hclose
  · obtain rfl := Option.some.inj (hp.symm.trans hp₁)
    rw [if_pos hret.ne] at hrest
    obtain rfl := Option.some.inj hrest
    exact ⟨hret, Or.inl ⟨hnone, hfiles⟩⟩
  · obtain rfl := Option.some.inj (hp.symm.trans hp₁)
    rw [if_neg (not_not.mpr hret)] at hrest
    obtain ⟨k₂, hdestroy, hrest⟩ := Option.bind_eq_some_iff.mp hrest
    have hlookup : k₁.resourceById id = k.resourceById id := by rw [hframe]; rfl
    obtain ⟨p₂, hp₂, ⟨hfiles₂, -, hret₂⟩ | ⟨r', hr', hsize, hfiles₂, -, hret₂⟩⟩ :=
      internalDestroyResource_files hdestroy
    · obtain rfl := Option.some.inj (hrunning₁.symm.trans hp₂)
      rw [if_pos hret₂.ne] at hrest
      obtain rfl := Option.some.inj hrest
      refine ⟨hret₂, Or.inr ⟨d, x, hd, hx, Or.inl ⟨fun hunused ↦ hret₂.ne ?_, hfiles₂.trans hfiles⟩⟩⟩
      rw [← hfiles] at hunused
      exact internalDestroyResource_unused hrunning₁ (hlookup.trans hfound) hunused hdestroy
    · obtain rfl := Option.some.inj (hrunning₁.symm.trans hp₂)
      rw [if_neg (not_not.mpr hret₂)] at hrest
      obtain rfl := Option.some.inj hrest
      rw [hlookup, hfound] at hr'
      obtain rfl : r = r' := Option.some.inj (Option.some.inj hr')
      refine ⟨?_, Or.inr ⟨d, x, hd, hx, Or.inr ⟨?_, ?_⟩⟩⟩
      · change update k₂.pcbs.syscallRetvalue p dsosEqueueopen p < 0
        rw [Function.update_self]
        decide
      · rw [← hfiles]
        exact hsize
      · rw [← hfiles]
        exact hfiles₂

theorem internalOpenQueue_files {mode : BitVec 32} (hopen : internalOpenQueue id fd mode k = some k') :
    ∃ p, k.running = some p ∧ k.OpensQueue p id fd mode k' := by
  obtain ⟨p, r, hp, hfound, ⟨q, hvalue, hjoin⟩ | ⟨hvalue, ⟨q, k₁, halloc, hjoin⟩ | ⟨-, hgive⟩⟩⟩ :=
    internalOpenQueue_cases hopen
  · have hframe := joinQueue_eq hjoin
    exact ⟨p, hp, .joined r q hfound hvalue ((congrArg files hframe).trans rfl)
      ((congrArg (·.queues.allocator) hframe).trans rfl)⟩
  · rcases hget : k.queues.allocator.getBlock with ⟨_ | q', pool⟩
    · simp [queueAlloc, hget] at halloc
    · have halloc' := halloc
      simp only [queueAlloc, hget, Prod.mk.injEq, Option.some.injEq] at halloc'
      obtain ⟨rfl, rfl⟩ := halloc'
      have hframe := joinQueue_eq hjoin
      exact ⟨p, hp, .fresh r q' pool hfound hvalue hget ((congrArg files hframe).trans rfl)
        ((congrArg (·.queues.allocator) hframe).trans rfl) _ halloc hjoin⟩
  · have hqueues : k'.queues.allocator = k.queues.allocator := by
      rw [(giveUpResource_store hfound hvalue hgive).2.2.1]
    obtain ⟨hret, ⟨-, hfiles⟩ | ⟨d, x, hd, hx, ⟨-, hfiles⟩ | ⟨hsize, hfiles⟩⟩⟩ :=
      giveUpResource_files hp hfound hgive
    · exact ⟨p, hp, .refused hfiles hqueues hret⟩
    · exact ⟨p, hp, .closed d x hd hx hfiles hqueues hret⟩
    · exact ⟨p, hp, .gaveUp r d x hd hx hfound hvalue hsize hfiles hqueues hret⟩

/-! ### Exit -/

theorem dropDescriptor_files (k : Kernel) (p d x : Addr) (hptr : k.descriptors.ptr d = some x) :
    (k.dropDescriptor p d).files = k.files.drop p d (k.descriptors.resource d) x := by
  have hptr' : (k.detachDescriptor p (some d)).descriptors.ptr d = some x := hptr
  have hptr'' : ((k.detachDescriptor p (some d)).detachDescriptorPtr (k.descriptors.resource d)
      (some x)).descriptors.ptr d = some x := hptr
  simp only [dropDescriptor, hptr', hptr'', Option.getD_some]
  rfl

/-- The induction rule for the loop: what every drop of a descriptor keeps, the loop keeps. -/
theorem releaseDescriptors_induct {P : Files → Prop} (hok : k.files.Ok) {bound : ℕ}
    (hrelease : releaseDescriptors p bound k = some k') (hstart : P k.files)
    (hdrop : ∀ f d x, f.Ok → P f → d ∈ f.descriptorNodes p → f.descriptors.ptr d = some x →
      P (f.drop p d (f.descriptors.resource d) x)) : P k'.files := by
  induction bound generalizing k with
  | zero =>
    rw [releaseDescriptors] at hrelease
    split_ifs at hrelease
    exact Option.some.inj hrelease ▸ hstart
  | succ bound ih =>
    rw [releaseDescriptors] at hrelease
    split at hrelease
    · exact Option.some.inj hrelease ▸ hstart
    · rename_i d hfirst
      obtain ⟨k₁, hleave, hrest⟩ := Option.bind_eq_some_iff.mp hrelease
      have hfiles₁ : k₁.files = k.files := by
        rw [leaveQueue_eq hleave]
        rfl
      have hd : d ∈ k.files.descriptorNodes p := by
        refine List.mem_of_head? ?_
        rw [← (hok.descriptorLists.represents p).first]
        exact hfirst
      obtain ⟨x, -, hptr, -⟩ := hok.pointer p d hd
      have hptr₁ : k₁.descriptors.ptr d = some x :=
        (congrArg (fun f : Files ↦ f.descriptors.ptr d) hfiles₁).trans hptr
      have hres : k₁.descriptors.resource d = k.files.descriptors.resource d :=
        congrArg (fun f : Files ↦ f.descriptors.resource d) hfiles₁
      have hfiles₂ := dropDescriptor_files k₁ p d x hptr₁
      rw [hfiles₁, hres] at hfiles₂
      refine ih ?_ hrest ?_
      · rw [hfiles₂]
        exact (Files.Holds.drop hok hd hptr).ok
      · rw [hfiles₂]
        exact hdrop k.files d x hok hstart hd hptr

/-- The loop ends when no descriptor is left. -/
theorem releaseDescriptors_done {bound : ℕ} (hrelease : releaseDescriptors p bound k = some k') :
    (k'.pcbs.descriptors p).first = none := by
  induction bound generalizing k with
  | zero =>
    rw [releaseDescriptors] at hrelease
    split_ifs at hrelease with hfirst
    rw [← Option.some.inj hrelease]
    simpa using hfirst
  | succ bound ih =>
    rw [releaseDescriptors] at hrelease
    split at hrelease
    · rw [← Option.some.inj hrelease]
      assumption
    · obtain ⟨k₁, -, hrest⟩ := Option.bind_eq_some_iff.mp hrelease
      exact ih hrest

/-- A process that exits and whose parent waits gives up all its descriptors. -/
theorem releaseDescriptors_files (h : k.files.Holds descs ptrs ress) {bound : ℕ}
    (hrelease : releaseDescriptors p bound k = some k') :
    ∃ ptrs', k'.files.Holds (update descs p []) ptrs' ress ∧ ∀ r, ptrs' r ⊆ ptrs r := by
  obtain ⟨descs', ptrs', hholds, hothers, hsub⟩ : ∃ descs' ptrs', k'.files.Holds descs' ptrs' ress ∧
      (∀ q ≠ p, descs' q = descs q) ∧ ∀ r, ptrs' r ⊆ ptrs r := by
    refine releaseDescriptors_induct (P := fun f ↦ ∃ descs' ptrs', f.Holds descs' ptrs' ress ∧
      (∀ q ≠ p, descs' q = descs q) ∧ ∀ r, ptrs' r ⊆ ptrs r) h.ok hrelease
      ⟨descs, ptrs, h, fun _ _ ↦ rfl, fun _ ↦ List.Subset.refl _⟩ ?_
    rintro f d x - ⟨descs', ptrs', hholds, hothers, hsub⟩ hd hptr
    rw [hholds.descriptorNodes_eq] at hd
    refine ⟨_, _, hholds.drop hd hptr, fun q hq ↦ ?_, fun r y hy ↦ hsub r ?_⟩
    · rw [Function.update_of_ne hq]
      exact hothers q hq
    · rw [Function.update_apply] at hy
      split_ifs at hy with hr
      · exact hr ▸ List.mem_of_mem_erase hy
      · exact hy
  have hnone : descs' p = [] := by
    rw [← List.head?_eq_none_iff, ← (hholds.descriptorLists.represents p).first]
    exact releaseDescriptors_done hrelease
  have hdescs : descs' = update descs p [] := by
    funext q
    by_cases hq : q = p
    · rw [hq, Function.update_self, hnone]
    · rw [Function.update_of_ne hq, hothers q hq]
  exact ⟨ptrs', hdescs ▸ hholds, hsub⟩

/-- What an exit does to the table: nothing, or the process gives up its descriptors. -/
theorem internalExit_files (h : k.files.Holds descs ptrs ress) {value : ℤ}
    (hexit : internalExit value k = some k') :
    k'.files = k.files ∨ ∃ p ptrs', k.running = some p ∧
      k'.files.Holds (update descs p []) ptrs' ress ∧ ∀ r, ptrs' r ⊆ ptrs r := by
  obtain ⟨p, k₁, parent, hp, hzombie, -, ⟨-, hexit⟩ | ⟨-, hexit⟩⟩ := internalExit_cases hexit
  · obtain ⟨selfInParent, k₂, k₃, hk₂, -, htimers, k₄, hdescriptors, rfl⟩ := exitToParent_cases hexit
    have hfiles₃ : k₃.files = k.files := by
      have hfiles : k₁.files = k.files := by
        rw [becomeZombie_eq hzombie]
        rfl
      have hfiles₂ : k₂.files = k₁.files := by
        rw [hk₂]
        rfl
      rw [releaseTimers_eq htimers]
      exact hfiles₂.trans hfiles
    obtain ⟨ptrs', hholds, hsub⟩ := releaseDescriptors_files (hfiles₃ ▸ h) hdescriptors
    exact Or.inr ⟨p, ptrs', hp, hholds, hsub⟩
  · left
    rw [exitToReady_eq hexit, becomeZombie_eq hzombie]
    rfl

theorem internalExit_induct {P : Files → Prop} (hok : k.files.Ok) {value : ℤ}
    (hexit : internalExit value k = some k') (hstart : P k.files)
    (hdrop : ∀ f p d x, f.Ok → P f → d ∈ f.descriptorNodes p → f.descriptors.ptr d = some x →
      k.running = some p → P (f.drop p d (f.descriptors.resource d) x)) : P k'.files := by
  obtain ⟨p, k₁, parent, hp, hzombie, -, ⟨-, hexit⟩ | ⟨-, hexit⟩⟩ := internalExit_cases hexit
  · obtain ⟨selfInParent, k₂, k₃, hk₂, -, htimers, k₄, hdescriptors, rfl⟩ := exitToParent_cases hexit
    have hfiles : k₃.files = k.files := by
      rw [releaseTimers_eq htimers, hk₂, becomeZombie_eq hzombie]
      rfl
    have hend : P k₄.files := releaseDescriptors_induct (hfiles ▸ hok) hdescriptors (hfiles ▸ hstart)
      fun f d x hf hP hd hptr ↦ hdrop f p d x hf hP hd hptr hp
    exact hend
  · have hfiles : k'.files = k.files := by
      rw [exitToReady_eq hexit, becomeZombie_eq hzombie]
      rfl
    exact hfiles ▸ hstart

/-- What an exit leaves alone in the table. -/
theorem internalExit_fields {value : ℤ} (hexit : internalExit value k = some k') :
    k'.files = { k.files with
      descriptors := { k.descriptors with
        list := k'.descriptors.list
        allocator := k'.descriptors.allocator }
      descriptorPtrs := { k.descriptorPtrs with
        list := k'.descriptorPtrs.list
        allocator := k'.descriptorPtrs.allocator }
      resources := { k.resources with descriptorsPtrs := k'.resources.descriptorsPtrs }
      lists := k'.pcbs.descriptors } ∧ k'.queues.allocator = k.queues.allocator := by
  obtain ⟨p, k₁, parent, -, hzombie, -, ⟨-, hexit⟩ | ⟨-, hexit⟩⟩ := internalExit_cases hexit
  · have hframe := exitToParent_eq hexit
    rw [becomeZombie_eq hzombie] at hframe
    constructor
    · exact (congrArg files hframe).trans rfl
    · exact (congrArg (·.queues.allocator) hframe).trans rfl
  · rw [exitToReady_eq hexit, becomeZombie_eq hzombie]
    exact ⟨rfl, rfl⟩

/-! ### The invariant -/

theorem Opens.ok {type : ℤ} {mode : BitVec 32} (h : k.files.Ok) (hopens : k.Opens p id type mode k') :
    k'.files.Ok := by
  cases hopens with
  | failed hfiles => exact hfiles ▸ h
  | joined r d x pool ptrPool hfound _ hget hgetPtr hfiles =>
    rw [hfiles]
    exact (Files.Holds.join h (resourceById_some h hfound).1 hget hgetPtr).ok
  | created r resPool hnone _ hnew hfiles =>
    rw [hfiles]
    exact (Files.Holds.create h id type hnew fun r' hr' ↦ resourceById_none h hnone hr').ok
  | createdJoined r d x resPool pool ptrPool hnone _ hnew hget hgetPtr hfiles =>
    rw [hfiles]
    have hcreated := Files.Holds.create h id type hnew fun r' hr' ↦
      resourceById_none h hnone hr'
    exact (hcreated.join (List.mem_append_right _ (List.mem_singleton_self r)) hget hgetPtr).ok

theorem OpensQueue.ok {mode : BitVec 32} (h : k.files.Ok) (hopens : k.OpensQueue p id fd mode k') :
    k'.files.Ok := by
  cases hopens with
  | joined r q _ _ hfiles =>
    rw [hfiles]
    exact (Files.Holds.setRwn h _).ok
  | fresh r q pool _ _ _ hfiles =>
    rw [hfiles]
    exact ((Files.Holds.setRwn h _).setValue _).ok
  | refused hfiles => exact hfiles ▸ h
  | closed d x hfound hptr hfiles =>
    rw [hfiles]
    exact (Files.Holds.drop h (descriptorByFd_some h hfound).1 hptr).ok
  | gaveUp r d x hfound hptr hres _ hunused hfiles =>
    rw [hfiles]
    have hdropped := Files.Holds.drop h (descriptorByFd_some h hfound).1 hptr
    exact (hdropped.destroy (resourceById_some h hres).1 (hdropped.unused hunused)).ok

/-- Every step keeps the table in order. -/
theorem filesOk_step (h : k.files.Ok) (hshutdown : k.request a ≠ some .shutdown)
    (hstep : k.step a = some k') : k'.files.Ok := by
  cases step_files hshutdown hstep with
  | same hfiles => exact hfiles ▸ h
  | newProcess p _ hfiles =>
    rw [hfiles]
    exact (Files.Holds.reset h p).ok
  | call p c next hp hcalls hkind hcall =>
    have htrap : (k.trap p next c).files.Ok := h
    cases c with
    | openResource id type mode =>
      obtain ⟨_, _, hopens⟩ := internalOpenResource_files htrap hcall
      exact hopens.ok htrap
    | closeResource fd =>
      obtain ⟨_, -, ⟨-, hfiles, -⟩ | ⟨d, x, hfound, hptr, hfiles, -⟩⟩ :=
        internalCloseResource_files hcall
      · exact hfiles ▸ htrap
      · rw [hfiles]
        exact (Files.Holds.drop htrap (descriptorByFd_some htrap hfound).1 hptr).ok
    | destroyResource id =>
      obtain ⟨_, -, ⟨hfiles, -⟩ | ⟨r, hfound, hsize, hfiles, -⟩⟩ :=
        internalDestroyResource_files hcall
      · exact hfiles ▸ htrap
      · rw [hfiles]
        exact (Files.Holds.destroy htrap (resourceById_some htrap hfound).1
          (Files.Holds.unused htrap hsize)).ok
    | openQueue id fd mode =>
      obtain ⟨_, -, hopens⟩ := internalOpenQueue_files hcall
      exact hopens.ok htrap
    | exit value =>
      obtain hfiles | ⟨_, _, -, hholds, -⟩ := internalExit_files htrap hcall
      · exact hfiles ▸ htrap
      · exact hholds.ok
    | _ => simp [Syscall.touchesFiles] at hkind

/-! ### The sizes of the pools -/

theorem internalExit_sized (h : k.files.Sized) (hok : k.files.Ok) {value : ℤ}
    (hexit : internalExit value k = some k') : k'.files.Sized :=
  internalExit_induct hok hexit h fun _ p d x _ hf _ _ _ ↦ hf.drop p d _ x

theorem Opens.sized {type : ℤ} {mode : BitVec 32} (h : k.files.Sized)
    (hopens : k.Opens p id type mode k') : k'.files.Sized := by
  cases hopens with
  | failed hfiles => exact hfiles ▸ h
  | joined r d x pool ptrPool _ _ hget _ hfiles =>
    rw [hfiles]
    exact h.join hget p r x
  | created r resPool _ _ hnew hfiles =>
    rw [hfiles]
    exact h.create id type hnew
  | createdJoined r d x resPool pool ptrPool _ _ hnew hget _ hfiles =>
    rw [hfiles]
    exact (h.create id type hnew).join hget p r x

theorem OpensQueue.sized {mode : BitVec 32} (h : k.files.Sized)
    (hopens : k.OpensQueue p id fd mode k') : k'.files.Sized := by
  cases hopens with
  | joined r q _ _ hfiles =>
    rw [hfiles]
    exact h.setRwn _
  | fresh r q pool _ _ _ hfiles =>
    rw [hfiles]
    exact (h.setRwn _).setValue _
  | refused hfiles => exact hfiles ▸ h
  | closed d x _ _ hfiles =>
    rw [hfiles]
    exact h.drop p d _ x
  | gaveUp r d x _ _ _ _ _ hfiles =>
    rw [hfiles]
    exact (h.drop p d _ x).destroy r

/-- Every step keeps the pools at their sizes. -/
theorem filesSized_step (hok : k.files.Ok) (h : k.files.Sized) (hshutdown : k.request a ≠ some .shutdown)
    (hstep : k.step a = some k') : k'.files.Sized := by
  cases step_files hshutdown hstep with
  | same hfiles => exact hfiles ▸ h
  | newProcess p _ hfiles =>
    rw [hfiles]
    exact h.reset p
  | call p c next hp hcalls hkind hcall =>
    have htrap : (k.trap p next c).files.Sized := h
    have hokTrap : (k.trap p next c).files.Ok := hok
    cases c with
    | openResource id type mode =>
      obtain ⟨_, _, hopens⟩ := internalOpenResource_files hokTrap hcall
      exact hopens.sized htrap
    | closeResource fd =>
      obtain ⟨_, -, ⟨-, hfiles, -⟩ | ⟨d, x, -, -, hfiles, -⟩⟩ := internalCloseResource_files hcall
      · exact hfiles ▸ htrap
      · rw [hfiles]
        exact htrap.drop _ d _ x
    | destroyResource id =>
      obtain ⟨_, -, ⟨hfiles, -⟩ | ⟨r, -, -, hfiles, -⟩⟩ := internalDestroyResource_files hcall
      · exact hfiles ▸ htrap
      · rw [hfiles]
        exact htrap.destroy r
    | openQueue id fd mode =>
      obtain ⟨_, -, hopens⟩ := internalOpenQueue_files hcall
      exact hopens.sized htrap
    | exit value => exact internalExit_sized htrap hokTrap hcall
    | _ => simp [Syscall.touchesFiles] at hkind

end Kernel

theorem Layout.boot_filesOk (layout : Layout) : layout.boot.files.Ok := by
  have hdescriptors := freshPool_ok (by decide : 1 ≤ sizeofDescriptor)
    (by decide : 1 ≤ maxNumProcesses) (by decide) layout.descriptorBuffer
  have hpointers := freshPool_ok (by decide : 1 ≤ sizeofDescriptorPtr)
    (by decide : 1 ≤ maxNumProcesses) (by decide) layout.descriptorPtrBuffer
  have hresources := freshPool_ok (by decide : 1 ≤ sizeofResource)
    (by decide : 1 ≤ maxNumResources) (by decide) layout.resourcesBuffer
  have hholds : layout.boot.files.Holds (fun _ ↦ []) (fun _ ↦ []) [] :=
    { descriptorLists := ⟨fun _ ↦ represents_empty _, fun _ _ _ hd ↦ absurd hd List.not_mem_nil⟩
      pointerLists := ⟨fun _ ↦ represents_empty _, fun _ _ _ hx ↦ absurd hx List.not_mem_nil⟩
      resourceList := represents_empty _
      descriptorPool := hdescriptors.1
      pointerPool := hpointers.1
      resourcePool := hresources.1
      sameSize := rfl
      descriptor_allocated := fun _ _ hd ↦ absurd hd List.not_mem_nil
      pointer_allocated := fun _ _ hx ↦ absurd hx List.not_mem_nil
      resource_allocated := fun _ hr ↦ absurd hr List.not_mem_nil
      ids := fun _ hr ↦ absurd hr List.not_mem_nil
      pointer := fun _ _ hd ↦ absurd hd List.not_mem_nil
      listed := fun _ _ hx ↦ absurd hx List.not_mem_nil
      fd_lt := fun _ _ hd ↦ absurd hd List.not_mem_nil
      fd_inj := fun _ _ hd ↦ absurd hd List.not_mem_nil
      lastFd_nonneg := fun _ ↦ le_rfl }
  exact hholds.ok

end DisastrOS
