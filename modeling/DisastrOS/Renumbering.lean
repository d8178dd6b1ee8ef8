import DisastrOS.SharedQueues

/-!
# Runs that differ in the blocks they use

Two runs in which processes open and close queues, one of them with a descriptor that the other does not
have. `Kernel.Alike` says how their states correspond: blocks are renamed (`Renaming`), some blocks are
hidden (`Blocks`), and the rest is the same (`Kernel.SameRest`). Each operation of `dmq_open` and
`dmq_close`, and each switch of processes, keeps the correspondence when it is done in both runs.
-/

set_option autoImplicit false
set_option relaxedAutoImplicit false

namespace DisastrOS

open LinkedLists PoolAllocator Renamings
open Function (update)

/-- Where the descriptors, the pointers to them and the queue users of one run are in another one. -/
structure Renaming where
  descriptors : Equiv.Perm Addr
  pointers : Equiv.Perm Addr
  users : Equiv.Perm Addr

/-- Nothing is renamed. -/
def Renaming.same : Renaming := ⟨1, 1, 1⟩

/-- The renaming after a process has taken `d'` and `x'` in one run, and `d` and `x` in the other. -/
def Renaming.join (ρ : Renaming) (d d' x x' : Addr) : Renaming where
  descriptors := relabel ρ.descriptors d' d
  pointers := relabel ρ.pointers x' x
  users := ρ.users

/-- The renaming after `u'` has been taken in one run, and `u` in the other. -/
def Renaming.enter (ρ : Renaming) (u u' : Addr) : Renaming :=
  { ρ with users := relabel ρ.users u' u }

/-- Descriptors, pointers to them and queue users, and how many of the first and the last there are. -/
@[ext]
structure Blocks where
  descriptors : Set Addr
  pointers : Set Addr
  users : Set Addr
  descriptorCount : ℕ
  userCount : ℕ

/-- The same point of the user code, with the blocks that it speaks of renamed. -/
def Context.rename (ρ : Renaming) : Context → Context
  | .closeDetach fd q d role => .closeDetach fd q (ρ.descriptors d) role
  | .closeFree fd q d role entry => .closeFree fd q (ρ.descriptors d) role (entry.map ρ.users)
  | c => c

/-- The descriptor that a point of the user code speaks of. -/
def Context.descriptor : Context → Option Addr
  | .closeDetach _ _ d _ => some d
  | .closeFree _ _ d _ _ => some d
  | _ => none

theorem Context.rename_congr {ρ ρ₁ : Renaming} {c : Context}
    (hdescriptor : ∀ d, c.descriptor = some d → ρ₁.descriptors d = ρ.descriptors d)
    (haside : ∀ u, c.aside = some u → ρ₁.users u = ρ.users u) : c.rename ρ₁ = c.rename ρ := by
  cases c with
  | closeDetach fd q d role => rw [rename, rename, hdescriptor d rfl]
  | closeFree fd q d role entry =>
    have hentry : entry.map ρ₁.users = entry.map ρ.users := by
      cases entry with
      | none => rfl
      | some u => exact congrArg some (haside u rfl)
    rw [rename, rename, hdescriptor d rfl, hentry]
  | _ => rfl

theorem Context.rename_same (c : Context) : c.rename .same = c := by
  cases c with
  | closeFree fd q d role entry => cases entry <;> rfl
  | _ => rfl

namespace Kernel

variable {layout : Layout} {k k' k'' k₁ k₁' t : Kernel} {p o d q q' r u : Addr} {role : Role} {id fd : ℤ}

/-! ### The rest of the kernel -/

/-- `k` with the descriptors and the queue users of `t`, and with the points, the numbers and the last
calls of its processes. -/
def graft (t k : Kernel) : Kernel :=
  { k with
    pcbs := { k.pcbs with
      cpuState := t.pcbs.cpuState
      lastFd := t.pcbs.lastFd
      descriptors := t.pcbs.descriptors
      syscall := t.pcbs.syscall
      syscallRetvalue := t.pcbs.syscallRetvalue }
    resources.descriptorsPtrs := t.resources.descriptorsPtrs
    descriptors := t.descriptors
    descriptorPtrs := t.descriptorPtrs
    queues := { k.queues with
      users := t.queues.users
      openings := t.queues.openings }
    queueUsers := t.queueUsers }

/-- The two kernels agree on all the rest. -/
def SameRest (k k' : Kernel) : Prop := k = k.graft k'

theorem SameRest.eq_graft (h : k.SameRest k') : k = k.graft k' := h

theorem SameRest.symm (h : k.SameRest k') : k'.SameRest k := by
  have hgraft : k'.graft (k.graft k') = k'.graft k := congrArg k'.graft h.eq_graft.symm
  exact hgraft

theorem SameRest.trans (h : k.SameRest k') (h' : k'.SameRest k'') : k.SameRest k'' := by
  have hgraft : k.graft k' = k.graft (k'.graft k'') := congrArg k.graft h'.eq_graft
  exact h.eq_graft.trans hgraft

theorem SameRest.running (h : k.SameRest k') : k.running = k'.running := by
  rw [h.eq_graft]
  rfl

theorem SameRest.pid (h : k.SameRest k') : k.pcbs.pid = k'.pcbs.pid := by
  rw [h.eq_graft]
  rfl

/-- The resources are the same but for the pointers to their descriptors. -/
theorem SameRest.resources (h : k.SameRest k') :
    k.resources = { k'.resources with descriptorsPtrs := k.resources.descriptorsPtrs } := by
  rw [h.eq_graft]
  rfl

theorem SameRest.resourcesList (h : k.SameRest k') : k.resourcesList = k'.resourcesList := by
  rw [h.eq_graft]
  rfl

/-! ### Scheduling looks at nothing else -/

theorem graft_timerListRemoveCurrent (t k : Kernel) :
    (t.graft k).timerListRemoveCurrent = t.graft k.timerListRemoveCurrent := by
  have hsame : (t.graft k).timerList = k.timerList := rfl
  cases hfirst : k.timerList.first with
  | none => simp only [timerListRemoveCurrent, hsame, hfirst]
  | some item =>
    simp only [timerListRemoveCurrent, hsame, hfirst]
    rfl

theorem graft_wakeProcess (t k : Kernel) (previousPcb : Option Addr) (elapsed : Addr) :
    (t.graft k).wakeProcess previousPcb elapsed = t.graft (k.wakeProcess previousPcb elapsed) := by
  set woken := k.timerItems.pcb elapsed with hwoken
  set k₁ := (k.detachPcb .waiting (some woken)).setStatus woken .ready with hk₁
  exact graft_timerListRemoveCurrent t
    ({ k₁ with pcbs.timer := update k₁.pcbs.timer woken none }.insertPcb .ready previousPcb
      (some woken))

theorem graft_wakeElapsed (t k : Kernel) (bound : ℕ) (previousPcb : Option Addr) :
    wakeElapsed bound previousPcb (t.graft k) = (wakeElapsed bound previousPcb k).map t.graft := by
  have hsame : (t.graft k).timerListCurrent = k.timerListCurrent := rfl
  induction bound generalizing k previousPcb with
  | zero =>
    rw [wakeElapsed, wakeElapsed, hsame]
    split_ifs <;> rfl
  | succ bound ih =>
    cases hcurrent : k.timerListCurrent with
    | none => simp only [wakeElapsed, hsame, hcurrent, Option.map_some]
    | some elapsed =>
      simp only [wakeElapsed, hsame, hcurrent]
      rw [graft_wakeProcess]
      exact ih _ _ rfl

theorem graft_switchToReady (t k : Kernel) :
    (t.graft k).switchToReady = k.switchToReady.map t.graft := by
  have hfirst : ((t.graft k).lists .ready).first = (k.lists .ready).first := rfl
  cases hready : (k.lists .ready).first with
  | none => simp only [switchToReady, hfirst, hready, Option.map_some]
  | some next =>
    have hrunning : ((t.graft k).detachPcb .ready (some next)).running = k.running := rfl
    have hrunning' : (k.detachPcb .ready (some next)).running = k.running := rfl
    simp only [switchToReady, hfirst, hready, hrunning, hrunning']
    cases k.running with
    | none => rfl
    | some p => rfl

theorem graft_internalSchedule (t k : Kernel) :
    (t.graft k).internalSchedule = k.internalSchedule.map t.graft := by
  rw [internalSchedule, graft_wakeElapsed]
  cases hwake : wakeElapsed walkBound none k with
  | none => simp [internalSchedule, hwake]
  | some k₁ => simp [internalSchedule, hwake, graft_switchToReady]

/-! ### The relation -/

/-- The descriptors, by their processes. -/
def descriptorStore (k : Kernel) : Store Addr Addr :=
  ⟨k.descriptors.allocator.Allocated, k.files.descriptorNodes⟩

/-- The pointers to them, by their resources. -/
def pointerStore (k : Kernel) : Store Addr Addr :=
  ⟨k.descriptorPtrs.allocator.Allocated, k.files.pointerNodes⟩

/-- The queue users, by their lists. -/
def userStore (k : Kernel) : Store Addr (Addr × Role) :=
  ⟨k.queueUsers.allocator.Allocated, k.userNodes⟩

/-- Descriptor `d` of process `o` in `k'` has the same contents as its counterpart in `k`. An entry that
`dmq_close` has detached does not count. -/
structure SameDescriptor (ρ : Renaming) (k k' : Kernel) (o d : Addr) : Prop where
  fd : k.descriptors.fd (ρ.descriptors d) = k'.descriptors.fd d
  resource : k.descriptors.resource (ρ.descriptors d) = k'.descriptors.resource d
  pcb : k.descriptors.pcb (ρ.descriptors d) = k'.descriptors.pcb d
  ptr : k.descriptors.ptr (ρ.descriptors d) = (k'.descriptors.ptr d).map ρ.pointers
  entry : ∀ role, ¬ (k'.pcbs.cpuState o).Left (k'.descriptors.fd d) role →
    k.descriptors.rwn (ρ.descriptors d) role = (k'.descriptors.rwn d role).map ρ.users

/-- The processes but `p` stand at the same points in both kernels, and all that has to do with other
things than queues is the same. -/
structure AlikeProcesses (p : Addr) (ρ : Renaming) (k k' : Kernel) : Prop where
  rest : k.SameRest k'
  context : ∀ o, o ≠ p → k.pcbs.cpuState o = (k'.pcbs.cpuState o).rename ρ
  syscall : ∀ o, o ≠ p → k.pcbs.syscall o = k'.pcbs.syscall o
  retvalue : ∀ o, o ≠ p → k.pcbs.syscallRetvalue o = k'.pcbs.syscallRetvalue o
  lastFd : k.pcbs.lastFd = update k'.pcbs.lastFd p (k'.pcbs.lastFd p + 1)

/-- A block that can only serve an entry of another process than `p` in queue `q` of resource `r` is the
only kind of block that is not the same in both kernels. -/
structure OnlyMoves (p r q : Addr) (ρ : Renaming) (k' : Kernel) : Prop where
  descriptor : ∀ d, k'.descriptors.allocator.Allocated d → ρ.descriptors d ≠ d →
    d ∉ k'.files.descriptorNodes p ∧ k'.descriptors.resource d = r
  pointer : ∀ x, k'.descriptorPtrs.allocator.Allocated x → ρ.pointers x ≠ x →
    (∀ d ∈ k'.files.descriptorNodes p, k'.descriptors.ptr d ≠ some x) ∧
      ∀ r', r' ≠ r → x ∉ k'.files.pointerNodes r'
  user : ∀ u, k'.queueUsers.allocator.Allocated u → ρ.users u ≠ u →
    (∀ d ∈ k'.files.descriptorNodes p, ∀ role, k'.descriptors.rwn d role ≠ some u) ∧
      ∀ i : Addr × Role, i.1 ≠ q → u ∉ k'.userNodes i

/-- Kernel `k` is `k'` with other blocks, with the hidden blocks besides, and with `n` more openings of
queue `q`. -/
structure Alike (p r q : Addr) (hidden : Blocks) (n : ℤ) (ρ : Renaming) (k k' : Kernel) : Prop where
  processes : AlikeProcesses p ρ k k'
  descriptors : Renames ρ.descriptors hidden.descriptors k.descriptorStore k'.descriptorStore
  pointers : Renames ρ.pointers hidden.pointers k.pointerStore k'.pointerStore
  users : Renames ρ.users hidden.users k.userStore k'.userStore
  descriptorSize :
    k.descriptors.allocator.size + hidden.descriptorCount = k'.descriptors.allocator.size
  userSize : k.queueUsers.allocator.size + hidden.userCount = k'.queueUsers.allocator.size
  openings : k.queues.openings = update k'.queues.openings q (k'.queues.openings q + n)
  same : ∀ o, ∀ d ∈ k'.files.descriptorNodes o, SameDescriptor ρ k k' o d
  userPid : ∀ u, k'.queueUsers.allocator.Allocated u →
    k.queueUsers.pid (ρ.users u) = k'.queueUsers.pid u ∧
      k.queueUsers.status (ρ.users u) = k'.queueUsers.status u
  moves : OnlyMoves p r q ρ k'

/-- The second run has no less room. -/
theorem Alike.descriptor_room {ρ : Renaming} {hidden : Blocks} {n : ℤ}
    (h : Alike p r q hidden n ρ k k') :
    k.descriptors.allocator.size ≤ k'.descriptors.allocator.size := by
  have hsize := h.descriptorSize
  omega

theorem Alike.user_room {ρ : Renaming} {hidden : Blocks} {n : ℤ}
    (h : Alike p r q hidden n ρ k k') :
    k.queueUsers.allocator.size ≤ k'.queueUsers.allocator.size := by
  have hsize := h.userSize
  omega

/-! ### What the operations do to the stores -/

theorem UsersOrdered.userStore_detach {i : Addr × Role} (h : k.UsersOrdered k.userNodes)
    (hu : u ∈ k.userNodes i) : (k.detachUser i (some u)).userStore = k.userStore.erase i u := by
  rw [userStore, (h.leave hu).userNodes_eq]
  rfl

theorem UsersOrdered.userStore_free (h : k.UsersOrdered k.userNodes)
    (hallocated : k.queueUsers.allocator.Allocated u) :
    (k.queueUserFree (some u)).userStore = k.userStore.release u := by
  obtain ⟨-, -, hafter⟩ := h.pool.release hallocated
  ext1
  · funext v
    exact propext (hafter v)
  · rfl

theorem Entered.userStore_eq {pid : ℤ}
    (h : k.Entered k.userNodes q d pid role u (k.enterUser q d pid role u)) :
    (k.enterUser q d pid role u).userStore = (k.userStore.take u).append (q, role) u := by
  ext1
  · funext v
    exact propext (h.allocated v)
  · exact h.listed.userNodes_eq

theorem stores_join {x : Addr} {pool ptrPool : PoolAllocator} (hok : k.files.Ok)
    (hr : r ∈ k.files.resourceNodes) (hget : k.descriptors.allocator.getBlock = (some d, pool))
    (hgetPtr : k.descriptorPtrs.allocator.getBlock = (some x, ptrPool))
    (hfiles : k₁.files = k.files.join o r d x pool ptrPool) :
    k₁.descriptorStore = (k.descriptorStore.take d).append o d ∧
      k₁.pointerStore = (k.pointerStore.take x).append r x := by
  obtain ⟨-, -, -, -, hallocated⟩ := getBlock_some hok.descriptorPool hget
  obtain ⟨-, -, -, -, hallocatedPtr⟩ := getBlock_some hok.pointerPool hgetPtr
  have hjoin := Files.Holds.join (p := o) hok hr hget hgetPtr
  have hpool : k₁.descriptors.allocator = pool :=
    congrArg (fun f : Files ↦ f.descriptors.allocator) hfiles
  have hptrPool : k₁.descriptorPtrs.allocator = ptrPool :=
    congrArg (fun f : Files ↦ f.descriptorPtrs.allocator) hfiles
  constructor
  · ext1
    · funext v
      rw [descriptorStore, hpool]
      exact propext (hallocated v)
    · rw [descriptorStore, hfiles]
      exact hjoin.descriptorNodes_eq
  · ext1
    · funext v
      rw [pointerStore, hptrPool]
      exact propext (hallocatedPtr v)
    · rw [pointerStore, hfiles]
      exact hjoin.pointerNodes_eq

theorem stores_drop {x : Addr} (hok : k.files.Ok) (hd : d ∈ k.files.descriptorNodes o)
    (hptr : k.descriptors.ptr d = some x)
    (hfiles : k₁.files = k.files.drop o d (k.descriptors.resource d) x) :
    k₁.descriptorStore = (k.descriptorStore.erase o d).release d ∧
      k₁.pointerStore = (k.pointerStore.erase (k.descriptors.resource d) x).release x := by
  have hdrop := Files.Holds.drop hok hd hptr
  obtain ⟨x', hx', hptr', -⟩ := hok.pointer o d hd
  obtain rfl := Option.some.inj (hptr'.symm.trans hptr)
  obtain ⟨-, -, hafter⟩ := hok.descriptorPool.release (hok.descriptor_allocated o d hd)
  obtain ⟨-, -, hafterPtr⟩ := hok.pointerPool.release (hok.pointer_allocated _ x' hx')
  have hpool : k₁.descriptors.allocator = (k.descriptors.allocator.releaseBlock d).2 :=
    congrArg (fun f : Files ↦ f.descriptors.allocator) hfiles
  have hptrPool : k₁.descriptorPtrs.allocator = (k.descriptorPtrs.allocator.releaseBlock x').2 :=
    congrArg (fun f : Files ↦ f.descriptorPtrs.allocator) hfiles
  constructor
  · ext1
    · funext v
      rw [descriptorStore, hpool]
      exact propext (hafter v)
    · rw [descriptorStore, hfiles]
      exact hdrop.descriptorNodes_eq
  · ext1
    · funext v
      rw [pointerStore, hptrPool]
      exact propext (hafterPtr v)
    · rw [pointerStore, hfiles]
      exact hdrop.pointerNodes_eq

variable {ρ ρ₁ : Renaming} {hidden : Blocks} {n : ℤ} {c c' c₁ c₁' : Context}

theorem descriptorStore_congr (hfiles : k₁.files = k.files) : k₁.descriptorStore = k.descriptorStore := by
  have hdescs : k₁.descriptors = k.descriptors := congrArg Files.descriptors hfiles
  rw [descriptorStore, descriptorStore, hfiles, hdescs]

theorem pointerStore_congr (hfiles : k₁.files = k.files) : k₁.pointerStore = k.pointerStore := by
  have hptrs : k₁.descriptorPtrs = k.descriptorPtrs := congrArg Files.descriptorPtrs hfiles
  rw [pointerStore, pointerStore, hfiles, hptrs]

theorem userStore_congr (husers : k₁.queueUsers = k.queueUsers)
    (hqueues : k₁.queues.users = k.queues.users) : k₁.userStore = k.userStore := by
  rw [userStore, userStore, husers, userNodes_congr husers hqueues]

/-- One process goes on, at the same point in both kernels. -/
theorem AlikeProcesses.goOn (h : AlikeProcesses p ρ k k') (hrest : k.SameRest k₁)
    (hrest' : k'.SameRest k₁') (hcontext : k₁.pcbs.cpuState = update k.pcbs.cpuState o c)
    (hcontext' : k₁'.pcbs.cpuState = update k'.pcbs.cpuState o c') (hsame : c = c'.rename ρ)
    (hsyscall : ∀ o, o ≠ p → k₁.pcbs.syscall o = k₁'.pcbs.syscall o)
    (hretvalue : ∀ o, o ≠ p → k₁.pcbs.syscallRetvalue o = k₁'.pcbs.syscallRetvalue o)
    (hlastFd : k₁.pcbs.lastFd = update k₁'.pcbs.lastFd p (k₁'.pcbs.lastFd p + 1)) :
    AlikeProcesses p ρ k₁ k₁' where
  rest := (hrest.symm.trans h.rest).trans hrest'
  context o' hne := by
    rw [hcontext, hcontext']
    by_cases ho : o' = o
    · subst ho
      rw [Function.update_self, Function.update_self]
      exact hsame
    · rw [Function.update_of_ne ho, Function.update_of_ne ho]
      exact h.context o' hne
  syscall := hsyscall
  retvalue := hretvalue
  lastFd := hlastFd

/-- A renaming that treats the blocks of the points in the same way. -/
theorem AlikeProcesses.renumber (h : AlikeProcesses p ρ k k')
    (hcongr : ∀ o, (k'.pcbs.cpuState o).rename ρ₁ = (k'.pcbs.cpuState o).rename ρ) :
    AlikeProcesses p ρ₁ k k' :=
  { h with context := fun o hne ↦ (h.context o hne).trans (hcongr o).symm }

theorem SameDescriptor.congr {k₂ k₂' : Kernel} (h : SameDescriptor ρ k k' o d)
    (hdescs : k₂.descriptors = { k.descriptors with
      allocator := k₂.descriptors.allocator
      list := k₂.descriptors.list })
    (hdescs' : k₂'.descriptors = { k'.descriptors with
      allocator := k₂'.descriptors.allocator
      list := k₂'.descriptors.list })
    (hleft : ∀ role, (k'.pcbs.cpuState o).Left (k'.descriptors.fd d) role →
      (k₂'.pcbs.cpuState o).Left (k'.descriptors.fd d) role) : SameDescriptor ρ k₂ k₂' o d where
  fd := by rw [hdescs, hdescs']; exact h.fd
  resource := by rw [hdescs, hdescs']; exact h.resource
  pcb := by rw [hdescs, hdescs']; exact h.pcb
  ptr := by rw [hdescs, hdescs']; exact h.ptr
  entry role hinside := by
    rw [hdescs'] at hinside
    rw [hdescs, hdescs']
    exact h.entry role fun hbefore ↦ hinside (hleft role hbefore)

theorem OnlyMoves.congr (h : OnlyMoves p r q ρ k') (hfiles' : k₁'.files = k'.files)
    (husers' : k₁'.queueUsers = k'.queueUsers) (hqueues' : k₁'.queues.users = k'.queues.users) :
    OnlyMoves p r q ρ k₁' := by
  have hdescs : k₁'.descriptors = k'.descriptors := congrArg Files.descriptors hfiles'
  have hptrs : k₁'.descriptorPtrs = k'.descriptorPtrs := congrArg Files.descriptorPtrs hfiles'
  have hnodes : k₁'.userNodes = k'.userNodes := userNodes_congr husers' hqueues'
  constructor
  · rw [hfiles', hdescs]
    exact h.descriptor
  · rw [hfiles', hdescs, hptrs]
    exact h.pointer
  · rw [hfiles', hdescs, husers', hnodes]
    exact h.user

/-- The descriptors and the users stay as they are. -/
theorem Alike.of_sameTables {n₁ : ℤ} (h : Alike p r q hidden n ρ k k') (hfiles : k₁.files = k.files)
    (husers : k₁.queueUsers = k.queueUsers) (hqueues : k₁.queues.users = k.queues.users)
    (hfiles' : k₁'.files = k'.files) (husers' : k₁'.queueUsers = k'.queueUsers)
    (hqueues' : k₁'.queues.users = k'.queues.users) (hprocesses : AlikeProcesses p ρ k₁ k₁')
    (hopenings : k₁.queues.openings = update k₁'.queues.openings q (k₁'.queues.openings q + n₁))
    (hleft : ∀ o, ∀ d ∈ k'.files.descriptorNodes o, ∀ role,
      (k'.pcbs.cpuState o).Left (k'.descriptors.fd d) role →
        (k₁'.pcbs.cpuState o).Left (k'.descriptors.fd d) role) :
    Alike p r q hidden n₁ ρ k₁ k₁' := by
  have hdescs : k₁.descriptors = k.descriptors := congrArg Files.descriptors hfiles
  have hdescs' : k₁'.descriptors = k'.descriptors := congrArg Files.descriptors hfiles'
  refine ⟨hprocesses, ?_, ?_, ?_, ?_, ?_, hopenings, fun o d hd ↦ ?_, ?_, ?_⟩
  · rw [descriptorStore_congr hfiles, descriptorStore_congr hfiles']
    exact h.descriptors
  · rw [pointerStore_congr hfiles, pointerStore_congr hfiles']
    exact h.pointers
  · rw [userStore_congr husers hqueues, userStore_congr husers' hqueues']
    exact h.users
  · rw [hdescs, hdescs']
    exact h.descriptorSize
  · rw [husers, husers']
    exact h.userSize
  · rw [hfiles'] at hd
    exact (h.same o d hd).congr (by rw [hdescs]) (by rw [hdescs']) (hleft o d hd)
  · rw [husers, husers']
    exact h.userPid
  · exact h.moves.congr hfiles' husers' hqueues'

/-- One process goes on to another point, and an opening may be counted. -/
theorem Alike.setContext (h : Alike p r q hidden n ρ k k') {openings openings' : Addr → ℤ}
    (hsame : c = c'.rename ρ) (hopenings : openings = update openings' q (openings' q + n))
    (hleft : ∀ fd role, (k'.pcbs.cpuState o).Left fd role → c'.Left fd role) :
    Alike p r q hidden n ρ ({ k with queues.openings := openings }.setContext o c)
      ({ k' with queues.openings := openings' }.setContext o c') := by
  have hprocesses : AlikeProcesses p ρ ({ k with queues.openings := openings }.setContext o c)
      ({ k' with queues.openings := openings' }.setContext o c') :=
    h.processes.goOn rfl rfl rfl rfl hsame h.processes.syscall h.processes.retvalue
      h.processes.lastFd
  refine h.of_sameTables rfl rfl rfl rfl rfl rfl hprocesses hopenings fun o' d _ role hbefore ↦ ?_
  change (update k'.pcbs.cpuState o c' o').Left _ role
  by_cases ho : o' = o
  · subst ho
    rw [Function.update_self]
    exact hleft _ role hbefore
  · rw [Function.update_of_ne ho]
    exact hbefore

/-! ### Switching processes -/

theorem Alike.internalSchedule (h : Alike p r q hidden n ρ k k')
    (hschedule : k.internalSchedule = some k₁) :
    ∃ k₁', k'.internalSchedule = some k₁' ∧ Alike p r q hidden n ρ k₁ k₁' := by
  have hgraft := graft_internalSchedule k k'
  rw [← h.processes.rest.eq_graft, hschedule] at hgraft
  obtain ⟨k₁', hschedule', hk₁⟩ := Option.map_eq_some_iff.mp hgraft.symm
  have hframe := internalSchedule_eq hschedule'
  refine ⟨k₁', hschedule', ?_⟩
  have hrest : k₁.SameRest k₁' := by
    rw [← hk₁]
    rfl
  have hstates : k₁.pcbs.cpuState = k.pcbs.cpuState ∧ k₁.pcbs.syscall = k.pcbs.syscall ∧
      k₁.pcbs.syscallRetvalue = k.pcbs.syscallRetvalue ∧ k₁.pcbs.lastFd = k.pcbs.lastFd := by
    rw [← hk₁]
    exact ⟨rfl, rfl, rfl, rfl⟩
  have hstates' : k₁'.pcbs.cpuState = k'.pcbs.cpuState ∧ k₁'.pcbs.syscall = k'.pcbs.syscall ∧
      k₁'.pcbs.syscallRetvalue = k'.pcbs.syscallRetvalue ∧ k₁'.pcbs.lastFd = k'.pcbs.lastFd := by
    rw [hframe]
    exact ⟨rfl, rfl, rfl, rfl⟩
  have hprocesses : AlikeProcesses p ρ k₁ k₁' := by
    obtain ⟨hcontext, hsyscall, hret, hfd⟩ := hstates
    obtain ⟨hcontext', hsyscall', hret', hfd'⟩ := hstates'
    constructor
    · exact hrest
    · rw [hcontext, hcontext']
      exact h.processes.context
    · rw [hsyscall, hsyscall']
      exact h.processes.syscall
    · rw [hret, hret']
      exact h.processes.retvalue
    · rw [hfd, hfd']
      exact h.processes.lastFd
  apply h.of_sameTables
  · have hfiles : (k.graft k').files = k.files := congrArg files h.processes.rest.eq_graft.symm
    rw [← hk₁, hframe]
    exact hfiles
  · rw [← hk₁]
    rfl
  · rw [← hk₁]
    rfl
  · rw [hframe]
    rfl
  · rw [hframe]
  · rw [hframe]
  · exact hprocesses
  · rw [← hk₁, hframe]
    exact h.openings
  · intro o d _ role hbefore
    rw [hstates'.1]
    exact hbefore

theorem Alike.timer (h : Alike p r q hidden n ρ k k') (hstep : k.step .timer = some k₁) :
    ∃ k₁', k'.step .timer = some k₁' ∧ Alike p r q hidden n ρ k₁ k₁' := by
  obtain ⟨o, hp, hschedule⟩ := Option.bind_eq_some_iff.mp hstep
  have htick : Alike p r q hidden n ρ { k with disastrOSTime := toInt (k.disastrOSTime + 1) }
      { k' with disastrOSTime := toInt (k'.disastrOSTime + 1) } := by
    have hrest : { k with disastrOSTime := toInt (k.disastrOSTime + 1) } =
        { k.graft k' with disastrOSTime := toInt ((k.graft k').disastrOSTime + 1) } :=
      congrArg (fun k : Kernel ↦ { k with disastrOSTime := toInt (k.disastrOSTime + 1) })
        h.processes.rest.eq_graft
    have hprocesses : AlikeProcesses p ρ { k with disastrOSTime := toInt (k.disastrOSTime + 1) }
        { k' with disastrOSTime := toInt (k'.disastrOSTime + 1) } :=
      { h.processes with rest := hrest }
    exact h.of_sameTables rfl rfl rfl rfl rfl rfl hprocesses h.openings fun _ _ _ _ hbefore ↦ hbefore
  obtain ⟨k₁', hschedule', hafter⟩ := htick.internalSchedule hschedule
  have hp' : k'.running = some o := h.processes.rest.running.symm.trans hp
  exact ⟨k₁', Option.bind_eq_some_iff.mpr ⟨o, hp', hschedule'⟩, hafter⟩

theorem Alike.preempt (h : Alike p r q hidden n ρ k k') (hat : k'.atUser = true)
    (hstep : k.step (.syscall .preempt) = some k₁) :
    ∃ k₁', k'.step (.syscall .preempt) = some k₁' ∧ Alike p r q hidden n ρ k₁ k₁' := by
  rw [step, Option.ite_none_right_eq_some] at hstep
  obtain ⟨o, hp, hschedule⟩ := Option.bind_eq_some_iff.mp hstep.2
  have htrap : Alike p r q hidden n ρ
      { k with pcbs.syscall := update k.pcbs.syscall o (some .preempt) }
      { k' with pcbs.syscall := update k'.pcbs.syscall o (some .preempt) } := by
    have hprocesses : AlikeProcesses p ρ
        { k with pcbs.syscall := update k.pcbs.syscall o (some .preempt) }
        { k' with pcbs.syscall := update k'.pcbs.syscall o (some .preempt) } := by
      refine ⟨?_, h.processes.context, fun o' hne ↦ ?_, h.processes.retvalue, h.processes.lastFd⟩
      · have hrest : k.SameRest { k' with pcbs.syscall := update k'.pcbs.syscall o (some .preempt) } :=
          h.processes.rest
        exact SameRest.trans rfl hrest
      · change update k.pcbs.syscall o _ o' = update k'.pcbs.syscall o _ o'
        rw [Function.update_apply, Function.update_apply, h.processes.syscall o' hne]
    exact h.of_sameTables rfl rfl rfl rfl rfl rfl hprocesses h.openings fun _ _ _ _ hbefore ↦ hbefore
  obtain ⟨k₁', hschedule', hafter⟩ := htrap.internalSchedule hschedule
  have hp' : k'.running = some o := h.processes.rest.running.symm.trans hp
  refine ⟨k₁', ?_, hafter⟩
  rw [step, if_pos hat]
  exact Option.bind_eq_some_iff.mpr ⟨o, hp', hschedule'⟩

/-! ### The statements of `dmq_close` -/

/-- A process detaches an entry. -/
theorem Alike.closeDetach (h : Alike p r q' hidden n ρ k k') (hk : k.Consistent layout)
    (hk' : k'.Consistent layout) (hne : o ≠ p)
    (hcontext' : k'.pcbs.cpuState o = .closeDetach fd q d role) :
    Alike p r q' hidden n ρ
      ((k.detachUser (q, role) (k.descriptors.rwn (ρ.descriptors d) role)).setContext o
        (.closeFree fd q (ρ.descriptors d) role (k.descriptors.rwn (ρ.descriptors d) role)))
      ((k'.detachUser (q, role) (k'.descriptors.rwn d role)).setContext o
        (.closeFree fd q d role (k'.descriptors.rwn d role))) := by
  have hcontext : k.pcbs.cpuState o = .closeDetach fd q (ρ.descriptors d) role := by
    rw [h.processes.context o hne, hcontext']
    rfl
  have hsound := hk'.sound o
  rw [hcontext'] at hsound
  have hleft : ∀ fd' role', (k'.pcbs.cpuState o).Left fd' role' →
      (Context.closeFree fd q d role (k'.descriptors.rwn d role)).Left fd' role' := by
    rw [hcontext']
    rintro fd' role' ⟨hfd, hrole⟩
    exact ⟨hfd, Or.inr hrole⟩
  have hentry : k.descriptors.rwn (ρ.descriptors d) role =
      (k'.descriptors.rwn d role).map ρ.users := by
    apply (h.same o d hsound.mem).entry
    rw [hcontext']
    exact fun hbefore ↦ role.notMem_before hbefore.2
  rw [hentry]
  cases hentry' : k'.descriptors.rwn d role with
  | none =>
    rw [Option.map_none, detachUser_null, detachUser_null]
    rw [hentry'] at hleft
    exact h.setContext rfl h.openings hleft
  | some u =>
    rw [Option.map_some]
    rw [hentry', Option.map_some] at hentry
    obtain ⟨henlists', hu'⟩ := hk'.enlists_closeDetach hcontext' hentry'
    obtain ⟨henlists, hu⟩ := hk.enlists_closeDetach hcontext hentry
    have hallocated' : k'.queueUsers.allocator.Allocated u := hk'.allocated henlists'
    have hmem' : ∀ i v, v ∈ (k'.detachUser (q, role) (some u)).userNodes i → v ∈ k'.userNodes i := by
      intro i v hv
      rw [(hk'.ordered.leave hu').userNodes_eq] at hv
      exact ((hk'.ordered.lists.mem_update_erase hu').mp hv).1
    refine ⟨?_, h.descriptors, h.pointers, ?_, h.descriptorSize, h.userSize, h.openings,
      fun o' d' hd' ↦ ?_, h.userPid, h.moves.descriptor, h.moves.pointer, fun v hv hmoved ↦ ?_⟩
    · exact h.processes.goOn rfl rfl rfl rfl rfl h.processes.syscall h.processes.retvalue
        h.processes.lastFd
    · have hstore : (k.detachUser (q, role) (some (ρ.users u))).userStore =
          k.userStore.erase (q, role) (ρ.users u) := hk.ordered.userStore_detach hu
      have hstore' : (k'.detachUser (q, role) (some u)).userStore =
          k'.userStore.erase (q, role) u := hk'.ordered.userStore_detach hu'
      have herase := h.users.erase hallocated' (q, role)
      rw [← hstore, ← hstore'] at herase
      exact herase
    · refine (h.same o' d' hd').congr rfl rfl fun role' hbefore ↦ ?_
      change (update k'.pcbs.cpuState o _ o').Left _ role'
      by_cases ho : o' = o
      · subst ho
        rw [Function.update_self]
        rw [hentry'] at hleft
        exact hleft _ role' hbefore
      · rw [Function.update_of_ne ho]
        exact hbefore
    · obtain ⟨hentries, hlists⟩ := h.moves.user v hv hmoved
      exact ⟨hentries, fun i hi hmem ↦ hlists i hi (hmem' i v hmem)⟩

theorem afterRole_rename (fd : ℤ) (q d : Addr) (role : Role) :
    afterRole fd q (ρ.descriptors d) role = (afterRole fd q d role).rename ρ := by
  cases role <;> rfl

/-- A process frees the user that it has set aside. -/
theorem Alike.closeFree {entry : Option Addr} (h : Alike p r q' hidden n ρ k k')
    (hk : k.Consistent layout) (hk' : k'.Consistent layout) (hne : o ≠ p)
    (hcontext' : k'.pcbs.cpuState o = .closeFree fd q d role entry) :
    Alike p r q' hidden n ρ
      ((k.queueUserFree (entry.map ρ.users)).setContext o (afterRole fd q (ρ.descriptors d) role))
      ((k'.queueUserFree entry).setContext o (afterRole fd q d role)) := by
  have hcontext : k.pcbs.cpuState o =
      .closeFree fd q (ρ.descriptors d) role (entry.map ρ.users) := by
    rw [h.processes.context o hne, hcontext']
    rfl
  have hsame : afterRole fd q (ρ.descriptors d) role = (afterRole fd q d role).rename ρ :=
    afterRole_rename fd q d role
  have hleft : ∀ fd' role', (k'.pcbs.cpuState o).Left fd' role' →
      (afterRole fd q d role).Left fd' role' := by
    rw [hcontext']
    exact fun fd' role' ↦ afterRole_left
  cases entry with
  | none =>
    rw [Option.map_none, queueUserFree_null hk.samePool, queueUserFree_null hk'.samePool]
    exact h.setContext hsame h.openings hleft
  | some u =>
    rw [Option.map_some]
    have haside : k.Aside k.userNodes (ρ.users u) := hk.aside (o := o) (by rw [hcontext]; rfl)
    have haside' : k'.Aside k'.userNodes u := hk'.aside (o := o) (by rw [hcontext']; rfl)
    obtain ⟨-, hsize, -⟩ := hk.ordered.pool.release haside.allocated
    obtain ⟨-, hsize', hafter'⟩ := hk'.ordered.pool.release haside'.allocated
    refine ⟨?_, h.descriptors, h.pointers, ?_, h.descriptorSize, ?_, h.openings,
      fun o' d' hd' ↦ ?_, fun v hv ↦ h.userPid v ((hafter' v).mp hv).2, h.moves.descriptor,
      h.moves.pointer, fun v hv hmoved ↦ ?_⟩
    · exact h.processes.goOn rfl rfl rfl rfl hsame h.processes.syscall h.processes.retvalue
        h.processes.lastFd
    · have hstore : (k.queueUserFree (some (ρ.users u))).userStore =
          k.userStore.release (ρ.users u) := hk.ordered.userStore_free haside.allocated
      have hstore' : (k'.queueUserFree (some u)).userStore = k'.userStore.release u :=
        hk'.ordered.userStore_free haside'.allocated
      have hrelease := h.users.release haside'.allocated haside'.notMem
      rw [← hstore, ← hstore'] at hrelease
      exact hrelease
    · change (k.queueUsers.allocator.releaseBlock (ρ.users u)).2.size + (hidden.userCount : ℤ) =
        (k'.queueUsers.allocator.releaseBlock u).2.size
      rw [hsize, hsize', add_right_comm, h.userSize]
    · refine (h.same o' d' hd').congr rfl rfl fun role' hbefore ↦ ?_
      change (update k'.pcbs.cpuState o _ o').Left _ role'
      by_cases ho : o' = o
      · subst ho
        rw [Function.update_self]
        exact hleft _ role' hbefore
      · rw [Function.update_of_ne ho]
        exact hbefore
    · exact h.moves.user v ((hafter' v).mp hv).2 hmoved

theorem Alike.mem_nodes (h : Alike p r q' hidden n ρ k k') (hok' : k'.files.Ok)
    (hd : d ∈ k'.files.descriptorNodes o) : ρ.descriptors d ∈ k.files.descriptorNodes o :=
  (h.descriptors.mem_iff (i := o) (hok'.descriptor_allocated o d hd)).mpr hd

theorem Alike.value (h : Alike p r q' hidden n ρ k k') : k.resources.value = k'.resources.value := by
  rw [h.processes.rest.resources]

/-- The counterpart of a descriptor with its number and its queue. -/
theorem Alike.closes (h : Alike p r q' hidden n ρ k k') (hok' : k'.files.Ok)
    (hcloses : k'.Closes o fd q d) : k.Closes o fd q (ρ.descriptors d) := by
  have hsame := h.same o d hcloses.mem
  refine ⟨h.mem_nodes hok' hcloses.mem, hsame.fd.trans hcloses.fd_eq, ?_⟩
  rw [h.value, hsame.resource]
  exact hcloses.value

/-- The statement that starts a `dmq_close`, with the descriptor that it finds. -/
theorem runStatement_close {found : Option Addr} (hfound : k.descriptorByFd o fd = some found) :
    k.runStatement o (.close fd) = some (k.setContext o
      (match found with
        | none => .user invalidFd
        | some d => match k.resources.value (k.descriptors.resource d) with
          | none => .user invalidFd
          | some q => .closeDetach fd q d .reader)) := by
  simp only [runStatement, queueByFd, queueEntries, hfound, Option.bind_eq_bind, Option.bind_some]
  cases found with
  | none => rfl
  | some d =>
    cases hvalue : k.resources.value (k.descriptors.resource d) with
    | none => simp only [hvalue, Option.bind_some]
    | some q => simp only [hvalue, Option.bind_some]

/-- A process starts a `dmq_close`. -/
theorem Alike.close (h : Alike p r q' hidden n ρ k k') (hk : k.Consistent layout)
    (hk' : k'.Consistent layout) (hne : o ≠ p)
    (howned : ∀ d ∈ hidden.descriptors, d ∈ k.files.descriptorNodes p)
    (hcontext' : k'.pcbs.cpuState o = .close fd)
    (hrun : k.runStatement o (.close fd) = some k₁) :
    ∃ k₁', k'.runStatement o (.close fd) = some k₁' ∧ Alike p r q' hidden n ρ k₁ k₁' := by
  have hleft : ∀ {c : Context}, ∀ fd role, (k'.pcbs.cpuState o).Left fd role → c.Left fd role := by
    rw [hcontext']
    exact fun fd role hleft ↦ hleft.elim
  have hfind' := descriptorByFd_find hk'.files hk'.sized o fd
  cases hfound' : (k'.files.descriptorNodes o).find? fun d ↦ k'.descriptors.fd d = fd with
  | some d =>
    rw [hfound'] at hfind'
    obtain ⟨hd', hfd'⟩ := descriptorByFd_some hk'.files hfind'
    have hsame := h.same o d hd'
    have hfind : k.descriptorByFd o fd = some (some (ρ.descriptors d)) := by
      have hfd : k.descriptors.fd (ρ.descriptors d) = fd := hsame.fd.trans hfd'
      rw [← hfd]
      exact descriptorByFd_of_mem hk.files hk.sized (h.mem_nodes hk'.files hd')
    refine ⟨_, runStatement_close hfind', ?_⟩
    rw [runStatement_close hfind] at hrun
    rw [← Option.some.inj hrun]
    have hvalue : k.resources.value (k.descriptors.resource (ρ.descriptors d)) =
        k'.resources.value (k'.descriptors.resource d) := by
      rw [h.value, hsame.resource]
    simp only [hvalue]
    cases k'.resources.value (k'.descriptors.resource d) with
    | none => exact h.setContext rfl h.openings hleft
    | some q => exact h.setContext rfl h.openings hleft
  | none =>
    rw [hfound'] at hfind'
    have hfind := descriptorByFd_find hk.files hk.sized o fd
    cases hfound : (k.files.descriptorNodes o).find? fun d ↦ k.descriptors.fd d = fd with
    | some d =>
      -- it would be the counterpart of one
      rw [hfound] at hfind
      obtain ⟨hd, hfd⟩ := descriptorByFd_some hk.files hfind
      have hvisible : d ∈ visible hidden.descriptors (k.files.descriptorNodes o) :=
        mem_visible.mpr ⟨hd, fun hhidden ↦ Files.Ok.disjoint hk.files hne hd (howned d hhidden)⟩
      have hmap := h.descriptors.lists o
      change visible hidden.descriptors (k.files.descriptorNodes o) = _ at hmap
      rw [hmap] at hvisible
      obtain ⟨d', hd', rfl⟩ := List.mem_map.mp hvisible
      have hnone := List.find?_eq_none.mp hfound' d' hd'
      rw [← (h.same o d' hd').fd, hfd] at hnone
      simp at hnone
    | none =>
      rw [hfound] at hfind
      refine ⟨_, runStatement_close hfind', ?_⟩
      rw [runStatement_close hfind] at hrun
      rw [← Option.some.inj hrun]
      exact h.setContext rfl h.openings hleft

/-! ### A descriptor that is closed -/

/-- Process `o` has given descriptor `d` and the pointer `x` to it back. -/
structure Drops (k : Kernel) (o d x : Addr) (k₁ : Kernel) : Prop where
  mem : d ∈ k.files.descriptorNodes o
  memPtr : x ∈ k.files.pointerNodes (k.descriptors.resource d)
  descriptorStore : k₁.descriptorStore = (k.descriptorStore.erase o d).release d
  pointerStore : k₁.pointerStore = (k.pointerStore.erase (k.descriptors.resource d) x).release x
  size : k₁.descriptors.allocator.size = k.descriptors.allocator.size + 1
  descriptors : k₁.descriptors = { k.descriptors with
    allocator := k₁.descriptors.allocator
    list := k₁.descriptors.list }
  queueUsers : k₁.queueUsers = k.queueUsers
  queues : k₁.queues = k.queues

theorem drops_of_close {x : Addr} {next : Context} (hok : k.files.Ok)
    (hd : d ∈ k.files.descriptorNodes o) (hptr : k.descriptors.ptr d = some x)
    (hclose : internalCloseResource fd (k.trap o next (.closeResource fd)) = some k₁)
    (hfiles : k₁.files = k.files.drop o d (k.descriptors.resource d) x) : k.Drops o d x k₁ := by
  have hframe := internalCloseResource_eq hclose
  obtain ⟨x', hx', hptr', -⟩ := hok.pointer o d hd
  obtain rfl := Option.some.inj (hptr'.symm.trans hptr)
  obtain ⟨hstore, hstorePtr⟩ := stores_drop hok hd hptr hfiles
  obtain ⟨-, hsize, -⟩ := hok.descriptorPool.release (hok.descriptor_allocated o d hd)
  have hpool : k₁.descriptors.allocator = (k.descriptors.allocator.releaseBlock d).2 :=
    congrArg (fun f : Files ↦ f.descriptors.allocator) hfiles
  refine ⟨hd, hx', hstore, hstorePtr, ?_, ?_, ?_, ?_⟩
  · rw [hpool]
    exact hsize
  · rw [hframe]
    rfl
  · rw [hframe]
    rfl
  · rw [hframe]
    rfl

theorem Drops.mem_iff {x : Addr} (h : k.Drops o d x k₁) (hok : k.files.Ok) {o' d' : Addr} :
    d' ∈ k₁.files.descriptorNodes o' ↔ d' ∈ k.files.descriptorNodes o' ∧ d' ≠ d := by
  have hnodes : k₁.files.descriptorNodes =
      update k.files.descriptorNodes o ((k.files.descriptorNodes o).erase d) :=
    congrArg Store.lists h.descriptorStore
  rw [hnodes]
  exact hok.descriptorLists.mem_update_erase h.mem

theorem Drops.mem_pointers_iff {x : Addr} (h : k.Drops o d x k₁) (hok : k.files.Ok) {r' x' : Addr} :
    x' ∈ k₁.files.pointerNodes r' ↔ x' ∈ k.files.pointerNodes r' ∧ x' ≠ x := by
  have hnodes : k₁.files.pointerNodes = update k.files.pointerNodes (k.descriptors.resource d)
      ((k.files.pointerNodes (k.descriptors.resource d)).erase x) :=
    congrArg Store.lists h.pointerStore
  rw [hnodes]
  exact hok.pointerLists.mem_update_erase h.memPtr

theorem Drops.nodes_of_ne {x : Addr} (h : k.Drops o d x k₁) {o' : Addr} (hne : o' ≠ o) :
    k₁.files.descriptorNodes o' = k.files.descriptorNodes o' := by
  have hnodes : k₁.files.descriptorNodes =
      update k.files.descriptorNodes o ((k.files.descriptorNodes o).erase d) :=
    congrArg Store.lists h.descriptorStore
  rw [hnodes, Function.update_of_ne hne]

theorem Drops.allocated {x d' : Addr} (h : k.Drops o d x k₁)
    (hd' : k₁.descriptors.allocator.Allocated d') : k.descriptors.allocator.Allocated d' := by
  have htaken : k₁.descriptorStore.taken d' := hd'
  rw [h.descriptorStore] at htaken
  exact htaken.2

theorem Drops.allocatedPtr {x x' : Addr} (h : k.Drops o d x k₁)
    (hx' : k₁.descriptorPtrs.allocator.Allocated x') : k.descriptorPtrs.allocator.Allocated x' := by
  have htaken : k₁.pointerStore.taken x' := hx'
  rw [h.pointerStore] at htaken
  exact htaken.2

theorem OnlyMoves.drop {x : Addr} (h : OnlyMoves p r q ρ k') (hok' : k'.files.Ok) (hne : o ≠ p)
    (hdrop' : k'.Drops o d x k₁') : OnlyMoves p r q ρ k₁' := by
  have hnodes := hdrop'.nodes_of_ne (Ne.symm hne)
  constructor
  · intro d' hd' hmoved
    rw [hnodes, hdrop'.descriptors]
    exact h.descriptor d' (hdrop'.allocated hd') hmoved
  · intro y hy hmoved
    rw [hnodes, hdrop'.descriptors]
    obtain ⟨hown, hlists⟩ := h.pointer y (hdrop'.allocatedPtr hy) hmoved
    exact ⟨hown, fun r' hr' hmem ↦ hlists r' hr' ((hdrop'.mem_pointers_iff hok').mp hmem).1⟩
  · rw [hnodes, hdrop'.descriptors, hdrop'.queueUsers,
      userNodes_congr hdrop'.queueUsers (congrArg Queues.users hdrop'.queues)]
    exact h.user

/-- The same process gives a descriptor back in both runs. -/
theorem Alike.drop {x : Addr} (h : Alike p r q' hidden n ρ k k') (hok' : k'.files.Ok) (hne : o ≠ p)
    (hdrop : k.Drops o (ρ.descriptors d) (ρ.pointers x) k₁) (hdrop' : k'.Drops o d x k₁')
    (hprocesses : AlikeProcesses p ρ k₁ k₁')
    (hleft : ∀ o' d', d' ∈ k'.files.descriptorNodes o' → d' ≠ d → ∀ role,
      (k'.pcbs.cpuState o').Left (k'.descriptors.fd d') role →
        (k₁'.pcbs.cpuState o').Left (k'.descriptors.fd d') role) :
    Alike p r q' hidden n ρ k₁ k₁' := by
  have htaken := hok'.descriptor_allocated o d hdrop'.mem
  have htakenPtr := hok'.pointer_allocated _ x hdrop'.memPtr
  refine ⟨hprocesses, ?_, ?_, ?_, ?_, ?_, ?_, fun o' d' hd' ↦ ?_, ?_, h.moves.drop hok' hne hdrop'⟩
  · rw [hdrop.descriptorStore, hdrop'.descriptorStore]
    refine (h.descriptors.erase htaken o).release htaken fun o' hmem ↦ ?_
    exact ((hok'.descriptorLists.mem_update_erase hdrop'.mem).mp hmem).2 rfl
  · rw [hdrop.pointerStore, hdrop'.pointerStore, (h.same o d hdrop'.mem).resource]
    refine (h.pointers.erase htakenPtr _).release htakenPtr fun r' hmem ↦ ?_
    exact ((hok'.pointerLists.mem_update_erase hdrop'.memPtr).mp hmem).2 rfl
  · rw [userStore_congr hdrop.queueUsers (congrArg Queues.users hdrop.queues),
      userStore_congr hdrop'.queueUsers (congrArg Queues.users hdrop'.queues)]
    exact h.users
  · rw [hdrop.size, hdrop'.size, add_right_comm, h.descriptorSize]
  · rw [hdrop.queueUsers, hdrop'.queueUsers]
    exact h.userSize
  · rw [hdrop.queues, hdrop'.queues]
    exact h.openings
  · obtain ⟨hmem, hother⟩ := (hdrop'.mem_iff hok').mp hd'
    exact (h.same o' d' hmem).congr hdrop.descriptors hdrop'.descriptors (hleft o' d' hmem hother)
  · rw [hdrop.queueUsers, hdrop'.queueUsers]
    exact h.userPid

/-- A process closes the resource, after it has left the lists. -/
theorem Alike.closeResource (h : Alike p r q' hidden n ρ k k') (hk : k.Consistent layout)
    (hk' : k'.Consistent layout) (hp : k.running = some o) (hne : o ≠ p)
    (hcontext' : k'.pcbs.cpuState o = .closeResource fd q)
    (hclose : internalCloseResource fd (k.trap o (.closeResult q) (.closeResource fd)) = some k₁) :
    ∃ k₁', internalCloseResource fd (k'.trap o (.closeResult q) (.closeResource fd)) = some k₁' ∧
      Alike p r q' hidden n ρ k₁ k₁' := by
  have hp' : k'.running = some o := h.processes.rest.running.symm.trans hp
  obtain ⟨d, x, hcloses', hfound', hptr'⟩ := hk'.closing hcontext'
  have hcloses := h.closes hk'.files hcloses'
  have hptr : k.descriptors.ptr (ρ.descriptors d) = some (ρ.pointers x) := by
    rw [(h.same o d hcloses'.mem).ptr, hptr']
    rfl
  obtain ⟨k₂, hclose₂, hfiles, hret⟩ := internalCloseResource_found
    (k := k.trap o (.closeResult q) (.closeResource fd)) hp (hk.descriptorByFd hcloses) hptr
  obtain rfl := Option.some.inj (hclose.symm.trans hclose₂)
  obtain ⟨k₁', hclose', hfiles', hret'⟩ := internalCloseResource_found
    (k := k'.trap o (.closeResult q) (.closeResource fd)) hp' hfound' hptr'
  have hframe := internalCloseResource_eq hclose
  have hframe' := internalCloseResource_eq hclose'
  have hcontext₁' : k₁'.pcbs.cpuState = update k'.pcbs.cpuState o (.closeResult q) := by
    rw [hframe']
    rfl
  have hprocesses : AlikeProcesses p ρ k₁ k₁' := by
    refine h.processes.goOn ?_ ?_ ?_ hcontext₁' rfl (fun o' ho' ↦ ?_) (fun o' ho' ↦ ?_) ?_
    · rw [hframe]
      rfl
    · rw [hframe']
      rfl
    · rw [hframe]
      rfl
    · rw [hframe, hframe']
      change update k.pcbs.syscall o _ o' = update k'.pcbs.syscall o _ o'
      rw [Function.update_apply, Function.update_apply, h.processes.syscall o' ho']
    · rw [hret, hret']
      change update k.pcbs.syscallRetvalue o _ o' = update k'.pcbs.syscallRetvalue o _ o'
      rw [Function.update_apply, Function.update_apply, h.processes.retvalue o' ho']
    · rw [hframe, hframe']
      exact h.processes.lastFd
  refine ⟨k₁', hclose', h.drop hk'.files hne (drops_of_close hk.files hcloses.mem hptr hclose hfiles)
    (drops_of_close hk'.files hcloses'.mem hptr' hclose' hfiles') hprocesses ?_⟩
  intro o' d' hmem hother role hbefore
  rw [hcontext₁']
  by_cases ho : o' = o
  · -- no other descriptor has the number
    subst ho
    rw [hcontext'] at hbefore
    have hfd : k'.descriptors.fd d' = k'.descriptors.fd d := by
      rw [hcloses'.fd_eq]
      exact hbefore
    exact absurd (hk'.files.fd_inj o' d' hmem d hcloses'.mem hfd) hother
  · rw [Function.update_of_ne ho]
    exact hbefore

/-! ### A new descriptor -/

/-- Process `o` has taken descriptor `d` and pointer `x` to it, for resource `r`. -/
structure Joins (k : Kernel) (o r d x : Addr) (k₁ : Kernel) : Prop where
  free : ¬ k.descriptors.allocator.Allocated d
  freePtr : ¬ k.descriptorPtrs.allocator.Allocated x
  descriptorStore : k₁.descriptorStore = (k.descriptorStore.take d).append o d
  pointerStore : k₁.pointerStore = (k.pointerStore.take x).append r x
  size : k₁.descriptors.allocator.size = k.descriptors.allocator.size - 1
  descriptors : k₁.descriptors = { k.descriptors with
    allocator := k₁.descriptors.allocator
    list := k₁.descriptors.list
    pcb := update k.descriptors.pcb d o
    resource := update k.descriptors.resource d r
    fd := update k.descriptors.fd d (k.pcbs.lastFd o)
    rwn := update k.descriptors.rwn d fun _ ↦ none
    ptr := update k.descriptors.ptr d (some x) }
  lastFd : k₁.pcbs.lastFd = update k.pcbs.lastFd o (k.pcbs.lastFd o + 1)
  queueUsers : k₁.queueUsers = k.queueUsers
  queues : k₁.queues = k.queues

theorem joins_of_files {x : Addr} {pool ptrPool : PoolAllocator} (hok : k.files.Ok)
    (hr : r ∈ k.files.resourceNodes) (hget : k.descriptors.allocator.getBlock = (some d, pool))
    (hgetPtr : k.descriptorPtrs.allocator.getBlock = (some x, ptrPool))
    (hfiles : k₁.files = k.files.join o r d x pool ptrPool) (husers : k₁.queueUsers = k.queueUsers)
    (hqueues : k₁.queues = k.queues) : k.Joins o r d x k₁ := by
  obtain ⟨hstore, hstorePtr⟩ := stores_join hok hr hget hgetPtr hfiles
  obtain ⟨-, -, hfree, hsize, -⟩ := getBlock_some hok.descriptorPool hget
  obtain ⟨-, -, hfreePtr, -, -⟩ := getBlock_some hok.pointerPool hgetPtr
  have hpool : k₁.descriptors.allocator = pool :=
    congrArg (fun f : Files ↦ f.descriptors.allocator) hfiles
  have hdescs : k₁.descriptors = (k.files.join o r d x pool ptrPool).descriptors :=
    congrArg Files.descriptors hfiles
  refine ⟨hfree, hfreePtr, hstore, hstorePtr, ?_, ?_, congrArg Files.lastFd hfiles, husers, hqueues⟩
  · rw [hpool]
    exact hsize
  · rw [hdescs]
    rfl

theorem Joins.mem_iff {x : Addr} (h : k.Joins o r d x k₁) {o' d' : Addr} :
    d' ∈ k₁.files.descriptorNodes o' ↔ d' ∈ k.files.descriptorNodes o' ∨ d' = d ∧ o' = o := by
  have hnodes : k₁.files.descriptorNodes =
      update k.files.descriptorNodes o (k.files.descriptorNodes o ++ [d]) :=
    congrArg Store.lists h.descriptorStore
  rw [hnodes]
  exact mem_update_append

theorem Joins.mem_pointers_iff {x : Addr} (h : k.Joins o r d x k₁) {r' x' : Addr} :
    x' ∈ k₁.files.pointerNodes r' ↔ x' ∈ k.files.pointerNodes r' ∨ x' = x ∧ r' = r := by
  have hnodes : k₁.files.pointerNodes =
      update k.files.pointerNodes r (k.files.pointerNodes r ++ [x]) :=
    congrArg Store.lists h.pointerStore
  rw [hnodes]
  exact mem_update_append

theorem Joins.allocated_iff {x : Addr} (h : k.Joins o r d x k₁) {d' : Addr} :
    k₁.descriptors.allocator.Allocated d' ↔ d' = d ∨ k.descriptors.allocator.Allocated d' :=
  iff_of_eq (congrFun (congrArg Store.taken h.descriptorStore) d')

theorem Joins.allocatedPtr_iff {x : Addr} (h : k.Joins o r d x k₁) {x' : Addr} :
    k₁.descriptorPtrs.allocator.Allocated x' ↔ x' = x ∨ k.descriptorPtrs.allocator.Allocated x' :=
  iff_of_eq (congrFun (congrArg Store.taken h.pointerStore) x')

/-- The other descriptors are as before. -/
theorem Joins.kept {x : Addr} (h : k.Joins o r d x k₁) {d' : Addr} (hne : d' ≠ d) :
    k₁.descriptors.fd d' = k.descriptors.fd d' ∧
      k₁.descriptors.resource d' = k.descriptors.resource d' ∧
      k₁.descriptors.pcb d' = k.descriptors.pcb d' ∧
      k₁.descriptors.ptr d' = k.descriptors.ptr d' ∧
      k₁.descriptors.rwn d' = k.descriptors.rwn d' := by
  rw [h.descriptors]
  exact ⟨Function.update_of_ne hne .., Function.update_of_ne hne .., Function.update_of_ne hne ..,
    Function.update_of_ne hne .., Function.update_of_ne hne ..⟩

theorem Joins.new {x : Addr} (h : k.Joins o r d x k₁) :
    k₁.descriptors.fd d = k.pcbs.lastFd o ∧ k₁.descriptors.resource d = r ∧
      k₁.descriptors.pcb d = o ∧ k₁.descriptors.ptr d = some x ∧
      ∀ role, k₁.descriptors.rwn d role = none := by
  rw [h.descriptors]
  exact ⟨Function.update_self .., Function.update_self .., Function.update_self ..,
    Function.update_self .., fun role ↦ congrFun (Function.update_self d _ k.descriptors.rwn) role⟩

/-- The descriptor that a point speaks of is allocated. -/
theorem Consistent.descriptor_allocated (h : k.Consistent layout)
    (hdescriptor : (k.pcbs.cpuState o).descriptor = some d) :
    k.descriptors.allocator.Allocated d := by
  have hsound := h.sound o
  revert hsound hdescriptor
  generalize k.pcbs.cpuState o = c
  intro hdescriptor hsound
  cases c with
  | closeDetach fd q d' role =>
    obtain rfl := Option.some.inj hdescriptor
    exact h.files.descriptor_allocated o d' hsound.mem
  | closeFree fd q d' role entry =>
    obtain rfl := Option.some.inj hdescriptor
    exact h.files.descriptor_allocated o d' hsound.1.mem
  | _ => cases hdescriptor

/-- The descriptors that were there keep their names. -/
theorem Alike.join_kept {d' x x' d₁ : Addr} (h : Alike p r q hidden n ρ k k')
    (hjoin : k.Joins o r d x k₁) (hjoin' : k'.Joins o r d' x' k₁')
    (hd₁ : k'.descriptors.allocator.Allocated d₁) :
    (ρ.join d d' x x').descriptors d₁ = ρ.descriptors d₁ :=
  h.descriptors.relabel_of_taken hjoin'.free hjoin.free hd₁

theorem Alike.join_keptPtr {d' x x' x₁ : Addr} (h : Alike p r q hidden n ρ k k')
    (hjoin : k.Joins o r d x k₁) (hjoin' : k'.Joins o r d' x' k₁')
    (hx₁ : k'.descriptorPtrs.allocator.Allocated x₁) :
    (ρ.join d d' x x').pointers x₁ = ρ.pointers x₁ :=
  h.pointers.relabel_of_taken hjoin'.freePtr hjoin.freePtr hx₁

theorem Joins.ne_new {x o₁ d₁ : Addr} (h : k.Joins o r d x k₁) (hok : k.files.Ok)
    (hd₁ : d₁ ∈ k.files.descriptorNodes o₁) : d₁ ≠ d := by
  rintro rfl
  exact h.free (hok.descriptor_allocated o₁ d₁ hd₁)

/-- The descriptors of the two runs, the new one among them. -/
theorem Alike.same_join {d' x x' o₁ d₁ : Addr} (h : Alike p r q hidden n ρ k k') (hok' : k'.files.Ok)
    (hne : o ≠ p) (hjoin : k.Joins o r d x k₁) (hjoin' : k'.Joins o r d' x' k₁')
    (hleft : ∀ o fd role, (k'.pcbs.cpuState o).Left fd role → (k₁'.pcbs.cpuState o).Left fd role)
    (hd₁ : d₁ ∈ k₁'.files.descriptorNodes o₁) : SameDescriptor (ρ.join d d' x x') k₁ k₁' o₁ d₁ := by
  obtain hold | ⟨rfl, rfl⟩ := hjoin'.mem_iff.mp hd₁
  · have hallocated := hok'.descriptor_allocated o₁ d₁ hold
    have hkept := h.join_kept hjoin hjoin' hallocated
    have hne₁ : ρ.descriptors d₁ ≠ d := by
      rintro rfl
      exact hjoin.free (h.descriptors.taken hallocated)
    obtain ⟨hfd, hresource, hpcb, hptr, hrwn⟩ := hjoin.kept hne₁
    obtain ⟨hfd', hresource', hpcb', hptr', hrwn'⟩ := hjoin'.kept (hjoin'.ne_new hok' hold)
    obtain ⟨x₁, hx₁, hptr₁, -⟩ := hok'.pointer o₁ d₁ hold
    have hptrx : k'.descriptors.ptr d₁ = some x₁ := hptr₁
    have hkeptPtr := h.join_keptPtr hjoin hjoin' (hok'.pointer_allocated _ x₁ hx₁)
    have hsame := h.same o₁ d₁ hold
    constructor
    · rw [hkept, hfd, hfd', hsame.fd]
    · rw [hkept, hresource, hresource', hsame.resource]
    · rw [hkept, hpcb, hpcb', hsame.pcb]
    · rw [hkept, hptr, hptr', hsame.ptr, hptrx, Option.map_some, Option.map_some, hkeptPtr]
    · intro role hinside
      rw [hfd'] at hinside
      rw [hkept, hrwn, hrwn']
      exact hsame.entry role fun hbefore ↦ hinside (hleft o₁ _ role hbefore)
  · have hnew : (ρ.join d d₁ x x').descriptors d₁ = d := relabel_self ..
    have hnewPtr : (ρ.join d d₁ x x').pointers x' = x := relabel_self ..
    obtain ⟨hfd, hresource, hpcb, hptr, hrwn⟩ := hjoin.new
    obtain ⟨hfd', hresource', hpcb', hptr', hrwn'⟩ := hjoin'.new
    constructor
    · rw [hnew, hfd, hfd', h.processes.lastFd, Function.update_of_ne hne]
    · rw [hnew, hresource, hresource']
    · rw [hnew, hpcb, hpcb']
    · rw [hnew, hptr, hptr', Option.map_some, hnewPtr]
    · intro role _
      rw [hnew, hrwn, hrwn', Option.map_none]

/-- The blocks that another process than `p` takes for resource `r` may be other ones. -/
theorem Alike.moves_join {d' x x' : Addr} (h : Alike p r q hidden n ρ k k') (hok' : k'.files.Ok)
    (hne : o ≠ p) (hjoin : k.Joins o r d x k₁) (hjoin' : k'.Joins o r d' x' k₁') :
    OnlyMoves p r q (ρ.join d d' x x') k₁' := by
  have hnodes : ∀ {d₁}, d₁ ∈ k₁'.files.descriptorNodes p ↔ d₁ ∈ k'.files.descriptorNodes p := by
    intro d₁
    rw [hjoin'.mem_iff, or_iff_left]
    exact fun hnew ↦ hne hnew.2.symm
  have hkeep : ∀ d₁ ∈ k₁'.files.descriptorNodes p, d₁ ∈ k'.files.descriptorNodes p ∧
      k₁'.descriptors.ptr d₁ = k'.descriptors.ptr d₁ ∧
      k₁'.descriptors.rwn d₁ = k'.descriptors.rwn d₁ := by
    intro d₁ hd₁
    have hold := hnodes.mp hd₁
    obtain ⟨-, -, -, hptr, hrwn⟩ := hjoin'.kept (hjoin'.ne_new hok' hold)
    exact ⟨hold, hptr, hrwn⟩
  refine ⟨fun d₁ hd₁ hmoved ↦ ?_, fun x₁ hx₁ hmoved ↦ ?_, fun u hu hmoved ↦ ?_⟩
  · rw [hnodes]
    obtain rfl | hold := hjoin'.allocated_iff.mp hd₁
    · obtain ⟨-, hresource, -⟩ := hjoin'.new
      exact ⟨fun hmem ↦ hjoin'.ne_new hok' hmem rfl, hresource⟩
    · have hne₁ : d₁ ≠ d' := by
        rintro rfl
        exact hjoin'.free hold
      rw [h.join_kept hjoin hjoin' hold] at hmoved
      obtain ⟨-, hresource, -⟩ := hjoin'.kept hne₁
      rw [hresource]
      exact h.moves.descriptor d₁ hold hmoved
  · obtain rfl | hold := hjoin'.allocatedPtr_iff.mp hx₁
    · refine ⟨fun d₁ hd₁ hptr ↦ ?_, fun r' hr' hmem ↦ ?_⟩
      · obtain ⟨hold, hsame, -⟩ := hkeep d₁ hd₁
        obtain ⟨x₂, hx₂, hptr₂, -⟩ := hok'.pointer p d₁ hold
        have hptrx : k'.descriptors.ptr d₁ = some x₂ := hptr₂
        rw [hsame, hptrx] at hptr
        exact hjoin'.freePtr (Option.some.inj hptr ▸ hok'.pointer_allocated _ x₂ hx₂)
      · obtain hmem | ⟨-, hsame⟩ := hjoin'.mem_pointers_iff.mp hmem
        · exact hjoin'.freePtr (hok'.pointer_allocated r' x₁ hmem)
        · exact hr' hsame
    · rw [h.join_keptPtr hjoin hjoin' hold] at hmoved
      obtain ⟨hout, hlists⟩ := h.moves.pointer x₁ hold hmoved
      refine ⟨fun d₁ hd₁ ↦ ?_, fun r' hr' hmem ↦ ?_⟩
      · obtain ⟨hold', hsame, -⟩ := hkeep d₁ hd₁
        rw [hsame]
        exact hout d₁ hold'
      · obtain hmem | ⟨-, hsame⟩ := hjoin'.mem_pointers_iff.mp hmem
        · exact hlists r' hr' hmem
        · exact hr' hsame
  · rw [hjoin'.queueUsers] at hu
    obtain ⟨hentries, hlists⟩ := h.moves.user u hu hmoved
    refine ⟨fun d₁ hd₁ role ↦ ?_, fun i hi ↦ ?_⟩
    · obtain ⟨hold, -, hsame⟩ := hkeep d₁ hd₁
      rw [hsame]
      exact hentries d₁ hold role
    · rw [userNodes_congr hjoin'.queueUsers (congrArg Queues.users hjoin'.queues)]
      exact hlists i hi

/-- The same process takes a descriptor in both runs. -/
theorem Alike.join {d' x x' : Addr} (h : Alike p r q hidden n ρ k k') (hk' : k'.Consistent layout)
    (hne : o ≠ p) (hjoin : k.Joins o r d x k₁) (hjoin' : k'.Joins o r d' x' k₁')
    (hprocesses : AlikeProcesses p (ρ.join d d' x x') k₁ k₁')
    (hleft : ∀ o fd role, (k'.pcbs.cpuState o).Left fd role → (k₁'.pcbs.cpuState o).Left fd role) :
    Alike p r q hidden n (ρ.join d d' x x') k₁ k₁' := by
  refine ⟨hprocesses, ?_, ?_, ?_, ?_, ?_, ?_,
    fun o₁ d₁ hd₁ ↦ h.same_join hk'.files hne hjoin hjoin' hleft hd₁, ?_,
    h.moves_join hk'.files hne hjoin hjoin'⟩
  · have htake := (h.descriptors.take hjoin'.free hjoin.free).append (Or.inl rfl) o
    rw [relabel_self] at htake
    rw [hjoin.descriptorStore, hjoin'.descriptorStore]
    exact htake
  · have htake := (h.pointers.take hjoin'.freePtr hjoin.freePtr).append (Or.inl rfl) r
    rw [relabel_self] at htake
    rw [hjoin.pointerStore, hjoin'.pointerStore]
    exact htake
  · rw [userStore_congr hjoin.queueUsers (congrArg Queues.users hjoin.queues),
      userStore_congr hjoin'.queueUsers (congrArg Queues.users hjoin'.queues)]
    exact h.users
  · rw [hjoin.size, hjoin'.size, sub_add_eq_add_sub, h.descriptorSize]
  · rw [hjoin.queueUsers, hjoin'.queueUsers]
    exact h.userSize
  · rw [hjoin.queues, hjoin'.queues]
    exact h.openings
  · rw [hjoin.queueUsers, hjoin'.queueUsers]
    exact h.userPid

theorem Alike.resourceNodes (h : Alike p r q hidden n ρ k k') :
    k.files.resourceNodes = k'.files.resourceNodes := by
  change k.resourcesList.toList k.resources.list = k'.resourcesList.toList k'.resources.list
  rw [h.processes.rest.resourcesList, h.processes.rest.resources]

theorem Alike.holdsQueue (h : Alike p r q hidden n ρ k k') (hqueue : k'.HoldsQueue r q) :
    k.HoldsQueue r q where
  mem := by rw [h.resourceNodes]; exact hqueue.mem
  type := by rw [h.processes.rest.resources]; exact hqueue.type
  value := by rw [h.processes.rest.resources]; exact hqueue.value

/-- A system call is made from the same point in both runs. -/
theorem Alike.trap (h : Alike p r q hidden n ρ k k') (c : Syscall) (hnext : c₁ = c₁'.rename ρ)
    (hleft : ∀ fd role, (k'.pcbs.cpuState o).Left fd role → c₁'.Left fd role) :
    Alike p r q hidden n ρ (k.trap o c₁ c) (k'.trap o c₁' c) := by
  have hprocesses : AlikeProcesses p ρ (k.trap o c₁ c) (k'.trap o c₁' c) := by
    refine h.processes.goOn rfl rfl rfl rfl hnext (fun o' hne' ↦ ?_) h.processes.retvalue
      h.processes.lastFd
    change update k.pcbs.syscall o _ o' = update k'.pcbs.syscall o _ o'
    rw [Function.update_apply, Function.update_apply, h.processes.syscall o' hne']
  refine h.of_sameTables rfl rfl rfl rfl rfl rfl hprocesses h.openings fun o' d _ role hbefore ↦ ?_
  change (update k'.pcbs.cpuState o c₁' o').Left _ role
  by_cases ho : o' = o
  · subst ho
    rw [Function.update_self]
    exact hleft _ role hbefore
  · rw [Function.update_of_ne ho]
    exact hbefore

/-- A process gets the same return value in both runs. -/
theorem Alike.setRetvalue (h : Alike p r q hidden n ρ k k') (o : Addr) (ret : ℤ) :
    Alike p r q hidden n ρ (k.setRetvalue o ret) (k'.setRetvalue o ret) := by
  have hprocesses : AlikeProcesses p ρ (k.setRetvalue o ret) (k'.setRetvalue o ret) :=
    { rest := (show (k.setRetvalue o ret).SameRest k from rfl).trans
        (h.processes.rest.trans rfl)
      context := h.processes.context
      syscall := h.processes.syscall
      retvalue := fun o' hne' ↦ by
        change update k.pcbs.syscallRetvalue o ret o' = update k'.pcbs.syscallRetvalue o ret o'
        rw [Function.update_apply, Function.update_apply, h.processes.retvalue o' hne']
      lastFd := h.processes.lastFd }
  exact h.of_sameTables rfl rfl rfl rfl rfl rfl hprocesses h.openings fun _ _ _ _ hbefore ↦ hbefore

/-- The same process calls `OPEN_RESOURCE` in both runs. -/
theorem Alike.openResource {mode : BitVec 32} (h : Alike p r q hidden n ρ k k')
    (hk : k.Consistent layout) (hk' : k'.Consistent layout) (hp : k.running = some o) (hne : o ≠ p)
    (hcontext' : k'.pcbs.cpuState o = .openResource id mode) (hqueue' : k'.HoldsQueue r q)
    (hid : k'.resources.id r = id) (hfree : 0 < k.descriptors.allocator.size)
    (hopen : internalOpenResource id 2 (resourceFlags mode) (k.firstCall o id mode) = some k₁) :
    ∃ k₁' ρ₁, internalOpenResource id 2 (resourceFlags mode) (k'.firstCall o id mode) = some k₁' ∧
      Alike p r q hidden n ρ₁ k₁ k₁' := by
  have hp' : k'.running = some o := h.processes.rest.running.symm.trans hp
  have hqueue := h.holdsQueue hqueue'
  have hidk : k.resources.id r = id := by rw [h.processes.rest.resources, hid]
  have hleft : ∀ {c : Context}, ∀ fd role, (k'.pcbs.cpuState o).Left fd role → c.Left fd role := by
    rw [hcontext']
    exact fun fd role hleft ↦ hleft.elim
  have hfound : (k.firstCall o id mode).resourceById id = some (some r) := by
    rw [← hidk]
    exact resourceById_of_mem (k := k) hk.files hk.sized hqueue.mem
  have hfound' : (k'.firstCall o id mode).resourceById id = some (some r) := by
    rw [← hid]
    exact resourceById_of_mem (k := k') hk'.files hk'.sized hqueue'.mem
  rw [internalOpenResource_existing (k := k.firstCall o id mode) hp hfound hqueue.type] at hopen
  rw [internalOpenResource_existing (k := k'.firstCall o id mode) hp' hfound' hqueue'.type]
  have hsyscall : ∀ {c : Option Syscall}, ∀ o', o' ≠ p →
      update k.pcbs.syscall o c o' = update k'.pcbs.syscall o c o' := by
    intro c o' hne'
    rw [Function.update_apply, Function.update_apply, h.processes.syscall o' hne']
  have hretvalue : ∀ {ret : ℤ}, ∀ o', o' ≠ p →
      update k.pcbs.syscallRetvalue o ret o' = update k'.pcbs.syscallRetvalue o ret o' := by
    intro ret o' hne'
    rw [Function.update_apply, Function.update_apply, h.processes.retvalue o' hne']
  split_ifs at hopen ⊢ with hexcl
  · -- both calls are refused
    rw [← Option.some.inj hopen]
    have hcall : Alike p r q hidden n ρ (k.firstCall o id mode) (k'.firstCall o id mode) :=
      h.trap _ rfl hleft
    exact ⟨_, ρ, rfl, hcall.setRetvalue o _⟩
  · have hfree' : 0 < k'.descriptors.allocator.size := hfree.trans_le h.descriptor_room
    have hlast : k.pcbs.lastFd o = k'.pcbs.lastFd o := by
      rw [h.processes.lastFd, Function.update_of_ne hne]
    have hfd : (k.firstCall o id mode).pcbs.lastFd o ≠ intMax := by
      intro hmax
      rw [openDescriptor_overflow (k := k.firstCall o id mode) ?_ hmax] at hopen
      · cases hopen
      · exact fun hnone ↦ hfree.ne' (hk.files.descriptorPool.getBlock_eq_none_iff.mp hnone)
    have hfd' : (k'.firstCall o id mode).pcbs.lastFd o ≠ intMax := fun hmax ↦ hfd (hlast.trans hmax)
    obtain ⟨d, x, pool, ptrPool, k₂, hget, hgetPtr, hopen₂, hfiles, hret⟩ :=
      openDescriptor_joins (k := k.firstCall o id mode) hk.files hfree hfd r
    obtain rfl := Option.some.inj (hopen.symm.trans hopen₂)
    obtain ⟨d', x', pool', ptrPool', k₁', hget', hgetPtr', hopen', hfiles', hret'⟩ :=
      openDescriptor_joins (k := k'.firstCall o id mode) hk'.files hfree' hfd' r
    have hframe := openDescriptor_eq hopen
    have hframe' := openDescriptor_eq hopen'
    have hjoin : k.Joins o r d x k₁ :=
      joins_of_files hk.files hqueue.mem hget hgetPtr hfiles (by rw [hframe]; rfl)
        (by rw [hframe]; rfl)
    have hjoin' : k'.Joins o r d' x' k₁' :=
      joins_of_files hk'.files hqueue'.mem hget' hgetPtr' hfiles' (by rw [hframe']; rfl)
        (by rw [hframe']; rfl)
    have hcontext₁' : k₁'.pcbs.cpuState = update k'.pcbs.cpuState o (.openResult id mode) := by
      rw [hframe']
      rfl
    refine ⟨k₁', ρ.join d d' x x', hopen', h.join hk' hne hjoin hjoin' ?_ fun o' fd role hbefore ↦ ?_⟩
    · have hrenumber : AlikeProcesses p (ρ.join d d' x x') k k' :=
        h.processes.renumber fun o' ↦ Context.rename_congr (fun d₁ hd₁ ↦
          h.descriptors.relabel_of_taken hjoin'.free hjoin.free (hk'.descriptor_allocated hd₁))
          fun _ _ ↦ rfl
      refine hrenumber.goOn ?_ ?_ ?_ hcontext₁' rfl ?_ ?_ ?_
      · rw [hframe]
        rfl
      · rw [hframe']
        rfl
      · rw [hframe]
        rfl
      · rw [hframe, hframe']
        exact hsyscall
      · rw [hret, hret']
        change ∀ o', o' ≠ p → update k.pcbs.syscallRetvalue o (k.pcbs.lastFd o) o' =
          update k'.pcbs.syscallRetvalue o (k'.pcbs.lastFd o) o'
        rw [hlast]
        exact hretvalue
      · rw [hjoin.lastFd, hjoin'.lastFd, h.processes.lastFd, Function.update_of_ne hne,
          Function.update_of_ne (Ne.symm hne), Function.update_comm hne]
    · rw [hcontext₁']
      by_cases ho : o' = o
      · subst ho
        exact hleft _ role hbefore
      · rw [Function.update_of_ne ho]
        exact hbefore

/-! ### New entries -/

/-- The block that enters a list is the one that the pool has handed out. -/
theorem Entered.status {pid : ℤ} (h : k.UsersOrdered k.userNodes)
    (hentered : k.Entered k.userNodes q d pid role u (k.enterUser q d pid role u)) :
    (k.enterUser q d pid role u).queueUsers.status = update k.queueUsers.status u .running := by
  have hafter := hentered.allocated u
  rcases hget : k.queueUsers.allocator.getBlock with ⟨_ | v, pool⟩
  · have hsame : (k.enterUser q d pid role u).queueUsers.allocator = k.queueUsers.allocator := by
      simp only [Kernel.enterUser, queueUserAlloc, hget]
      rfl
    rw [hsame] at hafter
    exact absurd (hafter.mpr (Or.inl rfl)) hentered.free
  · obtain ⟨-, -, -, -, hallocated⟩ := getBlock_some h.pool hget
    have hpool : (k.enterUser q d pid role u).queueUsers.allocator = pool := by
      simp only [Kernel.enterUser, queueUserAlloc, hget]
      rfl
    rw [hpool, hallocated u] at hafter
    obtain rfl : u = v := (hafter.mpr (Or.inl rfl)).resolve_right hentered.free
    simp only [Kernel.enterUser, queueUserAlloc, hget]
    rfl

/-- The user that a point sets aside is allocated. -/
theorem Consistent.aside_allocated (h : k.Consistent layout)
    (haside : (k.pcbs.cpuState o).aside = some u) : k.queueUsers.allocator.Allocated u :=
  (h.aside haside).allocated

/-- An entry is the same, and only the lists of the users and the descriptor know of it. -/
theorem Entered.sameRest {pid : ℤ}
    (h : k.Entered k.userNodes q d pid role u (k.enterUser q d pid role u)) :
    k.SameRest (k.enterUser q d pid role u) ∧ (k.enterUser q d pid role u).pcbs = k.pcbs ∧
      (k.enterUser q d pid role u).descriptorStore = k.descriptorStore ∧
      (k.enterUser q d pid role u).pointerStore = k.pointerStore ∧
      (k.enterUser q d pid role u).queues.openings = k.queues.openings := by
  have hframe := h.frame
  generalize k.enterUser q d pid role u = k₁ at hframe
  rw [hframe]
  exact ⟨rfl, rfl, rfl, rfl, rfl⟩

/-- The descriptors are as before, but for the entry. -/
theorem Entered.descriptors {pid : ℤ}
    (h : k.Entered k.userNodes q d pid role u (k.enterUser q d pid role u)) :
    (k.enterUser q d pid role u).descriptors = { k.descriptors with
      rwn := update k.descriptors.rwn d (update (k.descriptors.rwn d) role (some u)) } := by
  have hframe := h.frame
  have hrwn := h.rwn
  generalize k.enterUser q d pid role u = k₁ at hframe hrwn
  rw [hframe, ← hrwn]

/-- The users that were there keep their names. -/
theorem Alike.enter_kept {pid : ℤ} {u' v : Addr} (h : Alike p r q hidden n ρ k k')
    (hentered : k.Entered k.userNodes q (ρ.descriptors d) pid role u
      (k.enterUser q (ρ.descriptors d) pid role u))
    (hentered' : k'.Entered k'.userNodes q d pid role u' (k'.enterUser q d pid role u'))
    (hv : k'.queueUsers.allocator.Allocated v) : (ρ.enter u u').users v = ρ.users v :=
  h.users.relabel_of_taken hentered'.free hentered.free hv

/-- The descriptors of the two runs after the same entry. -/
theorem SameDescriptor.enterUser {pid : ℤ} {u' d₁ o₁ : Addr} (hsame : SameDescriptor ρ k k' o₁ d₁)
    (hentered : k.Entered k.userNodes q (ρ.descriptors d) pid role u
      (k.enterUser q (ρ.descriptors d) pid role u))
    (hentered' : k'.Entered k'.userNodes q d pid role u' (k'.enterUser q d pid role u'))
    (hkept : ∀ role', ¬ (k'.pcbs.cpuState o₁).Left (k'.descriptors.fd d₁) role' →
      ∀ v, k'.descriptors.rwn d₁ role' = some v → (ρ.enter u u').users v = ρ.users v) :
    SameDescriptor (ρ.enter u u') (k.enterUser q (ρ.descriptors d) pid role u)
      (k'.enterUser q d pid role u') o₁ d₁ := by
  have hold : ∀ role', ¬ (k'.pcbs.cpuState o₁).Left (k'.descriptors.fd d₁) role' →
      k.descriptors.rwn (ρ.descriptors d₁) role' =
        (k'.descriptors.rwn d₁ role').map (ρ.enter u u').users := by
    intro role' hinside
    rw [hsame.entry role' hinside]
    cases hv : k'.descriptors.rwn d₁ role' with
    | none => rfl
    | some v => rw [Option.map_some, Option.map_some, hkept role' hinside v hv]
  constructor
  · rw [hentered.descriptors, hentered'.descriptors]
    exact hsame.fd
  · rw [hentered.descriptors, hentered'.descriptors]
    exact hsame.resource
  · rw [hentered.descriptors, hentered'.descriptors]
    exact hsame.pcb
  · rw [hentered.descriptors, hentered'.descriptors]
    exact hsame.ptr
  · intro role' hinside
    rw [hentered'.sameRest.2.1, hentered'.descriptors] at hinside
    rw [hentered.rwn, hentered'.rwn]
    change update k.descriptors.rwn (ρ.descriptors d) _ (ρ.descriptors d₁) role' = _
    by_cases hsame₁ : d₁ = d
    · subst hsame₁
      rw [Function.update_self, Function.update_self]
      by_cases hrole : role' = role
      · subst hrole
        rw [Function.update_self, Function.update_self, Option.map_some]
        exact congrArg some (relabel_self ..).symm
      · rw [Function.update_of_ne hrole, Function.update_of_ne hrole]
        exact hold role' hinside
    · rw [Function.update_of_ne (ρ.descriptors.injective.ne hsame₁), Function.update_of_ne hsame₁]
      exact hold role' hinside

/-- The users of the two runs after the same entry. -/
theorem Alike.userPid_enterUser {pid : ℤ} {u' v : Addr} (h : Alike p r q hidden n ρ k k')
    (hk : k.UsersOrdered k.userNodes) (hk' : k'.UsersOrdered k'.userNodes)
    (hentered : k.Entered k.userNodes q (ρ.descriptors d) pid role u
      (k.enterUser q (ρ.descriptors d) pid role u))
    (hentered' : k'.Entered k'.userNodes q d pid role u' (k'.enterUser q d pid role u'))
    (hv : (k'.enterUser q d pid role u').queueUsers.allocator.Allocated v) :
    (k.enterUser q (ρ.descriptors d) pid role u).queueUsers.pid ((ρ.enter u u').users v) =
        (k'.enterUser q d pid role u').queueUsers.pid v ∧
      (k.enterUser q (ρ.descriptors d) pid role u).queueUsers.status ((ρ.enter u u').users v) =
        (k'.enterUser q d pid role u').queueUsers.status v := by
  rw [hentered.pid, hentered'.pid, hentered.status hk, hentered'.status hk']
  obtain rfl | hold := (hentered'.allocated v).mp hv
  · have hnew : (ρ.enter u v).users v = u := relabel_self ..
    rw [hnew, Function.update_self, Function.update_self, Function.update_self, Function.update_self]
    exact ⟨rfl, rfl⟩
  · have hne' : v ≠ u' := by
      rintro rfl
      exact hentered'.free hold
    have hne : ρ.users v ≠ u := by
      rintro rfl
      exact hentered.free (h.users.taken hold)
    rw [h.enter_kept hentered hentered' hold, Function.update_of_ne hne, Function.update_of_ne hne,
      Function.update_of_ne hne', Function.update_of_ne hne']
    exact h.userPid v hold

/-- The entry of another process than `p` in queue `q` may be another block. -/
theorem Alike.moves_enterUser {pid : ℤ} {u' : Addr} (h : Alike p r q hidden n ρ k k')
    (hk' : k'.Consistent layout) (hne : o ≠ p)
    (hidle : ∀ fd role, ¬ (k'.pcbs.cpuState p).Left fd role) (hd : d ∈ k'.files.descriptorNodes o)
    (hentered : k.Entered k.userNodes q (ρ.descriptors d) pid role u
      (k.enterUser q (ρ.descriptors d) pid role u))
    (hentered' : k'.Entered k'.userNodes q d pid role u' (k'.enterUser q d pid role u')) :
    OnlyMoves p r q (ρ.enter u u') (k'.enterUser q d pid role u') := by
  have hnodes : (k'.enterUser q d pid role u').files.descriptorNodes = k'.files.descriptorNodes :=
    congrArg Store.lists hentered'.sameRest.2.2.1
  have hrwn : ∀ d₁ ∈ k'.files.descriptorNodes p,
      (k'.enterUser q d pid role u').descriptors.rwn d₁ = k'.descriptors.rwn d₁ := by
    intro d₁ hd₁
    have hother : d₁ ≠ d := by
      rintro rfl
      exact Files.Ok.disjoint hk'.files hne hd hd₁
    rw [hentered'.rwn, Function.update_of_ne hother]
  have hlists : ∀ i : Addr × Role, i.1 ≠ q →
      (k'.enterUser q d pid role u').userNodes i = k'.userNodes i := by
    intro i hi
    rw [hentered'.listed.userNodes_eq, Function.update_of_ne]
    rintro rfl
    exact hi rfl
  refine ⟨?_, ?_, fun v hv hmoved ↦ ?_⟩
  · have hframe := hentered'.frame
    generalize k'.enterUser q d pid role u' = k₁' at hframe
    rw [hframe]
    exact h.moves.descriptor
  · have hframe := hentered'.frame
    generalize k'.enterUser q d pid role u' = k₁' at hframe
    rw [hframe]
    exact h.moves.pointer
  · rw [hnodes]
    obtain rfl | hold := (hentered'.allocated v).mp hv
    · -- the new block was in no entry and in no list
      refine ⟨fun d₁ hd₁ role' hentry ↦ ?_, fun i hi hmem ↦ ?_⟩
      · rw [hrwn d₁ hd₁] at hentry
        exact hentered'.free (hk'.allocated ⟨hd₁, hentry, hidle _ _⟩)
      · rw [hlists i hi] at hmem
        exact hentered'.free (hk'.ordered.allocated i v hmem)
    · rw [h.enter_kept hentered hentered' hold] at hmoved
      obtain ⟨hout, hothers⟩ := h.moves.user v hold hmoved
      refine ⟨fun d₁ hd₁ role' ↦ ?_, fun i hi ↦ ?_⟩
      · rw [hrwn d₁ hd₁]
        exact hout d₁ hd₁ role'
      · rw [hlists i hi]
        exact hothers i hi

/-- The same process enters the list of a role in both runs. -/
theorem Alike.enterUser {pid : ℤ} {u' : Addr} (h : Alike p r q hidden n ρ k k')
    (hk : k.Consistent layout) (hk' : k'.Consistent layout) (hne : o ≠ p)
    (hidle : ∀ fd role, ¬ (k'.pcbs.cpuState p).Left fd role)
    (hd : d ∈ k'.files.descriptorNodes o)
    (hentered : k.Entered k.userNodes q (ρ.descriptors d) pid role u
      (k.enterUser q (ρ.descriptors d) pid role u))
    (hentered' : k'.Entered k'.userNodes q d pid role u' (k'.enterUser q d pid role u')) :
    Alike p r q hidden n (ρ.enter u u') (k.enterUser q (ρ.descriptors d) pid role u)
      (k'.enterUser q d pid role u') := by
  obtain ⟨hrest, hpcbs, hstore, hstorePtr, hopenings⟩ := hentered.sameRest
  obtain ⟨hrest', hpcbs', hstore', hstorePtr', hopenings'⟩ := hentered'.sameRest
  have hkept : ∀ {v}, k'.queueUsers.allocator.Allocated v → (ρ.enter u u').users v = ρ.users v :=
    fun hv ↦ h.enter_kept hentered hentered' hv
  refine ⟨⟨?_, ?_, ?_, ?_, ?_⟩, ?_, ?_, ?_, ?_, ?_, ?_, fun o₁ d₁ hd₁ ↦ ?_,
    fun v hv ↦ h.userPid_enterUser hk.ordered hk'.ordered hentered hentered' hv,
    h.moves_enterUser hk' hne hidle hd hentered hentered'⟩
  · exact (hrest.symm.trans h.processes.rest).trans hrest'
  · have hrenumber : AlikeProcesses p (ρ.enter u u') k k' :=
      h.processes.renumber fun o' ↦ Context.rename_congr (fun _ _ ↦ rfl)
        fun v hv ↦ hkept (hk'.aside_allocated hv)
    rw [hpcbs, hpcbs']
    exact hrenumber.context
  · rw [hpcbs, hpcbs']
    exact h.processes.syscall
  · rw [hpcbs, hpcbs']
    exact h.processes.retvalue
  · rw [hpcbs, hpcbs']
    exact h.processes.lastFd
  · rw [hstore, hstore']
    exact h.descriptors
  · rw [hstorePtr, hstorePtr']
    exact h.pointers
  · have htake := (h.users.take hentered'.free hentered.free).append (Or.inl rfl) (q, role)
    rw [relabel_self] at htake
    rw [hentered.userStore_eq, hentered'.userStore_eq]
    exact htake
  · rw [hentered.descriptors, hentered'.descriptors]
    exact h.descriptorSize
  · rw [hentered.size, hentered'.size, sub_add_eq_add_sub, h.userSize]
  · rw [hopenings, hopenings']
    exact h.openings
  · have hmem : d₁ ∈ k'.files.descriptorNodes o₁ := by
      rwa [show (k'.enterUser q d pid role u').files.descriptorNodes = k'.files.descriptorNodes from
        congrArg Store.lists hstore'] at hd₁
    exact (h.same o₁ d₁ hmem).enterUser hentered hentered' fun role' hinside v hv ↦
      hkept (hk'.allocated ⟨hmem, hv, hinside⟩)

/-- The same process enters the lists of the same roles in both runs. -/
theorem Alike.entersRoles {pid : ℤ} {roles : List Role} (h : Alike p r q hidden n ρ k k')
    (hk : k.Consistent layout) (hk' : k'.Consistent layout) (hne : o ≠ p)
    (hidle : ∀ fd role, ¬ (k'.pcbs.cpuState p).Left fd role)
    (hcontext : k.pcbs.cpuState o = .openReturn) (hcontext' : k'.pcbs.cpuState o = .openReturn)
    (hd : d ∈ k'.files.descriptorNodes o)
    (hvalue : k'.resources.value (k'.descriptors.resource d) = some q)
    (henters : EntersRoles q (ρ.descriptors d) pid k roles k₁)
    (henters' : EntersRoles q d pid k' roles k₁') :
    ∃ ρ₁, Alike p r q hidden n ρ₁ k₁ k₁' := by
  induction roles generalizing k k' ρ with
  | nil =>
    cases henters
    cases henters'
    exact ⟨ρ, h⟩
  | cons role roles ih =>
    cases henters with
    | cons u hentered hrest =>
      cases henters' with
      | cons u' hentered' hrest' =>
        have hcloses : k'.Closes o (k'.descriptors.fd d) q d := ⟨hd, rfl, hvalue⟩
        obtain ⟨hmem, -, hvaluek⟩ := h.closes hk'.files hcloses
        obtain ⟨hconsistent, -⟩ := hk.enterUser hcontext hmem hvaluek hentered
        obtain ⟨hconsistent', -⟩ := hk'.enterUser hcontext' hd hvalue hentered'
        have halike := h.enterUser hk hk' hne hidle hd hentered hentered'
        have hframe := hentered.frame
        have hframe' := hentered'.frame
        refine ih halike hconsistent hconsistent' ?_ ?_ ?_ ?_ ?_ hrest hrest'
        · rw [hframe']
          exact hidle
        · rw [hframe]
          exact hcontext
        · rw [hframe']
          exact hcontext'
        · rw [hframe']
          exact hd
        · rw [hframe']
          exact hvalue

/-- The openings of a queue change by the same number in both runs. -/
theorem Alike.openings_add (h : Alike p r q hidden n ρ k k') (q' : Addr) (m : ℤ) :
    update k.queues.openings q' (k.queues.openings q' + m) =
      update (update k'.queues.openings q' (k'.queues.openings q' + m)) q
        (update k'.queues.openings q' (k'.queues.openings q' + m) q + n) := by
  rw [h.openings]
  by_cases hsame : q' = q
  · subst hsame
    rw [Function.update_self, Function.update_self, Function.update_idem, Function.update_idem,
      add_right_comm]
  · rw [Function.update_of_ne hsame, Function.update_of_ne (Ne.symm hsame),
      Function.update_comm hsame]

/-- An opening is counted and the call returns, in both runs. -/
theorem Alike.opened (h : Alike p r q hidden n ρ k k') (o : Addr) (ret : ℤ) :
    Alike p r q hidden n ρ
      ({ k with
        queues.openings := update k.queues.openings q (k.queues.openings q + 1) }.setRetvalue o ret)
      ({ k' with
        queues.openings :=
          update k'.queues.openings q (k'.queues.openings q + 1) }.setRetvalue o ret) := by
  refine h.of_sameTables rfl rfl rfl rfl rfl rfl ?_ ?_ fun _ _ _ _ hbefore ↦ hbefore
  · have hcounted : ∀ k : Kernel, k.SameRest ({ k with
        queues.openings := update k.queues.openings q (k.queues.openings q + 1) }.setRetvalue
          o ret) := fun _ ↦ rfl
    refine ⟨((hcounted k).symm.trans h.processes.rest).trans (hcounted k'), h.processes.context,
      h.processes.syscall, fun o' hne ↦ ?_, h.processes.lastFd⟩
    change update k.pcbs.syscallRetvalue o ret o' = update k'.pcbs.syscallRetvalue o ret o'
    rw [Function.update_apply, Function.update_apply, h.processes.retvalue o' hne]
  · exact h.openings_add q 1

/-- The same process calls `OPEN_QUEUE` in both runs. -/
theorem Alike.openQueue {mode : BitVec 32} (h : Alike p r q hidden n ρ k k')
    (hk : k.Consistent layout) (hk' : k'.Consistent layout) (hp : k.running = some o) (hne : o ≠ p)
    (hidle : ∀ fd role, ¬ (k'.pcbs.cpuState p).Left fd role)
    (hcontext' : k'.pcbs.cpuState o = .openQueue id fd mode) (hqueue' : k'.HoldsQueue r q)
    (hid : k'.resources.id r = id)
    (hfree : (askedRoles mode allRoles).length ≤ k.queueUsers.allocator.size)
    (hopen : internalOpenQueue id fd mode (k.trap o .openReturn (.openQueue id fd mode)) = some k₁) :
    ∃ k₁' ρ₁, internalOpenQueue id fd mode (k'.trap o .openReturn (.openQueue id fd mode)) =
      some k₁' ∧ Alike p r q hidden n ρ₁ k₁ k₁' := by
  have hp' : k'.running = some o := h.processes.rest.running.symm.trans hp
  have hcontext : k.pcbs.cpuState o = .openQueue id fd mode := by
    rw [h.processes.context o hne, hcontext']
    rfl
  have hqueue := h.holdsQueue hqueue'
  have hidk : k.resources.id r = id := by rw [h.processes.rest.resources, hid]
  have hleft : ∀ {c : Context}, ∀ fd role, (k'.pcbs.cpuState o).Left fd role → c.Left fd role := by
    rw [hcontext']
    exact fun fd role hleft ↦ hleft.elim
  obtain ⟨d, k₂, hd, hfd, hresource, -, henters, hopen₂⟩ :=
    hk.joins hp hcontext hqueue.mem hidk hqueue.type hqueue.value hfree
  obtain ⟨d', k₂', hd', hfd', hresource', -, henters', hopen'⟩ :=
    hk'.joins hp' hcontext' hqueue'.mem hid hqueue'.type hqueue'.value (hfree.trans h.user_room)
  rw [Option.some.inj (hopen.symm.trans hopen₂)]
  -- the descriptors have the same number
  have hfdρ : k.descriptors.fd (ρ.descriptors d') = fd := (h.same o d' hd').fd.trans hfd'
  obtain rfl : ρ.descriptors d' = d :=
    hk.files.fd_inj o _ (h.mem_nodes hk'.files hd') d hd (hfdρ.trans hfd.symm)
  obtain ⟨ht, -⟩ := hk.callsOpenQueue hcontext
  obtain ⟨ht', -⟩ := hk'.callsOpenQueue hcontext'
  have hpid : k.pcbs.pid o = k'.pcbs.pid o := congrFun h.processes.rest.pid o
  rw [hpid] at henters
  have htrap : Alike p r q hidden n ρ (k.trap o .openReturn (.openQueue id fd mode))
      (k'.trap o .openReturn (.openQueue id fd mode)) := h.trap _ rfl hleft
  have hvalue' : k'.resources.value (k'.descriptors.resource d') = some q := by
    rw [hresource']
    exact hqueue'.value
  have hidle' : ∀ fd' role,
      ¬ ((k'.trap o .openReturn (.openQueue id fd mode)).pcbs.cpuState p).Left fd' role := by
    change ∀ fd' role, ¬ (update k'.pcbs.cpuState o .openReturn p).Left fd' role
    rw [Function.update_of_ne (Ne.symm hne)]
    exact hidle
  obtain ⟨ρ₁, halike⟩ := htrap.entersRoles ht ht' hne hidle' (Function.update_self ..)
    (Function.update_self ..) hd' hvalue' henters henters'
  exact ⟨_, ρ₁, hopen', halike.opened o fd⟩

end Kernel

end DisastrOS
