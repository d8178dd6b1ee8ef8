import DisastrOS.ListSafety
import DisastrOS.Memberships

/-!
# The members of the queues

How a `dmq_open` that succeeds and an exit change the members of the queues
(`Enrolled.internalOpenQueue`, `Releasable.internalExit`), and that the other steps, but for two statements
of `dmq_close`, leave them alone (`KeepsMembers`).
-/

set_option autoImplicit false
set_option relaxedAutoImplicit false

namespace DisastrOS

open LinkedLists PoolAllocator
open Function (update)

/-- The statement changes the users of the queues. -/
def Context.leavesQueue : Context → Bool
  | .closeDetach .. | .closeFree .. => true
  | _ => false

/-- The system call can change the users of the queues, or take a descriptor away. -/
def Syscall.leavesQueue : Syscall → Bool
  | .openQueue .. | .closeResource _ | .destroyResource _ | .exit _ | .shutdown => true
  | _ => false

namespace Kernel

variable {layout : Layout} {k k' : Kernel} {a : Action} {m : Addr → Option Opening}
  {users : Addr × Role → List Addr} {p q d u : Addr} {id fd : ℤ}

/-! ### Opening a queue -/

/-- An `OPEN_QUEUE` that succeeds on a descriptor that is in no list. -/
theorem Enrolled.internalOpenQueue (h : k.Enrolled layout m users) {mode : BitVec 32}
    (howned : k.files.Owned k.queues.allocator) (hp : k.running = some p)
    (hd : d ∈ k.files.descriptorNodes p) (hfd : k.descriptors.fd d = fd)
    (hid : k.resources.id (k.descriptors.resource d) = id) (hnew : m d = none)
    (hentries : ∀ role, k.descriptors.rwn d role = none)
    (hopen : internalOpenQueue id fd mode k = some k') (hret : 0 ≤ k'.pcbs.syscallRetvalue p) :
    k.descriptorByFd p fd = some (some d) ∧
      ∃ users', k'.Enrolled layout (update m d (some ⟨mode, k.pcbs.pid p, fun _ ↦ false⟩)) users' ∧
        ∀ v, k.Aside users v → k'.Aside users' v := by
  have hallocated := howned.ok.descriptor_allocated p d hd
  have hleads : k.files.Leads d := by
    obtain ⟨x, hx, -, hdesc⟩ := howned.ok.pointer p d hd
    exact ⟨x, hx, hdesc⟩
  obtain ⟨r, q, k₁, ds, k₂, hfound, hqueue, hds, hadd, rfl⟩ := internalOpenQueue_success hp hopen hret
  obtain rfl : r = k.descriptors.resource d := by
    obtain ⟨hr, hr'⟩ := resourceById_some howned.ok hfound
    exact howned.ok.ids r hr _ (Files.Holds.resource_mem howned.ok hd) (hr'.trans hid.symm)
  -- the queue that the process joins, with its users as before
  obtain ⟨hvalue, henrolled₁, haside₁, hfiles₁, hpcbs₁⟩ :
      k₁.resources.value (k.descriptors.resource d) = some q ∧ k₁.Enrolled layout m users ∧
        (∀ v, k.Aside users v → k₁.Aside users v) ∧
        k₁.files = { k.files with resources.value := k₁.resources.value } ∧ k₁.pcbs = k.pcbs := by
    obtain ⟨hvalue, rfl⟩ | ⟨hnone, k₀, halloc, rfl⟩ := hqueue
    · exact ⟨hvalue, h, fun v hv ↦ hv, rfl, rfl⟩
    · obtain ⟨henrolled₀, haside₀⟩ := h.queueAlloc howned halloc
      rcases hget : k.queues.allocator.getBlock with ⟨_ | q', pool⟩
      · simp [Kernel.queueAlloc, hget] at halloc
      simp only [Kernel.queueAlloc, hget, Prod.mk.injEq, Option.some.injEq] at halloc
      obtain ⟨rfl, hk₀⟩ := halloc
      have hnone₀ : k₀.resources.value (k.descriptors.resource d) = none := by
        rw [← hk₀]
        exact hnone
      refine ⟨Function.update_self .., henrolled₀.setValue hnone₀ (some q'),
        fun v hv ↦ (haside₀ v hv).of_roll rfl, ?_, ?_⟩
      · rw [← hk₀]
        rfl
      · rw [← hk₀]
  have hdescs₁ : k₁.descriptors = k.descriptors := congrArg Files.descriptors hfiles₁
  have hlookup : k₁.descriptorByFd p fd = k.descriptorByFd p fd := by
    unfold descriptorByFd
    rw [hpcbs₁, hdescs₁]
  rw [hlookup] at hds
  obtain rfl : ds = some d := by
    refine descriptorByFd_unique howned.ok hd ?_
    rw [← hds, ← hfd]
  have hallocated₁ : k₁.descriptors.allocator.Allocated d := by
    rw [hdescs₁]
    exact hallocated
  have hleads₁ : k₁.files.Leads d := by
    rw [hfiles₁]
    exact hleads
  rw [← hdescs₁] at hvalue hentries
  rw [hpcbs₁] at hadd
  obtain ⟨users', henrolled, haside⟩ :=
    henrolled₁.queueAddPid hnew hallocated₁ hleads₁ hvalue hentries hadd
  refine ⟨hds, users', henrolled.of_stays rfl fun d' _ _ ↦ ⟨.refl _ d', rfl⟩, fun v hv ↦ ?_⟩
  exact (haside v (haside₁ v hv)).of_roll rfl

/-! ### Exit -/

theorem detachEntry_some (k : Kernel) (q : Addr) (role : Role) (entry : Option Addr) :
    k.detachEntry (some q) role entry = some (k.detachUser (q, role) entry) := by
  cases entry with
  | none =>
    rw [detachUser_null]
    rfl
  | some u => rfl

/-- A process that exits leaves the queue of a descriptor. -/
theorem Enrolled.leaveQueue (h : k.Enrolled layout m users)
    (howned : k.files.Owned k.queues.allocator) (hd : d ∈ k.files.descriptorNodes p) {o : Opening}
    (ho : m d = some o) (hinside : ∀ role, o.left role = false) (hleave : k.leaveQueue p d = some k') :
    ∃ users', k'.Enrolled layout (update m d none) users' ∧ ∀ v, k.Aside users v → k'.Aside users' v := by
  obtain ⟨q, hq⟩ := h.queue d o ho
  have htype := (howned.values.live _ (Files.Holds.resource_mem howned.ok hd) q hq).1
  unfold Kernel.leaveQueue at hleave
  have htype' : k.resources.type (k.descriptors.resource d) = 2 := htype
  rw [if_pos htype', hq] at hleave
  obtain ⟨entries, hentries, hrest⟩ := Option.bind_eq_some_iff.mp hleave
  obtain rfl := descriptorByFd_unique howned.ok hd hentries
  simp only [Option.bind_eq_bind, Option.bind_some, detachEntry_some, Option.some.injEq] at hrest
  subst hrest
  obtain ⟨users₁, h₁, haside₁, -⟩ := h.leave ho (hinside .reader) hq
  have hinside₁ : (o.leave .reader).left .writer = false := hinside .writer
  obtain ⟨users₂, h₂, haside₂, -⟩ := h₁.leave (Function.update_self ..) hinside₁ hq
  have hinside₂ : ((o.leave .reader).leave .writer).left .nonBlock = false := hinside .nonBlock
  obtain ⟨users₃, h₃, haside₃, -⟩ := h₂.leave (Function.update_self ..) hinside₂ hq
  have hforgotten := h₃.forget (d := d) fun o' ho' ↦ by
    rw [Function.update_self] at ho'
    obtain rfl := Option.some.inj ho'
    intro role
    cases role <;> rfl
  simp only [Function.update_idem] at hforgotten
  exact ⟨users₃, hforgotten, fun v hv ↦ haside₃ v (haside₂ v (haside₁ v hv))⟩

/-- What an exit needs of the descriptors it releases: the process is in the lists of all of them. -/
structure Releasable (layout : Layout) (k : Kernel) (m : Addr → Option Opening)
    (users : Addr × Role → List Addr) (p : Addr) : Prop where
  enrolled : k.Enrolled layout m users
  owned : k.files.Owned k.queues.allocator
  backed : k.files.Backed
  entering : ∀ d, k.files.Leads d → m d = none → ∀ role, k.descriptors.rwn d role = none
  inside : ∀ d ∈ k.files.descriptorNodes p, ∃ o, m d = some o ∧ ∀ role, o.left role = false

/-- The process leaves the queue of one of its descriptors, and gives it up. -/
theorem Releasable.turn (h : k.Releasable layout m users p) (hd : d ∈ k.files.descriptorNodes p)
    {k₁ : Kernel} (hleave : k.leaveQueue p d = some k₁) :
    ∃ users', (k₁.dropDescriptor p d).Releasable layout (update m d none) users' p ∧
      (∀ v, k.Aside users v → (k₁.dropDescriptor p d).Aside users' v) ∧
      (k₁.dropDescriptor p d).files.descriptorNodes p = (k.files.descriptorNodes p).erase d ∧
      ∀ d', (k₁.dropDescriptor p d).descriptors.allocator.Allocated d' ↔
        d' ≠ d ∧ k.descriptors.allocator.Allocated d' := by
  obtain ⟨o, ho, hinside⟩ := h.inside d hd
  obtain ⟨users', henrolled, haside⟩ := h.enrolled.leaveQueue h.owned hd ho hinside hleave
  have hframe := leaveQueue_eq hleave
  have hfiles₁ : k₁.files = k.files := by
    rw [hframe]
    rfl
  have hqueues₁ : k₁.queues.allocator = k.queues.allocator := by rw [hframe]
  obtain ⟨x, -, hptr, -⟩ := h.owned.ok.pointer p d hd
  have hptr₁ : k₁.descriptors.ptr d = some x := (congrArg (·.descriptors.ptr d) hfiles₁).trans hptr
  have hdropped : (k₁.dropDescriptor p d).files =
      k.files.drop p d (k.files.descriptors.resource d) x := by
    have hres : k₁.descriptors.resource d = k.files.descriptors.resource d :=
      congrArg (·.descriptors.resource d) hfiles₁
    rw [dropDescriptor_files k₁ p d x hptr₁, hfiles₁, hres]
  have hholds := Files.Holds.drop h.owned.ok hd hptr
  have hnodes := congrFun hholds.descriptorNodes_eq p
  rw [Function.update_self] at hnodes
  obtain ⟨-, -, hallocated⟩ :=
    h.owned.ok.descriptorPool.release (h.owned.ok.descriptor_allocated p d hd)
  have hpool : (k₁.dropDescriptor p d).descriptors.allocator =
      (k.descriptors.allocator.releaseBlock d).2 := congrArg (·.descriptors.allocator) hdropped
  have hbacked : (k₁.dropDescriptor p d).files.Backed := by
    rw [hdropped]
    exact h.backed.drop h.owned.ok hd hptr
  refine ⟨users', ⟨?_, ?_, hbacked, ?_, ?_⟩, fun v hv ↦ (haside v hv).of_roll rfl, ?_, ?_⟩
  · refine henrolled.of_stays rfl fun d' o' ho' ↦ ?_
    have hne : d' ≠ d := by
      rintro rfl
      rw [Function.update_self] at ho'
      exact absurd ho' (by simp)
    rw [hdropped, hfiles₁]
    exact ⟨.drop h.owned.ok hd hptr hne, rfl⟩
  · have hqueues : (k₁.dropDescriptor p d).queues.allocator = k.queues.allocator := hqueues₁
    rw [hdropped, hqueues]
    exact { h.owned with ok := hholds.ok, values := { h.owned.values with } }
  · intro d' hleads hnone role
    have hne : d' ≠ d := by
      rintro rfl
      refine hbacked.not_leads (fun hd' ↦ ?_) hleads
      rw [hdropped] at hd'
      exact ((hallocated d').mp hd').1 rfl
    rw [hdropped] at hleads
    have hrwn : (k₁.dropDescriptor p d).descriptors.rwn = k.descriptors.rwn :=
      congrArg (·.descriptors.rwn) hdropped
    rw [hrwn]
    rw [Function.update_of_ne hne] at hnone
    exact h.entering d' (hleads.of_drop h.owned.ok hd hptr) hnone role
  · intro d' hd'
    rw [hdropped, hnodes] at hd'
    obtain ⟨hne, hmem⟩ := (h.owned.ok.descriptorLists.represents p).nodup.mem_erase_iff.mp hd'
    obtain ⟨o', ho', hinside'⟩ := h.inside d' hmem
    exact ⟨o', (Function.update_of_ne hne ..).trans ho', hinside'⟩
  · rw [hdropped]
    exact hnodes
  · intro d'
    rw [hpool]
    exact hallocated d'

/-- The notes without those of the descriptors of a list. -/
def without (m : Addr → Option Opening) (ds : List Addr) (d : Addr) : Option Opening :=
  if d ∈ ds then none else m d

theorem without_update_erase {ds : List Addr} (hnodup : ds.Nodup) (hd : d ∈ ds) :
    without (update m d none) (ds.erase d) = without m ds := by
  funext d'
  by_cases hsame : d' = d
  · subst hsame
    simp [without, hd]
  · have hmem : d' ∈ ds.erase d ↔ d' ∈ ds := by rw [hnodup.mem_erase_iff]; tauto
    simp [without, hmem, Function.update_of_ne hsame]

/-- The process gives up all its descriptors, and leaves their queues. -/
theorem Releasable.releaseDescriptors (h : k.Releasable layout m users p) {bound : ℕ}
    (hrelease : releaseDescriptors p bound k = some k') :
    ∃ users', k'.Releasable layout (without m (k.files.descriptorNodes p)) users' p ∧
      (∀ v, k.Aside users v → k'.Aside users' v) ∧ k'.files.descriptorNodes p = [] ∧
      ∀ d, k'.descriptors.allocator.Allocated d ↔
        d ∉ k.files.descriptorNodes p ∧ k.descriptors.allocator.Allocated d := by
  have hfirst (k : Kernel) (hok : k.files.Ok) :
      (k.pcbs.descriptors p).first = (k.files.descriptorNodes p).head? :=
    (hok.descriptorLists.represents p).first
  have hdone {k : Kernel} {m : Addr → Option Opening} {users : Addr × Role → List Addr}
      (h : k.Releasable layout m users p) (hnone : (k.pcbs.descriptors p).first = none)
      (hk' : some k = some k') :
      ∃ users', k'.Releasable layout (without m (k.files.descriptorNodes p)) users' p ∧
        (∀ v, k.Aside users v → k'.Aside users' v) ∧ k'.files.descriptorNodes p = [] ∧
        ∀ d, k'.descriptors.allocator.Allocated d ↔
          d ∉ k.files.descriptorNodes p ∧ k.descriptors.allocator.Allocated d := by
    obtain rfl := Option.some.inj hk'
    rw [hfirst k h.owned.ok, List.head?_eq_none_iff] at hnone
    have hsame : without m (k.files.descriptorNodes p) = m := by
      rw [hnone]
      rfl
    rw [hsame, hnone]
    exact ⟨users, h, fun v hv ↦ hv, rfl, fun d ↦ by simp⟩
  induction bound generalizing k m users with
  | zero =>
    rw [Kernel.releaseDescriptors] at hrelease
    split_ifs at hrelease with hsome
    exact hdone h (by simpa using hsome) hrelease
  | succ bound ih =>
    rw [Kernel.releaseDescriptors] at hrelease
    split at hrelease
    · rename_i hnone
      exact hdone h hnone hrelease
    · rename_i d hsome
      obtain ⟨k₁, hleave, hrest⟩ := Option.bind_eq_some_iff.mp hrelease
      have hd : d ∈ k.files.descriptorNodes p := by
        rw [hfirst k h.owned.ok] at hsome
        exact List.mem_of_head? hsome
      obtain ⟨users₁, h₁, haside₁, hnodes₁, hallocated₁⟩ := h.turn hd hleave
      obtain ⟨users', h', haside, hempty, hallocated⟩ := ih h₁ hrest
      have hnodup := (h.owned.ok.descriptorLists.represents p).nodup
      rw [hnodes₁, without_update_erase hnodup hd] at h'
      refine ⟨users', h', fun v hv ↦ haside v (haside₁ v hv), hempty, fun d' ↦ ?_⟩
      rw [hallocated, hallocated₁, hnodes₁, hnodup.mem_erase_iff]
      constructor
      · rintro ⟨hnot, hne, hd'⟩
        exact ⟨fun hmem ↦ hnot ⟨hne, hmem⟩, hd'⟩
      · rintro ⟨hnot, hd'⟩
        refine ⟨fun hmem ↦ hnot hmem.2, ?_, hd'⟩
        rintro rfl
        exact hnot hd

theorem Releasable.congr (h : k.Releasable layout m users p) (hfiles : k'.files = k.files)
    (hroll : k'.roll = k.roll) (hqueues : k'.queues.allocator = k.queues.allocator) :
    k'.Releasable layout m users p where
  enrolled := h.enrolled.of_stays hroll fun d _ _ ↦ by
    have hrwn : k'.files.descriptors.rwn = k.files.descriptors.rwn := by rw [hfiles]
    rw [hfiles]
    exact ⟨.refl _ d, congrFun hrwn d⟩
  owned := by
    rw [hfiles, hqueues]
    exact h.owned
  backed := by
    rw [hfiles]
    exact h.backed
  entering := by
    have hrwn : k'.descriptors.rwn = k.descriptors.rwn := congrArg (·.descriptors.rwn) hfiles
    rw [hfiles, hrwn]
    exact h.entering
  inside := by
    rw [hfiles]
    exact h.inside

/-- What an exit does: the process stays as it is, a zombie; or it gives up all its descriptors. -/
theorem Releasable.internalExit (h : k.Releasable layout m users p) (hp : k.running = some p)
    {value : ℤ} (hexit : internalExit value k = some k') :
    k'.files = k.files ∧ k'.roll = k.roll ∨
      ∃ users', k'.Enrolled layout (without m (k.files.descriptorNodes p)) users' ∧
        (∀ v, k.Aside users v → k'.Aside users' v) ∧
        (∀ d, k'.files.Leads d → without m (k.files.descriptorNodes p) d = none →
          ∀ role, k'.descriptors.rwn d role = none) ∧
        k'.files.descriptorNodes p = [] ∧
        ∀ d ∈ k.files.descriptorNodes p, ¬ k'.descriptors.allocator.Allocated d := by
  obtain ⟨p', k₁, parent, hp', hzombie, -, ⟨-, hexit⟩ | ⟨-, hexit⟩⟩ := internalExit_cases hexit
  · obtain rfl := Option.some.inj (hp.symm.trans hp')
    obtain ⟨selfInParent, k₂, k₃, hk₂, -, htimers, k₄, hdescriptors, rfl⟩ := exitToParent_cases hexit
    have hframe := becomeZombie_eq hzombie
    have hfiles₃ : k₃.files = k.files := by
      rw [releaseTimers_eq htimers, hk₂, hframe]
      rfl
    have hroll₃ : k₃.roll = k.roll := by
      rw [releaseTimers_eq htimers, hk₂, hframe]
      rfl
    have hqueues₃ : k₃.queues.allocator = k.queues.allocator := by
      rw [releaseTimers_eq htimers, hk₂, hframe]
      rfl
    obtain ⟨users', h', haside, hempty, hallocated⟩ :=
      (h.congr hfiles₃ hroll₃ hqueues₃).releaseDescriptors hdescriptors
    rw [hfiles₃] at h' hallocated
    refine Or.inr ⟨users', h'.enrolled.of_stays rfl fun d _ _ ↦ ⟨.refl _ d, rfl⟩, fun v hv ↦ ?_,
      h'.entering, hempty, fun d hd hallocated' ↦ ((hallocated d).mp hallocated').1 hd⟩
    exact (haside v (hv.of_roll hroll₃)).of_roll rfl
  · left
    rw [exitToReady_eq hexit, becomeZombie_eq hzombie]
    exact ⟨rfl, rfl⟩

/-! ### The table of descriptors -/

/-- The step can take descriptor `d` away: a close, an `OPEN_QUEUE` without a queue for the resource, or an
exit of which the parent is told. -/
def GivesUp (k : Kernel) (a : Action) (d : Addr) : Prop :=
  ∃ p, k.running = some p ∧
    ((∃ fd, k.request a = some (.closeResource fd) ∧ k.descriptorByFd p fd = some (some d)) ∨
      (∃ id fd mode, k.request a = some (.openQueue id fd mode) ∧
        k.descriptorByFd p fd = some (some d)) ∨
      ∃ value, k.request a = some (.exit value) ∧ (k.awaitingParent p).isSome ∧
        d ∈ k.files.descriptorNodes p)

/-- An exit of which no parent is told leaves the table as it is. -/
theorem internalExit_unawaited {value : ℤ} (hp : k.running = some p)
    (hexit : internalExit value k = some k') (hnone : k.awaitingParent p = none) :
    k'.files = k.files := by
  obtain ⟨p', k₁, parent, hp', hzombie, hparent, hbranch⟩ := internalExit_cases hexit
  obtain rfl := Option.some.inj (hp.symm.trans hp')
  have hparent' : k.pcbs.parent p = some parent := by rw [← hparent, becomeZombie_eq hzombie]
  rw [becomeZombie_awaits hzombie] at hbranch
  obtain ⟨hawaits, -⟩ | ⟨-, hexit⟩ := hbranch
  · have hgiven : k.awaitingParent p = some parent := by
      simpa [awaitingParent, hparent'] using hawaits
    exact absurd (hnone.symm.trans hgiven) (by simp)
  · rw [exitToReady_eq hexit, becomeZombie_eq hzombie]
    rfl

/-- A descriptor that is not given up stays, and keeps its entries unless it enters its queue. -/
theorem stays_step (hok : k.files.Ok) (hshutdown : k.request a ≠ some .shutdown)
    (hstep : k.step a = some k') (hallocated : k.descriptors.allocator.Allocated d)
    (hleads : k.files.Leads d) (hkept : ¬ k.GivesUp a d) :
    k.files.Stays k'.files d ∧ (k'.descriptors.rwn d = k.descriptors.rwn d ∨
      ∃ id fd mode, k.request a = some (.openQueue id fd mode)) := by
  have hjoins {f : Files} {r d' x : Addr} {pool ptrPool : PoolAllocator} (hok : f.Ok)
      (hr : r ∈ f.resourceNodes) (hget : f.descriptors.allocator.getBlock = (some d', pool))
      (hgetPtr : f.descriptorPtrs.allocator.getBlock = (some x, ptrPool))
      (hd : f.descriptors.allocator.Allocated d) (p : Addr) :
      f.Stays (f.join p r d' x pool ptrPool) d ∧
        (f.join p r d' x pool ptrPool).descriptors.rwn d = f.descriptors.rwn d := by
    obtain ⟨-, -, hfree, -⟩ := getBlock_some hok.descriptorPool hget
    have hne : d ≠ d' := by
      rintro rfl
      exact hfree hd
    exact ⟨.join hok hr hget hgetPtr p hd, Function.update_of_ne hne _ _⟩
  have hdrops {p fd x d' : Addr} (hne : d ≠ d') (hfound : k.descriptorByFd p fd = some (some d'))
      (hptr : k.descriptors.ptr d' = some x) :
      k.files.Stays (k.files.drop p d' (k.files.descriptors.resource d') x) d :=
    .drop hok (descriptorByFd_some hok hfound).1 hptr hne
  change k.files.Stays k'.files d ∧ (k'.files.descriptors.rwn d = k.files.descriptors.rwn d ∨ _)
  cases step_files hshutdown hstep with
  | same hfiles =>
    rw [hfiles]
    exact ⟨.refl _ d, .inl rfl⟩
  | newProcess p _ hfiles =>
    rw [hfiles]
    exact ⟨.reset _ p d, .inl rfl⟩
  | call p c next hp hcalls hkind hcall =>
    have hrequest := hcalls.request hp
    cases c with
    | openResource id type mode =>
      have htrap : (k.trap p next (.openResource id type mode)).files.Ok := hok
      obtain ⟨p₁, hp₁, hopens⟩ := internalOpenResource_files htrap hcall
      obtain rfl := Option.some.inj (hp.symm.trans hp₁)
      cases hopens with
      | failed hfiles =>
        rw [hfiles]
        exact ⟨.refl _ d, .inl rfl⟩
      | joined r d' x pool ptrPool hfound _ hget hgetPtr hfiles =>
        obtain ⟨hstays, hrwn⟩ := hjoins hok (resourceById_some hok hfound).1 hget hgetPtr hallocated p
        rw [hfiles]
        exact ⟨hstays, .inl hrwn⟩
      | created r resPool hnone _ hnew hfiles =>
        rw [hfiles]
        exact ⟨.create hok id type hnew (fun r' hr' ↦ resourceById_none hok hnone hr') hleads, .inl rfl⟩
      | createdJoined r d' x resPool pool ptrPool hnone _ hnew hget hgetPtr hfiles =>
        have hids : ∀ r' ∈ k.files.resourceNodes, k.files.resources.id r' ≠ id := fun r' hr' ↦
          resourceById_none hok hnone hr'
        have hcreated := Files.Holds.create hok id type hnew hids
        have hr : r ∈ (k.files.create r resPool id type).resourceNodes := by
          rw [hcreated.resourceNodes_eq]
          exact List.mem_append_right _ (List.mem_singleton_self r)
        have hstays : k.files.Stays (k.files.create r resPool id type) d :=
          .create hok id type hnew hids hleads
        obtain ⟨hjoin, hrwn⟩ := hjoins hcreated.ok hr hget hgetPtr (hstays.allocated hallocated) p
        rw [hfiles]
        exact ⟨hstays.trans hjoin, .inl hrwn⟩
    | closeResource fd =>
      obtain ⟨p₁, hp₁, ⟨-, hfiles, -⟩ | ⟨d', x, hfound, hptr, hfiles, -⟩⟩ :=
        internalCloseResource_files hcall
      · rw [hfiles]
        exact ⟨.refl _ d, .inl rfl⟩
      · obtain rfl := Option.some.inj (hp.symm.trans hp₁)
        have hne : d ≠ d' := by
          rintro rfl
          exact hkept ⟨p, hp, .inl ⟨fd, hrequest, hfound⟩⟩
        rw [hfiles]
        exact ⟨hdrops hne hfound hptr, .inl rfl⟩
    | destroyResource id =>
      obtain ⟨_, -, ⟨hfiles, -⟩ | ⟨r, -, -, hfiles, -⟩⟩ := internalDestroyResource_files hcall
      · rw [hfiles]
        exact ⟨.refl _ d, .inl rfl⟩
      · rw [hfiles]
        exact ⟨.destroy _ r d, .inl rfl⟩
    | openQueue id fd mode =>
      have hne {d' : Addr} (hfound : k.descriptorByFd p fd = some (some d')) : d ≠ d' := by
        rintro rfl
        exact hkept ⟨p, hp, .inr (.inl ⟨id, fd, mode, hrequest, hfound⟩)⟩
      refine ⟨?_, .inr ⟨id, fd, mode, hrequest⟩⟩
      obtain ⟨p₁, hp₁, hopens⟩ := internalOpenQueue_files hcall
      obtain rfl := Option.some.inj (hp.symm.trans hp₁)
      cases hopens with
      | joined r q _ _ hfiles =>
        rw [hfiles]
        exact .setRwn k.files _ d
      | fresh r q pool _ hvalue _ hfiles =>
        rw [hfiles]
        exact (Files.Stays.setRwn k.files _ d).trans (.setValue d hvalue (some q))
      | refused hfiles =>
        rw [hfiles]
        exact .refl _ d
      | closed d' x hfound hptr hfiles =>
        rw [hfiles]
        exact hdrops (hne hfound) hfound hptr
      | gaveUp r d' x hfound hptr _ _ _ hfiles =>
        rw [hfiles]
        exact (hdrops (hne hfound) hfound hptr).trans (.destroy _ r d)
    | exit value =>
      have hrwn : k'.files.descriptors.rwn = k.files.descriptors.rwn := by
        rw [(internalExit_fields hcall).1]
        rfl
      refine ⟨?_, .inl (congrFun hrwn d)⟩
      cases hawaiting : k.awaitingParent p with
      | none =>
        rw [internalExit_unawaited (k := k.trap p next (.exit value)) hp hcall
          ((awaitingParent_trap k p next _).trans hawaiting)]
        exact .refl _ d
      | some parent =>
        have hnot : d ∉ k.files.descriptorNodes p := fun hd ↦
          hkept ⟨p, hp, .inr (.inr ⟨value, hrequest, by simp [hawaiting], hd⟩)⟩
        refine (internalExit_induct (k := k.trap p next (.exit value))
          (P := fun f ↦ f.Ok ∧ d ∉ f.descriptorNodes p ∧ k.files.Stays f d) hok hcall
          ⟨hok, hnot, .refl _ d⟩ ?_).2.2
        rintro f p₁ d' x hf ⟨-, hnot', hstays⟩ hd' hptr hp₁
        obtain rfl := Option.some.inj (hp.symm.trans hp₁)
        have hdropped := Files.Holds.drop hf hd' hptr
        refine ⟨hdropped.ok, fun hd ↦ hnot' ?_, hstays.trans (.drop hf hd' hptr ?_)⟩
        · rw [hdropped.descriptorNodes_eq, Function.update_self] at hd
          exact List.mem_of_mem_erase hd
        · rintro rfl
          exact hnot' hd'
    | _ => cases hkind

/-! ### Steps that leave the users of the queues alone -/

theorem runStatement_roll {context : Context} (hcontext : context.leavesQueue = false)
    (hrun : k.runStatement p context = some k') : k'.roll = k.roll := by
  have hset : ∀ {k₁ : Kernel}, some k₁ = some k' → k₁.roll = k.roll → k'.roll = k.roll := by
    intro k₁ h hroll
    rw [← Option.some.inj h]
    exact hroll
  have henter : ∀ {fd : ℤ} {next : Addr → Context}, k.enterQueue p fd next = some k' →
      k'.roll = k.roll := by
    intro fd next h
    obtain ⟨queue, -, hk'⟩ := Option.bind_eq_some_iff.mp h
    cases queue <;> exact hset hk' rfl
  cases context with
  | close fd =>
    obtain ⟨queue, -, hrest⟩ := Option.bind_eq_some_iff.mp hrun
    cases queue with
    | none => exact hset hrest rfl
    | some q =>
      obtain ⟨entries, -, hrest⟩ := Option.bind_eq_some_iff.mp hrest
      obtain ⟨ds, -, hrest⟩ := Option.bind_eq_some_iff.mp hrest
      exact hset hrest rfl
  | closeDetach | closeFree => cases hcontext
  | closeResult q =>
    simp only [runStatement] at hrun
    split_ifs at hrun <;> exact hset hrun rfl
  | getattr | transfer | setattr => exact henter hrun
  | getattrRead | openReturn | unlinkReturn => exact hset hrun rfl
  | openResult id mode =>
    simp only [runStatement] at hrun
    split_ifs at hrun <;> exact hset hrun rfl
  | transferSize | setattrCheck =>
    simp only [runStatement] at hrun
    split at hrun <;> exact hset hrun rfl
  | transferFind c q =>
    obtain ⟨entries, -, hrest⟩ := Option.bind_eq_some_iff.mp hrun
    obtain ⟨ds, -, hrest⟩ := Option.bind_eq_some_iff.mp hrest
    obtain ⟨found, -, hrest⟩ := Option.bind_eq_some_iff.mp hrest
    cases found <;> exact hset hrest rfl
  | transferRoom | transferResult =>
    simp only [runStatement] at hrun
    split_ifs at hrun <;> exact hset hrun rfl
  | setattrWrite q attr newVal =>
    have hroll : ((k.writeAttribute q attr newVal).setContext p (.user 0)).roll = k.roll := by
      rw [writeAttribute_eq]
      rfl
    exact hset hrun hroll
  | halting => exact hset hrun rfl
  | user | closeResource | openResource | openQueue | transferCall | transferRetry | transferWake
  | unlink | graveyard => simp [runStatement] at hrun

theorem syscallVector_roll {c : Syscall} (hc : c.leavesQueue = false)
    (hcall : syscallVector c k = some k') : k'.roll = k.roll := by
  have hnew : ∀ {child : Addr} {k₁ : Kernel}, k.newProcess = some (child, k₁) → k₁.roll = k.roll := by
    intro child k₁ h
    obtain ⟨_, _, _, _, -, -, -, -, rfl⟩ := newProcess_cases h
    rfl
  cases c with
  | preempt =>
    rw [internalSchedule_eq hcall]
    rfl
  | fork | spawn =>
    obtain ⟨⟨child, k₁⟩, h₁, hk'⟩ := Option.bind_eq_some_iff.mp hcall
    have hroll : k₁.roll = k.roll := hnew h₁
    rw [← Option.some.inj hk']
    exact hroll
  | wait pid result =>
    obtain ⟨_, -, ⟨-, rfl⟩ | ⟨_, -, -, ⟨x, -, -, rfl⟩ | ⟨-, ⟨-, rfl⟩ | ⟨-, -, rfl⟩⟩⟩⟩ :=
      internalWait_cases hcall <;> rfl
  | sleep cycles =>
    obtain ⟨_, -, rfl | ⟨t, k₁, hadd, rfl⟩⟩ := internalSleep_cases hcall
    · rfl
    · have hframe := timerListAdd_eq hadd
      have hroll : k₁.roll = k.roll := by rw [hframe]; rfl
      exact hroll
  | openResource id type mode =>
    rw [internalOpenResource_eq hcall]
    rfl
  | sendMsg msg fd =>
    obtain ⟨_, _, _, -, -, -, ⟨-, haccept⟩ | ⟨-, hwait⟩⟩ := internalSendMessage_cases hcall
    · rw [acceptMessage_eq haccept]
      rfl
    · obtain ⟨_, _, -, -, rfl⟩ := waitForQueue_eq hwait
      rfl
  | recvMsg msg fd =>
    obtain ⟨_, _, -, -, ⟨-, rfl⟩ | ⟨_, _, -, -, ⟨_, k₁, hpop, hdeliver⟩ | ⟨k₁, hpop, hwait⟩⟩⟩ :=
      internalRecvMessage_cases hcall
    · rfl
    · rw [deliverMessage_eq hdeliver, ← (Prod.mk.inj hpop).2]
      rfl
    · obtain ⟨_, _, -, -, rfl⟩ := waitForQueue_eq hwait
      obtain ⟨-, rfl⟩ := popMessage_eq_none hpop
      rfl
  | wakeupQueue check q users =>
    obtain ⟨_, -, ⟨_, _, -, -, rfl⟩ | ⟨-, rfl⟩⟩ := internalWakeUpQueue_cases hcall <;> rfl
  | closeResource | destroyResource | openQueue | exit | shutdown => cases hc

/-- The step changes no users of the queues, and takes no descriptor away. -/
def KeepsMembers (k : Kernel) (a : Action) : Prop :=
  (∀ c, k.request a = some c → c.leavesQueue = false) ∧
    ∀ p, k.running = some p → a = .statement → (k.pcbs.cpuState p).leavesQueue = false

theorem KeepsMembers.roll (h : k.KeepsMembers a) (hstep : k.step a = some k') : k'.roll = k.roll := by
  obtain ⟨rfl, hstart⟩ | ⟨rfl, htimer⟩ | ⟨x, byte, rfl, -, rfl⟩ | ⟨c, p, ret, rfl, -, -, rfl⟩ |
    ⟨c, p, next, hp, hcalls, hcall⟩ | ⟨p, rfl, hp, -, hrun⟩ := step_cases hstep
  · obtain ⟨-, p, pool, -, rfl⟩ := startProcess_cases hstart
    rfl
  · obtain ⟨p, -, hschedule⟩ := Option.bind_eq_some_iff.mp htimer
    rw [internalSchedule_eq hschedule]
    rfl
  · rfl
  · rfl
  · exact syscallVector_roll (k := k.trap p next c) (h.1 c (hcalls.request hp)) hcall
  · exact runStatement_roll (h.2 p hp rfl) hrun

theorem KeepsMembers.notesNothing (h : k.KeepsMembers a) : k.NotesNothing a := by
  refine ⟨fun id fd mode hrequest ↦ absurd (h.1 _ hrequest) (by simp [Syscall.leavesQueue]), ?_⟩
  intro p fd q ds role hp ha hcontext
  have hleaves := h.2 p hp ha
  rw [hcontext] at hleaves
  cases hleaves

/-- A noted descriptor stays. -/
theorem KeepsMembers.stays (h : k.KeepsMembers a) (hok : k.files.Ok) (hstep : k.step a = some k')
    (hallocated : k.descriptors.allocator.Allocated d) (hleads : k.files.Leads d) :
    k.files.Stays k'.files d ∧ k'.descriptors.rwn d = k.descriptors.rwn d := by
  have hleaves {c : Syscall} (hrequest : k.request a = some c) (hc : c.leavesQueue = true) : False :=
    Bool.noConfusion (hc.symm.trans (h.1 c hrequest))
  obtain ⟨hstays, hrwn | ⟨id, fd, mode, hrequest⟩⟩ := stays_step hok (fun hrequest ↦ hleaves hrequest rfl)
    hstep hallocated hleads fun hgives ↦ by
      obtain ⟨p, -, ⟨fd, hrequest, -⟩ | ⟨id, fd, mode, hrequest, -⟩ | ⟨value, hrequest, -⟩⟩ := hgives <;>
        exact hleaves hrequest rfl
  · exact ⟨hstays, hrwn⟩
  · exact (hleaves hrequest rfl).elim

end Kernel

end DisastrOS
