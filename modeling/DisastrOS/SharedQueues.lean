import DisastrOS.Descriptors
import DisastrOS.Library.Renamings
import DisastrOS.OpenCalls

/-!
# Processes that share queues

`Kernel.Consistent` is the state of the descriptors and the queue users between the statements of
`dmq_open` and `dmq_close`: every entry that a descriptor still has in a list is a user of that list, no
two descriptors share one, and a process inside one of the two functions has the descriptor it works on.
-/

set_option autoImplicit false
set_option relaxedAutoImplicit false

namespace DisastrOS

open LinkedLists PoolAllocator
open Function (update)

/-! ### Where a process stands in `dmq_close` -/

/-- The roles that `dmq_close` goes through before a role. -/
def Role.before : Role → List Role
  | .reader => []
  | .writer => [.reader]
  | .nonBlock => [.reader, .writer]

theorem Role.notMem_before (role : Role) : role ∉ role.before := by
  cases role <;> decide

/-- In a `dmq_close` of `fd`, the process has been taken out of the list of the role. -/
def Context.Left : Context → ℤ → Role → Prop
  | .closeDetach fd' _ _ next, fd, role => fd = fd' ∧ role ∈ next.before
  | .closeFree fd' _ _ last _, fd, role => fd = fd' ∧ (role = last ∨ role ∈ last.before)
  | .closeResource fd' _, fd, _ => fd = fd'
  | _, _, _ => False

/-- The user that was detached and is to be freed. -/
def Context.aside : Context → Option Addr
  | .closeFree _ _ _ _ entry => entry
  | _ => none

namespace Kernel

variable {layout : Layout} {k k₁ : Kernel} {users users₁ : Addr × Role → List Addr}
  {o o' d d' q r u : Addr} {role role' : Role} {id fd : ℤ} {c : Context}

/-- The users in the list of a role of a queue. -/
def userNodes (k : Kernel) (i : Addr × Role) : List Addr := (k.queues.users i).toList k.queueUsers.list

theorem UsersOrdered.userNodes_eq (h : k.UsersOrdered users) : k.userNodes = users :=
  funext fun i ↦ (h.lists.represents i).toList_eq

theorem userNodes_congr (husers : k₁.queueUsers = k.queueUsers)
    (hqueues : k₁.queues.users = k.queues.users) : k₁.userNodes = k.userNodes := by
  unfold userNodes
  rw [husers, hqueues]

theorem Aside.congr (h : k.Aside users u) (husers : k₁.queueUsers = k.queueUsers) :
    k₁.Aside users u where
  allocated := by rw [husers]; exact h.allocated
  notMem := h.notMem
  unlinked := by rw [husers]; exact h.unlinked

/-! ### Consistent states -/

/-- Process `o` is, by descriptor `d`, in the list of a role as user `u`. -/
structure Enlists (k : Kernel) (o d : Addr) (role : Role) (u : Addr) : Prop where
  mem : d ∈ k.files.descriptorNodes o
  entry : k.descriptors.rwn d role = some u
  inside : ¬ (k.pcbs.cpuState o).Left (k.descriptors.fd d) role

/-- Process `o` has opened the resource of an id as `fd`, and is not in a list of its queue yet. -/
def HasOpened (k : Kernel) (o : Addr) (id fd : ℤ) : Prop :=
  ∃ d ∈ k.files.descriptorNodes o, k.descriptors.fd d = fd ∧
    k.resources.id (k.descriptors.resource d) = id ∧ ∀ role, k.descriptors.rwn d role = none

/-- Descriptor `d` of process `o` is `fd`, and its queue is `q`. -/
structure Closes (k : Kernel) (o : Addr) (fd : ℤ) (q d : Addr) : Prop where
  mem : d ∈ k.files.descriptorNodes o
  fd_eq : k.descriptors.fd d = fd
  value : k.resources.value (k.descriptors.resource d) = some q

/-- Process `o`, inside `dmq_open` or `dmq_close`, has the descriptor that its point speaks of. -/
def ContextSound (k : Kernel) (o : Addr) : Context → Prop
  | .openResult id _ =>
    0 ≤ k.pcbs.syscallRetvalue o → k.HasOpened o id (k.pcbs.syscallRetvalue o)
  | .openQueue id fd _ => k.HasOpened o id fd
  | .closeDetach fd q d _ => k.Closes o fd q d
  | .closeFree fd q d _ entry => k.Closes o fd q d ∧ ∀ u, entry = some u → k.Aside k.userNodes u
  | .closeResource fd q => ∃ d, k.Closes o fd q d
  | _ => True

/-- The descriptors and the queue users are in order, and belong together. -/
structure Consistent (layout : Layout) (k : Kernel) : Prop where
  files : k.files.Ok
  sized : k.files.Sized
  ordered : k.UsersOrdered k.userNodes
  samePool : SamePool layout.boot.queueUsers.allocator k.queueUsers.allocator
  listed : ∀ {o d role u}, k.Enlists o d role u →
    ∃ q, k.resources.value (k.descriptors.resource d) = some q ∧ u ∈ k.userNodes (q, role)
  enlists_inj : ∀ {o d role o' d' role' u}, k.Enlists o d role u → k.Enlists o' d' role' u → d = d'
  sound : ∀ o, k.ContextSound o (k.pcbs.cpuState o)
  aside_inj : ∀ {o o' u}, (k.pcbs.cpuState o).aside = some u → (k.pcbs.cpuState o').aside = some u →
    o = o'

theorem Consistent.aside (h : k.Consistent layout) (haside : (k.pcbs.cpuState o).aside = some u) :
    k.Aside k.userNodes u := by
  have hsound := h.sound o
  revert hsound haside
  generalize k.pcbs.cpuState o = c
  intro haside hsound
  cases c with
  | closeFree fd q d role entry => exact hsound.2 u haside
  | _ => cases haside

/-- The user of an entry is allocated. -/
theorem Consistent.allocated (h : k.Consistent layout) (henlists : k.Enlists o d role u) :
    k.queueUsers.allocator.Allocated u := by
  obtain ⟨q, -, hu⟩ := h.listed henlists
  exact h.ordered.allocated _ u hu

/-- With no open descriptor, and no process inside a queue function, only the tables have to be in
order. -/
theorem consistent_of_closed (hok : k.files.Ok) (hsized : k.files.Sized)
    (hordered : ∃ users, k.UsersOrdered users)
    (hpool : SamePool layout.boot.queueUsers.allocator k.queueUsers.allocator)
    (hclosed : ∀ d, ¬ k.descriptors.allocator.Allocated d)
    (huser : ∀ o, ∃ ret, k.pcbs.cpuState o = .user ret) : k.Consistent layout := by
  have hnone : ∀ {o d}, d ∉ k.files.descriptorNodes o :=
    fun hd ↦ hclosed _ (hok.descriptor_allocated _ _ hd)
  constructor
  · exact hok
  · exact hsized
  · obtain ⟨users, husers⟩ := hordered
    rw [husers.userNodes_eq]
    exact husers
  · exact hpool
  · exact fun henlists ↦ absurd henlists.mem hnone
  · exact fun henlists _ ↦ absurd henlists.mem hnone
  · intro o
    obtain ⟨ret, hret⟩ := huser o
    rw [hret]
    trivial
  · intro o o' u haside
    obtain ⟨ret, hret⟩ := huser o
    rw [hret] at haside
    cases haside

/-! ### Steps about one process -/

/-- The step is about process `o`: the other processes stand where they stood and have their
descriptors as before, and no resource is created or destroyed. -/
structure OnlyAbout (o : Addr) (k k₁ : Kernel) : Prop where
  sameFor : ∀ o', o' ≠ o → k.files.SameFor k₁.files o'
  ptr : ∀ o', o' ≠ o → ∀ d ∈ k.files.descriptorNodes o', k₁.descriptors.ptr d = k.descriptors.ptr d
  context : ∀ o', o' ≠ o → k₁.pcbs.cpuState o' = k.pcbs.cpuState o'
  retvalue : ∀ o', o' ≠ o → k₁.pcbs.syscallRetvalue o' = k.pcbs.syscallRetvalue o'
  resources : k₁.resources = { k.resources with descriptorsPtrs := k₁.resources.descriptorsPtrs }
  resourcesList : k₁.resourcesList = k.resourcesList

theorem OnlyAbout.fd_eq (h : OnlyAbout o k k₁) (hne : o' ≠ o) (hd : d ∈ k.files.descriptorNodes o') :
    k₁.descriptors.fd d = k.descriptors.fd d := ((h.sameFor o' hne).kept d hd).fd

theorem OnlyAbout.mem_iff (h : OnlyAbout o k k₁) (hne : o' ≠ o) :
    d ∈ k₁.files.descriptorNodes o' ↔ d ∈ k.files.descriptorNodes o' := by
  rw [(h.sameFor o' hne).nodes]

theorem OnlyAbout.rwn_eq (h : OnlyAbout o k k₁) (hne : o' ≠ o) (hd : d ∈ k.files.descriptorNodes o') :
    k₁.descriptors.rwn d = k.descriptors.rwn d := (h.sameFor o' hne).rwn d hd

theorem OnlyAbout.enlists (h : OnlyAbout o k k₁) (hne : o' ≠ o)
    (henlists : k₁.Enlists o' d role u) : k.Enlists o' d role u := by
  have hd := (h.mem_iff hne).mp henlists.mem
  refine ⟨hd, ?_, ?_⟩
  · rw [← h.rwn_eq hne hd]
    exact henlists.entry
  · rw [← h.fd_eq hne hd, ← h.context o' hne]
    exact henlists.inside

theorem OnlyAbout.value (h : OnlyAbout o k k₁) (hne : o' ≠ o) (hd : d ∈ k.files.descriptorNodes o')
    (hvalue : k.resources.value (k.descriptors.resource d) = some q) :
    k₁.resources.value (k₁.descriptors.resource d) = some q := by
  have hkept := (h.sameFor o' hne).kept d hd
  have hresource : k₁.descriptors.resource d = k.descriptors.resource d := hkept.resource
  rw [hresource]
  exact hkept.value q hvalue

theorem OnlyAbout.closes (h : OnlyAbout o k k₁) (hne : o' ≠ o) (hcloses : k.Closes o' fd q d) :
    k₁.Closes o' fd q d where
  mem := (h.mem_iff hne).mpr hcloses.mem
  fd_eq := (h.fd_eq hne hcloses.mem).trans hcloses.fd_eq
  value := h.value hne hcloses.mem hcloses.value

theorem OnlyAbout.hasOpened (h : OnlyAbout o k k₁) (hne : o' ≠ o) (hopened : k.HasOpened o' id fd) :
    k₁.HasOpened o' id fd := by
  obtain ⟨d, hd, hfd, hid, hentries⟩ := hopened
  have hkept := (h.sameFor o' hne).kept d hd
  have hresource : k₁.descriptors.resource d = k.descriptors.resource d := hkept.resource
  refine ⟨d, (h.mem_iff hne).mpr hd, (h.fd_eq hne hd).trans hfd, ?_, fun role ↦ ?_⟩
  · rw [hresource]
    exact hkept.id.trans hid
  · rw [h.rwn_eq hne hd]
    exact hentries role

/-- The points of the other processes stay sound. -/
theorem OnlyAbout.sound (h : OnlyAbout o k k₁) (hne : o' ≠ o)
    (haside : ∀ u, c.aside = some u → k.Aside k.userNodes u → k₁.Aside k₁.userNodes u)
    (hsound : k.ContextSound o' c) : k₁.ContextSound o' c := by
  cases c with
  | openResult id mode =>
    intro hret
    rw [h.retvalue o' hne] at hret ⊢
    exact h.hasOpened hne (hsound hret)
  | openQueue id fd mode => exact h.hasOpened hne hsound
  | closeDetach fd q d role => exact h.closes hne hsound
  | closeFree fd q d role entry =>
    exact ⟨h.closes hne hsound.1, fun u hu ↦ haside u hu (hsound.2 u hu)⟩
  | closeResource fd q =>
    obtain ⟨d, hcloses⟩ := hsound
    exact ⟨d, h.closes hne hcloses⟩
  | _ => trivial

/-! ### What keeps a state consistent -/

/-- A step about process `o`. What has to be shown is about its entries, the users of the others and the
users that are set aside. -/
theorem Consistent.of_onlyAbout (h : k.Consistent layout) (habout : OnlyAbout o k k₁)
    (hok : k₁.files.Ok) (hsized : k₁.files.Sized) (hordered : k₁.UsersOrdered k₁.userNodes)
    (hpool : SamePool k.queueUsers.allocator k₁.queueUsers.allocator)
    (hself : ∀ {d role u}, k₁.Enlists o d role u →
      ∃ q, k₁.resources.value (k₁.descriptors.resource d) = some q ∧ u ∈ k₁.userNodes (q, role))
    (hothers : ∀ {o' d role u q}, o' ≠ o → k.Enlists o' d role u → u ∈ k.userNodes (q, role) →
      u ∈ k₁.userNodes (q, role))
    (hinj : ∀ {d role d' role' u}, k₁.Enlists o d role u → k₁.Enlists o d' role' u → d = d')
    (hapart : ∀ {d role o' d' role' u}, o' ≠ o → k₁.Enlists o d role u → ¬ k.Enlists o' d' role' u)
    (hsound : k₁.ContextSound o (k₁.pcbs.cpuState o))
    (haside : ∀ {o' u}, o' ≠ o → (k.pcbs.cpuState o').aside = some u → k₁.Aside k₁.userNodes u)
    (hasideSelf : ∀ {o' u}, o' ≠ o → (k.pcbs.cpuState o').aside = some u →
      (k₁.pcbs.cpuState o).aside ≠ some u) : k₁.Consistent layout where
  files := hok
  sized := hsized
  ordered := hordered
  samePool := h.samePool.trans hpool
  listed := by
    intro o' d role u henlists
    by_cases hne : o' = o
    · subst hne
      exact hself henlists
    · have hold := habout.enlists hne henlists
      obtain ⟨q, hvalue, hu⟩ := h.listed hold
      exact ⟨q, habout.value hne hold.mem hvalue, hothers hne hold hu⟩
  enlists_inj := by
    intro o₁ d₁ role₁ o₂ d₂ role₂ u h₁ h₂
    by_cases hne₁ : o₁ = o <;> by_cases hne₂ : o₂ = o
    · subst hne₁ hne₂
      exact hinj h₁ h₂
    · subst hne₁
      exact absurd (habout.enlists hne₂ h₂) (hapart hne₂ h₁)
    · subst hne₂
      exact absurd (habout.enlists hne₁ h₁) (hapart hne₁ h₂)
    · exact h.enlists_inj (habout.enlists hne₁ h₁) (habout.enlists hne₂ h₂)
  sound := by
    intro o'
    by_cases hne : o' = o
    · subst hne
      exact hsound
    · rw [habout.context o' hne]
      exact habout.sound hne (fun u hu _ ↦ haside hne hu) (h.sound o')
  aside_inj := by
    intro o₁ o₂ u h₁ h₂
    by_cases hne₁ : o₁ = o <;> by_cases hne₂ : o₂ = o
    · exact hne₁.trans hne₂.symm
    · subst hne₁
      rw [habout.context o₂ hne₂] at h₂
      exact absurd h₁ (hasideSelf hne₂ h₂)
    · subst hne₂
      rw [habout.context o₁ hne₁] at h₁
      exact absurd h₂ (hasideSelf hne₁ h₁)
    · rw [habout.context o₁ hne₁] at h₁
      rw [habout.context o₂ hne₂] at h₂
      exact h.aside_inj h₁ h₂

/-- The lists of the users stay, and the process has no new entries. -/
theorem Consistent.of_sameUsers (h : k.Consistent layout) (habout : OnlyAbout o k k₁)
    (hok : k₁.files.Ok) (hsized : k₁.files.Sized) (husers : k₁.queueUsers = k.queueUsers)
    (hqueues : k₁.queues.users = k.queues.users)
    (hself : ∀ {d role u}, k₁.Enlists o d role u → k.Enlists o d role u ∧
      ∀ q, k.resources.value (k.descriptors.resource d) = some q →
        k₁.resources.value (k₁.descriptors.resource d) = some q)
    (hsound : k₁.ContextSound o (k₁.pcbs.cpuState o)) (haside : (k₁.pcbs.cpuState o).aside = none) :
    k₁.Consistent layout := by
  have hnodes := userNodes_congr husers hqueues
  apply h.of_onlyAbout habout hok hsized
  · rw [hnodes]
    exact h.ordered.congr husers hqueues
  · rw [husers]
    exact .refl _
  · intro d role u henlists
    obtain ⟨hold, hvalue⟩ := hself henlists
    obtain ⟨q, hq, hu⟩ := h.listed hold
    exact ⟨q, hvalue q hq, by rwa [hnodes]⟩
  · intro o' d role u q hne hold hu
    rwa [hnodes]
  · intro d role d' role' u h₁ h₂
    exact h.enlists_inj (hself h₁).1 (hself h₂).1
  · intro d role o' d' role' u hne h₁ h₂
    -- a descriptor is in the list of one process
    have hsame := h.enlists_inj (hself h₁).1 h₂
    exact Files.Ok.disjoint h.files hne h₂.mem (hsame ▸ (hself h₁).1.mem)
  · exact hsound
  · intro o' u hne hu
    rw [hnodes]
    exact (h.aside hu).congr husers
  · intro o' u hne hu hself'
    rw [haside] at hself'
    cases hself'

theorem OnlyAbout.of_sameFiles (hfiles : k₁.files = k.files)
    (hcontext : ∀ o', o' ≠ o → k₁.pcbs.cpuState o' = k.pcbs.cpuState o')
    (hretvalue : ∀ o', o' ≠ o → k₁.pcbs.syscallRetvalue o' = k.pcbs.syscallRetvalue o') :
    OnlyAbout o k k₁ where
  sameFor o' _ := hfiles ▸ .refl k.files o'
  ptr o' _ d _ := congrArg (fun f : Files ↦ f.descriptors.ptr d) hfiles
  context := hcontext
  retvalue := hretvalue
  resources := by
    have hresources : k₁.resources = k.resources := congrArg Files.resources hfiles
    rw [hresources]
  resourcesList := congrArg Files.resourcesList hfiles

/-- Only the point of the process changes, and it is taken out of no list by that. -/
theorem Consistent.of_sameFiles (h : k.Consistent layout) (hfiles : k₁.files = k.files)
    (husers : k₁.queueUsers = k.queueUsers) (hqueues : k₁.queues.users = k.queues.users)
    (habout : OnlyAbout o k k₁)
    (hleft : ∀ d ∈ k.files.descriptorNodes o, ∀ role,
      (k.pcbs.cpuState o).Left (k.descriptors.fd d) role →
        (k₁.pcbs.cpuState o).Left (k.descriptors.fd d) role)
    (hsound : k₁.ContextSound o (k₁.pcbs.cpuState o)) (haside : (k₁.pcbs.cpuState o).aside = none) :
    k₁.Consistent layout := by
  have hdescs : k₁.descriptors = k.descriptors := congrArg Files.descriptors hfiles
  have hresources : k₁.resources = k.resources := congrArg Files.resources hfiles
  refine h.of_sameUsers habout (hfiles ▸ h.files) (hfiles ▸ h.sized) husers hqueues ?_ hsound haside
  rintro d role u ⟨hmem, hentry, hinside⟩
  rw [hfiles] at hmem
  rw [hdescs] at hentry hinside
  refine ⟨⟨hmem, hentry, fun hold ↦ hinside (hleft d hmem role hold)⟩, fun q hq ↦ ?_⟩
  rw [hdescs, hresources]
  exact hq

/-! ### The statements of `dmq_close` -/

theorem ContextSound.setContext (openings : Addr → ℤ) (c' : Context) (h : k.ContextSound o c) :
    ({ k with queues.openings := openings }.setContext o' c').ContextSound o c := by
  have hcloses : ∀ {fd q d}, k.Closes o fd q d →
      ({ k with queues.openings := openings }.setContext o' c').Closes o fd q d :=
    fun h ↦ ⟨h.mem, h.fd_eq, h.value⟩
  cases c with
  | closeDetach fd q d role => exact hcloses h
  | closeFree fd q d role entry => exact ⟨hcloses h.1, fun u hu ↦ (h.2 u hu).congr rfl⟩
  | closeResource fd q =>
    obtain ⟨d, h⟩ := h
    exact ⟨d, hcloses h⟩
  | _ => exact h

/-- The process goes on at another point, and an opening may be counted. -/
theorem Consistent.setContext (h : k.Consistent layout) (openings : Addr → ℤ)
    (hleft : ∀ fd role, (k.pcbs.cpuState o).Left fd role → c.Left fd role)
    (hsound : k.ContextSound o c) (haside : c.aside = none) :
    ({ k with queues.openings := openings }.setContext o c).Consistent layout ∧
      OnlyAbout o k ({ k with queues.openings := openings }.setContext o c) := by
  have hcontext : ({ k with queues.openings := openings }.setContext o c).pcbs.cpuState o = c :=
    Function.update_self ..
  have habout : OnlyAbout o k ({ k with queues.openings := openings }.setContext o c) :=
    .of_sameFiles rfl (fun o' hne ↦ Function.update_of_ne hne ..) fun _ _ ↦ rfl
  refine ⟨h.of_sameFiles rfl rfl rfl habout (fun d _ role hold ↦ ?_) ?_ ?_, habout⟩
  · rw [hcontext]
    exact hleft _ role hold
  · rw [hcontext]
    exact hsound.setContext openings c
  · rw [hcontext]
    exact haside

/-- The entry that a process is about to detach is in the list. -/
theorem Consistent.enlists_closeDetach (h : k.Consistent layout)
    (hcontext : k.pcbs.cpuState o = .closeDetach fd q d role)
    (hentry : k.descriptors.rwn d role = some u) :
    k.Enlists o d role u ∧ u ∈ k.userNodes (q, role) := by
  have hsound := h.sound o
  rw [hcontext] at hsound
  have henlists : k.Enlists o d role u := by
    refine ⟨hsound.mem, hentry, ?_⟩
    rw [hcontext]
    exact fun hleft ↦ role.notMem_before hleft.2
  obtain ⟨q', hvalue, hu⟩ := h.listed henlists
  obtain rfl := Option.some.inj (hvalue.symm.trans hsound.value)
  exact ⟨henlists, hu⟩

/-- The entry of a role is detached and set aside. -/
theorem Consistent.closeDetach (h : k.Consistent layout)
    (hcontext : k.pcbs.cpuState o = .closeDetach fd q d role) :
    ((k.detachUser (q, role) (k.descriptors.rwn d role)).setContext o
        (.closeFree fd q d role (k.descriptors.rwn d role))).Consistent layout ∧
      OnlyAbout o k ((k.detachUser (q, role) (k.descriptors.rwn d role)).setContext o
        (.closeFree fd q d role (k.descriptors.rwn d role))) := by
  have hsound := h.sound o
  rw [hcontext] at hsound
  have hleft : ∀ fd' role', (k.pcbs.cpuState o).Left fd' role' →
      (Context.closeFree fd q d role (k.descriptors.rwn d role)).Left fd' role' := by
    rw [hcontext]
    rintro fd' role' ⟨hfd, hrole⟩
    exact ⟨hfd, Or.inr hrole⟩
  cases hentry : k.descriptors.rwn d role with
  | none =>
    rw [detachUser_null]
    refine h.setContext k.queues.openings ?_ ⟨hsound, fun u hu ↦ by cases hu⟩ rfl
    rwa [hentry] at hleft
  | some u =>
    obtain ⟨henlists, hu⟩ := h.enlists_closeDetach hcontext hentry
    have hordered : (k.detachUser (q, role) (some u)).UsersOrdered _ := h.ordered.leave hu
    have hnodes : (k.detachUser (q, role) (some u)).userNodes =
        update k.userNodes (q, role) ((k.userNodes (q, role)).erase u) := hordered.userNodes_eq
    have hmem : ∀ i v, v ∈ (k.detachUser (q, role) (some u)).userNodes i ↔
        v ∈ k.userNodes i ∧ v ≠ u := by
      rw [hnodes]
      exact fun i v ↦ h.ordered.lists.mem_update_erase hu
    set k₁ := (k.detachUser (q, role) (some u)).setContext o (.closeFree fd q d role (some u))
      with hk₁
    have hcontext₁ : k₁.pcbs.cpuState o = .closeFree fd q d role (some u) := Function.update_self ..
    have habout : OnlyAbout o k k₁ :=
      .of_sameFiles rfl (fun o' hne ↦ Function.update_of_ne hne ..) fun _ _ ↦ rfl
    -- the process has the same entries but one
    have hold : ∀ {d' role' v}, k₁.Enlists o d' role' v → k.Enlists o d' role' v ∧ v ≠ u := by
      rintro d' role' v ⟨hd', hv, hinside⟩
      have hlists : k.Enlists o d' role' v := by
        refine ⟨hd', hv, fun hbefore ↦ hinside ?_⟩
        rw [hcontext₁]
        rw [hcontext] at hbefore
        exact ⟨hbefore.1, Or.inr hbefore.2⟩
      refine ⟨hlists, ?_⟩
      rintro rfl
      obtain rfl := h.enlists_inj hlists henlists
      -- no user is in two lists
      obtain ⟨q', -, hv'⟩ := h.listed hlists
      obtain ⟨-, rfl⟩ := Prod.mk.inj (h.ordered.lists.disjoint _ _ v hv' hu)
      apply hinside
      rw [hcontext₁]
      exact ⟨hsound.fd_eq, Or.inl rfl⟩
    refine ⟨?_, habout⟩
    apply h.of_onlyAbout habout h.files h.sized
    · change k₁.UsersOrdered (k.detachUser (q, role) (some u)).userNodes
      rw [hnodes]
      exact hordered.congr rfl rfl
    · exact .refl _
    · intro d' role' v henlists'
      obtain ⟨henlists', hne⟩ := hold henlists'
      obtain ⟨q', hvalue, hv⟩ := h.listed henlists'
      exact ⟨q', hvalue, (hmem _ _).mpr ⟨hv, hne⟩⟩
    · intro o' d' role' v q' hne hother hv
      refine (hmem _ _).mpr ⟨hv, ?_⟩
      rintro rfl
      have hsame := h.enlists_inj hother henlists
      exact Files.Ok.disjoint h.files hne hother.mem (hsame ▸ henlists.mem)
    · intro d₁ role₁ d₂ role₂ v h₁ h₂
      exact h.enlists_inj (hold h₁).1 (hold h₂).1
    · intro d₁ role₁ o' d₂ role₂ v hne h₁ h₂
      have hsame := h.enlists_inj (hold h₁).1 h₂
      exact Files.Ok.disjoint h.files hne h₂.mem (hsame ▸ (hold h₁).1.mem)
    · rw [hcontext₁]
      refine ⟨⟨hsound.mem, hsound.fd_eq, hsound.value⟩, fun v hv ↦ ?_⟩
      obtain rfl := Option.some.inj hv
      change k₁.Aside (k.detachUser (q, role) (some u)).userNodes u
      rw [hnodes]
      exact (h.ordered.aside hu).congr rfl
    · intro o' v hne hv
      change k₁.Aside (k.detachUser (q, role) (some u)).userNodes v
      rw [hnodes]
      exact ((h.aside hv).leave h.ordered hu).congr rfl
    · intro o' v hne hv hself
      rw [hcontext₁] at hself
      obtain rfl := Option.some.inj hself
      exact (h.aside hv).notMem _ hu

theorem afterRole_left {entry : Option Addr} {fd' : ℤ}
    (hleft : (Context.closeFree fd q d role entry).Left fd' role') :
    (afterRole fd q d role).Left fd' role' := by
  obtain ⟨hfd, hrole⟩ := hleft
  cases role with
  | reader => exact ⟨hfd, by simpa [Role.before] using hrole⟩
  | writer => exact ⟨hfd, by simpa [Role.before, or_comm] using hrole⟩
  | nonBlock => exact hfd

theorem Closes.afterRole (h : k.Closes o fd q d) (role : Role) :
    k.ContextSound o (afterRole fd q d role) := by
  cases role with
  | reader => exact h
  | writer => exact h
  | nonBlock => exact ⟨d, h⟩

theorem afterRole_aside (fd : ℤ) (q d : Addr) (role : Role) : (afterRole fd q d role).aside = none := by
  cases role <;> rfl

/-- The user that was set aside is freed. -/
theorem Consistent.closeFree {entry : Option Addr} (h : k.Consistent layout)
    (hcontext : k.pcbs.cpuState o = .closeFree fd q d role entry) :
    ((k.queueUserFree entry).setContext o (Kernel.afterRole fd q d role)).Consistent layout ∧
      OnlyAbout o k ((k.queueUserFree entry).setContext o (Kernel.afterRole fd q d role)) := by
  have hsound := h.sound o
  rw [hcontext] at hsound
  have hleft : ∀ fd' role', (k.pcbs.cpuState o).Left fd' role' →
      (Kernel.afterRole fd q d role).Left fd' role' := by
    rw [hcontext]
    exact fun fd' role' ↦ afterRole_left
  have haside := afterRole_aside fd q d role
  cases entry with
  | none =>
    rw [queueUserFree_null h.samePool]
    exact h.setContext k.queues.openings hleft (hsound.1.afterRole role) haside
  | some u =>
    have hu : k.Aside k.userNodes u := hsound.2 u rfl
    have hself : (k.pcbs.cpuState o).aside = some u := by rw [hcontext]; rfl
    have hordered : (k.queueUserFree (some u)).UsersOrdered k.userNodes := h.ordered.free hu
    set k₁ := (k.queueUserFree (some u)).setContext o (Kernel.afterRole fd q d role) with hk₁
    have hcontext₁ : k₁.pcbs.cpuState o = Kernel.afterRole fd q d role := Function.update_self ..
    have habout : OnlyAbout o k k₁ :=
      .of_sameFiles rfl (fun o' hne ↦ Function.update_of_ne hne ..) fun _ _ ↦ rfl
    have hold : ∀ {d' role' v}, k₁.Enlists o d' role' v → k.Enlists o d' role' v := by
      rintro d' role' v ⟨hd', hv, hinside⟩
      refine ⟨hd', hv, fun hbefore ↦ hinside ?_⟩
      rw [hcontext₁]
      exact hleft _ _ hbefore
    refine ⟨?_, habout⟩
    apply h.of_onlyAbout habout h.files h.sized
    · exact hordered.congr rfl rfl
    · exact releaseBlock_samePool _ _
    · exact fun henlists ↦ h.listed (hold henlists)
    · exact fun _ _ hv ↦ hv
    · exact fun h₁ h₂ ↦ h.enlists_inj (hold h₁) (hold h₂)
    · intro d₁ role₁ o' d₂ role₂ v hne h₁ h₂
      have hsame := h.enlists_inj (hold h₁) h₂
      exact Files.Ok.disjoint h.files hne h₂.mem (hsame ▸ (hold h₁).mem)
    · rw [hcontext₁]
      have hcloses : k₁.Closes o fd q d := ⟨hsound.1.mem, hsound.1.fd_eq, hsound.1.value⟩
      exact hcloses.afterRole role
    · intro o' v hne hv
      have hvu : v ≠ u := by
        rintro rfl
        exact hne (h.aside_inj hv hself)
      exact ((h.aside hv).free h.ordered.pool hu hvu).congr rfl
    · intro o' v hne hv hself'
      rw [hcontext₁, haside] at hself'
      cases hself'

/-- The process finds its descriptor by its number. -/
theorem Consistent.descriptorByFd (h : k.Consistent layout) (hcloses : k.Closes o fd q d) :
    k.descriptorByFd o fd = some (some d) := by
  rw [← hcloses.fd_eq]
  exact descriptorByFd_of_mem h.files h.sized hcloses.mem

/-- `internal_closeResource` with a descriptor of that number. -/
theorem internalCloseResource_found {x : Addr} (hp : k.running = some o)
    (hfound : k.descriptorByFd o fd = some (some d)) (hptr : k.descriptors.ptr d = some x) :
    ∃ k₁, internalCloseResource fd k = some k₁ ∧
      k₁.files = k.files.drop o d (k.descriptors.resource d) x ∧
      k₁.pcbs.syscallRetvalue = update k.pcbs.syscallRetvalue o 0 := by
  unfold internalCloseResource
  rw [hp]
  simp only [Option.bind_eq_bind, Option.bind_some, hfound]
  have hptr' : (k.detachDescriptor o (some d)).descriptors.ptr d = some x := hptr
  rw [hptr', Option.bind_some]
  exact ⟨_, rfl, rfl, rfl⟩

/-- The descriptor of a process that is about to close its resource. -/
theorem Consistent.closing (h : k.Consistent layout)
    (hcontext : k.pcbs.cpuState o = .closeResource fd q) :
    ∃ d x, k.Closes o fd q d ∧ k.descriptorByFd o fd = some (some d) ∧
      k.descriptors.ptr d = some x := by
  have hsound := h.sound o
  rw [hcontext] at hsound
  obtain ⟨d, hcloses⟩ := hsound
  obtain ⟨x, -, hptr, -⟩ := h.files.pointer o d hcloses.mem
  exact ⟨d, x, hcloses, h.descriptorByFd hcloses, hptr⟩

/-- The descriptor goes, after its entries. -/
theorem Consistent.closeResource (h : k.Consistent layout) (hp : k.running = some o)
    (hcontext : k.pcbs.cpuState o = .closeResource fd q)
    (hclose : internalCloseResource fd (k.trap o (.closeResult q) (.closeResource fd)) = some k₁) :
    k₁.Consistent layout ∧ OnlyAbout o k k₁ := by
  obtain ⟨d, x, hcloses, hfound, hptr⟩ := h.closing hcontext
  obtain ⟨k₂, hclose₂, hfiles, hret⟩ :=
    internalCloseResource_found (k := k.trap o (.closeResult q) (.closeResource fd)) hp hfound hptr
  obtain rfl := Option.some.inj (hclose.symm.trans hclose₂)
  have hframe := internalCloseResource_eq hclose
  have hdrop := Files.Holds.drop h.files hcloses.mem hptr
  have hnodes : k₁.files.descriptorNodes o = (k.files.descriptorNodes o).erase d := by
    rw [hfiles]
    exact (congrFun hdrop.descriptorNodes_eq o).trans (Function.update_self ..)
  have hcontext₁ : k₁.pcbs.cpuState o = .closeResult q := by
    rw [hframe]
    exact Function.update_self ..
  have habout : OnlyAbout o k k₁ := by
    refine ⟨fun o' hne ↦ ?_, fun o' hne d' hd' ↦ ?_, fun o' hne ↦ ?_, fun o' hne ↦ ?_, ?_, ?_⟩
    · rw [hfiles]
      exact Files.SameFor.drop h.files hcloses.mem hptr hne
    · rw [hframe]
      rfl
    · rw [hframe]
      exact Function.update_of_ne hne ..
    · rw [hret]
      exact Function.update_of_ne hne ..
    · rw [hframe]
      rfl
    · rw [hframe]
      rfl
  refine ⟨?_, habout⟩
  apply h.of_sameUsers habout
  · rw [hfiles]
    exact hdrop.ok
  · rw [hfiles]
    exact h.sized.drop ..
  · rw [hframe]
    rfl
  · rw [hframe]
    rfl
  · rintro d' role u ⟨hd', hentry, hinside⟩
    rw [hnodes] at hd'
    obtain ⟨hne, hmem⟩ := (h.files.descriptorLists.represents o).nodup.mem_erase_iff.mp hd'
    have hentry' : k.descriptors.rwn d' role = some u := by
      rw [hframe] at hentry
      exact hentry
    refine ⟨⟨hmem, hentry', ?_⟩, fun q' hq' ↦ ?_⟩
    · rw [hcontext]
      intro hfd
      exact hne (h.files.fd_inj o d' hmem d hcloses.mem (hfd.trans hcloses.fd_eq.symm))
    · rw [hframe]
      exact hq'
  · rw [hcontext₁]
    trivial
  · rw [hcontext₁]
    rfl

/-! ### The calls of `dmq_open` -/

/-- `OPEN_RESOURCE` for a queue that exists. -/
theorem internalOpenResource_existing {mode : BitVec 32} (hp : k.running = some o)
    (hfound : k.resourceById id = some (some r)) (htype : k.resources.type r = 2) :
    internalOpenResource id 2 (resourceFlags mode) k =
      if hasBit mode dsosCreat = true ∧ hasBit mode dsosQExcl = true then
        some (k.setRetvalue o dsosEresourcenoexcl)
      else k.openDescriptor o r := by
  split_ifs with hexcl
  · unfold internalOpenResource
    rw [hp]
    simp only [Option.bind_eq_bind, Option.bind_some, hfound, hasBit_resourceFlags_create,
      hasBit_resourceFlags_excl, hexcl.1, hexcl.2, Bool.and_self, if_true, Option.isSome_some,
      and_self]
  · have hwith : k.withResource id r = k := by
      unfold withResource
      rw [hfound, if_neg (by simp)]
    rw [internalOpenResource_of_finds hp (Or.inl ⟨hfound, htype, hexcl⟩), hwith]

/-- With a block free, the process gets a descriptor. -/
theorem openDescriptor_joins (hok : k.files.Ok) (hfree : 0 < k.descriptors.allocator.size)
    (hfd : k.pcbs.lastFd o ≠ intMax) (r : Addr) :
    ∃ d x pool ptrPool k₁, k.descriptors.allocator.getBlock = (some d, pool) ∧
      k.descriptorPtrs.allocator.getBlock = (some x, ptrPool) ∧
      k.openDescriptor o r = some k₁ ∧ k₁.files = k.files.join o r d x pool ptrPool ∧
      k₁.pcbs.syscallRetvalue = update k.pcbs.syscallRetvalue o (k.pcbs.lastFd o) := by
  have hsize : k.descriptors.allocator.size = k.descriptorPtrs.allocator.size := hok.sameSize
  rcases hget : k.descriptors.allocator.getBlock with ⟨_ | d, pool⟩
  · have hnone := hok.descriptorPool.getBlock_eq_none_iff.mp (congrArg Prod.fst hget)
    exact absurd hnone hfree.ne'
  rcases hgetPtr : k.descriptorPtrs.allocator.getBlock with ⟨_ | x, ptrPool⟩
  · have hnone := hok.pointerPool.getBlock_eq_none_iff.mp (congrArg Prod.fst hgetPtr)
    exact absurd (hsize.trans hnone) hfree.ne'
  refine ⟨d, x, pool, ptrPool, ?_⟩
  unfold openDescriptor
  simp only [descriptorAlloc, hget, if_neg hfd, descriptorPtrAlloc, hgetPtr]
  refine ⟨_, trivial, trivial, rfl, rfl, ?_⟩
  have hself : update k.descriptors.fd d (k.pcbs.lastFd o) d = k.pcbs.lastFd o :=
    Function.update_self ..
  exact congrArg (update k.pcbs.syscallRetvalue o) hself

/-- `OPEN_RESOURCE` on a queue that exists keeps the state consistent. -/
theorem Consistent.openResource {mode : BitVec 32} (h : k.Consistent layout)
    (hp : k.running = some o) (hcontext : k.pcbs.cpuState o = .openResource id mode)
    (hr : r ∈ k.files.resourceNodes) (hid : k.resources.id r = id) (htype : k.resources.type r = 2)
    (hfree : 0 < k.descriptors.allocator.size)
    (hopen : internalOpenResource id 2 (resourceFlags mode) (k.firstCall o id mode) = some k₁) :
    k₁.Consistent layout ∧ OnlyAbout o k k₁ := by
  have hfound : (k.firstCall o id mode).resourceById id = some (some r) := by
    rw [← hid]
    exact resourceById_of_mem (k := k) h.files h.sized hr
  rw [internalOpenResource_existing (k := k.firstCall o id mode) hp hfound htype] at hopen
  have hleft : ∀ fd role, ¬ (k.pcbs.cpuState o).Left fd role := by
    rw [hcontext]
    exact fun fd role hleft ↦ hleft
  split_ifs at hopen with hexcl
  · -- the call is refused
    rw [← Option.some.inj hopen]
    have hcontext₁ : ((k.firstCall o id mode).setRetvalue o dsosEresourcenoexcl).pcbs.cpuState o =
        .openResult id mode := Function.update_self ..
    have hret : ((k.firstCall o id mode).setRetvalue o
        dsosEresourcenoexcl).pcbs.syscallRetvalue o = dsosEresourcenoexcl := Function.update_self ..
    have habout : OnlyAbout o k ((k.firstCall o id mode).setRetvalue o dsosEresourcenoexcl) :=
      .of_sameFiles rfl (fun o' hne ↦ Function.update_of_ne hne ..)
        fun o' hne ↦ Function.update_of_ne hne ..
    refine ⟨h.of_sameFiles rfl rfl rfl habout (fun d _ role hold ↦ absurd hold (hleft _ _)) ?_ ?_,
      habout⟩
    · rw [hcontext₁]
      intro hnonneg
      rw [hret] at hnonneg
      exact absurd hnonneg (by decide)
    · rw [hcontext₁]
      rfl
  · have hfd : (k.firstCall o id mode).pcbs.lastFd o ≠ intMax := by
      intro hmax
      rw [openDescriptor_overflow (k := k.firstCall o id mode) ?_ hmax] at hopen
      · cases hopen
      · exact fun hnone ↦ hfree.ne' (h.files.descriptorPool.getBlock_eq_none_iff.mp hnone)
    obtain ⟨d, x, pool, ptrPool, k₂, hget, hgetPtr, hopen₂, hfiles, hret⟩ :=
      openDescriptor_joins (k := k.firstCall o id mode) h.files hfree hfd r
    obtain rfl := Option.some.inj (hopen.symm.trans hopen₂)
    have hframe := openDescriptor_eq hopen
    have hjoin := Files.Holds.join (p := o) h.files hr hget hgetPtr
    obtain ⟨-, -, hnew, -, -⟩ := getBlock_some h.files.descriptorPool hget
    have hnodes : k₁.files.descriptorNodes o = k.files.descriptorNodes o ++ [d] := by
      rw [hfiles]
      exact (congrFun hjoin.descriptorNodes_eq o).trans (Function.update_self ..)
    have hold : ∀ d' ∈ k.files.descriptorNodes o, d' ≠ d := by
      rintro d' hd' rfl
      exact hnew (h.files.descriptor_allocated o d' hd')
    have hcontext₁ : k₁.pcbs.cpuState o = .openResult id mode := by
      rw [hframe]
      exact Function.update_self ..
    have hret₁ : k₁.pcbs.syscallRetvalue o = k.pcbs.lastFd o := by
      rw [hret]
      exact Function.update_self ..
    have hfds : k₁.descriptors.fd = update k.descriptors.fd d (k.pcbs.lastFd o) :=
      congrArg (fun f : Files ↦ f.descriptors.fd) hfiles
    have hentries : k₁.descriptors.rwn = update k.descriptors.rwn d fun _ ↦ none :=
      congrArg (fun f : Files ↦ f.descriptors.rwn) hfiles
    have hresource : k₁.descriptors.resource = update k.descriptors.resource d r :=
      congrArg (fun f : Files ↦ f.descriptors.resource) hfiles
    have hptrs : k₁.descriptors.ptr = update k.descriptors.ptr d (some x) :=
      congrArg (fun f : Files ↦ f.descriptors.ptr) hfiles
    have habout : OnlyAbout o k k₁ := by
      refine ⟨fun o' hne ↦ ?_, fun o' hne d' hd' ↦ ?_, fun o' hne ↦ ?_, fun o' hne ↦ ?_, ?_, ?_⟩
      · rw [hfiles]
        exact Files.SameFor.join h.files hr hget hgetPtr hne
      · rw [hptrs]
        refine Function.update_of_ne ?_ ..
        rintro rfl
        exact hnew (h.files.descriptor_allocated o' d' hd')
      · rw [hframe]
        exact Function.update_of_ne hne ..
      · rw [hret]
        exact Function.update_of_ne hne ..
      · rw [hframe]
        rfl
      · rw [hframe]
        rfl
    refine ⟨?_, habout⟩
    apply h.of_sameUsers habout
    · rw [hfiles]
      exact hjoin.ok
    · rw [hfiles]
      exact h.sized.join hget ..
    · rw [hframe]
      rfl
    · rw [hframe]
      rfl
    · rintro d' role u ⟨hd', hentry, hinside⟩
      rw [hnodes, List.mem_append, List.mem_singleton] at hd'
      obtain hd' | rfl := hd'
      · rw [hentries, Function.update_of_ne (hold d' hd')] at hentry
        refine ⟨⟨hd', hentry, hleft _ _⟩, fun q hq ↦ ?_⟩
        have hvalues : k₁.resources.value = k.resources.value := by
          rw [hframe]
          rfl
        rw [hresource, Function.update_of_ne (hold d' hd'), hvalues]
        exact hq
      · -- the new descriptor has no entries
        rw [hentries, Function.update_self] at hentry
        cases hentry
    · rw [hcontext₁]
      intro _
      rw [hret₁]
      refine ⟨d, ?_, ?_, ?_, fun role ↦ ?_⟩
      · rw [hnodes]
        exact List.mem_append_right _ (List.mem_singleton_self d)
      · rw [hfds]
        exact Function.update_self ..
      · have hids : k₁.resources.id = k.resources.id := by
          rw [hframe]
          rfl
        rw [hresource, Function.update_self, hids]
        exact hid
      · rw [hentries, Function.update_self]
    · rw [hcontext₁]
      rfl

/-- A process inside `OPEN_QUEUE` enters the list of a role. -/
theorem Consistent.enterUser {pid : ℤ} (h : k.Consistent layout)
    (hcontext : k.pcbs.cpuState o = .openReturn) (hd : d ∈ k.files.descriptorNodes o)
    (hvalue : k.resources.value (k.descriptors.resource d) = some q)
    (hentered : k.Entered k.userNodes q d pid role u (k.enterUser q d pid role u)) :
    (k.enterUser q d pid role u).Consistent layout ∧
      OnlyAbout o k (k.enterUser q d pid role u) := by
  set k₁ := k.enterUser q d pid role u with hk₁
  have hframe : k₁ = { k with
      queueUsers := k₁.queueUsers
      queues := { k.queues with users := k₁.queues.users }
      descriptors := { k.descriptors with rwn := k₁.descriptors.rwn } } := hentered.frame
  have hnodes : k₁.userNodes = update k.userNodes (q, role) (k.userNodes (q, role) ++ [u]) :=
    hentered.listed.userNodes_eq
  have hfiles : k₁.files = { k.files with descriptors.rwn := k₁.descriptors.rwn } := by
    rw [hframe]
    rfl
  have hdescs : k₁.files.descriptorNodes = k.files.descriptorNodes := by
    rw [hfiles]
    rfl
  have hstate : k₁.pcbs = k.pcbs := by rw [hframe]
  have hresources : k₁.resources = k.resources := by rw [hframe]
  have hresource : k₁.descriptors.resource = k.descriptors.resource := by rw [hframe]
  have hfds : k₁.descriptors.fd = k.descriptors.fd := by rw [hframe]
  have hsub : ∀ i v, v ∈ k.userNodes i → v ∈ k₁.userNodes i := by
    intro i v hv
    rw [hnodes]
    exact mem_update_append.mpr (Or.inl hv)
  have hinside : ∀ fd role', ¬ (k.pcbs.cpuState o).Left fd role' := by
    rw [hcontext]
    exact fun fd role' hleft ↦ hleft
  -- the process has the new entry and those it had
  have hcases : ∀ {d' role' v}, k₁.Enlists o d' role' v →
      k.Enlists o d' role' v ∨ d' = d ∧ role' = role ∧ v = u := by
    rintro d' role' v ⟨hd', hv, -⟩
    rw [hdescs] at hd'
    rw [hentered.rwn] at hv
    by_cases hsame : d' = d
    · subst hsame
      rw [Function.update_self] at hv
      by_cases hrole : role' = role
      · subst hrole
        rw [Function.update_self] at hv
        exact Or.inr ⟨rfl, rfl, (Option.some.inj hv).symm⟩
      · rw [Function.update_of_ne hrole] at hv
        exact Or.inl ⟨hd', hv, hinside _ _⟩
    · rw [Function.update_of_ne hsame] at hv
      exact Or.inl ⟨hd', hv, hinside _ _⟩
  have hfresh : ∀ {o' d' role' v}, k.Enlists o' d' role' v → v ≠ u := by
    rintro o' d' role' v hold rfl
    exact hentered.free (h.allocated hold)
  have habout : OnlyAbout o k k₁ := by
    refine ⟨fun o' hne ↦ ?_, fun o' hne d' hd' ↦ ?_, fun o' hne ↦ ?_, fun o' hne ↦ ?_, ?_, ?_⟩
    · rw [hfiles]
      refine Files.SameFor.setRwn _ _ fun d' hd' ↦ ?_
      rw [hentered.rwn]
      refine Function.update_of_ne ?_ ..
      rintro rfl
      exact Files.Ok.disjoint h.files hne hd' hd
    · rw [hframe]
    · rw [hstate]
    · rw [hstate]
    · rw [hresources]
    · rw [hframe]
  refine ⟨?_, habout⟩
  apply h.of_onlyAbout habout
  · rw [hfiles]
    exact h.files.setRwn k₁.descriptors.rwn |>.ok
  · rw [hfiles]
    exact h.sized.setRwn k₁.descriptors.rwn
  · rw [hnodes]
    exact hentered.listed
  · exact enterUser_samePool ..
  · intro d' role' v henlists
    rw [hresources, hresource]
    obtain hold | ⟨rfl, rfl, rfl⟩ := hcases henlists
    · obtain ⟨q', hq', hv⟩ := h.listed hold
      exact ⟨q', hq', hsub _ _ hv⟩
    · refine ⟨q, hvalue, ?_⟩
      rw [hnodes, Function.update_self]
      exact List.mem_append_right _ (List.mem_singleton_self v)
  · exact fun _ _ hv ↦ hsub _ _ hv
  · intro d₁ role₁ d₂ role₂ v h₁ h₂
    obtain hold₁ | ⟨hd₁, -, hv₁⟩ := hcases h₁ <;> obtain hold₂ | ⟨hd₂, -, hv₂⟩ := hcases h₂
    · exact h.enlists_inj hold₁ hold₂
    · exact absurd hv₂ (hfresh hold₁)
    · exact absurd hv₁ (hfresh hold₂)
    · exact hd₁.trans hd₂.symm
  · intro d₁ role₁ o' d₂ role₂ v hne h₁ h₂
    obtain h₁ | ⟨-, -, rfl⟩ := hcases h₁
    · have hsame := h.enlists_inj h₁ h₂
      exact Files.Ok.disjoint h.files hne h₂.mem (hsame ▸ h₁.mem)
    · exact hfresh h₂ rfl
  · rw [hstate, hcontext]
    trivial
  · intro o' v hne hv
    rw [hnodes]
    exact (h.aside hv).enterUser h.ordered hentered
  · intro o' v hne hv
    rw [hstate, hcontext]
    intro hself
    cases hself

theorem OnlyAbout.refl (o : Addr) (k : Kernel) : OnlyAbout o k k :=
  .of_sameFiles rfl (fun _ _ ↦ rfl) fun _ _ ↦ rfl

theorem OnlyAbout.trans {k₂ : Kernel} (h : OnlyAbout o k k₁) (h₁ : OnlyAbout o k₁ k₂) :
    OnlyAbout o k k₂ where
  sameFor o' hne := (h.sameFor o' hne).trans (h₁.sameFor o' hne)
  ptr o' hne d hd := (h₁.ptr o' hne d ((h.mem_iff hne).mpr hd)).trans (h.ptr o' hne d hd)
  context o' hne := (h₁.context o' hne).trans (h.context o' hne)
  retvalue o' hne := (h₁.retvalue o' hne).trans (h.retvalue o' hne)
  resources := by rw [h₁.resources, h.resources]
  resourcesList := h₁.resourcesList.trans h.resourcesList

/-- The process enters the lists of some roles, one after the other. -/
inductive EntersRoles (q d : Addr) (pid : ℤ) : Kernel → List Role → Kernel → Prop
  | nil (k : Kernel) : EntersRoles q d pid k [] k
  | cons {k k' : Kernel} {role : Role} {roles : List Role} (u : Addr)
    (hentered : k.Entered k.userNodes q d pid role u (k.enterUser q d pid role u))
    (hrest : EntersRoles q d pid (k.enterUser q d pid role u) roles k') :
    EntersRoles q d pid k (role :: roles) k'

theorem UsersOrdered.addRoles_enters {mode : BitVec 32} {roles : List Role}
    (h : k.UsersOrdered k.userNodes)
    (hfree : (askedRoles mode roles).length ≤ k.queueUsers.allocator.size) (q d : Addr) (pid : ℤ) :
    ∃ k', Kernel.addRoles q pid mode (some d) roles k = some (true, k') ∧
      EntersRoles q d pid k (askedRoles mode roles) k' := by
  induction roles generalizing k with
  | nil => exact ⟨k, rfl, .nil k⟩
  | cons role roles ih =>
    cases hbit : hasBit mode (roleBit role) with
    | false =>
      have hasked : askedRoles mode (role :: roles) = askedRoles mode roles := by
        simp [askedRoles, hbit]
      rw [hasked] at hfree ⊢
      obtain ⟨k', hadd, henters⟩ := ih h hfree
      refine ⟨k', ?_, henters⟩
      rw [Kernel.addRoles, queueAddRole_unasked hbit]
      exact hadd
    | true =>
      have hasked : askedRoles mode (role :: roles) = role :: askedRoles mode roles := by
        simp [askedRoles, hbit]
      rw [hasked, List.length_cons] at hfree
      obtain ⟨u, hadd, hentered⟩ := h.queueAddRole hbit (by omega) q d pid
      have hlisted : (k.enterUser q d pid role u).UsersOrdered
          (k.enterUser q d pid role u).userNodes := by
        rw [hentered.listed.userNodes_eq]
        exact hentered.listed
      obtain ⟨k', hrest, henters⟩ := ih hlisted (by rw [hentered.size]; omega)
      refine ⟨k', ?_, hasked ▸ .cons u hentered henters⟩
      rw [Kernel.addRoles, hadd]
      exact hrest

theorem EntersRoles.frame {pid : ℤ} {roles : List Role} (henters : EntersRoles q d pid k roles k₁) :
    k₁ = { k with
      queueUsers := k₁.queueUsers
      queues := { k.queues with users := k₁.queues.users }
      descriptors := { k.descriptors with rwn := k₁.descriptors.rwn } } := by
  induction henters with
  | nil => rfl
  | cons u hentered hrest ih =>
    rw [ih, hentered.frame]

theorem Consistent.entersRoles {pid : ℤ} {roles : List Role} (h : k.Consistent layout)
    (hcontext : k.pcbs.cpuState o = .openReturn) (hd : d ∈ k.files.descriptorNodes o)
    (hvalue : k.resources.value (k.descriptors.resource d) = some q)
    (henters : EntersRoles q d pid k roles k₁) : k₁.Consistent layout ∧ OnlyAbout o k k₁ := by
  induction henters with
  | nil k => exact ⟨h, .refl o k⟩
  | @cons k k' role roles u hentered hrest ih =>
    obtain ⟨hconsistent, habout⟩ := h.enterUser hcontext hd hvalue hentered
    have hframe := hentered.frame
    have hd' : d ∈ (k.enterUser q d pid role u).files.descriptorNodes o := by
      rw [hframe]
      exact hd
    obtain ⟨hconsistent', habout'⟩ := ih hconsistent (by rw [hframe]; exact hcontext) hd'
      (by rw [hframe]; exact hvalue)
    exact ⟨hconsistent', habout.trans habout'⟩

/-- `OPEN_QUEUE` on a queue that exists: the process enters the lists that it asks for. -/
theorem Consistent.joins {mode : BitVec 32} (h : k.Consistent layout)
    (hp : k.running = some o) (hcontext : k.pcbs.cpuState o = .openQueue id fd mode)
    (hr : r ∈ k.files.resourceNodes) (hid : k.resources.id r = id) (htype : k.resources.type r = 2)
    (hvalue : k.resources.value r = some q)
    (hfree : (askedRoles mode allRoles).length ≤ k.queueUsers.allocator.size) :
    ∃ d k', d ∈ k.files.descriptorNodes o ∧ k.descriptors.fd d = fd ∧
      k.descriptors.resource d = r ∧ (∀ role, k.descriptors.rwn d role = none) ∧
      EntersRoles q d (k.pcbs.pid o) (k.trap o .openReturn (.openQueue id fd mode))
        (askedRoles mode allRoles) k' ∧
      internalOpenQueue id fd mode (k.trap o .openReturn (.openQueue id fd mode)) =
        some ({ k' with
          queues.openings := update k'.queues.openings q (k'.queues.openings q + 1) }.setRetvalue
            o fd) := by
  have hsound := h.sound o
  rw [hcontext] at hsound
  obtain ⟨d, hd, hfd, hsame, hentries⟩ := hsound
  have hresource : k.descriptors.resource d = r :=
    h.files.ids _ (Files.Holds.resource_mem h.files hd) r hr (hsame.trans hid.symm)
  set kt := k.trap o .openReturn (.openQueue id fd mode) with hkt
  have hfound : kt.resourceById id = some (some r) := by
    rw [← hid]
    exact resourceById_of_mem (k := k) h.files h.sized hr
  have hlookup : kt.descriptorByFd o fd = some (some d) := by
    rw [← hfd]
    exact descriptorByFd_of_mem (k := k) h.files h.sized hd
  have hordered : kt.UsersOrdered kt.userNodes := h.ordered.congr rfl rfl
  obtain ⟨k', hadd, henters⟩ := hordered.addRoles_enters hfree q d (k.pcbs.pid o)
  refine ⟨d, k', hd, hfd, hresource, hentries, henters, ?_⟩
  rw [internalOpenQueue_of_value (k := kt) hp hfound hvalue, joinQueue,
    if_neg (not_not.mpr htype : ¬ kt.resources.type r ≠ 2), hlookup, Option.bind_eq_bind,
    Option.bind_some, queueAddPid_roles]
  have hpid : kt.pcbs.pid o = k.pcbs.pid o := rfl
  rw [hpid, hadd]
  rfl

/-- The system call `OPEN_QUEUE` itself, before it does anything. -/
theorem Consistent.callsOpenQueue {mode : BitVec 32} (h : k.Consistent layout)
    (hcontext : k.pcbs.cpuState o = .openQueue id fd mode) :
    (k.trap o .openReturn (.openQueue id fd mode)).Consistent layout ∧
      OnlyAbout o k (k.trap o .openReturn (.openQueue id fd mode)) := by
  have hcontextt : (k.trap o .openReturn (.openQueue id fd mode)).pcbs.cpuState o = .openReturn :=
    Function.update_self ..
  have habout : OnlyAbout o k (k.trap o .openReturn (.openQueue id fd mode)) :=
    .of_sameFiles rfl (fun o' hne ↦ Function.update_of_ne hne ..) fun _ _ ↦ rfl
  refine ⟨h.of_sameFiles rfl rfl rfl habout (fun d _ role hold ↦ ?_) ?_ ?_, habout⟩
  · rw [hcontext] at hold
    exact hold.elim
  · rw [hcontextt]
    trivial
  · rw [hcontextt]
    rfl

/-- `OPEN_QUEUE` on a queue that exists keeps the state consistent. -/
theorem Consistent.openQueue {mode : BitVec 32} (h : k.Consistent layout)
    (hp : k.running = some o) (hcontext : k.pcbs.cpuState o = .openQueue id fd mode)
    (hr : r ∈ k.files.resourceNodes) (hid : k.resources.id r = id) (htype : k.resources.type r = 2)
    (hvalue : k.resources.value r = some q)
    (hfree : (askedRoles mode allRoles).length ≤ k.queueUsers.allocator.size)
    (hopen : internalOpenQueue id fd mode (k.trap o .openReturn (.openQueue id fd mode)) = some k₁) :
    k₁.Consistent layout ∧ OnlyAbout o k k₁ := by
  obtain ⟨d, k', hd, hfd, hresource, hentries, henters, hopen'⟩ :=
    h.joins hp hcontext hr hid htype hvalue hfree
  rw [hopen] at hopen'
  obtain rfl := Option.some.inj hopen'
  have hcontextt : (k.trap o .openReturn (.openQueue id fd mode)).pcbs.cpuState o = .openReturn :=
    Function.update_self ..
  obtain ⟨ht, haboutt⟩ := h.callsOpenQueue hcontext
  obtain ⟨hconsistent, habout⟩ := ht.entersRoles (o := o) hcontextt hd (hresource ▸ hvalue) henters
  have hcontext' : k'.pcbs.cpuState o = .openReturn := by
    rw [henters.frame]
    exact hcontextt
  have habout₁ : OnlyAbout o k' ({ k' with
      queues.openings := update k'.queues.openings q (k'.queues.openings q + 1) }.setRetvalue
        o fd) :=
    .of_sameFiles rfl (fun _ _ ↦ rfl) fun o' hne ↦ Function.update_of_ne hne ..
  refine ⟨?_, (haboutt.trans habout).trans habout₁⟩
  refine hconsistent.of_sameFiles rfl rfl rfl habout₁ (fun d' _ role hold ↦ hold) ?_ ?_
  · change ContextSound _ o (k'.pcbs.cpuState o)
    rw [hcontext']
    trivial
  · change (k'.pcbs.cpuState o).aside = none
    rw [hcontext']
    rfl

/-! ### Steps of other processes -/

/-- Resource `r` is in the list and holds queue `q`. -/
structure HoldsQueue (k : Kernel) (r q : Addr) : Prop where
  mem : r ∈ k.files.resourceNodes
  type : k.resources.type r = 2
  value : k.resources.value r = some q

theorem OnlyAbout.holdsQueue (h : OnlyAbout o k k₁) (hqueue : k.HoldsQueue r q) :
    k₁.HoldsQueue r q where
  mem := by
    have hnodes : k₁.files.resourceNodes = k.files.resourceNodes := by
      change k₁.resourcesList.toList k₁.resources.list = k.resourcesList.toList k.resources.list
      rw [h.resources, h.resourcesList]
    rw [hnodes]
    exact hqueue.mem
  type := by rw [h.resources]; exact hqueue.type
  value := by rw [h.resources]; exact hqueue.value

/-- A process is inside a `dmq_close`, or inside a `dmq_open` of the queue of `r` with enough free
blocks. -/
def SharesQueue (k : Kernel) (r : Addr) : Context → Prop
  | .openResource id _ => id = k.resources.id r ∧ 0 < k.descriptors.allocator.size
  | .openQueue id _ mode =>
    id = k.resources.id r ∧ (askedRoles mode allRoles).length ≤ k.queueUsers.allocator.size
  | .openResult .. | .openReturn | .close _ | .closeDetach .. | .closeFree .. | .closeResource ..
    | .closeResult _ => True
  | _ => False

/-- Other processes than `p` open the queue of `r`, and close descriptors; processes are switched. -/
def OthersStep (k : Kernel) (p r : Addr) : Action → Prop
  | .timer => True
  | .syscall c => c = .preempt
  | .call (.openQueue id _) => k.running ≠ some p ∧ id = k.resources.id r
  | .call (.close _) => k.running ≠ some p
  | .statement => k.running ≠ some p ∧ ∀ c, k.context = some c → k.SharesQueue r c
  | _ => False

instance (k : Kernel) (r : Addr) : ∀ c, Decidable (k.SharesQueue r c)
  | .openResource id _ =>
    inferInstanceAs (Decidable (id = k.resources.id r ∧ 0 < k.descriptors.allocator.size))
  | .openQueue id _ mode => inferInstanceAs (Decidable (id = k.resources.id r ∧
      (askedRoles mode allRoles).length ≤ k.queueUsers.allocator.size))
  | .openResult .. | .openReturn | .close _ | .closeDetach .. | .closeFree .. | .closeResource ..
    | .closeResult _ => isTrue trivial
  | .user _ | .getattr .. | .getattrRead .. | .transfer _ | .transferSize .. | .transferFind ..
    | .transferRoom .. | .transferCall .. | .transferResult .. | .transferRetry ..
    | .transferWake .. | .setattr .. | .setattrCheck .. | .setattrWrite .. | .unlink _
    | .unlinkReturn | .graveyard | .halting => isFalse fun h ↦ h

instance (k : Kernel) (p r : Addr) : ∀ a, Decidable (k.OthersStep p r a)
  | .timer => isTrue trivial
  | .syscall c => inferInstanceAs (Decidable (c = .preempt))
  | .call (.openQueue id _) => inferInstanceAs (Decidable (_ ∧ id = k.resources.id r))
  | .call (.close _) => inferInstanceAs (Decidable (k.running ≠ some p))
  | .statement => decidable_of_iff
      (k.running ≠ some p ∧ ∀ c ∈ k.context, k.SharesQueue r c) Iff.rfl
  | .start | .write .. | .call (.getattr ..) | .call (.receive ..) | .call (.send ..)
    | .call (.setattr ..) | .call (.unlink _) => isFalse fun h ↦ h

/-- Nothing that the invariant speaks of changes. -/
theorem Consistent.of_unchanged (h : k.Consistent layout) (hfiles : k₁.files = k.files)
    (husers : k₁.queueUsers = k.queueUsers) (hqueues : k₁.queues.users = k.queues.users)
    (hcontext : k₁.pcbs.cpuState = k.pcbs.cpuState)
    (hret : k₁.pcbs.syscallRetvalue = k.pcbs.syscallRetvalue) (o : Addr) :
    k₁.Consistent layout ∧ OnlyAbout o k k₁ := by
  have habout : ∀ o, OnlyAbout o k k₁ := fun o ↦
    .of_sameFiles hfiles (fun o' _ ↦ by rw [hcontext]) fun o' _ ↦ by rw [hret]
  have hnodes : k₁.userNodes = k.userNodes := userNodes_congr husers hqueues
  refine ⟨⟨?_, ?_, ?_, ?_, fun henlists ↦ ?_, fun h₁ h₂ ↦ ?_, fun o' ↦ ?_, fun h₁ h₂ ↦ ?_⟩, habout o⟩
  · rw [hfiles]
    exact h.files
  · rw [hfiles]
    exact h.sized
  · rw [hnodes]
    exact h.ordered.congr husers hqueues
  · rw [husers]
    exact h.samePool
  · rename_i o' d role u
    have hold := (habout (o' + 1)).enlists (by lia) henlists
    obtain ⟨q, hvalue, hu⟩ := h.listed hold
    exact ⟨q, (habout (o' + 1)).value (by lia) hold.mem hvalue, hnodes ▸ hu⟩
  · rename_i o₁ d₁ role₁ o₂ d₂ role₂ u
    exact h.enlists_inj ((habout (o₁ + 1)).enlists (by lia) h₁)
      ((habout (o₂ + 1)).enlists (by lia) h₂)
  · rw [hcontext]
    refine (habout (o' + 1)).sound (by lia) (fun u _ haside ↦ ?_) (h.sound o')
    rw [hnodes]
    exact haside.congr husers
  · rw [hcontext] at h₁ h₂
    exact h.aside_inj h₁ h₂

theorem Consistent.internalSchedule (h : k.Consistent layout)
    (hschedule : k.internalSchedule = some k₁) (o : Addr) :
    k₁.Consistent layout ∧ OnlyAbout o k k₁ := by
  have hframe := internalSchedule_eq hschedule
  apply h.of_unchanged
  · rw [hframe]
    rfl
  · rw [hframe]
  · rw [hframe]
  · rw [hframe]
  · rw [hframe]

theorem runStatement_closeFree (k : Kernel) (o : Addr) (fd : ℤ) (q d : Addr) (role : Role)
    (entry : Option Addr) :
    k.runStatement o (.closeFree fd q d role entry) =
      some ((k.queueUserFree entry).setContext o (afterRole fd q d role)) := by
  unfold runStatement afterRole
  cases role <;> rfl

/-- The statement that starts a `dmq_close`. -/
theorem Consistent.close (h : k.Consistent layout) (hcontext : k.pcbs.cpuState o = .close fd)
    (hrun : k.runStatement o (.close fd) = some k₁) : k₁.Consistent layout ∧ OnlyAbout o k k₁ := by
  have hleft : ∀ {c : Context}, ∀ fd role, (k.pcbs.cpuState o).Left fd role → c.Left fd role := by
    rw [hcontext]
    exact fun fd role hleft ↦ hleft.elim
  obtain ⟨found, hfound, hrest⟩ := Option.bind_eq_some_iff.mp hrun
  cases found with
  | none =>
    rw [← Option.some.inj hrest]
    exact h.setContext k.queues.openings hleft trivial rfl
  | some q =>
    obtain ⟨entries, hentries, hrest⟩ := Option.bind_eq_some_iff.mp hrest
    obtain ⟨d, rfl, hrest⟩ := Option.bind_eq_some_iff.mp hrest
    rw [← Option.some.inj hrest]
    have hd : k.descriptorByFd o fd = some (some d) := hentries
    have hvalue : k.resources.value (k.descriptors.resource d) = some q := by
      unfold queueByFd at hfound
      rw [hd] at hfound
      exact Option.some.inj hfound
    obtain ⟨hmem, hfd⟩ := descriptorByFd_some h.files hd
    exact h.setContext k.queues.openings hleft ⟨hmem, hfd, hvalue⟩ rfl

/-- A statement of `dmq_open` or `dmq_close`. -/
theorem Consistent.statement (h : k.Consistent layout) (hqueue : k.HoldsQueue r q)
    (hp : k.running = some o) (hcontext : k.pcbs.cpuState o = c) (hshares : k.SharesQueue r c)
    (hstep : k.step .statement = some k₁) : k₁.Consistent layout ∧ OnlyAbout o k k₁ := by
  have hsound := h.sound o
  rw [hcontext] at hsound
  cases c with
  | openResource id mode =>
    rw [step_request hp hcontext rfl] at hstep
    exact h.openResource hp hcontext hqueue.mem hshares.1.symm hqueue.type hshares.2 hstep
  | openResult id mode =>
    rw [step_statement hp hcontext rfl] at hstep
    have hleft : ∀ {c : Context}, ∀ fd role, (k.pcbs.cpuState o).Left fd role → c.Left fd role := by
      rw [hcontext]
      exact fun fd role hleft ↦ hleft.elim
    by_cases hneg : k.pcbs.syscallRetvalue o < 0
    · have hrun : k.runStatement o (.openResult id mode) =
          some (k.setContext o (.user (k.pcbs.syscallRetvalue o))) := if_pos hneg
      rw [← Option.some.inj (hrun.symm.trans hstep)]
      exact h.setContext k.queues.openings hleft trivial rfl
    · have hrun : k.runStatement o (.openResult id mode) =
          some (k.setContext o (.openQueue id (k.pcbs.syscallRetvalue o) mode)) := if_neg hneg
      rw [← Option.some.inj (hrun.symm.trans hstep)]
      exact h.setContext k.queues.openings hleft (hsound (not_lt.mp hneg)) rfl
  | openQueue id fd mode =>
    rw [step_request hp hcontext rfl] at hstep
    exact h.openQueue hp hcontext hqueue.mem hshares.1.symm hqueue.type hqueue.value hshares.2 hstep
  | openReturn =>
    rw [step_statement hp hcontext rfl] at hstep
    rw [← Option.some.inj hstep]
    refine h.setContext k.queues.openings ?_ trivial rfl
    rw [hcontext]
    exact fun fd role hleft ↦ hleft.elim
  | close fd =>
    rw [step_statement hp hcontext rfl] at hstep
    exact h.close hcontext hstep
  | closeDetach fd q d role =>
    rw [step_statement hp hcontext rfl] at hstep
    rw [← Option.some.inj hstep]
    exact h.closeDetach hcontext
  | closeFree fd q d role entry =>
    rw [step_statement hp hcontext rfl, runStatement_closeFree] at hstep
    rw [← Option.some.inj hstep]
    exact h.closeFree hcontext
  | closeResource fd q =>
    rw [step_request hp hcontext rfl] at hstep
    exact h.closeResource hp hcontext hstep
  | closeResult q =>
    rw [step_statement hp hcontext rfl] at hstep
    have hleft : ∀ {c : Context}, ∀ fd role, (k.pcbs.cpuState o).Left fd role → c.Left fd role := by
      rw [hcontext]
      exact fun fd role hleft ↦ hleft.elim
    by_cases hret : k.pcbs.syscallRetvalue o ≠ 0
    · have hrun : k.runStatement o (.closeResult q) =
          some (k.setContext o (.user (k.pcbs.syscallRetvalue o))) := if_pos hret
      rw [← Option.some.inj (hrun.symm.trans hstep)]
      exact h.setContext k.queues.openings hleft trivial rfl
    · have hrun : k.runStatement o (.closeResult q) = some ({ k with
          queues.openings := update k.queues.openings q (k.queues.openings q - 1) }.setContext o
            (.user 0)) := if_neg hret
      rw [← Option.some.inj (hrun.symm.trans hstep)]
      exact h.setContext _ hleft trivial rfl
  | _ => exact hshares.elim

/-- A step in which other processes use the queue keeps the state consistent. -/
theorem Consistent.othersStep {p : Addr} {a : Action} (h : k.Consistent layout)
    (hqueue : k.HoldsQueue r q) (hother : k.OthersStep p r a) (hstep : k.step a = some k₁) :
    k₁.Consistent layout ∧ ∃ o, o ≠ p ∧ OnlyAbout o k k₁ := by
  have hne : p + 1 ≠ p := by lia
  cases a with
  | start => exact hother.elim
  | write x byte => exact hother.elim
  | timer =>
    obtain ⟨o, -, hschedule⟩ := Option.bind_eq_some_iff.mp hstep
    obtain ⟨hconsistent, habout⟩ :
        ({ k with disastrOSTime := toInt (k.disastrOSTime + 1) } : Kernel).Consistent layout ∧
          OnlyAbout (p + 1) k { k with disastrOSTime := toInt (k.disastrOSTime + 1) }  := by
      refine h.of_unchanged ?_ ?_ ?_ ?_ ?_ (p + 1) <;> rfl
    obtain ⟨hconsistent₁, habout₁⟩ := hconsistent.internalSchedule hschedule (p + 1)
    exact ⟨hconsistent₁, p + 1, hne, habout.trans habout₁⟩
  | syscall c =>
    obtain rfl : c = .preempt := hother
    rw [step] at hstep
    split_ifs at hstep
    obtain ⟨o, -, hschedule⟩ := Option.bind_eq_some_iff.mp hstep
    obtain ⟨hconsistent, habout⟩ :
        ({ k with pcbs.syscall := update k.pcbs.syscall o (some .preempt) } : Kernel).Consistent
            layout ∧
          OnlyAbout (p + 1) k { k with pcbs.syscall := update k.pcbs.syscall o (some .preempt) }  := by
      refine h.of_unchanged ?_ ?_ ?_ ?_ ?_ (p + 1) <;> rfl
    obtain ⟨hconsistent₁, habout₁⟩ := hconsistent.internalSchedule hschedule (p + 1)
    exact ⟨hconsistent₁, p + 1, hne, habout.trans habout₁⟩
  | call c =>
    obtain hcases | hcases | hcases | ⟨c', o, ret, hc, hp, hcontext, rfl⟩ | ⟨_, _, _, _, hcalls, -⟩ |
      ⟨_, hcases, -⟩ := step_cases hstep
    · cases hcases.1
    · cases hcases.1
    · obtain ⟨_, _, hcases, -⟩ := hcases
      cases hcases
    · cases hc
      have hleft : ∀ fd role, (k.pcbs.cpuState o).Left fd role → c.entry.Left fd role := by
        rw [hcontext]
        exact fun fd role hleft ↦ hleft.elim
      cases c with
      | openQueue id mode =>
        obtain ⟨hrunning, -⟩ := hother
        obtain ⟨hconsistent, habout⟩ := h.setContext k.queues.openings hleft trivial rfl
        exact ⟨hconsistent, o, fun hsame ↦ hrunning (hsame ▸ hp), habout⟩
      | close fd =>
        have hrunning : k.running ≠ some p := hother
        obtain ⟨hconsistent, habout⟩ := h.setContext k.queues.openings hleft trivial rfl
        exact ⟨hconsistent, o, fun hsame ↦ hrunning (hsame ▸ hp), habout⟩
      | _ => exact hother.elim
    · cases hcalls
    · cases hcases
  | statement =>
    obtain ⟨hrunning, hshares⟩ := hother
    obtain ⟨o, hp, hrest⟩ := Option.bind_eq_some_iff.mp hstep
    have hne : o ≠ p := fun hsame ↦ hrunning (hsame ▸ hp)
    have hpoint : k.SharesQueue r (k.pcbs.cpuState o) := by
      apply hshares
      rw [context, hp]
      rfl
    obtain ⟨hconsistent, habout⟩ := h.statement hqueue hp rfl hpoint hstep
    exact ⟨hconsistent, o, hne, habout⟩

end Kernel

end DisastrOS
