import DisastrOS.OpenCalls
import DisastrOS.ResourceTable

/-!
# The descriptors and resources are a table of handles

`Files.table` reads the table of handles off the lists: a resource has the name and the type of its block
and as many uses as pointers, and a file descriptor stands for the resource of the descriptor with this
number. While the lists are in order, the operations of `Files` are those of the table.
-/

set_option autoImplicit false
set_option relaxedAutoImplicit false

namespace DisastrOS

open LinkedLists PoolAllocator HandleTables
open Function (update)

namespace Files

variable {f f' : Files} {descs ptrs : Addr → List Addr} {ress : List Addr} {p q r d x : Addr}
  {id fd type : ℤ}

/-! ### The table -/

/-- The resource with the given id. -/
def resourceOf (f : Files) (id : ℤ) : Option Addr := f.resourceNodes.find? fun r ↦ f.resources.id r = id

/-- The descriptor of a process with the given number. -/
def descriptorOf (f : Files) (p : Addr) (fd : ℤ) : Option Addr :=
  (f.descriptorNodes p).find? fun d ↦ f.descriptors.fd d = fd

/-- The table of the resources and the file descriptors. -/
def table (f : Files) : ResourceTable where
  kind id := (f.resourceOf id).map f.resources.type
  uses id := ((f.resourceOf id).map fun r ↦ (f.pointerNodes r).length).getD 0
  handle p fd := (f.descriptorOf p fd).map fun d ↦ f.resources.id (f.descriptors.resource d)
  next := f.lastFd
  freeObjects := f.resources.allocator.size
  freeHandles := f.descriptors.allocator.size

theorem Holds.resourceOf_eq_some (h : f.Holds descs ptrs ress) :
    f.resourceOf id = some r ↔ r ∈ ress ∧ f.resources.id r = id := by
  rw [resourceOf, h.resourceNodes_eq]
  constructor
  · intro hfind
    exact ⟨List.mem_of_find?_eq_some hfind, by simpa using List.find?_some hfind⟩
  · rintro ⟨hr, rfl⟩
    cases hfind : ress.find? fun r' ↦ f.resources.id r' = f.resources.id r with
    | none =>
      have hnone := List.find?_eq_none.mp hfind r hr
      simp at hnone
    | some r' =>
      have hid : f.resources.id r' = f.resources.id r := by simpa using List.find?_some hfind
      rw [h.ids r' (List.mem_of_find?_eq_some hfind) r hr hid]

theorem Holds.descriptorOf_eq_some (h : f.Holds descs ptrs ress) :
    f.descriptorOf p fd = some d ↔ d ∈ descs p ∧ f.descriptors.fd d = fd := by
  rw [descriptorOf, h.descriptorNodes_eq]
  constructor
  · intro hfind
    exact ⟨List.mem_of_find?_eq_some hfind, by simpa using List.find?_some hfind⟩
  · rintro ⟨hd, rfl⟩
    cases hfind : (descs p).find? fun d' ↦ f.descriptors.fd d' = f.descriptors.fd d with
    | none =>
      have hnone := List.find?_eq_none.mp hfind d hd
      simp at hnone
    | some d' =>
      have hfd : f.descriptors.fd d' = f.descriptors.fd d := by simpa using List.find?_some hfind
      rw [h.fd_inj p d' (List.mem_of_find?_eq_some hfind) d hd hfd]

/-- The table `t` says what the lists say. -/
structure Tells (f : Files) (descs ptrs : Addr → List Addr) (ress : List Addr) (t : ResourceTable) :
    Prop where
  resource : ∀ r ∈ ress, t.kind (f.resources.id r) = some (f.resources.type r) ∧
    t.uses (f.resources.id r) = (ptrs r).length
  noResource : ∀ id, (∀ r ∈ ress, f.resources.id r ≠ id) → t.kind id = none ∧ t.uses id = 0
  descriptor : ∀ p, ∀ d ∈ descs p,
    t.handle p (f.descriptors.fd d) = some (f.resources.id (f.descriptors.resource d))
  noDescriptor : ∀ p fd, (∀ d ∈ descs p, f.descriptors.fd d ≠ fd) → t.handle p fd = none
  next : t.next = f.lastFd
  freeObjects : t.freeObjects = f.resources.allocator.size
  freeHandles : t.freeHandles = f.descriptors.allocator.size

theorem Holds.tells (h : f.Holds descs ptrs ress) : f.Tells descs ptrs ress f.table where
  resource r hr := by
    simp only [table, h.resourceOf_eq_some.mpr ⟨hr, rfl⟩, h.pointerNodes_eq, Option.map_some,
      Option.getD_some, true_and]
  noResource id hnone := by
    have hresource : f.resourceOf id = none := by
      rw [Option.eq_none_iff_forall_ne_some]
      intro r hr
      obtain ⟨hmem, hid⟩ := h.resourceOf_eq_some.mp hr
      exact hnone r hmem hid
    simp only [table, hresource, Option.map_none, Option.getD_none, true_and]
  descriptor p d hd := by
    simp only [table, h.descriptorOf_eq_some.mpr ⟨hd, rfl⟩, Option.map_some]
  noDescriptor p fd hnone := by
    have hdescriptor : f.descriptorOf p fd = none := by
      rw [Option.eq_none_iff_forall_ne_some]
      intro d hd
      obtain ⟨hmem, hfd⟩ := h.descriptorOf_eq_some.mp hd
      exact hnone d hmem hfd
    simp only [table, hdescriptor, Option.map_none]
  next := rfl
  freeObjects := rfl
  freeHandles := rfl

/-- There is one such table. -/
theorem Tells.unique {t t' : ResourceTable} (h : f.Tells descs ptrs ress t)
    (h' : f.Tells descs ptrs ress t') : t = t' := by
  have hresources : ∀ id, t.kind id = t'.kind id ∧ t.uses id = t'.uses id := by
    intro id
    by_cases hthere : ∃ r ∈ ress, f.resources.id r = id
    · obtain ⟨r, hr, rfl⟩ := hthere
      rw [(h.resource r hr).1, (h.resource r hr).2, (h'.resource r hr).1, (h'.resource r hr).2]
      exact ⟨rfl, rfl⟩
    · have hnone : ∀ r ∈ ress, f.resources.id r ≠ id := fun r hr hid ↦ hthere ⟨r, hr, hid⟩
      rw [(h.noResource id hnone).1, (h.noResource id hnone).2, (h'.noResource id hnone).1,
        (h'.noResource id hnone).2]
      exact ⟨rfl, rfl⟩
  refine Table.ext (funext fun id ↦ (hresources id).1) (funext fun id ↦ (hresources id).2) ?_
    (h.next.trans h'.next.symm) (h.freeObjects.trans h'.freeObjects.symm)
    (h.freeHandles.trans h'.freeHandles.symm)
  funext p fd
  by_cases hthere : ∃ d ∈ descs p, f.descriptors.fd d = fd
  · obtain ⟨d, hd, rfl⟩ := hthere
    rw [h.descriptor p d hd, h'.descriptor p d hd]
  · have hnone : ∀ d ∈ descs p, f.descriptors.fd d ≠ fd := fun d hd hfd ↦ hthere ⟨d, hd, hfd⟩
    rw [h.noDescriptor p fd hnone, h'.noDescriptor p fd hnone]

theorem Holds.table_eq {t : ResourceTable} (h : f.Holds descs ptrs ress)
    (ht : f.Tells descs ptrs ress t) : f.table = t :=
  h.tells.unique ht

/-! ### The operations -/

theorem Holds.table_reset (h : f.Holds descs ptrs ress) (p : Addr) :
    (f.reset p).table = f.table.renew p := by
  have ht := h.tells
  refine (h.reset p).table_eq
    { resource := ht.resource
      noResource := ht.noResource
      descriptor := fun q d hd ↦ ?_
      noDescriptor := fun q fd hnone ↦ ?_
      next := rfl
      freeObjects := rfl
      freeHandles := rfl }
  · rw [Table.renew_handle]
    rw [Function.update_apply] at hd
    split_ifs at hd with hq
    · exact absurd hd List.not_mem_nil
    · rw [if_neg hq]
      exact ht.descriptor q d hd
  · rw [Table.renew_handle]
    split_ifs with hq
    · rfl
    · rw [Function.update_of_ne hq] at hnone
      exact ht.noDescriptor q fd hnone

theorem Holds.table_create (h : f.Holds descs ptrs ress) {pool : PoolAllocator}
    (hget : f.resources.allocator.getBlock = (some r, pool))
    (hnew : ∀ r' ∈ ress, f.resources.id r' ≠ id) :
    (f.create r pool id type).table = f.table.create id type := by
  have ht := h.tells
  obtain ⟨-, -, hfree, hsize, -⟩ := getBlock_some h.resourcePool hget
  have hne : ∀ r' ∈ ress, r' ≠ r := fun r' hr' hsame ↦ hfree (hsame ▸ h.resource_allocated r' hr')
  have hid : ∀ r' ∈ ress, (f.create r pool id type).resources.id r' = f.resources.id r' :=
    fun r' hr' ↦ Function.update_of_ne (hne r' hr') ..
  have htype : ∀ r' ∈ ress, (f.create r pool id type).resources.type r' = f.resources.type r' :=
    fun r' hr' ↦ Function.update_of_ne (hne r' hr') ..
  have hidNew : (f.create r pool id type).resources.id r = id := Function.update_self ..
  have htypeNew : (f.create r pool id type).resources.type r = type := Function.update_self ..
  refine (h.create id type hget hnew).table_eq
    { resource := fun r' hr' ↦ ?_
      noResource := fun id' hnone ↦ ?_
      descriptor := fun p d hd ↦ ?_
      noDescriptor := ht.noDescriptor
      next := rfl
      freeObjects := hsize.symm
      freeHandles := rfl }
  · rcases List.mem_append.mp hr' with hold | hr'
    · rw [hid r' hold, htype r' hold]
      exact ⟨(Function.update_of_ne (hnew r' hold) ..).trans (ht.resource r' hold).1,
        (ht.resource r' hold).2⟩
    · -- the new resource has no pointers
      obtain rfl := List.mem_singleton.mp hr'
      have hptrs : ptrs r' = [] := List.eq_nil_iff_forall_not_mem.mpr fun x hx ↦
        hne r' (h.listed r' x hx) rfl
      rw [hidNew, htypeNew, hptrs, List.length_nil]
      exact ⟨Function.update_self .., (ht.noResource id hnew).2⟩
  · have hold : ∀ r' ∈ ress, f.resources.id r' ≠ id' := fun r' hr' ↦
      hid r' hr' ▸ hnone r' (List.mem_append_left _ hr')
    have hne' : id' ≠ id := fun hsame ↦
      hnone r (List.mem_append_right _ (List.mem_singleton_self r)) (hidNew.trans hsame.symm)
    exact ⟨(Function.update_of_ne hne' ..).trans (ht.noResource id' hold).1, (ht.noResource id' hold).2⟩
  · exact (ht.descriptor p d hd).trans (congrArg some (hid _ (h.resource_mem hd)).symm)

theorem Holds.table_destroy (h : f.Holds descs ptrs ress) (hr : r ∈ ress) (hunused : ptrs r = []) :
    (f.destroy r).table = f.table.destroy (f.resources.id r) := by
  have ht := h.tells
  have hnodup := h.resourceList.nodup
  obtain ⟨-, hsize, -⟩ := h.resourcePool.release (h.resource_allocated r hr)
  have hother : ∀ r' ∈ ress.erase r, r' ∈ ress ∧ f.resources.id r' ≠ f.resources.id r := by
    intro r' hr'
    obtain ⟨hne, hmem⟩ := hnodup.mem_erase_iff.mp hr'
    exact ⟨hmem, fun hsame ↦ hne (h.ids r' hmem r hr hsame)⟩
  refine (h.destroy hr hunused).table_eq
    { resource := fun r' hr' ↦ ?_
      noResource := fun id' hnone ↦ ?_
      descriptor := ht.descriptor
      noDescriptor := ht.noDescriptor
      next := rfl
      freeObjects := hsize.symm
      freeHandles := rfl }
  · obtain ⟨hmem, hne⟩ := hother r' hr'
    exact ⟨(Function.update_of_ne hne ..).trans (ht.resource r' hmem).1, (ht.resource r' hmem).2⟩
  · change update f.table.kind (f.resources.id r) none id' = none ∧ f.table.uses id' = 0
    by_cases hsame : id' = f.resources.id r
    · rw [hsame, Function.update_self, (ht.resource r hr).2, hunused]
      exact ⟨rfl, rfl⟩
    · rw [Function.update_of_ne hsame]
      refine ht.noResource id' fun r' hr' hid' ↦ ?_
      have hne : r' ≠ r := by
        rintro rfl
        exact hsame hid'.symm
      exact hnone r' (hnodup.mem_erase_iff.mpr ⟨hne, hr'⟩) hid'

theorem Holds.table_join (h : f.Holds descs ptrs ress) {pool ptrPool : PoolAllocator} (hr : r ∈ ress)
    (hget : f.descriptors.allocator.getBlock = (some d, pool))
    (hgetPtr : f.descriptorPtrs.allocator.getBlock = (some x, ptrPool)) :
    (f.join p r d x pool ptrPool).table = f.table.grant p (f.resources.id r) := by
  have ht := h.tells
  obtain ⟨-, -, hfree, hsize, -⟩ := getBlock_some h.descriptorPool hget
  have hne : ∀ p', ∀ d' ∈ descs p', d' ≠ d := fun p' d' hd' hsame ↦
    hfree (hsame ▸ h.descriptor_allocated p' d' hd')
  have hfd : ∀ p', ∀ d' ∈ descs p',
      (f.join p r d x pool ptrPool).descriptors.fd d' = f.descriptors.fd d' := fun p' d' hd' ↦
    Function.update_of_ne (hne p' d' hd') ..
  have hres : ∀ p', ∀ d' ∈ descs p',
      (f.join p r d x pool ptrPool).descriptors.resource d' = f.descriptors.resource d' :=
    fun p' d' hd' ↦ Function.update_of_ne (hne p' d' hd') ..
  have hfdNew : (f.join p r d x pool ptrPool).descriptors.fd d = f.lastFd p := Function.update_self ..
  have hresNew : (f.join p r d x pool ptrPool).descriptors.resource d = r := Function.update_self ..
  have hlength : ∀ r' ∈ ress, update f.table.uses (f.resources.id r) (f.table.uses (f.resources.id r) + 1)
      (f.resources.id r') = (update ptrs r (ptrs r ++ [x]) r').length := by
    intro r' hr'
    by_cases hsame : r' = r
    · rw [hsame, Function.update_self, Function.update_self, (ht.resource r hr).2, List.length_append,
        List.length_singleton]
    · rw [Function.update_of_ne hsame, Function.update_of_ne fun hid ↦ hsame (h.ids r' hr' r hr hid)]
      exact (ht.resource r' hr').2
  refine (h.join hr hget hgetPtr).table_eq
    { resource := fun r' hr' ↦ ⟨(ht.resource r' hr').1, hlength r' hr'⟩
      noResource := fun id' hnone ↦ ?_
      descriptor := fun p' d' hd' ↦ ?_
      noDescriptor := fun p' fd hnone ↦ ?_
      next := rfl
      freeObjects := rfl
      freeHandles := hsize.symm }
  · have hold := ht.noResource id' hnone
    exact ⟨hold.1, (Function.update_of_ne (hnone r hr).symm ..).trans hold.2⟩
  · rw [Table.grant_handle]
    rcases mem_update_append.mp hd' with hold | ⟨rfl, rfl⟩
    · rw [hfd p' d' hold, hres p' d' hold, if_neg]
      · exact ht.descriptor p' d' hold
      · rintro ⟨rfl, hsame⟩
        exact (h.fd_lt p' d' hold).ne hsame
    · rw [hfdNew, hresNew, if_pos ⟨rfl, rfl⟩]
      rfl
  · rw [Table.grant_handle, if_neg]
    · refine ht.noDescriptor p' fd fun d' hd' hsame ↦ ?_
      exact hnone d' (mem_update_append.mpr (Or.inl hd')) ((hfd p' d' hd').trans hsame)
    · rintro ⟨rfl, hsame⟩
      exact hnone d (mem_update_append.mpr (Or.inr ⟨rfl, rfl⟩)) (hfdNew.trans hsame.symm)

theorem Holds.table_drop (h : f.Holds descs ptrs ress) (hd : d ∈ descs p)
    (hptr : f.descriptors.ptr d = some x) :
    (f.drop p d (f.descriptors.resource d) x).table = f.table.drop p (f.descriptors.fd d) := by
  have ht := h.tells
  have hr := h.resource_mem hd
  obtain ⟨x', hx, hptr', -⟩ := h.pointer p d hd
  obtain rfl := Option.some.inj (hptr.symm.trans hptr')
  obtain ⟨-, hsize, -⟩ := h.descriptorPool.release (h.descriptor_allocated p d hd)
  have hdrop := Table.drop_of_some (ht.descriptor p d hd)
  have huses : (f.table.drop p (f.descriptors.fd d)).uses =
      update f.table.uses (f.resources.id (f.descriptors.resource d))
        (f.table.uses (f.resources.id (f.descriptors.resource d)) - 1) := by rw [hdrop]
  refine (h.drop hd hptr).table_eq
    { resource := fun r' hr' ↦ ⟨?_, ?_⟩
      noResource := fun id' hnone ↦ ⟨?_, ?_⟩
      descriptor := fun p' d' hd' ↦ ?_
      noDescriptor := fun p' fd hnone ↦ ?_
      next := Table.drop_next ..
      freeObjects := by rw [hdrop]; rfl
      freeHandles := by rw [hdrop]; exact hsize.symm }
  · rw [Table.drop_kind]
    exact (ht.resource r' hr').1
  · rw [huses]
    by_cases hsame : r' = f.descriptors.resource d
    · rw [hsame, Function.update_self, (ht.resource _ hr).2, List.length_erase_of_mem hx]
      exact Function.update_self ..
    · rw [Function.update_of_ne hsame]
      exact (Function.update_of_ne (fun hid ↦ hsame (h.ids r' hr' _ hr hid)) ..).trans
        (ht.resource r' hr').2
  · rw [Table.drop_kind]
    exact (ht.noResource id' hnone).1
  · rw [huses]
    exact (Function.update_of_ne (hnone _ hr).symm ..).trans (ht.noResource id' hnone).2
  · obtain ⟨hold, hne⟩ := (h.descriptorLists.mem_update_erase hd).mp hd'
    rw [Table.drop_handle, if_neg]
    · exact ht.descriptor p' d' hold
    · rintro ⟨rfl, hsame⟩
      exact hne (h.fd_inj p' d' hold d hd hsame)
  · rw [Table.drop_handle]
    split_ifs with hsame
    · rfl
    · refine ht.noDescriptor p' fd fun d' hd' hfd ↦ ?_
      refine hnone d' ((h.descriptorLists.mem_update_erase hd).mpr ⟨hd', ?_⟩) hfd
      rintro rfl
      exact hsame ⟨h.descriptorLists.disjoint _ _ _ hd' hd, hfd.symm⟩

end Files

namespace Kernel

variable {k k' : Kernel} {a : Action} {p r : Addr} {id fd type : ℤ} {mode : BitVec 32}

/-! ### Lookups -/

theorem descriptorByFd_eq_descriptorOf (hok : k.files.Ok) {found : Option Addr}
    (hfind : k.descriptorByFd p fd = some found) : found = k.files.descriptorOf p fd :=
  (hok.descriptorLists.represents p).scan_eq hfind

/-- What a process is told and the table. -/
def answer (k : Kernel) (p : Addr) : ℤ × ResourceTable :=
  (k.pcbs.syscallRetvalue p, k.files.table)

theorem answer_setRetvalue (k : Kernel) (p : Addr) (value : ℤ) :
    (k.setRetvalue p value).answer p = (value, k.files.table) := by
  rw [answer]
  exact congrArg (·, k.files.table) (Function.update_self ..)

/-! ### The system calls -/

theorem openDescriptor_answer (hok : k.files.Ok) (hr : r ∈ k.files.resourceNodes)
    (hopen : k.openDescriptor p r = some k') :
    k'.answer p = ResourceTable.grantCall k.files.table p (k.resources.id r) := by
  by_cases hnone : k.descriptors.allocator.getBlock.1 = none
  · rw [openDescriptor_full hnone] at hopen
    obtain rfl := Option.some.inj hopen
    have hfull : k.files.table.freeHandles = 0 := hok.descriptorPool.getBlock_eq_none_iff.mp hnone
    rw [answer_setRetvalue, ResourceTable.grantCall, if_pos hfull]
  · have hleft : k.files.table.freeHandles ≠ 0 := fun hfull ↦
      hnone (hok.descriptorPool.getBlock_eq_none_iff.mpr hfull)
    obtain ⟨hret, -⟩ := openDescriptor_retvalue hnone hopen
    obtain ⟨-, hneg⟩ | ⟨d, x, pool, ptrPool, hget, hgetPtr, hfiles, -⟩ := openDescriptor_files hok hopen
    · have hnonneg : 0 ≤ k.pcbs.lastFd p := hok.lastFd_nonneg p
      omega
    · rw [ResourceTable.grantCall, if_neg hleft, answer, hret, hfiles,
        Files.Holds.table_join hok hr hget hgetPtr]
      rfl

/-- A resource has uses when it has pointers. -/
theorem uses_eq_zero_iff (hok : k.files.Ok) (hr : r ∈ k.files.resourceNodes) :
    k.files.table.uses (k.resources.id r) = 0 ↔ (k.resources.descriptorsPtrs r).size = 0 := by
  have hsize := (hok.pointerLists.represents r).size
  have hlength := (hok.tells.resource r hr).2
  change (k.resources.descriptorsPtrs r).size = _ at hsize
  change k.files.table.uses (k.resources.id r) = _ at hlength
  omega

/-- The end of an open, when the resource is there. -/
theorem openFound_answer (hok : k.files.Ok) (hr : r ∈ k.files.resourceNodes)
    (hopen : k.openFound p (some r) type mode = some k') :
    k'.answer p =
      if k.resources.type r ≠ type then (dsosEresourceopen, k.files.table)
      else if hasBit mode dsosExcl ∧ k.files.table.uses (k.resources.id r) ≠ 0 then
        (dsosEresourcenoexcl, k.files.table)
      else ResourceTable.grantCall k.files.table p (k.resources.id r) := by
  simp only [openFound, ne_eq] at hopen
  simp only [ne_eq, uses_eq_zero_iff hok hr]
  split_ifs at hopen ⊢
  · rw [← Option.some.inj hopen, answer_setRetvalue]
  · exact openDescriptor_answer hok hr hopen
  · rw [← Option.some.inj hopen, answer_setRetvalue]

/-- A resource that was created is opened. -/
theorem openCreated_answer (hok : k.files.Ok) (hnone : k.resourceById id = some none)
    {pool : PoolAllocator} (hget : k.resources.allocator.getBlock = (some r, pool)) {k₁ : Kernel}
    (hfiles : k₁.files = k.files.create r pool id type)
    (hopen : k₁.openFound p (some r) type mode = some k') :
    k'.answer p = ResourceTable.grantCall (k.files.table.create id type) p id := by
  have hnew := fun r hr ↦ resourceById_none hok hnone (r := r) hr
  have hcreated := Files.Holds.create hok id type hget hnew
  have hok₁ : k₁.files.Ok := hfiles ▸ hcreated.ok
  have hr : r ∈ k₁.files.resourceNodes := by
    rw [hfiles, hcreated.resourceNodes_eq]
    exact List.mem_append_right _ (List.mem_singleton_self r)
  have htable : k₁.files.table = k.files.table.create id type := by
    rw [hfiles, Files.Holds.table_create hok hget hnew]
  have htype : k₁.resources.type r = type := by
    change k₁.files.resources.type r = type
    rw [hfiles]
    exact Function.update_self ..
  have hid : k₁.resources.id r = id := by
    change k₁.files.resources.id r = id
    rw [hfiles]
    exact Function.update_self ..
  have hunused : (k.files.table.create id type).uses id = 0 := (hok.tells.noResource id hnew).2
  rw [openFound_answer hok₁ hr hopen, htype, hid, htable, if_neg (not_not.mpr rfl),
    if_neg fun h ↦ h.2 hunused]

theorem internalOpenResource_answer (hok : k.files.Ok) (hp : k.running = some p)
    (hopen : internalOpenResource id type mode k = some k') :
    k'.answer p = ResourceTable.openCall k.files.table p id type mode := by
  obtain ⟨p', hp', hrest⟩ := Option.bind_eq_some_iff.mp hopen
  obtain rfl := Option.some.inj (hp.symm.trans hp')
  obtain ⟨found, hfind, hrest⟩ := Option.bind_eq_some_iff.mp hrest
  cases found with
  | none =>
    have hnew := fun r hr ↦ resourceById_none hok hfind (r := r) hr
    have hkind : k.files.table.kind id = none := (hok.tells.noResource id hnew).1
    simp only [ResourceTable.openCall, hkind]
    by_cases hcreate : hasBit mode dsosCreate = true
    · simp only [hcreate, if_true, Option.isSome_none, Bool.false_eq_true, and_false, if_false,
        resourceAlloc] at hrest ⊢
      rcases hget : k.resources.allocator.getBlock with ⟨_ | r, pool⟩
      · have hfull : k.files.table.freeObjects = 0 :=
          hok.resourcePool.getBlock_eq_none_iff.mp (congrArg Prod.fst hget)
        simp only [hget] at hrest
        rw [← Option.some.inj hrest, answer_setRetvalue, if_pos hfull]
      · have hleft : k.files.table.freeObjects ≠ 0 := fun hfull ↦ by
          have hnone : k.resources.allocator.getBlock.1 = none :=
            hok.resourcePool.getBlock_eq_none_iff.mpr hfull
          rw [hget] at hnone
          cases hnone
        simp only [hget] at hrest
        rw [if_neg hleft]
        exact openCreated_answer hok hfind hget rfl hrest
    · simp only [hcreate, Bool.false_eq_true, if_false, openFound] at hrest ⊢
      rw [← Option.some.inj hrest, answer_setRetvalue]
  | some r =>
    obtain ⟨hr, rfl⟩ := resourceById_some hok hfind
    have hkind : k.files.table.kind (k.resources.id r) = some (k.resources.type r) :=
      (hok.tells.resource r hr).1
    simp only [ResourceTable.openCall, hkind]
    simp only [Option.isSome_some, and_true] at hrest
    split_ifs at hrest with hcreate hexcl
    · rw [← Option.some.inj hrest, answer_setRetvalue, if_pos ⟨hcreate, hexcl⟩]
    · rw [if_neg fun h ↦ hexcl h.2]
      exact openFound_answer hok hr hrest
    · rw [if_neg fun h ↦ hcreate h.1]
      exact openFound_answer hok hr hrest

theorem internalCloseResource_answer (hok : k.files.Ok) (hp : k.running = some p)
    (hclose : internalCloseResource fd k = some k') :
    k'.answer p = ResourceTable.closeCall k.files.table p fd := by
  obtain ⟨p', hp', ⟨hfind, -⟩ | ⟨d, x, hfind, hptr, hfiles, hret⟩⟩ := internalCloseResource_files hclose
  · obtain rfl := Option.some.inj (hp.symm.trans hp')
    have hhandle : k.files.table.handle p fd = none := by
      simp only [Files.table, ← descriptorByFd_eq_descriptorOf hok hfind, Option.map_none]
    simp only [internalCloseResource, hp, hfind, Option.bind_eq_bind, Option.bind_some,
      Option.some.injEq] at hclose
    rw [← hclose, answer_setRetvalue]
    simp only [ResourceTable.closeCall, hhandle]
  · obtain rfl := Option.some.inj (hp.symm.trans hp')
    obtain ⟨hd, rfl⟩ := descriptorByFd_some hok hfind
    have hhandle : k.files.table.handle p (k.descriptors.fd d) ≠ none :=
      (hok.tells.descriptor p d hd).trans_ne (Option.some_ne_none _)
    obtain ⟨id, hid⟩ := Option.ne_none_iff_exists'.mp hhandle
    have htable : k'.files.table = k.files.table.drop p (k.descriptors.fd d) :=
      (congrArg Files.table hfiles).trans (Files.Holds.table_drop hok hd hptr)
    simp only [ResourceTable.closeCall, hid, answer, hret, htable]

theorem internalDestroyResource_answer (hok : k.files.Ok) (hp : k.running = some p)
    (hdestroy : internalDestroyResource id k = some k') :
    k'.answer p = ResourceTable.destroyCall k.files.table id := by
  obtain ⟨p', found, hp', hfind, -⟩ := internalDestroyResource_cases hdestroy
  obtain rfl := Option.some.inj (hp.symm.trans hp')
  cases found with
  | none =>
    have hkind : k.files.table.kind id = none :=
      (hok.tells.noResource id fun r hr ↦ resourceById_none hok hfind hr).1
    simp only [internalDestroyResource, hp, hfind, Option.bind_eq_bind, Option.bind_some,
      Option.some.injEq] at hdestroy
    rw [← hdestroy, answer_setRetvalue]
    simp only [ResourceTable.destroyCall, hkind]
  | some r =>
    obtain ⟨hr, hid⟩ := resourceById_some hok hfind
    have hkind : k.files.table.kind id = some (k.resources.type r) := hid ▸ (hok.tells.resource r hr).1
    have huses : k.files.table.uses id = 0 ↔ (k.resources.descriptorsPtrs r).size = 0 :=
      hid ▸ uses_eq_zero_iff hok hr
    simp only [ResourceTable.destroyCall, hkind]
    by_cases hsize : (k.resources.descriptorsPtrs r).size = 0
    · have hret := internalDestroyResource_unused hp hfind hsize hdestroy
      obtain ⟨p', hp', ⟨-, -, hneg⟩ | ⟨r', hfind', -, hfiles, -⟩⟩ := internalDestroyResource_files hdestroy
      · obtain rfl := Option.some.inj (hp.symm.trans hp')
        exact absurd hret hneg.ne
      · obtain rfl : r = r' := Option.some.inj (Option.some.inj (hfind.symm.trans hfind'))
        have htable : k'.files.table = k.files.table.destroy id := by
          rw [hfiles, Files.Holds.table_destroy hok hr (Files.Holds.unused hok hsize)]
          exact congrArg k.files.table.destroy hid
        rw [if_pos (huses.mpr hsize), answer, hret, htable]
    · simp only [internalDestroyResource, hp, hfind, Option.bind_eq_bind, Option.bind_some, ne_eq, hsize,
        not_false_eq_true, if_true, Option.some.injEq] at hdestroy
      rw [← hdestroy, answer_setRetvalue, if_neg fun h ↦ hsize (huses.mp h)]

theorem internalCloseResource_ok (hok : k.files.Ok) (hclose : internalCloseResource fd k = some k') :
    k'.files.Ok := by
  obtain ⟨p, -, ⟨-, hfiles, -⟩ | ⟨d, x, hfind, hptr, hfiles, -⟩⟩ := internalCloseResource_files hclose
  · exact hfiles ▸ hok
  · rw [hfiles]
    exact (Files.Holds.drop hok (descriptorByFd_some hok hfind).1 hptr).ok

/-- The end of an open of a queue when no queue is left. -/
theorem giveUpResource_answer (hok : k.files.Ok) (hp : k.running = some p)
    (hgive : k.giveUpResource p id fd = some k') :
    k'.answer p = ResourceTable.giveUpCall k.files.table p id fd := by
  obtain ⟨k₁, hclose, hrest⟩ := Option.bind_eq_some_iff.mp hgive
  have hclosed := internalCloseResource_answer hok hp hclose
  have hp₁ : k₁.running = some p := by
    rw [internalCloseResource_eq hclose]
    exact hp
  cases hhandle : k.files.table.handle p fd with
  | none =>
    simp only [ResourceTable.closeCall, hhandle] at hclosed
    simp only [ResourceTable.giveUpCall, hhandle]
    have hret : k₁.pcbs.syscallRetvalue p = dsosEresourceclose := congrArg Prod.fst hclosed
    rw [if_pos (hret.trans_ne (by decide))] at hrest
    rw [← Option.some.inj hrest]
    exact hclosed
  | some i =>
    simp only [ResourceTable.closeCall, hhandle] at hclosed
    simp only [ResourceTable.giveUpCall, hhandle]
    obtain ⟨hret, htable⟩ := Prod.mk.inj hclosed
    rw [if_neg (not_not.mpr hret)] at hrest
    obtain ⟨k₂, hdestroy, hrest⟩ := Option.bind_eq_some_iff.mp hrest
    have hdestroyed := internalDestroyResource_answer (internalCloseResource_ok hok hclose) hp₁ hdestroy
    rw [htable] at hdestroyed
    rw [← hdestroyed]
    by_cases hret₂ : k₂.pcbs.syscallRetvalue p = 0
    · rw [if_neg (not_not.mpr hret₂)] at hrest
      rw [← Option.some.inj hrest, answer_setRetvalue, if_pos (show (k₂.answer p).1 = 0 from hret₂)]
      rfl
    · rw [if_pos hret₂] at hrest
      rw [← Option.some.inj hrest, if_neg (show ¬ (k₂.answer p).1 = 0 from hret₂)]

end Kernel

end DisastrOS
