import DisastrOS.Kernel

/-!
# The table of descriptors and resources

`Files` is the part of the kernel that holds the descriptors of the processes, the pointers to them
from the resources, and the list of the resources. What the system calls do to it comes down to four
operations: a resource is added or removed (`create`, `destroy`), and a process gets or gives up a
descriptor with its pointer (`join`, `drop`); and a new process starts without descriptors (`reset`).

`Files.Ok` is the invariant. The lists are well formed, no two resources have one id, each descriptor
has a pointer among those of its resource, and only listed resources have pointers; so a resource
stays in the list while some process has a descriptor of it.
-/

set_option autoImplicit false
set_option relaxedAutoImplicit false

namespace DisastrOS

open LinkedLists PoolAllocator
open Function (update)

/-- The descriptors of the processes and the resources. -/
structure Files where
  descriptors : Descriptors
  descriptorPtrs : DescriptorPtrs
  resources : Resources
  resourcesList : ListHead Addr
  lists : Addr → ListHead Addr
  lastFd : Addr → ℤ

namespace Files

/-! ### The invariant -/

/-- The descriptors of a process. -/
def descriptorNodes (f : Files) (p : Addr) : List Addr := (f.lists p).toList f.descriptors.list

/-- The pointers of a resource to its descriptors. -/
def pointerNodes (f : Files) (r : Addr) : List Addr :=
  (f.resources.descriptorsPtrs r).toList f.descriptorPtrs.list

/-- The resources. -/
def resourceNodes (f : Files) : List Addr := f.resourcesList.toList f.resources.list

/-- The processes have the descriptors `descs`, the resources the pointers `ptrs`, and the resources are
`ress`. -/
structure Holds (f : Files) (descs ptrs : Addr → List Addr) (ress : List Addr) : Prop where
  descriptorLists : Family f.descriptors.list f.lists descs
  pointerLists : Family f.descriptorPtrs.list f.resources.descriptorsPtrs ptrs
  resourceList : Represents f.resources.list f.resourcesList ress
  descriptorPool : f.descriptors.allocator.Ok
  pointerPool : f.descriptorPtrs.allocator.Ok
  resourcePool : f.resources.allocator.Ok
  sameSize : f.descriptors.allocator.size = f.descriptorPtrs.allocator.size
  descriptor_allocated : ∀ p, ∀ d ∈ descs p, f.descriptors.allocator.Allocated d
  pointer_allocated : ∀ r, ∀ x ∈ ptrs r, f.descriptorPtrs.allocator.Allocated x
  resource_allocated : ∀ r ∈ ress, f.resources.allocator.Allocated r
  ids : ∀ r ∈ ress, ∀ r' ∈ ress, f.resources.id r = f.resources.id r' → r = r'
  pointer : ∀ p, ∀ d ∈ descs p, ∃ x ∈ ptrs (f.descriptors.resource d),
    f.descriptors.ptr d = some x ∧ f.descriptorPtrs.descriptor x = d
  listed : ∀ r, ∀ x ∈ ptrs r, r ∈ ress
  fd_lt : ∀ p, ∀ d ∈ descs p, f.descriptors.fd d < f.lastFd p
  fd_inj : ∀ p, ∀ d ∈ descs p, ∀ d' ∈ descs p, f.descriptors.fd d = f.descriptors.fd d' → d = d'
  lastFd_nonneg : ∀ p, 0 ≤ f.lastFd p

/-- The table is in order. -/
def Ok (f : Files) : Prop := f.Holds f.descriptorNodes f.pointerNodes f.resourceNodes

variable {f f' : Files} {descs ptrs : Addr → List Addr} {ress : List Addr} {p r d x : Addr}

theorem Holds.descriptorNodes_eq (h : f.Holds descs ptrs ress) : f.descriptorNodes = descs :=
  funext fun p ↦ (h.descriptorLists.represents p).toList_eq

theorem Holds.pointerNodes_eq (h : f.Holds descs ptrs ress) : f.pointerNodes = ptrs :=
  funext fun r ↦ (h.pointerLists.represents r).toList_eq

theorem Holds.resourceNodes_eq (h : f.Holds descs ptrs ress) : f.resourceNodes = ress :=
  h.resourceList.toList_eq

theorem Holds.ok (h : f.Holds descs ptrs ress) : f.Ok := by
  rw [Ok, h.descriptorNodes_eq, h.pointerNodes_eq, h.resourceNodes_eq]
  exact h

/-- The resource of a descriptor is in the list. -/
theorem Holds.resource_mem (h : f.Holds descs ptrs ress) (hd : d ∈ descs p) :
    f.descriptors.resource d ∈ ress := by
  obtain ⟨x, hx, -⟩ := h.pointer p d hd
  exact h.listed _ x hx

/-- The entries that a descriptor keeps and the value of a resource are not part of the order. -/
theorem Holds.setRwn (h : f.Holds descs ptrs ress) (rwn : Addr → Role → Option Addr) :
    { f with descriptors.rwn := rwn }.Holds descs ptrs ress := { h with }

theorem Holds.setValue (h : f.Holds descs ptrs ress) (value : Addr → Option Addr) :
    { f with resources.value := value }.Holds descs ptrs ress := { h with }

theorem Holds.unused (h : f.Holds descs ptrs ress) (hsize : (f.resources.descriptorsPtrs r).size = 0) :
    ptrs r = [] := by
  have hlength := (h.pointerLists.represents r).size
  rw [hsize] at hlength
  exact List.length_eq_zero_iff.mp (by omega)

/-! ### A new process -/

/-- A new process has no descriptors. -/
def reset (f : Files) (p : Addr) : Files :=
  { f with lists := update f.lists p listInit, lastFd := update f.lastFd p 0 }

theorem Holds.reset (h : f.Holds descs ptrs ress) (p : Addr) :
    (f.reset p).Holds (update descs p []) ptrs ress := by
  have hold : ∀ p' d, d ∈ update descs p [] p' → p' ≠ p ∧ d ∈ descs p' := by
    intro p' d hd
    by_cases hp : p' = p
    · subst hp
      rw [Function.update_self] at hd
      exact absurd hd List.not_mem_nil
    · rw [Function.update_of_ne hp] at hd
      exact ⟨hp, hd⟩
  exact
    { descriptorLists := h.descriptorLists.clear p
      pointerLists := h.pointerLists
      resourceList := h.resourceList
      descriptorPool := h.descriptorPool
      pointerPool := h.pointerPool
      resourcePool := h.resourcePool
      sameSize := h.sameSize
      descriptor_allocated := fun p' d hd ↦ h.descriptor_allocated p' d (hold p' d hd).2
      pointer_allocated := h.pointer_allocated
      resource_allocated := h.resource_allocated
      ids := h.ids
      pointer := fun p' d hd ↦ h.pointer p' d (hold p' d hd).2
      listed := h.listed
      fd_lt := fun p' d hd ↦ by
        obtain ⟨hp, hd⟩ := hold p' d hd
        change _ < update f.lastFd p 0 p'
        rw [Function.update_of_ne hp]
        exact h.fd_lt p' d hd
      fd_inj := fun p' d hd d' hd' ↦ h.fd_inj p' d (hold p' d hd).2 d' (hold p' d' hd').2
      lastFd_nonneg := fun p' ↦ by
        change 0 ≤ update f.lastFd p 0 p'
        rw [Function.update_apply]
        split_ifs
        · exact le_rfl
        · exact h.lastFd_nonneg p' }

/-! ### Resources -/

/-- A resource `r` of the given id and type is added to the list. -/
def create (f : Files) (r : Addr) (pool : PoolAllocator) (id type : ℤ) : Files :=
  let list := update f.resources.list r Links.unlinked
  let inserted := listInsert list f.resourcesList f.resourcesList.last (some r)
  { f with
    resources :=
      { f.resources with
        allocator := pool
        list := inserted.list
        id := update f.resources.id r id
        type := update f.resources.type r type
        descriptorsPtrs := update f.resources.descriptorsPtrs r listInit }
    resourcesList := inserted.head }

theorem Holds.create (h : f.Holds descs ptrs ress) {pool : PoolAllocator} (id type : ℤ)
    (hget : f.resources.allocator.getBlock = (some r, pool))
    (hnew : ∀ r' ∈ ress, f.resources.id r' ≠ id) :
    (f.create r pool id type).Holds descs ptrs (ress ++ [r]) := by
  obtain ⟨hok, -, hfree, -, hallocated⟩ := getBlock_some h.resourcePool hget
  have hnotMem : r ∉ ress := fun hr ↦ hfree (h.resource_allocated r hr)
  have hptrs : ptrs r = [] := List.eq_nil_iff_forall_not_mem.mpr fun x hx ↦ hnotMem (h.listed r x hx)
  have hlist : Represents (update f.resources.list r Links.unlinked) f.resourcesList ress :=
    h.resourceList.congr fun r' hr' ↦
      Function.update_of_ne (fun hsame : r' = r ↦ hnotMem (hsame ▸ hr')) _ _
  have hclear := h.pointerLists.clear r
  rw [← hptrs, Function.update_eq_self] at hclear
  have hid : ∀ r' ∈ ress, update f.resources.id r id r' = f.resources.id r' := fun r' hr' ↦
    Function.update_of_ne (fun hsame : r' = r ↦ hnotMem (hsame ▸ hr')) _ _
  exact
    { descriptorLists := h.descriptorLists
      pointerLists := hclear
      resourceList := (hlist.listInsert_last (Function.update_self ..) hnotMem).1
      descriptorPool := h.descriptorPool
      pointerPool := h.pointerPool
      resourcePool := hok
      sameSize := h.sameSize
      descriptor_allocated := h.descriptor_allocated
      pointer_allocated := h.pointer_allocated
      resource_allocated := fun r' hr' ↦ by
        rw [List.mem_append, List.mem_singleton] at hr'
        exact (hallocated r').mpr (hr'.symm.imp_right (h.resource_allocated r'))
      ids := fun r₁ hr₁ r₂ hr₂ hsame ↦ by
        have hsame' : update f.resources.id r id r₁ = update f.resources.id r id r₂ := hsame
        rw [List.mem_append, List.mem_singleton] at hr₁ hr₂
        rcases hr₁ with hr₁ | rfl <;> rcases hr₂ with hr₂ | rfl
        · rw [hid r₁ hr₁, hid r₂ hr₂] at hsame'
          exact h.ids r₁ hr₁ r₂ hr₂ hsame'
        · rw [hid r₁ hr₁, Function.update_self] at hsame'
          exact absurd hsame' (hnew r₁ hr₁)
        · rw [hid r₂ hr₂, Function.update_self] at hsame'
          exact absurd hsame'.symm (hnew r₂ hr₂)
        · rfl
      pointer := h.pointer
      listed := fun r' x hx ↦ List.mem_append_left _ (h.listed r' x hx)
      fd_lt := h.fd_lt
      fd_inj := h.fd_inj
      lastFd_nonneg := h.lastFd_nonneg }

/-- Resource `r` is taken out of the list and freed. -/
def destroy (f : Files) (r : Addr) : Files :=
  let detached := listDetach f.resources.list f.resourcesList (some r)
  { f with
    resources :=
      { f.resources with
        allocator := (f.resources.allocator.releaseBlock r).2
        list := detached.list }
    resourcesList := detached.head }

theorem Holds.destroy (h : f.Holds descs ptrs ress) (hr : r ∈ ress) (hunused : ptrs r = []) :
    (f.destroy r).Holds descs ptrs (ress.erase r) := by
  obtain ⟨hok, -, hallocated⟩ := h.resourcePool.release (h.resource_allocated r hr)
  have hnodup := h.resourceList.nodup
  have hsub : ∀ r' ∈ ress.erase r, r' ≠ r ∧ r' ∈ ress := fun r' hr' ↦ hnodup.mem_erase_iff.mp hr'
  exact
    { descriptorLists := h.descriptorLists
      pointerLists := h.pointerLists
      resourceList := h.resourceList.listDetach hr
      descriptorPool := h.descriptorPool
      pointerPool := h.pointerPool
      resourcePool := hok
      sameSize := h.sameSize
      descriptor_allocated := h.descriptor_allocated
      pointer_allocated := h.pointer_allocated
      resource_allocated := fun r' hr' ↦
        (hallocated r').mpr ⟨(hsub r' hr').1, h.resource_allocated r' (hsub r' hr').2⟩
      ids := fun r₁ hr₁ r₂ hr₂ ↦ h.ids r₁ (hsub r₁ hr₁).2 r₂ (hsub r₂ hr₂).2
      pointer := h.pointer
      listed := fun r' x hx ↦ hnodup.mem_erase_iff.mpr
        ⟨fun hsame ↦ by rw [hsame, hunused] at hx; exact List.not_mem_nil hx, h.listed r' x hx⟩
      fd_lt := h.fd_lt
      fd_inj := h.fd_inj
      lastFd_nonneg := h.lastFd_nonneg }

/-! ### Descriptors -/

/-- Process `p` gets a descriptor `d` of resource `r`, with pointer `x` and the next file descriptor. -/
def join (f : Files) (p r d x : Addr) (pool ptrPool : PoolAllocator) : Files :=
  let descs := listInsert (update f.descriptors.list d Links.unlinked) (f.lists p) (f.lists p).last
    (some d)
  let ptrs := listInsert (update f.descriptorPtrs.list x Links.unlinked)
    (f.resources.descriptorsPtrs r) (f.resources.descriptorsPtrs r).last (some x)
  { f with
    descriptors :=
      { allocator := pool
        list := descs.list
        pcb := update f.descriptors.pcb d p
        resource := update f.descriptors.resource d r
        fd := update f.descriptors.fd d (f.lastFd p)
        rwn := update f.descriptors.rwn d fun _ ↦ none
        ptr := update f.descriptors.ptr d (some x) }
    descriptorPtrs :=
      { allocator := ptrPool
        list := ptrs.list
        descriptor := update f.descriptorPtrs.descriptor x d }
    resources.descriptorsPtrs := update f.resources.descriptorsPtrs r ptrs.head
    lists := update f.lists p descs.head
    lastFd := update f.lastFd p (f.lastFd p + 1) }

theorem Holds.join (h : f.Holds descs ptrs ress) {pool ptrPool : PoolAllocator} (hr : r ∈ ress)
    (hget : f.descriptors.allocator.getBlock = (some d, pool))
    (hgetPtr : f.descriptorPtrs.allocator.getBlock = (some x, ptrPool)) :
    (f.join p r d x pool ptrPool).Holds (update descs p (descs p ++ [d]))
      (update ptrs r (ptrs r ++ [x])) ress := by
  obtain ⟨hok, -, hfree, hsize, hallocated⟩ := getBlock_some h.descriptorPool hget
  obtain ⟨hokPtr, -, hfreePtr, hsizePtr, hallocatedPtr⟩ := getBlock_some h.pointerPool hgetPtr
  have hne : ∀ p', ∀ d' ∈ descs p', d' ≠ d := fun p' d' hd' hsame ↦
    hfree (hsame ▸ h.descriptor_allocated p' d' hd')
  have hnePtr : ∀ r', ∀ x' ∈ ptrs r', x' ≠ x := fun r' x' hx' hsame ↦
    hfreePtr (hsame ▸ h.pointer_allocated r' x' hx')
  have hdescs : Family (update f.descriptors.list d Links.unlinked) f.lists descs :=
    h.descriptorLists.congr fun p' d' hd' ↦ Function.update_of_ne (hne p' d' hd') _ _
  have hptrs : Family (update f.descriptorPtrs.list x Links.unlinked)
      f.resources.descriptorsPtrs ptrs :=
    h.pointerLists.congr fun r' x' hx' ↦ Function.update_of_ne (hnePtr r' x' hx') _ _
  -- a descriptor of a process is the new one or an old one
  have hcases : ∀ p' d', d' ∈ update descs p (descs p ++ [d]) p' →
      d' ∈ descs p' ∨ d' = d ∧ p' = p := fun p' d' ↦ mem_update_append.mp
  have hcasesPtr : ∀ r' x', x' ∈ update ptrs r (ptrs r ++ [x]) r' →
      x' ∈ ptrs r' ∨ x' = x ∧ r' = r := fun r' x' ↦ mem_update_append.mp
  have hfd : ∀ p', ∀ d' ∈ descs p', update f.descriptors.fd d (f.lastFd p) d' = f.descriptors.fd d' :=
    fun p' d' hd' ↦ Function.update_of_ne (hne p' d' hd') _ _
  exact
    { descriptorLists := hdescs.listInsert_last p (Function.update_self ..) fun p' hd ↦
        hne p' d hd rfl
      pointerLists := hptrs.listInsert_last r (Function.update_self ..) fun r' hx ↦
        hnePtr r' x hx rfl
      resourceList := h.resourceList
      descriptorPool := hok
      pointerPool := hokPtr
      resourcePool := h.resourcePool
      sameSize := by
        change pool.size = ptrPool.size
        rw [hsize, hsizePtr, h.sameSize]
      descriptor_allocated := fun p' d' hd' ↦ (hallocated d').mpr <|
        (hcases p' d' hd').elim (fun hd' ↦ Or.inr (h.descriptor_allocated p' d' hd'))
          fun hd' ↦ Or.inl hd'.1
      pointer_allocated := fun r' x' hx' ↦ (hallocatedPtr x').mpr <|
        (hcasesPtr r' x' hx').elim (fun hx' ↦ Or.inr (h.pointer_allocated r' x' hx'))
          fun hx' ↦ Or.inl hx'.1
      resource_allocated := h.resource_allocated
      ids := h.ids
      pointer := fun p' d' hd' ↦ by
        rcases hcases p' d' hd' with hd' | ⟨rfl, -⟩
        · obtain ⟨x', hx', hptr, hdesc⟩ := h.pointer p' d' hd'
          refine ⟨x', ?_, ?_, ?_⟩
          · change x' ∈ update ptrs r (ptrs r ++ [x]) (update f.descriptors.resource d r d')
            rw [Function.update_of_ne (hne p' d' hd')]
            exact mem_update_append.mpr (Or.inl hx')
          · exact (Function.update_of_ne (hne p' d' hd') _ _).trans hptr
          · exact (Function.update_of_ne (hnePtr _ x' hx') _ _).trans hdesc
        · refine ⟨x, ?_, Function.update_self .., Function.update_self ..⟩
          change x ∈ update ptrs r (ptrs r ++ [x]) (update f.descriptors.resource d' r d')
          rw [Function.update_self, Function.update_self]
          exact List.mem_append_right _ (List.mem_singleton_self x)
      listed := fun r' x' hx' ↦ (hcasesPtr r' x' hx').elim (h.listed r' x') fun hx' ↦ hx'.2 ▸ hr
      fd_lt := fun p' d' hd' ↦ by
        change update f.descriptors.fd d (f.lastFd p) d' < update f.lastFd p (f.lastFd p + 1) p'
        rcases hcases p' d' hd' with hd' | ⟨rfl, rfl⟩
        · have hlt := h.fd_lt p' d' hd'
          rw [hfd p' d' hd', Function.update_apply]
          split_ifs with hp
          · rw [hp] at hlt
            omega
          · exact hlt
        · rw [Function.update_self, Function.update_self]
          omega
      fd_inj := fun p' d₁ hd₁ d₂ hd₂ hsame ↦ by
        have hsame' : update f.descriptors.fd d (f.lastFd p) d₁ =
            update f.descriptors.fd d (f.lastFd p) d₂ := hsame
        rcases hcases p' d₁ hd₁ with hd₁ | ⟨rfl, rfl⟩ <;>
          rcases hcases p' d₂ hd₂ with hd₂ | ⟨hd₂, hp₂⟩
        · rw [hfd p' d₁ hd₁, hfd p' d₂ hd₂] at hsame'
          exact h.fd_inj p' d₁ hd₁ d₂ hd₂ hsame'
        · rw [hfd p' d₁ hd₁, hd₂, Function.update_self, ← hp₂] at hsame'
          exact absurd hsame' (h.fd_lt p' d₁ hd₁).ne
        · rw [hfd p' d₂ hd₂, Function.update_self] at hsame'
          exact absurd hsame'.symm (h.fd_lt p' d₂ hd₂).ne
        · exact hd₂.symm
      lastFd_nonneg := fun p' ↦ by
        change 0 ≤ update f.lastFd p (f.lastFd p + 1) p'
        have hnonneg := h.lastFd_nonneg p
        rw [Function.update_apply]
        split_ifs
        · omega
        · exact h.lastFd_nonneg p' }

/-- Process `p` gives up its descriptor `d` of resource `r`, with the pointer `x`. -/
def drop (f : Files) (p d r x : Addr) : Files :=
  let descs := listDetach f.descriptors.list (f.lists p) (some d)
  let ptrs := listDetach f.descriptorPtrs.list (f.resources.descriptorsPtrs r) (some x)
  { f with
    descriptors :=
      { f.descriptors with
        allocator := (f.descriptors.allocator.releaseBlock d).2
        list := descs.list }
    descriptorPtrs :=
      { f.descriptorPtrs with
        allocator := (f.descriptorPtrs.allocator.releaseBlock x).2
        list := ptrs.list }
    resources.descriptorsPtrs := update f.resources.descriptorsPtrs r ptrs.head
    lists := update f.lists p descs.head }

theorem Holds.drop (h : f.Holds descs ptrs ress) (hd : d ∈ descs p)
    (hptr : f.descriptors.ptr d = some x) :
    (f.drop p d (f.descriptors.resource d) x).Holds (update descs p ((descs p).erase d))
      (update ptrs (f.descriptors.resource d) ((ptrs (f.descriptors.resource d)).erase x)) ress := by
  obtain ⟨x', hx, hptr', hdesc⟩ := h.pointer p d hd
  obtain rfl := Option.some.inj (hptr.symm.trans hptr')
  obtain ⟨hok, hsize, hallocated⟩ := h.descriptorPool.release (h.descriptor_allocated p d hd)
  obtain ⟨hokPtr, hsizePtr, hallocatedPtr⟩ := h.pointerPool.release (h.pointer_allocated _ x hx)
  have hsub : ∀ p' d', d' ∈ update descs p ((descs p).erase d) p' → d' ∈ descs p' ∧ d' ≠ d :=
    fun p' d' ↦ (h.descriptorLists.mem_update_erase hd).mp
  have hsubPtr : ∀ r' x', x' ∈ update ptrs (f.descriptors.resource d)
      ((ptrs (f.descriptors.resource d)).erase x) r' → x' ∈ ptrs r' ∧ x' ≠ x :=
    fun r' x' ↦ (h.pointerLists.mem_update_erase hx).mp
  exact
    { descriptorLists := h.descriptorLists.listDetach hd
      pointerLists := h.pointerLists.listDetach hx
      resourceList := h.resourceList
      descriptorPool := hok
      pointerPool := hokPtr
      resourcePool := h.resourcePool
      sameSize := by
        change (f.descriptors.allocator.releaseBlock d).2.size =
          (f.descriptorPtrs.allocator.releaseBlock x).2.size
        rw [hsize, hsizePtr, h.sameSize]
      descriptor_allocated := fun p' d' hd' ↦ (hallocated d').mpr
        ⟨(hsub p' d' hd').2, h.descriptor_allocated p' d' (hsub p' d' hd').1⟩
      pointer_allocated := fun r' x' hx' ↦ (hallocatedPtr x').mpr
        ⟨(hsubPtr r' x' hx').2, h.pointer_allocated r' x' (hsubPtr r' x' hx').1⟩
      resource_allocated := h.resource_allocated
      ids := h.ids
      pointer := fun p' d' hd' ↦ by
        obtain ⟨hold, hne⟩ := hsub p' d' hd'
        obtain ⟨x', hx', hptr', hdesc'⟩ := h.pointer p' d' hold
        refine ⟨x', ?_, hptr', hdesc'⟩
        have hnePtr : x' ≠ x := fun hsame ↦
          hne (hdesc'.symm.trans ((congrArg f.descriptorPtrs.descriptor hsame).trans hdesc))
        exact (h.pointerLists.mem_update_erase hx).mpr ⟨hx', hnePtr⟩
      listed := fun r' x' hx' ↦ h.listed r' x' (hsubPtr r' x' hx').1
      fd_lt := fun p' d' hd' ↦ h.fd_lt p' d' (hsub p' d' hd').1
      fd_inj := fun p' d₁ hd₁ d₂ hd₂ ↦
        h.fd_inj p' d₁ (hsub p' d₁ hd₁).1 d₂ (hsub p' d₂ hd₂).1
      lastFd_nonneg := h.lastFd_nonneg }

/-! ### The sizes of the pools -/

/-- The pools of the descriptors and of the resources are of the sizes they were set up with. -/
structure Sized (f : Files) : Prop where
  descriptors : f.descriptors.allocator.sizeMax = maxNumProcesses
  resources : f.resources.allocator.sizeMax = maxNumResources

theorem Sized.reset (h : f.Sized) (p : Addr) : (f.reset p).Sized := { h with }

theorem Sized.create (h : f.Sized) {pool : PoolAllocator} (id type : ℤ)
    (hget : f.resources.allocator.getBlock = (some r, pool)) : (f.create r pool id type).Sized where
  descriptors := h.descriptors
  resources := by
    have hpool := getBlock_samePool f.resources.allocator
    rw [hget] at hpool
    exact hpool.sizeMax.trans h.resources

theorem Sized.destroy (h : f.Sized) (r : Addr) : (f.destroy r).Sized where
  descriptors := h.descriptors
  resources := (releaseBlock_samePool _ r).sizeMax.trans h.resources

theorem Sized.join (h : f.Sized) {pool ptrPool : PoolAllocator}
    (hget : f.descriptors.allocator.getBlock = (some d, pool)) (p r x : Addr) :
    (f.join p r d x pool ptrPool).Sized where
  descriptors := by
    have hpool := getBlock_samePool f.descriptors.allocator
    rw [hget] at hpool
    exact hpool.sizeMax.trans h.descriptors
  resources := h.resources

theorem Sized.drop (h : f.Sized) (p d r x : Addr) : (f.drop p d r x).Sized where
  descriptors := (releaseBlock_samePool _ d).sizeMax.trans h.descriptors
  resources := h.resources

theorem Sized.setRwn (h : f.Sized) (rwn : Addr → Role → Option Addr) :
    { f with descriptors.rwn := rwn }.Sized := { h with }

theorem Sized.setValue (h : f.Sized) (value : Addr → Option Addr) :
    { f with resources.value := value }.Sized := { h with }

end Files

end DisastrOS
