import DisastrOS.Descriptors
import DisastrOS.QueueOwnership
import DisastrOS.QueueUsers

/-!
# Openings

`Files.Backed` is the other half of the table: every pointer in the list of a resource leads to a
descriptor of it, also when its process has gone. `Opening` is what a run notes of a successful
`dmq_open` (`Kernel.noteOpening`).
-/

set_option autoImplicit false
set_option relaxedAutoImplicit false

namespace DisastrOS

open LinkedLists PoolAllocator
open Function (update)

namespace Files

variable {f f' : Files} {p r d x : Addr} {pool ptrPool : PoolAllocator}

/-! ### The descriptors of a resource -/

/-- A pointer in the list of its resource leads to descriptor `d`. -/
def Leads (f : Files) (d : Addr) : Prop :=
  ∃ x ∈ f.pointerNodes (f.descriptors.resource d), f.descriptorPtrs.descriptor x = d

instance (f : Files) (d : Addr) : Decidable (f.Leads d) :=
  inferInstanceAs (Decidable (∃ x ∈ f.pointerNodes (f.descriptors.resource d), _))

/-- The pointers in the list of a resource lead to its descriptors, each to another one. -/
structure Backed (f : Files) : Prop where
  allocated : ∀ r, ∀ x ∈ f.pointerNodes r,
    f.descriptors.allocator.Allocated (f.descriptorPtrs.descriptor x)
  resource : ∀ r, ∀ x ∈ f.pointerNodes r,
    f.descriptors.resource (f.descriptorPtrs.descriptor x) = r
  ptr : ∀ r, ∀ x ∈ f.pointerNodes r,
    f.descriptors.ptr (f.descriptorPtrs.descriptor x) = some x
  descriptorMax : f.descriptors.allocator.sizeMax = maxNumProcesses

theorem Backed.reset (h : f.Backed) (p : Addr) : (f.reset p).Backed := { h with }

theorem Backed.setRwn (h : f.Backed) (rwn : Addr → Role → Option Addr) :
    { f with descriptors.rwn := rwn }.Backed := { h with }

theorem Backed.setValue (h : f.Backed) (value : Addr → Option Addr) :
    { f with resources.value := value }.Backed := { h with }

theorem Backed.create (h : f.Backed) (hok : f.Ok) (id type : ℤ)
    (hget : f.resources.allocator.getBlock = (some r, pool))
    (hnew : ∀ r' ∈ f.resourceNodes, f.resources.id r' ≠ id) : (f.create r pool id type).Backed := by
  have hnodes := (Holds.create hok id type hget hnew).pointerNodes_eq
  exact
    { allocated := hnodes ▸ h.allocated
      resource := hnodes ▸ h.resource
      ptr := hnodes ▸ h.ptr
      descriptorMax := h.descriptorMax }

theorem Backed.destroy (h : f.Backed) (r : Addr) : (f.destroy r).Backed := { h with }

theorem Backed.join (h : f.Backed) (hok : f.Ok) (hr : r ∈ f.resourceNodes)
    (hget : f.descriptors.allocator.getBlock = (some d, pool))
    (hgetPtr : f.descriptorPtrs.allocator.getBlock = (some x, ptrPool)) (p : Addr) :
    (f.join p r d x pool ptrPool).Backed := by
  obtain ⟨-, -, hfree, -, hallocated⟩ := getBlock_some hok.descriptorPool hget
  obtain ⟨-, -, hfreePtr, -⟩ := getBlock_some hok.pointerPool hgetPtr
  have hnodes := (Holds.join (p := p) hok hr hget hgetPtr).pointerNodes_eq
  -- a pointer is the new one, or an old one to an old descriptor
  have hcases : ∀ r', ∀ x' ∈ (f.join p r d x pool ptrPool).pointerNodes r',
      x' = x ∧ r' = r ∧ (f.join p r d x pool ptrPool).descriptorPtrs.descriptor x' = d ∨
        x' ∈ f.pointerNodes r' ∧ f.descriptorPtrs.descriptor x' ≠ d ∧
          (f.join p r d x pool ptrPool).descriptorPtrs.descriptor x' =
            f.descriptorPtrs.descriptor x' := by
    intro r' x' hx'
    rw [hnodes] at hx'
    rcases mem_update_append.mp hx' with hold | ⟨rfl, rfl⟩
    · have hne : x' ≠ x := by
        rintro rfl
        exact hfreePtr (hok.pointer_allocated r' x' hold)
      refine Or.inr ⟨hold, fun hsame ↦ ?_, Function.update_of_ne hne _ _⟩
      exact hfree (hsame ▸ h.allocated r' x' hold)
    · exact Or.inl ⟨rfl, rfl, Function.update_self ..⟩
  have hmax : pool.sizeMax = maxNumProcesses := by
    have hsame := (getBlock_samePool f.descriptors.allocator).sizeMax
    rw [hget] at hsame
    exact hsame.trans h.descriptorMax
  refine ⟨?_, ?_, ?_, hmax⟩ <;> intro r' x' hx'
  · rcases hcases r' x' hx' with ⟨-, -, hd⟩ | ⟨hx', -, hd⟩ <;> rw [hd]
    · exact (hallocated d).mpr (Or.inl rfl)
    · exact (hallocated _).mpr (Or.inr (h.allocated r' x' hx'))
  · rcases hcases r' x' hx' with ⟨-, rfl, hd⟩ | ⟨hx', hne, hd⟩ <;> rw [hd]
    · exact Function.update_self ..
    · exact (Function.update_of_ne hne _ _).trans (h.resource r' x' hx')
  · rcases hcases r' x' hx' with ⟨rfl, -, hd⟩ | ⟨hx', hne, hd⟩ <;> rw [hd]
    · exact Function.update_self ..
    · exact (Function.update_of_ne hne _ _).trans (h.ptr r' x' hx')

theorem Backed.drop (h : f.Backed) (hok : f.Ok) (hd : d ∈ f.descriptorNodes p)
    (hptr : f.descriptors.ptr d = some x) :
    (f.drop p d (f.descriptors.resource d) x).Backed := by
  obtain ⟨x', hx, hptr', hdesc⟩ := hok.pointer p d hd
  obtain rfl := Option.some.inj (hptr.symm.trans hptr')
  obtain ⟨-, -, hallocated⟩ := hok.descriptorPool.release (hok.descriptor_allocated p d hd)
  have hnodes := (Holds.drop hok hd hptr).pointerNodes_eq
  have hsub : ∀ r, ∀ y ∈ (f.drop p d (f.descriptors.resource d) x).pointerNodes r,
      y ∈ f.pointerNodes r ∧ y ≠ x := by
    intro r y hy
    rw [hnodes] at hy
    exact (hok.pointerLists.mem_update_erase hx).mp hy
  have hmax := (releaseBlock_samePool f.descriptors.allocator d).sizeMax.trans h.descriptorMax
  refine ⟨?_, ?_, ?_, hmax⟩ <;> intro r y hy <;> obtain ⟨hy, hne⟩ := hsub r y hy
  · refine (hallocated _).mpr ⟨fun hsame ↦ hne ?_, h.allocated r y hy⟩
    have hsame' : f.descriptorPtrs.descriptor y = d := hsame
    have hy' := h.ptr r y hy
    rw [hsame'] at hy'
    exact Option.some.inj (hy'.symm.trans hptr)
  · exact h.resource r y hy
  · exact h.ptr r y hy

end Files

/-! ### Notes of a run -/

/-- A successful `dmq_open`: its mode, the pid of the process, and the roles in which `dmq_close` has
taken the process out of the queue since. -/
structure Opening where
  mode : BitVec 32
  pid : ℤ
  left : Role → Bool

def Opening.leave (o : Opening) (role : Role) : Opening := { o with left := update o.left role true }

namespace Kernel

variable {k k' : Kernel} {a : Action} {m : Addr → Option Opening} {p d : Addr}

/-- Notes, for a descriptor, the `dmq_open` it comes from and how far `dmq_close` has got, as long as
it is a descriptor of its resource. -/
def noteOpening (m : Addr → Option Opening) (k : Kernel) (a : Action) (k' : Kernel) (d : Addr) :
    Option Opening :=
  if ¬ k'.files.Leads d then none
  else
    match k.running with
    | none => m d
    | some p =>
      match k.request a, a, k.pcbs.cpuState p with
      | some (.openQueue _ fd mode), _, _ =>
        if 0 ≤ k'.pcbs.syscallRetvalue p ∧ k.descriptorByFd p fd = some (some d) then
          some ⟨mode, k.pcbs.pid p, fun _ ↦ false⟩
        else m d
      | none, .statement, .closeDetach _ _ ds role => if ds = d then (m d).map (·.leave role) else m d
      | _, _, _ => m d

/-- The step notes nothing new. -/
def NotesNothing (k : Kernel) (a : Action) : Prop :=
  (∀ id fd mode, k.request a ≠ some (.openQueue id fd mode)) ∧
    ∀ p fd q ds role, k.running = some p → a = .statement →
      k.pcbs.cpuState p ≠ .closeDetach fd q ds role

theorem noteOpening_quiet (hquiet : k.NotesNothing a) (d : Addr) :
    noteOpening m k a k' d = if k'.files.Leads d then m d else none := by
  obtain ⟨hopen, hdetach⟩ := hquiet
  unfold noteOpening
  by_cases hleads : k'.files.Leads d
  · simp only [hleads, not_true_eq_false, if_false, if_true]
    cases hp : k.running with
    | none => rfl
    | some p =>
      dsimp only
      split
      · exact absurd ‹_› (hopen _ _ _)
      · exact absurd ‹_› (hdetach p _ _ _ _ hp rfl)
      · rfl
  · simp [hleads]

/-- Every step keeps the pointers of the resources in order. -/
theorem backed_step (h : k.files.Backed) (hok : k.files.Ok) (hshutdown : k.request a ≠ some .shutdown)
    (hstep : k.step a = some k') : k'.files.Backed := by
  have hdrop {p fd d x : Addr} (hfound : k.descriptorByFd p fd = some (some d))
      (hptr : k.descriptors.ptr d = some x) :
      (k.files.drop p d (k.files.descriptors.resource d) x).Backed :=
    h.drop hok (descriptorByFd_some hok hfound).1 hptr
  cases step_files hshutdown hstep with
  | same hfiles => exact hfiles ▸ h
  | newProcess p _ hfiles =>
    rw [hfiles]
    exact h.reset p
  | call p c next hp hcalls hkind hcall =>
    cases c with
    | openResource id type mode =>
      have htrap : (k.trap p next (.openResource id type mode)).files.Ok := hok
      obtain ⟨_, -, hopens⟩ := internalOpenResource_files htrap hcall
      cases hopens with
      | failed hfiles => exact hfiles ▸ h
      | joined r d x pool ptrPool hfound _ hget hgetPtr hfiles =>
        rw [hfiles]
        exact h.join hok (resourceById_some hok hfound).1 hget hgetPtr _
      | created r resPool hnone _ hnew hfiles =>
        rw [hfiles]
        exact h.create hok id type hnew fun r' hr' ↦ resourceById_none hok hnone hr'
      | createdJoined r d x resPool pool ptrPool hnone _ hnew hget hgetPtr hfiles =>
        have hids : ∀ r' ∈ k.files.resourceNodes, k.files.resources.id r' ≠ id := fun r' hr' ↦
          resourceById_none hok hnone hr'
        have hcreated := Files.Holds.create hok id type hnew hids
        have hr : r ∈ (k.files.create r resPool id type).resourceNodes := by
          rw [hcreated.resourceNodes_eq]
          exact List.mem_append_right _ (List.mem_singleton_self r)
        rw [hfiles]
        exact (h.create hok id type hnew hids).join hcreated.ok hr hget hgetPtr _
    | closeResource fd =>
      obtain ⟨_, -, ⟨-, hfiles, -⟩ | ⟨d, x, hfound, hptr, hfiles, -⟩⟩ := internalCloseResource_files hcall
      · exact hfiles ▸ h
      · rw [hfiles]
        exact hdrop hfound hptr
    | destroyResource id =>
      obtain ⟨_, -, ⟨hfiles, -⟩ | ⟨r, -, -, hfiles, -⟩⟩ := internalDestroyResource_files hcall
      · exact hfiles ▸ h
      · rw [hfiles]
        exact h.destroy r
    | openQueue id fd mode =>
      obtain ⟨_, -, hopens⟩ := internalOpenQueue_files hcall
      cases hopens with
      | joined r q _ _ hfiles =>
        rw [hfiles]
        exact h.setRwn _
      | fresh r q pool _ _ _ hfiles =>
        rw [hfiles]
        exact (h.setRwn _).setValue _
      | refused hfiles => exact hfiles ▸ h
      | closed d x hfound hptr hfiles =>
        rw [hfiles]
        exact hdrop hfound hptr
      | gaveUp r d x hfound hptr _ _ _ hfiles =>
        rw [hfiles]
        exact (hdrop hfound hptr).destroy r
    | exit value =>
      exact internalExit_induct (k := k.trap p next (.exit value)) hok hcall h
        fun f p d x hf hbacked hd hptr _ ↦ hbacked.drop hf hd hptr
    | _ => cases hkind

end Kernel

/-- At the start no resource has a pointer. -/
theorem Layout.boot_backed (layout : Layout) : layout.boot.files.Backed where
  allocated _ _ hx := absurd hx List.not_mem_nil
  resource _ _ hx := absurd hx List.not_mem_nil
  ptr _ _ hx := absurd hx List.not_mem_nil
  descriptorMax := rfl

end DisastrOS
