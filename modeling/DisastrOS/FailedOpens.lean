import DisastrOS.OpenCalls

/-!
# Openings that fail

A `dmq_open` that returns an error should leave everything as it was. It does not if it has created a
resource for which there is no descriptor left, if it destroys a resource that was there before, or if
the process cannot be entered among the users of the queue.
-/

set_option autoImplicit false
set_option relaxedAutoImplicit false

namespace DisastrOS

open LinkedLists PoolAllocator
open Function (update)

variable {k k' k₁ : Kernel} {p r d q : Addr} {id fd : ℤ} {mode : BitVec 32}

/-! ### Tables that are as before -/

namespace Files

variable {f f' f'' : Files} {x : Addr} {type : ℤ} {pool ptrPool : PoolAllocator}

/-- The tables show the same: the resources and what they are, the descriptors of each process and the
resources they are of, the pointers of each resource; and as many blocks are free. -/
structure Untouched (f f' : Files) : Prop where
  resources : f'.resourceNodes = f.resourceNodes
  attributes : ∀ r ∈ f.resourceNodes, f'.resources.id r = f.resources.id r ∧
    f'.resources.type r = f.resources.type r ∧ f'.resources.value r = f.resources.value r
  descriptors : f'.descriptorNodes = f.descriptorNodes
  fields : ∀ p, ∀ d ∈ f.descriptorNodes p, f'.descriptors.fd d = f.descriptors.fd d ∧
    f'.descriptors.resource d = f.descriptors.resource d ∧
      f'.descriptors.rwn d = f.descriptors.rwn d
  pointers : f'.pointerNodes = f.pointerNodes
  free : f'.descriptors.allocator.size = f.descriptors.allocator.size ∧
    f'.descriptorPtrs.allocator.size = f.descriptorPtrs.allocator.size ∧
      f'.resources.allocator.size = f.resources.allocator.size

theorem Untouched.refl (f : Files) : f.Untouched f where
  resources := rfl
  attributes _ _ := ⟨rfl, rfl, rfl⟩
  descriptors := rfl
  fields _ _ _ := ⟨rfl, rfl, rfl⟩
  pointers := rfl
  free := ⟨rfl, rfl, rfl⟩

/-- A descriptor is taken and given back. -/
theorem untouched_drop_join (hok : f.Ok) (hr : r ∈ f.resourceNodes)
    (hget : f.descriptors.allocator.getBlock = (some d, pool))
    (hgetPtr : f.descriptorPtrs.allocator.getBlock = (some x, ptrPool)) (p : Addr) :
    f.Untouched ((f.join p r d x pool ptrPool).drop p d r x) ∧
      ((f.join p r d x pool ptrPool).drop p d r x).Ok := by
  have hjoin := Holds.join (p := p) hok hr hget hgetPtr
  obtain ⟨-, -, hfree, hsize, -⟩ := getBlock_some hok.descriptorPool hget
  obtain ⟨-, -, hfreePtr, hsizePtr, -⟩ := getBlock_some hok.pointerPool hgetPtr
  have hnew : ∀ p', d ∉ f.descriptorNodes p' := fun p' hd ↦
    hfree (hok.descriptor_allocated p' d hd)
  have hnewPtr : ∀ r', x ∉ f.pointerNodes r' := fun r' hx ↦
    hfreePtr (hok.pointer_allocated r' x hx)
  have hd : d ∈ update f.descriptorNodes p (f.descriptorNodes p ++ [d]) p := by simp
  have hptr : (f.join p r d x pool ptrPool).descriptors.ptr d = some x := Function.update_self ..
  have hres : (f.join p r d x pool ptrPool).descriptors.resource d = r := Function.update_self ..
  have hdrop := Holds.drop hjoin hd hptr
  rw [hres] at hdrop
  have hdescs : (f.descriptorNodes p ++ [d]).erase d = f.descriptorNodes p := by
    rw [List.erase_append_right _ (hnew p), List.erase_cons_head, List.append_nil]
  have hptrs : (f.pointerNodes r ++ [x]).erase x = f.pointerNodes r := by
    rw [List.erase_append_right _ (hnewPtr r), List.erase_cons_head, List.append_nil]
  simp only [Function.update_self, Function.update_idem, hdescs, hptrs,
    Function.update_eq_self] at hdrop
  refine ⟨?_, hdrop.ok⟩
  constructor
  · exact hdrop.resourceNodes_eq
  · intro r' _
    exact ⟨rfl, rfl, rfl⟩
  · exact hdrop.descriptorNodes_eq
  · intro p' d' hd'
    have hne : d' ≠ d := by
      rintro rfl
      exact hnew p' hd'
    refine ⟨?_, ?_, ?_⟩
    · exact Function.update_of_ne hne ..
    · exact Function.update_of_ne hne ..
    · exact Function.update_of_ne hne ..
  · exact hdrop.pointerNodes_eq
  · have hreleased := (hjoin.descriptorPool.release (hjoin.descriptor_allocated p d hd)).2.1
    have hx : x ∈ update f.pointerNodes r (f.pointerNodes r ++ [x]) r := by simp
    have hreleasedPtr := (hjoin.pointerPool.release (hjoin.pointer_allocated r x hx)).2.1
    refine ⟨?_, ?_, rfl⟩
    · refine hreleased.trans ?_
      change pool.size + 1 = _
      omega
    · refine hreleasedPtr.trans ?_
      change ptrPool.size + 1 = _
      omega

/-- A resource is created, the tables are left alone, and the resource is destroyed again. -/
theorem untouched_destroy_create (hok : f.Ok) {id : ℤ}
    (hget : f.resources.allocator.getBlock = (some r, pool))
    (hnew : ∀ r' ∈ f.resourceNodes, f.resources.id r' ≠ id)
    (h : (f.create r pool id type).Untouched f') (hok' : f'.Ok) : f.Untouched (f'.destroy r) := by
  have hcreate := Holds.create hok id type hget hnew
  obtain ⟨-, -, hfree, hsize, -⟩ := getBlock_some hok.resourcePool hget
  have hnot : r ∉ f.resourceNodes := fun hr ↦ hfree (hok.resource_allocated r hr)
  have hress : f'.resourceNodes = f.resourceNodes ++ [r] :=
    h.resources.trans hcreate.resourceNodes_eq
  have hr : r ∈ f'.resourceNodes := by
    rw [hress]
    exact List.mem_append_right _ (List.mem_singleton_self r)
  have hptrs : f'.pointerNodes = f.pointerNodes := h.pointers.trans hcreate.pointerNodes_eq
  have hunused : f'.pointerNodes r = [] := by
    rw [hptrs, List.eq_nil_iff_forall_not_mem]
    intro x hx
    exact hnot (hok.listed r x hx)
  have hdestroy := Holds.destroy hok' hr hunused
  constructor
  · rw [hdestroy.resourceNodes_eq, hress, List.erase_append_right _ hnot, List.erase_cons_head,
      List.append_nil]
  · intro r' hr'
    have hne : r' ≠ r := by
      rintro rfl
      exact hnot hr'
    have hr'' : r' ∈ (f.create r pool id type).resourceNodes := by
      rw [hcreate.resourceNodes_eq]
      exact List.mem_append_left _ hr'
    obtain ⟨hid, htype, hvalue⟩ := h.attributes r' hr''
    refine ⟨?_, ?_, hvalue⟩
    · exact hid.trans (Function.update_of_ne hne ..)
    · exact htype.trans (Function.update_of_ne hne ..)
  · rw [hdestroy.descriptorNodes_eq]
    exact h.descriptors.trans hcreate.descriptorNodes_eq
  · intro p d hd
    refine h.fields p d ?_
    rw [hcreate.descriptorNodes_eq]
    exact hd
  · rw [hdestroy.pointerNodes_eq, hptrs]
  · obtain ⟨hdescriptors, hpointers, hresources⟩ := h.free
    have hreleased := (hok'.resourcePool.release (hok'.resource_allocated r hr)).2.1
    refine ⟨hdescriptors, hpointers, hreleased.trans ?_⟩
    have hpool : f'.resources.allocator.size = pool.size := hresources
    omega

end Files

namespace Kernel

/-! ### Traces -/

/-- Neither the tables nor the queues and their users show a call, but for the last file descriptor. -/
structure LeavesNoTrace (k k' : Kernel) : Prop where
  files : k.files.Untouched k'.files
  queues : k'.queues = k.queues
  queueUsers : k'.queueUsers = k.queueUsers

/-- A `dmq_open` without interruption that returns an error leaves no trace. -/
def FailsWithoutTrace (k : Kernel) (p : Addr) (id : ℤ) (mode : BitVec 32) : Prop :=
  ∀ k' ret, dmqCall (.openQueue id mode) k = some k' → k'.pcbs.cpuState p = .user ret → ret < 0 →
    k.LeavesNoTrace k'

/-- A resource is created only if there is a descriptor for it; a resource without a queue and without
descriptors is opened only if there is a queue for it; and a process that gets to joining the queue
can be entered under all roles asked for. -/
structure TraceFree (k : Kernel) (p : Addr) (id : ℤ) (mode : BitVec 32) : Prop where
  created : k.resourceById id = some none → hasBit mode dsosCreat = true →
    k.resources.allocator.getBlock.1 ≠ none → k.descriptors.allocator.getBlock.1 ≠ none
  destroyed : ∀ r, k.resourceById id = some (some r) → k.OpensResource p id mode r →
    k.resources.value r = none → (k.resources.descriptorsPtrs r).size = 0 →
      k.queues.allocator.getBlock.1 ≠ none
  entered : ∀ r, k.OpensResource p id mode r →
    (k.resources.value r ≠ none ∨ k.queues.allocator.getBlock.1 ≠ none) →
      takesUsers k.queueUsers.allocator k.queueUsers.list (k.joinHeads r mode) = true

theorem failsWithoutTrace_iff_of_returns {k₂ : Kernel}
    (hcall : dmqCall (.openQueue id mode) k =
      some (k₂.setContext p (.user (k₂.pcbs.syscallRetvalue p)))) :
    k.FailsWithoutTrace p id mode ↔ (k₂.pcbs.syscallRetvalue p < 0 → k.LeavesNoTrace k₂) := by
  have hself : (k₂.setContext p (.user (k₂.pcbs.syscallRetvalue p))).pcbs.cpuState p =
      .user (k₂.pcbs.syscallRetvalue p) := Function.update_self ..
  constructor
  · intro hfails hneg
    obtain ⟨hfiles, hqueues, husers⟩ := hfails _ _ hcall hself hneg
    exact ⟨hfiles, hqueues, husers⟩
  · intro hreturns k' ret hcall' hcontext hneg
    rw [hcall] at hcall'
    obtain rfl := Option.some.inj hcall'
    rw [hself] at hcontext
    obtain rfl := Context.user.inj hcontext
    obtain ⟨hfiles, hqueues, husers⟩ := hreturns hneg
    exact ⟨hfiles, hqueues, husers⟩

/-- A call that fails at once leaves no trace. -/
theorem failsWithoutTrace_of_not_finds {ret : ℤ} (h : k.At p (.user ret))
    (hfinds : ∀ r, ¬ k.FindsResource id mode r) : k.FailsWithoutTrace p id mode := by
  cases hopen : internalOpenResource id 2 (resourceFlags mode) (k.firstCall p id mode) with
  | none =>
    intro k' ret' hcall
    unfold firstCall at hopen
    rw [dmqCall_open h, hopen] at hcall
    cases hcall
  | some k₁ =>
    have hp : (k.firstCall p id mode).running = some p := h.running
    have hfinds' : ∀ r, ¬ (k.firstCall p id mode).FindsResource id mode r := hfinds
    obtain ⟨err, herr, rfl⟩ := internalOpenResource_of_not_finds hp hfinds' hopen
    have hself : ((k.firstCall p id mode).setRetvalue p err).pcbs.syscallRetvalue p = err :=
      Function.update_self ..
    refine (failsWithoutTrace_iff_of_returns (dmqCall_open_failed h hopen ?_)).mpr fun _ ↦
      ⟨.refl _, rfl, rfl⟩
    rw [hself]
    exact herr

/-- A call that finds no descriptor leaves no trace exactly if the resource was there. -/
theorem failsWithoutTrace_iff_of_noDescriptor {ret : ℤ} (h : k.At p (.user ret)) (hok : k.files.Ok)
    (hfinds : k.FindsResource id mode r) (hnone : k.descriptors.allocator.getBlock.1 = none) :
    k.FailsWithoutTrace p id mode ↔ k.resourceById id ≠ some none := by
  have hfinds' : (k.firstCall p id mode).FindsResource id mode r := hfinds
  have hp : (k.firstCall p id mode).running = some p := h.running
  have hopen := internalOpenResource_of_finds hp hfinds'
  have hsame : ((k.firstCall p id mode).withResource id r).descriptors = k.descriptors := by
    rcases withResource_files hfinds' with ⟨-, hsame⟩ | ⟨-, -, -, -, hframe⟩
    · rw [hsame]
      rfl
    · rw [hframe]
      rfl
  rw [openDescriptor_full (by rw [hsame]; exact hnone)] at hopen
  have hself : (((k.firstCall p id mode).withResource id r).setRetvalue p
      dsosEresourcenofd).pcbs.syscallRetvalue p = dsosEresourcenofd := Function.update_self ..
  have hneg : (((k.firstCall p id mode).withResource id r).setRetvalue p
      dsosEresourcenofd).pcbs.syscallRetvalue p < 0 := by
    rw [hself]
    decide
  rw [failsWithoutTrace_iff_of_returns (dmqCall_open_failed h hopen hneg), forall_prop_of_true hneg]
  rcases withResource_files hfinds' with ⟨hfound, hwith⟩ | ⟨pool, hnew, hget, hfiles, -⟩
  · have hfound' : k.resourceById id = some (some r) := hfound
    rw [hwith, hfound']
    exact iff_of_true ⟨.refl _, rfl, rfl⟩ (by simp)
  · refine iff_of_false ?_ (not_not.mpr hnew)
    rintro ⟨huntouched, -, -⟩
    have hcreate := Files.Holds.create hok id 2 hget fun r' hr' ↦ resourceById_none hok hnew hr'
    have hnodes := huntouched.resources
    rw [files_setRetvalue, hfiles] at hnodes
    have hlength := congrArg List.length (hcreate.resourceNodes_eq.symm.trans hnodes)
    rw [List.length_append, List.length_singleton] at hlength
    omega

/-- A call that has no number for the descriptor does not end. -/
theorem failsWithoutTrace_of_overflow {ret : ℤ} (h : k.At p (.user ret))
    (hfinds : k.FindsResource id mode r) (hsome : k.descriptors.allocator.getBlock.1 ≠ none)
    (hfd : k.pcbs.lastFd p = intMax) : k.FailsWithoutTrace p id mode := by
  have hp : (k.firstCall p id mode).running = some p := h.running
  have hfinds' : (k.firstCall p id mode).FindsResource id mode r := hfinds
  have hopen := internalOpenResource_of_finds hp hfinds'
  have hsame : ((k.firstCall p id mode).withResource id r).descriptors = k.descriptors ∧
      ((k.firstCall p id mode).withResource id r).pcbs.lastFd = k.pcbs.lastFd := by
    rcases withResource_files hfinds' with ⟨-, hsame⟩ | ⟨-, -, -, -, hframe⟩
    · rw [hsame]
      exact ⟨rfl, rfl⟩
    · rw [hframe]
      exact ⟨rfl, rfl⟩
  rw [openDescriptor_overflow (by rw [hsame.1]; exact hsome) (by rw [hsame.2]; exact hfd)] at hopen
  intro k' ret' hcall
  unfold firstCall at hopen
  rw [dmqCall_open h, hopen] at hcall
  cases hcall

/-- A call that joins a queue leaves no trace exactly if it succeeds. -/
theorem failsWithoutTrace_iff_of_joins {ret : ℤ} (h : k.At p (.user ret)) (hok : k.files.Ok)
    (hsized : k.files.Sized) (hopens : k.OpensResource p id mode r)
    (hqueue : k.resources.value r ≠ none ∨ k.queues.allocator.getBlock.1 ≠ none) :
    k.FailsWithoutTrace p id mode ↔
      takesUsers k.queueUsers.allocator k.queueUsers.list (k.joinHeads r mode) = true := by
  have hp : (k.firstCall p id mode).running = some p := h.running
  have hopens' : (k.firstCall p id mode).OpensResource p id mode r := hopens
  obtain ⟨k₁, d, hopen, hopened⟩ := OpensResource.opened (k := k.firstCall p id mode) hok hsized hp hopens'
  obtain ⟨k₂, hsecond, hnodes, hret⟩ := hopened.joins mode hqueue
  have hret' : k₂.pcbs.syscallRetvalue p =
      if takesUsers k.queueUsers.allocator k.queueUsers.list (k.joinHeads r mode) then
        k.pcbs.lastFd p
      else listInsertionError := hret
  rw [failsWithoutTrace_iff_of_returns (dmqCall_open_opened h hok hopen hopened hsecond), hret']
  cases takesUsers k.queueUsers.allocator k.queueUsers.list (k.joinHeads r mode) with
  | true =>
    refine iff_of_true (fun hneg ↦ ?_) rfl
    have hnonneg : 0 ≤ k.pcbs.lastFd p := hok.lastFd_nonneg p
    rw [if_pos rfl] at hneg
    omega
  | false =>
    refine iff_of_false (fun hleaves ↦ ?_) Bool.false_ne_true
    have hneg : (if false = true then k.pcbs.lastFd p else listInsertionError) < 0 := by
      rw [if_neg Bool.false_ne_true]
      decide
    have hsame := congrFun (hleaves hneg).files.descriptors p
    have hlength := congrArg List.length (hnodes.symm.trans hsame)
    have hfirst : (k.firstCall p id mode).files.descriptorNodes p = k.files.descriptorNodes p := rfl
    rw [hfirst, List.length_append, List.length_singleton] at hlength
    omega

/-- A call that finds no queue gives up the descriptor that it got from its first call. -/
theorem dmqCall_open_givesUp {ret : ℤ} (h : k.At p (.user ret)) (hok : k.files.Ok)
    (hsized : k.files.Sized) (hopens : k.OpensResource p id mode r)
    (hvalue : k.resources.value r = none) (hnone : k.queues.allocator.getBlock.1 = none) :
    ∃ k₁ d k₂, (k.firstCall p id mode).Opened p id r d k₁ ∧
      (k₁.secondCall p id mode).giveUpResource p id (k.pcbs.lastFd p) = some k₂ ∧
      dmqCall (.openQueue id mode) k =
        some (k₂.setContext p (.user (k₂.pcbs.syscallRetvalue p))) := by
  have hp : (k.firstCall p id mode).running = some p := h.running
  have hopens' : (k.firstCall p id mode).OpensResource p id mode r := hopens
  obtain ⟨k₁, d, hopen, hopened⟩ := OpensResource.opened (k := k.firstCall p id mode) hok hsized hp hopens'
  obtain ⟨x, pool, ptrPool, -, -, -, hptr⟩ := hopened.files
  have hp₁ : (k₁.secondCall p id mode).running = some p := hopened.running
  have hlookup : (k₁.secondCall p id mode).resourceById id = some (some r) := hopened.lookup
  have hvalue₁ : (k₁.secondCall p id mode).resources.value r = none := hopened.value.trans hvalue
  have hqueues : (k₁.secondCall p id mode).queues = k.queues := hopened.queues
  have hnone₁ : (k₁.secondCall p id mode).queues.allocator.getBlock.1 = none := by
    rw [hqueues]
    exact hnone
  obtain ⟨k₂, hgive⟩ := Option.isSome_iff_exists.mp
    (giveUpResource_isSome (k := k₁.secondCall p id mode) hopened.ok hp₁ hlookup hvalue₁
      hopened.descriptor hptr)
  have hsecond : internalOpenQueue id (k.pcbs.lastFd p) mode (k₁.secondCall p id mode) = some k₂ := by
    rw [internalOpenQueue_of_noQueue hp₁ hlookup hvalue₁ (queueAlloc_none hnone₁)]
    exact hgive
  exact ⟨k₁, d, k₂, hopened, hgive, dmqCall_open_opened h hok hopen hopened hsecond⟩

/-- A call that finds no queue leaves no trace, unless it destroys a resource that was there. -/
theorem failsWithoutTrace_iff_of_givesUp {ret : ℤ} (h : k.At p (.user ret)) (hok : k.files.Ok)
    (hsized : k.files.Sized) (hopens : k.OpensResource p id mode r)
    (hvalue : k.resources.value r = none) (hnone : k.queues.allocator.getBlock.1 = none) :
    k.FailsWithoutTrace p id mode ↔
      ¬ (k.resourceById id = some (some r) ∧ (k.resources.descriptorsPtrs r).size = 0) := by
  obtain ⟨k₁, d, k₂, hopened, hgive, hcall⟩ :=
    dmqCall_open_givesUp h hok hsized hopens hvalue hnone
  have hopens' : (k.firstCall p id mode).OpensResource p id mode r := hopens
  obtain ⟨x, pool, ptrPool, hget, hgetPtr, hfiles₁, hptr⟩ := hopened.files
  have hp₁ : (k₁.secondCall p id mode).running = some p := hopened.running
  have hlookup : (k₁.secondCall p id mode).resourceById id = some (some r) := hopened.lookup
  have hvalue₁ : (k₁.secondCall p id mode).resources.value r = none := hopened.value.trans hvalue
  have hdescriptor : (k₁.secondCall p id mode).descriptorByFd p (k.pcbs.lastFd p) = some (some d) :=
    hopened.descriptor
  have hqueues : (k₁.secondCall p id mode).queues = k.queues := hopened.queues
  obtain ⟨-, -, hqueues₂, husers₂⟩ := giveUpResource_store hlookup hvalue₁ hgive
  obtain ⟨hneg, ⟨hnotOpen, -⟩ | ⟨d', x', hd', hx', hfiles₂⟩⟩ := giveUpResource_files hp₁ hlookup hgive
  · rw [hdescriptor] at hnotOpen
    cases Option.some.inj hnotOpen
  rw [hdescriptor] at hd'
  obtain rfl := Option.some.inj (Option.some.inj hd')
  obtain rfl : x = x' := Option.some.inj (hptr.symm.trans hx')
  rw [failsWithoutTrace_iff_of_returns hcall, forall_prop_of_true hneg]
  have hleaves : k.files.Untouched k₂.files → k.LeavesNoTrace k₂ := fun hfiles ↦
    ⟨hfiles, hqueues₂.trans hqueues, husers₂.trans hopened.queueUsers⟩
  have hres : (k₁.secondCall p id mode).descriptors.resource d = r := hopened.resource
  have hfiles₁' : (k₁.secondCall p id mode).files =
    ((k.firstCall p id mode).withResource id r).files.join p r d x pool ptrPool := hfiles₁
  rw [hres, hfiles₁'] at hfiles₂
  obtain ⟨hokWith, hr⟩ := FindsResource.ok (k := k.firstCall p id mode) hok hopens'.1
  obtain ⟨huntouched, hokDropped⟩ := Files.untouched_drop_join hokWith hr hget hgetPtr p
  have hsize : (((((k.firstCall p id mode).withResource id r).files.join p r d x pool
      ptrPool).drop p d r x).resources.descriptorsPtrs r).size =
        (((k.firstCall p id mode).withResource id r).resources.descriptorsPtrs r).size := by
    rw [(hokDropped.pointerLists.represents r).size, huntouched.pointers]
    exact (hokWith.pointerLists.represents r).size.symm
  rcases withResource_files hopens'.1 with ⟨hfound, hsame⟩ | ⟨resPool, hnew, hgetRes, hfiles, -⟩
  · have hfound' : k.resourceById id = some (some r) := hfound
    rw [hsame] at hfiles₂ huntouched hsize hr hokDropped
    rcases hfiles₂ with ⟨hused, hfiles₂⟩ | ⟨hunused, hfiles₂⟩
    · refine iff_of_true (hleaves (hfiles₂ ▸ huntouched)) fun hboth ↦ hused ?_
      rw [hsize]
      exact hboth.2
    · refine iff_of_false (fun hleft ↦ ?_) (not_not.mpr ⟨hfound', hsize.symm.trans hunused⟩)
      have hnodes := hleft.files.resources
      have hdropped := huntouched.resources
      have hr' := hr
      rw [← hdropped] at hr'
      have hdestroy := Files.Holds.destroy hokDropped hr' (Files.Holds.unused hokDropped hunused)
      rw [hfiles₂, hdestroy.resourceNodes_eq, hdropped] at hnodes
      have hlength := List.length_erase_of_mem hr
      have hpos := List.length_pos_of_mem hr
      rw [hnodes] at hlength
      have hfirst : (k.firstCall p id mode).files.resourceNodes = k.files.resourceNodes := rfl
      rw [hfirst] at hpos hlength
      omega
  · have hnew' : k.resourceById id = some none := hnew
    have hempty : (((k.firstCall p id mode).withResource id r).resources.descriptorsPtrs r).size = 0 := by
      have hptrs := congrArg (fun f : Files ↦ f.resources.descriptorsPtrs r) hfiles
      have hinit : ((k.firstCall p id mode).files.create r resPool id 2).resources.descriptorsPtrs r =
        listInit := Function.update_self ..
      have hboth : ((k.firstCall p id mode).withResource id r).resources.descriptorsPtrs r = listInit :=
        hptrs.trans hinit
      rw [hboth]
      rfl
    rcases hfiles₂ with ⟨hused, -⟩ | ⟨-, hfiles₂⟩
    · exact absurd (hsize.trans hempty) hused
    · rw [hfiles] at huntouched hokDropped hfiles₂
      refine iff_of_true (hleaves ?_) fun hboth ↦ ?_
      · rw [hfiles₂]
        exact Files.untouched_destroy_create hok hgetRes
          (fun r' hr' ↦ resourceById_none hok hnew hr') huntouched hokDropped
      · rw [hnew'] at hboth
        cases Option.some.inj hboth.1

/-- In a state in which the tables are in order, a failed call leaves no trace exactly under the
condition. -/
theorem failsWithoutTrace_iff_of_ok {ret : ℤ} (h : k.At p (.user ret)) (hok : k.files.Ok)
    (hsized : k.files.Sized) : k.FailsWithoutTrace p id mode ↔ k.TraceFree p id mode := by
  by_cases hfinds : ∃ r, k.FindsResource id mode r
  · obtain ⟨r, hfinds⟩ := hfinds
    by_cases hnone : k.descriptors.allocator.getBlock.1 = none
    · rw [failsWithoutTrace_iff_of_noDescriptor h hok hfinds hnone]
      constructor
      · intro hfound
        constructor
        · intro hnew
          exact absurd hnew hfound
        · rintro r' - ⟨-, hsome, -⟩
          exact absurd hnone hsome
        · rintro r' ⟨-, hsome, -⟩
          exact absurd hnone hsome
      · intro hfree hnew
        rcases hfinds with ⟨hfound, -⟩ | ⟨-, hcreat, hget⟩
        · rw [hfound] at hnew
          cases Option.some.inj hnew
        · exact hfree.created hnew hcreat (by rw [hget]; exact Option.some_ne_none r) hnone
    · by_cases hfd : k.pcbs.lastFd p = intMax
      · refine iff_of_true (failsWithoutTrace_of_overflow h hfinds hnone hfd) ?_
        constructor
        · intro _ _ _
          exact hnone
        · rintro r' - ⟨-, -, hne⟩
          exact absurd hfd hne
        · rintro r' ⟨-, -, hne⟩
          exact absurd hfd hne
      · have hopens : k.OpensResource p id mode r := ⟨hfinds, hnone, hfd⟩
        have hunique : ∀ r', k.OpensResource p id mode r' → r' = r := fun r' hopens' ↦
          hfinds.unique hopens'.1
        by_cases hqueue : k.resources.value r ≠ none ∨ k.queues.allocator.getBlock.1 ≠ none
        · rw [failsWithoutTrace_iff_of_joins h hok hsized hopens hqueue]
          constructor
          · intro htakes
            constructor
            · intro _ _ _
              exact hnone
            · intro r' _ hopens' hvalue _
              obtain rfl := hunique r' hopens'
              exact hqueue.resolve_left fun hne ↦ hne hvalue
            · intro r' hopens' _
              obtain rfl := hunique r' hopens'
              exact htakes
          · intro hfree
            exact hfree.entered r hopens hqueue
        · obtain ⟨hvalue, hnoQueue⟩ := not_or.mp hqueue
          rw [not_not] at hvalue hnoQueue
          rw [failsWithoutTrace_iff_of_givesUp h hok hsized hopens hvalue hnoQueue]
          constructor
          · intro hkept
            constructor
            · intro _ _ _
              exact hnone
            · intro r' hfound hopens' _ hsize
              obtain rfl := hunique r' hopens'
              exact absurd ⟨hfound, hsize⟩ hkept
            · intro r' hopens' hqueue'
              obtain rfl := hunique r' hopens'
              exact absurd hqueue' hqueue
          · rintro hfree ⟨hfound, hsize⟩
            exact hfree.destroyed r hfound hopens hvalue hsize hnoQueue
  · refine iff_of_true (failsWithoutTrace_of_not_finds h (not_exists.mp hfinds)) ?_
    constructor
    · intro hnew hcreat hget _
      obtain ⟨r, hr⟩ := Option.ne_none_iff_exists'.mp hget
      exact hfinds ⟨r, Or.inr ⟨hnew, hcreat, hr⟩⟩
    · intro r _ hopens
      exact absurd ⟨r, hopens.1⟩ hfinds
    · intro r hopens
      exact absurd ⟨r, hopens.1⟩ hfinds

/-- The action is no shutdown. -/
def CallsNoShutdown (k : Kernel) (a : Action) : Prop := k.request a ≠ some .shutdown

instance (k : Kernel) (a : Action) : Decidable (k.CallsNoShutdown a) :=
  inferInstanceAs (Decidable (_ ≠ _))

theorem CallsNoShutdown.of_request {a : Action} {c : Syscall} (hrequest : k.request a = some c)
    (hc : c ≠ .shutdown) : k.CallsNoShutdown a := by
  rw [CallsNoShutdown, hrequest]
  exact fun hsame ↦ hc (Option.some.inj hsame)

/-- A run of system calls of which none is a shutdown. -/
theorem CallsNoShutdown.of_syscalls (k : Kernel) {actions : List Action}
    (hactions : ∀ a ∈ actions, a = .start ∨ ∃ c, a = .syscall c ∧ c ≠ .shutdown) :
    Runs.Meets Kernel.step CallsNoShutdown k actions := by
  have hall : ∀ a ∈ actions, ∀ k : Kernel, k.CallsNoShutdown a := by
    intro a ha k
    rcases hactions a ha with rfl | ⟨c, rfl, hc⟩
    · simp [CallsNoShutdown, request]
    · rw [CallsNoShutdown, request]
      split_ifs
      · exact fun hsame ↦ hc (Option.some.inj hsame)
      · simp
  exact (Runs.Meets.of_forall k hall).mono fun k _ h ↦ h k

end Kernel

/-- In every state that a run without a shutdown reaches, for every id and mode: a `dmq_open` that
returns an error leaves no trace exactly under the condition. -/
theorem failsWithoutTrace_iff (layout : Layout) {actions : List Action} {k : Kernel} {p : Addr}
    {ret : ℤ} (hsteps : Runs.Meets Kernel.step Kernel.CallsNoShutdown layout.boot actions)
    (hrun : Runs.run Kernel.step layout.boot actions = some k) (h : k.At p (.user ret)) (id : ℤ)
    (mode : BitVec 32) : k.FailsWithoutTrace p id mode ↔ k.TraceFree p id mode := by
  have hinv : k.files.Ok ∧ k.files.Sized := by
    refine Runs.run_invariant (P := fun k ↦ k.files.Ok ∧ k.files.Sized) ?_
      ⟨layout.boot_filesOk, rfl, rfl⟩ hsteps hrun
    rintro k a k' ⟨hok, hsized⟩ hshutdown hstep
    exact ⟨Kernel.filesOk_step hok hshutdown hstep,
      Kernel.filesSized_step hok hsized hshutdown hstep⟩
  exact Kernel.failsWithoutTrace_iff_of_ok h hinv.1 hinv.2

/-! ### Using up the queues -/

namespace Files

variable {f : Files} {r d x : Addr} {resPool pool ptrPool : PoolAllocator} {n : ℕ}

/-- Process `p` has made `n` resources, with the ids below `n`. -/
structure Filled (f : Files) (p : Addr) (n : ℕ) : Prop where
  ok : f.Ok
  sized : f.Sized
  ids : ∀ r ∈ f.resourceNodes, f.resources.id r < n
  value : ∀ r, ¬ f.resources.allocator.Allocated r → f.resources.value r = none
  lastFd : f.lastFd p = n
  resources : f.resources.allocator.size + n = maxNumResources
  descriptors : f.descriptors.allocator.size + n = maxNumProcesses

/-- It makes the next one. -/
theorem Filled.create_join (h : f.Filled p n)
    (hnew : f.resources.allocator.getBlock = (some r, resPool))
    (hget : f.descriptors.allocator.getBlock = (some d, pool))
    (hgetPtr : f.descriptorPtrs.allocator.getBlock = (some x, ptrPool)) :
    ((f.create r resPool n 2).join p r d x pool ptrPool).Filled p (n + 1) := by
  have hcreated := Holds.create h.ok n 2 hnew fun r' hr' ↦ (h.ids r' hr').ne
  have hjoined := Holds.join (p := p) hcreated
    (List.mem_append_right _ (List.mem_singleton_self r)) hget hgetPtr
  obtain ⟨-, -, -, hresSize, hallocated⟩ := getBlock_some h.ok.resourcePool hnew
  obtain ⟨-, -, -, hdescSize, -⟩ := getBlock_some h.ok.descriptorPool hget
  have hresources := h.resources
  have hdescriptors := h.descriptors
  constructor
  · exact hjoined.ok
  · exact (h.sized.create n 2 hnew).join hget p r x
  · intro r' hr'
    rw [hjoined.resourceNodes_eq, List.mem_append, List.mem_singleton] at hr'
    change update f.resources.id r n r' < _
    rw [Function.update_apply]
    split_ifs with hsame
    · omega
    · have hlt := h.ids r' (hr'.resolve_right hsame)
      omega
  · intro r' hfree
    exact h.value r' fun hold ↦ hfree ((hallocated r').mpr (Or.inr hold))
  · refine (Function.update_self ..).trans ?_
    have hlastFd : (f.create r resPool n 2).lastFd p = n := h.lastFd
    rw [hlastFd]
    push_cast
    rfl
  · change resPool.size + _ = _
    push_cast
    omega
  · change pool.size + _ = _
    push_cast
    omega

/-- A resource that is there gets a value. -/
theorem Filled.setValue (h : f.Filled p n) (hr : f.resources.allocator.Allocated r)
    (rwn : Addr → Role → Option Addr) (value : Option Addr) :
    { f with
      descriptors.rwn := rwn
      resources.value := update f.resources.value r value }.Filled p n where
  ok := (Holds.setRwn (Holds.setValue h.ok (update f.resources.value r value)) rwn).ok
  sized := ⟨h.sized.descriptors, h.sized.resources⟩
  ids := h.ids
  value r' hfree := by
    have hne : r' ≠ r := fun hsame ↦ hfree (hsame ▸ hr)
    exact (Function.update_of_ne hne ..).trans (h.value r' hfree)
  lastFd := h.lastFd
  resources := h.resources
  descriptors := h.descriptors

end Files

namespace Kernel

/-- Process `p` has made `n` resources, and there are `left` more queues. -/
structure MakesQueues (k : Kernel) (p : Addr) (n left : ℕ) : Prop where
  user : ∃ ret, k.At p (.user ret)
  files : k.files.Filled p n
  queuePool : k.queues.allocator.Ok
  queues : k.queues.allocator.size = left

/-- A `dmq_open` of the next id creates a resource. -/
theorem MakesQueues.opensResource {n left : ℕ} (h : k.MakesQueues p n left) (hn : n < 1024) :
    k.resourceById n = some none ∧
      ∃ r, k.OpensResource p n dsosCreat r ∧ k.resources.value r = none := by
  have hok := h.files.ok
  have hnone : k.resourceById n = some none := by
    rw [resourceById_find hok h.files.sized, Option.some.injEq, List.find?_eq_none]
    intro r hr
    have hlt : k.resources.id r < n := h.files.ids r hr
    simpa using hlt.ne
  have hresources : k.resources.allocator.size + n = 1024 := h.files.resources
  have hdescriptors : k.descriptors.allocator.size + n = 1024 := h.files.descriptors
  have hfree : k.descriptors.allocator.getBlock.1 ≠ none := fun hempty ↦ by
    have hzero : k.descriptors.allocator.size = 0 :=
      hok.descriptorPool.getBlock_eq_none_iff.mp hempty
    omega
  have hfd : k.pcbs.lastFd p ≠ intMax := by
    have hmax : intMax = 2147483647 := rfl
    have hlast : k.pcbs.lastFd p = n := h.files.lastFd
    omega
  rcases hget : k.resources.allocator.getBlock with ⟨_ | r, pool⟩
  · have hzero : k.resources.allocator.size = 0 :=
      hok.resourcePool.getBlock_eq_none_iff.mp (congrArg Prod.fst hget)
    omega
  · have hunused := (getBlock_some hok.resourcePool hget).2.2.1
    exact ⟨hnone, r, ⟨Or.inr ⟨hnone, by decide, congrArg Prod.fst hget⟩, hfree, hfd⟩,
      h.files.value r hunused⟩

/-- `OPEN_RESOURCE` makes it. -/
theorem MakesQueues.openResource {n left : ℕ} (h : k.MakesQueues p n left) (hn : n < 1024) :
    ∃ k' r d, k.step (.syscall (.openResource n 2 dsosCreate)) = some k' ∧
      k'.MakesQueues p (n + 1) left ∧ k'.resourceById n = some (some r) ∧
      k'.resources.type r = 2 ∧ k'.resources.value r = none ∧
      k'.descriptorByFd p n = some (some d) := by
  obtain ⟨ret, hat⟩ := h.user
  obtain ⟨hnone, r, hopens, hvalue⟩ := h.opensResource hn
  have hlast : k.pcbs.lastFd p = n := h.files.lastFd
  let k₀ : Kernel := { k with
    pcbs.syscall := update k.pcbs.syscall p (some (.openResource n 2 dsosCreate)) }
  have hat₀ : k₀.At p (.user ret) := ⟨hat.running, hat.context⟩
  have hopens₀ : k₀.OpensResource p n dsosCreat r := hopens
  have hok₀ : k₀.files.Ok := h.files.ok
  obtain ⟨k', d, hopen, hopened⟩ := hopens₀.opened hok₀ h.files.sized hat₀.running
  have hstep : k.step (.syscall (.openResource n 2 dsosCreate)) = some k' :=
    (hat.step_syscall _).trans hopen
  have hframe := internalOpenResource_eq hopen
  have hret : k'.pcbs.syscallRetvalue p = n := hopened.retvalue.trans hlast
  have hdescriptor : k'.descriptorByFd p (k.pcbs.lastFd p) = some (some d) := hopened.descriptor
  rw [hlast] at hdescriptor
  refine ⟨k', r, d, hstep, ?_, hopened.lookup, hopened.type, hopened.value.trans hvalue,
    hdescriptor⟩
  have hfiles : k'.files.Filled p (n + 1) := by
    obtain ⟨p', hp', hcases⟩ := internalOpenResource_files hok₀ hopen
    obtain rfl := Option.some.inj (hat₀.running.symm.trans hp')
    cases hcases with
    | failed _ hneg => omega
    | joined r' _ _ _ _ hfound =>
      have hfound' : k.resourceById n = some (some r') := hfound
      rw [hnone] at hfound'
      cases Option.some.inj hfound'
    | created _ _ _ _ _ _ hneg => omega
    | createdJoined r' d' x resPool pool ptrPool _ _ hnew hget hgetPtr hfiles =>
      rw [hfiles]
      exact h.files.create_join hnew hget hgetPtr
  constructor
  · exact ⟨ret, hat₀.internalOpenResource hopen⟩
  · exact hfiles
  · rw [hframe]
    exact h.queuePool
  · rw [hframe]
    exact h.queues

/-- `OPEN_QUEUE` makes a queue for a resource that has none. -/
theorem MakesQueues.openQueue {n left : ℕ} (h : k.MakesQueues p n (left + 1))
    (hlookup : k.resourceById id = some (some r)) (htype : k.resources.type r = 2)
    (hvalue : k.resources.value r = none) (hdescriptor : k.descriptorByFd p fd = some (some d)) :
    ∃ k', k.step (.syscall (.openQueue id fd 0)) = some k' ∧ k'.MakesQueues p n left := by
  obtain ⟨ret, hat⟩ := h.user
  have hsize := h.queues
  let k₀ : Kernel := { k with
    pcbs.syscall := update k.pcbs.syscall p (some (.openQueue id fd 0)) }
  have hat₀ : k₀.At p (.user ret) := ⟨hat.running, hat.context⟩
  have hlookup₀ : k₀.resourceById id = some (some r) := hlookup
  have hvalue₀ : k₀.resources.value r = none := hvalue
  have hsome : k₀.queues.allocator.getBlock.1 ≠ none := fun hnone ↦ by
    have hzero : k.queues.allocator.size = 0 := h.queuePool.getBlock_eq_none_iff.mp hnone
    omega
  obtain ⟨q, k₁, halloc⟩ := queueAlloc_some hsome
  have halloc' := (queueAlloc_eq halloc).2
  have htype₁ : k₁.resources.type r = 2 := by
    rw [halloc']
    exact htype
  have hdescriptor₁ : k₁.descriptorByFd p fd = some (some d) := by
    rw [halloc']
    exact hdescriptor
  obtain ⟨k', hjoin, -⟩ := joinQueue_takes
    (k := { k₁ with resources.value := update k₁.resources.value r (some q) }) htype₁ hdescriptor₁
    q 0
  have hopen : internalOpenQueue id fd 0 k₀ = some k' := by
    rw [internalOpenQueue_of_queueAlloc hat₀.running hlookup₀ hvalue₀ halloc, hjoin]
  have hframe := joinQueue_eq hjoin
  refine ⟨k', (hat.step_syscall _).trans hopen, ?_⟩
  have hr : k.resources.allocator.Allocated r :=
    h.files.ok.resource_allocated r (resourceById_some h.files.ok hlookup).1
  rcases hget : k.queues.allocator.getBlock with ⟨_ | q', pool⟩
  · exact absurd (congrArg Prod.fst hget) hsome
  obtain ⟨hpool, -, -, hpoolSize, -⟩ := getBlock_some h.queuePool hget
  have hqueues : k'.queues.allocator = pool := by
    have hpool₁ : k₁.queues.allocator = pool := by
      have hget₀ : k₀.queues.allocator.getBlock = (some q', pool) := hget
      simp only [queueAlloc, hget₀, Prod.mk.injEq] at halloc
      rw [← halloc.2]
    rw [hframe]
    exact hpool₁
  constructor
  · exact ⟨ret, hat₀.internalOpenQueue hopen⟩
  · have hfiles : k'.files = { k.files with
        descriptors.rwn := k'.descriptors.rwn
        resources.value := update k.resources.value r (some q) } := by
      refine (congrArg Kernel.files hframe).trans ?_
      rw [halloc']
      rfl
    rw [hfiles]
    exact h.files.setValue hr _ _
  · rw [hqueues]
    exact hpool
  · rw [hqueues, hpoolSize, hsize]
    push_cast
    omega

/-- The two calls that make a queue. -/
def makeQueue (n : ℕ) : List Action :=
  [.syscall (.openResource n 2 dsosCreate), .syscall (.openQueue n n 0)]

theorem MakesQueues.run {n left : ℕ} (h : k.MakesQueues p n left) (hn : n + left ≤ 1024) :
    ∃ k', Runs.run Kernel.step k ((List.range' n left).flatMap makeQueue) = some k' ∧
      k'.MakesQueues p (n + left) 0 := by
  induction left generalizing k n with
  | zero => exact ⟨k, rfl, h⟩
  | succ left ih =>
    obtain ⟨k₁, r, d, hstep₁, h₁, hlookup, htype, hvalue, hdescriptor⟩ :=
      h.openResource (by omega)
    obtain ⟨k₂, hstep₂, h₂⟩ := h₁.openQueue hlookup htype hvalue hdescriptor
    obtain ⟨k', hrun, h'⟩ := ih h₂ (by omega)
    refine ⟨k', ?_, ?_⟩
    · rw [List.range'_succ, List.flatMap_cons]
      exact Runs.run_cons_eq_some.mpr ⟨k₁, hstep₁, Runs.run_cons_eq_some.mpr ⟨k₂, hstep₂, hrun⟩⟩
    · rwa [Nat.add_right_comm, Nat.add_assoc] at h'

/-- With no queue left, a `dmq_open` that creates a resource returns an error. -/
theorem MakesQueues.fails {n : ℕ} (h : k.MakesQueues p n 0) (hn : n < 1024) :
    ∃ k' ret, dmqCall (.openQueue n dsosCreat) k = some k' ∧
      k'.pcbs.cpuState p = .user ret ∧ ret < 0 := by
  obtain ⟨ret, hp⟩ := h.user
  obtain ⟨-, r, hopens, hvalue⟩ := h.opensResource hn
  have hnone : k.queues.allocator.getBlock.1 = none :=
    h.queuePool.getBlock_eq_none_iff.mpr h.queues
  obtain ⟨k₁, d, k₂, hopened, hgive, hcall⟩ :=
    dmqCall_open_givesUp hp h.files.ok h.files.sized hopens hvalue hnone
  have hp₁ : (k₁.secondCall p n dsosCreat).running = some p := hopened.running
  have hlookup : (k₁.secondCall p n dsosCreat).resourceById n = some (some r) := hopened.lookup
  exact ⟨_, _, hcall, Function.update_self .., (giveUpResource_files hp₁ hlookup hgive).1⟩

theorem MakesQueues.traceFree {n : ℕ} (h : k.MakesQueues p n 0) (hn : n < 1024) :
    k.TraceFree p n dsosCreat := by
  obtain ⟨hnew, r, hopens, hvalue⟩ := h.opensResource hn
  have hnone : k.queues.allocator.getBlock.1 = none :=
    h.queuePool.getBlock_eq_none_iff.mpr h.queues
  constructor
  · exact fun _ _ _ ↦ hopens.2.1
  · intro r' hfound
    rw [hnew] at hfound
    cases Option.some.inj hfound
  · intro r' hopens' hqueue
    obtain rfl := hopens.1.unique hopens'.1
    exact absurd (hqueue.resolve_left fun hne ↦ hne hvalue) fun hsome ↦ hsome hnone

theorem makesQueues_start : ∃ k, sampleLayout.boot.step .start = some k ∧
    k.MakesQueues 0x400000 0 256 := by
  have hends : ((sampleLayout.boot.step .start).any fun k ↦
      decide (k.running = some 0x400000 ∧ k.pcbs.cpuState 0x400000 = .user 0 ∧
        k.files.resourceNodes = [] ∧ k.pcbs.lastFd 0x400000 = 0)) = true := by decide +kernel
  obtain ⟨k, hstep, hstate⟩ := (Option.any_eq_true _ _).mp hends
  obtain ⟨hp, huser, hnodes, hlast⟩ := of_decide_eq_true hstate
  have hqueues := freshPool_ok (by decide : 1 ≤ sizeofQueue) (by decide : 1 ≤ maxNumQueues)
    (by decide) sampleLayout.queuesBuffer
  have hok : k.files.Ok := filesOk_step sampleLayout.boot_filesOk (by simp [request]) hstep
  have hsized : k.files.Sized :=
    filesSized_step sampleLayout.boot_filesOk ⟨rfl, rfl⟩ (by simp [request]) hstep
  obtain ⟨-, p, pool, -, rfl⟩ := startProcess_cases hstep
  refine ⟨_, hstep, ⟨0, hp, huser⟩, ⟨hok, hsized, ?_, fun _ _ ↦ rfl, hlast, rfl, rfl⟩,
    hqueues.1, rfl⟩
  rw [hnodes]
  simp

end Kernel

/-- The first process makes as many queues as there are. -/
def allQueues : List Action := .start :: (List.range' 0 256).flatMap Kernel.makeQueue

theorem allQueues_noShutdown :
    Runs.Meets Kernel.step Kernel.CallsNoShutdown sampleLayout.boot allQueues := by
  refine Kernel.CallsNoShutdown.of_syscalls _ fun a ha ↦ ?_
  rcases List.mem_cons.mp ha with rfl | ha
  · exact Or.inl rfl
  · obtain ⟨n, -, ha⟩ := List.mem_flatMap.mp ha
    rcases List.mem_pair.mp ha with rfl | rfl
    · exact Or.inr ⟨_, rfl, by simp⟩
    · exact Or.inr ⟨_, rfl, by simp⟩

/-- It then opens another one: the call creates a resource and opens it, finds no queue, and closes and
destroys the resource again. -/
theorem failsWithoutTrace_iff_noQueueLeft : ∃ k p r k' ret,
    Runs.run Kernel.step sampleLayout.boot allQueues = some k ∧
      k.resourceById 256 = some none ∧ k.OpensResource p 256 dsosCreat r ∧
      Kernel.dmqCall (.openQueue 256 dsosCreat) k = some k' ∧ k'.pcbs.cpuState p = .user ret ∧
      ret < 0 ∧ k.FailsWithoutTrace p 256 dsosCreat := by
  obtain ⟨k₀, hstart, h₀⟩ := Kernel.makesQueues_start
  obtain ⟨k, hrun, h⟩ := h₀.run (by decide)
  have hwhole : Runs.run Kernel.step sampleLayout.boot allQueues = some k :=
    Runs.run_cons_eq_some.mpr ⟨k₀, hstart, hrun⟩
  obtain ⟨ret, hat⟩ := h.user
  obtain ⟨hnew, r, hopens, -⟩ := h.opensResource (by decide)
  obtain ⟨k', ret', hcall, hcontext, hneg⟩ := h.fails (by decide)
  refine ⟨k, _, r, k', ret', hwhole, hnew, hopens, hcall, hcontext, hneg, ?_⟩
  exact (failsWithoutTrace_iff sampleLayout allQueues_noShutdown hwhole hat 256 dsosCreat).mpr
    (h.traceFree (by decide))

/-! ### Using up the user blocks -/

namespace Kernel

/-- Process `p` has descriptor 0 of queue 0, and there are `n` user blocks left. -/
structure HasQueue (k : Kernel) (p r d q : Addr) (n : ℕ) : Prop where
  user : ∃ ret, k.At p (.user ret)
  users : ∃ users, k.UsersOrdered users
  lookup : k.resourceById 0 = some (some r)
  type : k.resources.type r = 2
  value : k.resources.value r = some q
  descriptor : k.descriptorByFd p 0 = some (some d)
  free : k.descriptors.allocator.getBlock.1 ≠ none
  lastFd : k.pcbs.lastFd p ≠ intMax
  size : k.queueUsers.allocator.size = n

/-- Another entry for the descriptor takes another block. -/
theorem HasQueue.openQueue {n : ℕ} (h : k.HasQueue p r d q (n + 1)) :
    ∃ k', k.step (.syscall (.openQueue 0 0 dsosRdonly)) = some k' ∧ k'.HasQueue p r d q n := by
  obtain ⟨ret, hat⟩ := h.user
  obtain ⟨users, husers⟩ := h.users
  let k₀ : Kernel := { k with
    pcbs.syscall := update k.pcbs.syscall p (some (.openQueue 0 0 dsosRdonly)) }
  have husers₀ : k₀.UsersOrdered users := husers.congr rfl rfl
  have hat₀ : k₀.At p (.user ret) := ⟨hat.running, hat.context⟩
  have hasked : (askedRoles dsosRdonly allRoles).length = 1 := by decide
  have hfree : ((askedRoles dsosRdonly allRoles).length : ℤ) ≤ k₀.queueUsers.allocator.size := by
    have hsize : k₀.queueUsers.allocator.size = (n + 1 : ℕ) := h.size
    rw [hasked, hsize]
    omega
  obtain ⟨k₁, users₁, hjoined, hjoin⟩ :=
    husers₀.joinQueue (p := p) (r := r) h.type h.descriptor hfree q
  have hopen := (internalOpenQueue_of_value hat₀.running h.lookup h.value).trans hjoin
  refine ⟨_, (hat.step_syscall _).trans hopen, ?_⟩
  have hframe := hjoined.frame
  have hsize := hjoined.size
  constructor
  · exact ⟨ret, hat₀.internalOpenQueue hopen⟩
  · exact ⟨users₁, hjoined.listed.congr rfl rfl⟩
  · exact (congrArg (·.resourceById 0) hframe).trans h.lookup
  · exact (congrArg (fun k : Kernel ↦ k.resources.type r) hframe).trans h.type
  · exact (congrArg (fun k : Kernel ↦ k.resources.value r) hframe).trans h.value
  · exact (congrArg (fun k : Kernel ↦ k.descriptorByFd p 0) hframe).trans h.descriptor
  · have hsame : k₁.descriptors.allocator = k.descriptors.allocator :=
      congrArg (·.descriptors.allocator) hframe
    have hfree₁ : k₁.descriptors.allocator.getBlock.1 ≠ none := by
      rw [hsame]
      exact h.free
    exact hfree₁
  · have hsame : k₁.pcbs.lastFd = k.pcbs.lastFd := congrArg (·.pcbs.lastFd) hframe
    have hfd : k₁.pcbs.lastFd p ≠ intMax := by
      rw [hsame]
      exact h.lastFd
    exact hfd
  · have hold : k₀.queueUsers.allocator.size = (n + 1 : ℕ) := h.size
    rw [hasked, hold] at hsize
    refine hsize.trans ?_
    omega

theorem HasQueue.openQueues {n : ℕ} (h : k.HasQueue p r d q n) :
    ∃ k', Runs.run Kernel.step k (List.replicate n (.syscall (.openQueue 0 0 dsosRdonly))) = some k' ∧
      k'.HasQueue p r d q 0 := by
  induction n generalizing k with
  | zero => exact ⟨k, rfl, h⟩
  | succ n ih =>
    obtain ⟨k₁, hstep, h₁⟩ := h.openQueue
    obtain ⟨k', hrun, h'⟩ := ih h₁
    exact ⟨k', Runs.run_cons_eq_some.mpr ⟨k₁, hstep, hrun⟩, h'⟩

/-- With no block left, the process gets a descriptor that stays. -/
theorem HasQueue.not_traceFree (h : k.HasQueue p r d q 0) : ¬ k.TraceFree p 0 dsosRdonly := by
  intro hfree
  obtain ⟨users, husers⟩ := h.users
  have hfinds : k.FindsResource 0 dsosRdonly r := Or.inl ⟨h.lookup, h.type, by decide⟩
  have hvalue : k.resources.value r ≠ none := by
    rw [h.value]
    exact Option.some_ne_none q
  have htakes := hfree.entered r ⟨hfinds, h.free, h.lastFd⟩ (Or.inl hvalue)
  unfold joinHeads at htakes
  rw [h.value] at htakes
  have hcount := (husers.takesUsers_iff q dsosRdonly).mp htakes
  have hasked : (askedRoles dsosRdonly allRoles).length = 1 := by decide
  rw [hasked, h.size] at hcount
  omega

end Kernel

/-- The first process makes a queue, and enters itself as a reader again and again. -/
def enteredAgain : List Action :=
  [.start, .syscall (.openResource 0 2 dsosCreate), .syscall (.openQueue 0 0 dsosRdonly)] ++
    List.replicate 1023 (.syscall (.openQueue 0 0 dsosRdonly))

theorem enteredAgain_not_failsWithoutTrace : ∃ k p ret,
    Runs.Meets Kernel.step Kernel.CallsNoShutdown sampleLayout.boot enteredAgain ∧
      Runs.run Kernel.step sampleLayout.boot enteredAgain = some k ∧ k.At p (.user ret) ∧
      ¬ k.FailsWithoutTrace p 0 dsosRdonly := by
  have hends : ((Runs.run Kernel.step sampleLayout.boot (enteredAgain.take 3)).any fun k ↦
      decide (k.running = some 0x400000 ∧ k.pcbs.cpuState 0x400000 = .user 0 ∧
        k.resourceById 0 = some (some 0x1800000) ∧ k.resources.type 0x1800000 = 2 ∧
        k.resources.value 0x1800000 = some 0x1900000 ∧
        k.descriptorByFd 0x400000 0 = some (some 0x2200000) ∧
        k.descriptors.allocator.getBlock.1 ≠ none ∧ k.pcbs.lastFd 0x400000 ≠ intMax ∧
        k.queueUsers.allocator.size = ((1023 : ℕ) : ℤ))) = true := by decide +kernel
  have hbefore : ((Runs.run Kernel.step sampleLayout.boot (enteredAgain.take 2)).all fun k ↦
      decide (1 ≤ k.queueUsers.allocator.size)) = true := by decide +kernel
  obtain ⟨k, hk, hstate⟩ := (Option.any_eq_true _ _).mp hends
  obtain ⟨hp, huser, hlookup, htype, hvalue, hopen, hfree, hfd, hsize⟩ := of_decide_eq_true hstate
  have hordered : k.QueuesInOrder := by
    obtain ⟨k₁, hstart, hrest⟩ := Option.bind_eq_some_iff.mp hk
    obtain ⟨k₂, hcreate, hrest⟩ := Option.bind_eq_some_iff.mp hrest
    obtain ⟨k₃, hqueue, hlast⟩ := Option.bind_eq_some_iff.mp hrest
    obtain rfl := Option.some.inj hlast
    have h₂ := (sampleLayout.boot_queuesInOrder.start hstart).openResource hcreate
    have hk₂ : Runs.run Kernel.step sampleLayout.boot (enteredAgain.take 2) = some k₂ :=
      Runs.run_cons_eq_some.mpr ⟨k₁, hstart, Runs.run_cons_eq_some.mpr ⟨k₂, hcreate, rfl⟩⟩
    rw [hk₂, Option.all_some] at hbefore
    exact h₂.openQueue hqueue (of_decide_eq_true hbefore)
  have hhas : k.HasQueue 0x400000 0x1800000 0x2200000 0x1900000 1023 :=
    ⟨⟨0, hp, huser⟩, hordered.users, hlookup, htype, hvalue, hopen, hfree, hfd, hsize⟩
  obtain ⟨k', hrun, h'⟩ := hhas.openQueues
  obtain ⟨ret, hat⟩ := h'.user
  have hwhole : Runs.run Kernel.step sampleLayout.boot enteredAgain = some k' :=
    Runs.run_append.mpr ⟨k, hk, hrun⟩
  have hsteps : Runs.Meets Kernel.step Kernel.CallsNoShutdown sampleLayout.boot enteredAgain := by
    refine Kernel.CallsNoShutdown.of_syscalls _ fun a ha ↦ ?_
    have hcases : a = .start ∨ a = .syscall (.openResource 0 2 dsosCreate) ∨
        a = .syscall (.openQueue 0 0 dsosRdonly) := by
      rcases List.mem_append.mp ha with hfirst | hrest
      · simpa using hfirst
      · exact Or.inr (Or.inr (List.eq_of_mem_replicate hrest))
    rcases hcases with rfl | rfl | rfl
    · exact Or.inl rfl
    · exact Or.inr ⟨_, rfl, by simp⟩
    · exact Or.inr ⟨_, rfl, by simp⟩
  refine ⟨k', 0x400000, ret, hsteps, hwhole, hat, fun hfails ↦ h'.not_traceFree ?_⟩
  exact (failsWithoutTrace_iff sampleLayout hsteps hwhole hat 0 dsosRdonly).mp hfails

end DisastrOS
