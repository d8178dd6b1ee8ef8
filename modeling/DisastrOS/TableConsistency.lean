import DisastrOS.Files
import DisastrOS.Termination

/-!
# Descriptors and pointers, one for one

`Files.Holds` says that each descriptor has a pointer. Here is the converse, for runs in which processes
open, close and destroy resources and none exits: each pointer of a resource belongs to a descriptor of
a process (`Files.Paired`). So a resource that no process has open has no pointers and can be destroyed,
and `tablesConsistent_of_resources` says for whole runs that the tables agree and that every call is
done.
-/

set_option autoImplicit false
set_option relaxedAutoImplicit false

namespace DisastrOS

open LinkedLists PoolAllocator
open Function (update)

/-! ### The table -/

namespace Files

variable {f f' : Files} {descs ptrs : Addr → List Addr} {ress : List Addr} {p r d x : Addr}

/-- Descriptors and pointers are paired, no resource has a value, and the pools have their sizes. -/
structure Paired (f : Files) (descs ptrs : Addr → List Addr) (ress : List Addr) : Prop
    extends f.Holds descs ptrs ress where
  owner : ∀ p, ∀ d ∈ descs p, f.descriptors.pcb d = p
  back : ∀ r, ∀ x ∈ ptrs r, ∃ p, ∃ d ∈ descs p,
    f.descriptors.resource d = r ∧ f.descriptors.ptr d = some x
  noValue : ∀ r, f.resources.value r = none
  descriptorMax : f.descriptors.allocator.sizeMax = maxNumProcesses
  resourceMax : f.resources.allocator.sizeMax = maxNumResources

/-- A process without descriptors can be forgotten. -/
theorem Paired.reset (h : f.Paired descs ptrs ress) (hnone : descs p = []) :
    (f.reset p).Paired descs ptrs ress := by
  have hreset := h.toHolds.reset p
  rw [← hnone, Function.update_eq_self] at hreset
  exact { hreset with
    owner := h.owner
    back := h.back
    noValue := h.noValue
    descriptorMax := h.descriptorMax
    resourceMax := h.resourceMax }

theorem Paired.create (h : f.Paired descs ptrs ress) {pool : PoolAllocator} (id type : ℤ)
    (hget : f.resources.allocator.getBlock = (some r, pool))
    (hnew : ∀ r' ∈ ress, f.resources.id r' ≠ id) :
    (f.create r pool id type).Paired descs ptrs (ress ++ [r]) := by
  have hpool := getBlock_samePool f.resources.allocator
  rw [hget] at hpool
  exact { h.toHolds.create id type hget hnew with
    owner := h.owner
    back := h.back
    noValue := h.noValue
    descriptorMax := h.descriptorMax
    resourceMax := hpool.sizeMax.trans h.resourceMax }

theorem Paired.destroy (h : f.Paired descs ptrs ress) (hr : r ∈ ress) (hunused : ptrs r = []) :
    (f.destroy r).Paired descs ptrs (ress.erase r) :=
  { h.toHolds.destroy hr hunused with
    owner := h.owner
    back := h.back
    noValue := h.noValue
    descriptorMax := h.descriptorMax
    resourceMax := (releaseBlock_samePool _ r).sizeMax.trans h.resourceMax }

theorem Paired.join (h : f.Paired descs ptrs ress) {pool ptrPool : PoolAllocator} (hr : r ∈ ress)
    (hget : f.descriptors.allocator.getBlock = (some d, pool))
    (hgetPtr : f.descriptorPtrs.allocator.getBlock = (some x, ptrPool)) :
    (f.join p r d x pool ptrPool).Paired (update descs p (descs p ++ [d]))
      (update ptrs r (ptrs r ++ [x])) ress := by
  obtain ⟨-, -, hfree, -⟩ := getBlock_some h.descriptorPool hget
  have hne : ∀ p', ∀ d' ∈ descs p', d' ≠ d := by
    rintro p' d' hd' rfl
    exact hfree (h.descriptor_allocated p' d' hd')
  have hpool := getBlock_samePool f.descriptors.allocator
  rw [hget] at hpool
  exact { h.toHolds.join hr hget hgetPtr with
    owner := by
      intro p' d' hd'
      change update f.descriptors.pcb d p d' = p'
      rcases mem_update_append.mp hd' with hold | ⟨rfl, rfl⟩
      · rw [Function.update_of_ne (hne p' d' hold)]
        exact h.owner p' d' hold
      · exact Function.update_self ..
    back := by
      intro r' x' hx'
      rcases mem_update_append.mp hx' with hold | ⟨rfl, rfl⟩
      · obtain ⟨p', d', hd', hres, hptr⟩ := h.back r' x' hold
        refine ⟨p', d', mem_update_append.mpr (Or.inl hd'), ?_, ?_⟩
        · exact (Function.update_of_ne (hne p' d' hd') _ _).trans hres
        · exact (Function.update_of_ne (hne p' d' hd') _ _).trans hptr
      · exact ⟨p, d, mem_update_append.mpr (Or.inr ⟨rfl, rfl⟩), Function.update_self ..,
          Function.update_self ..⟩
    noValue := h.noValue
    descriptorMax := hpool.sizeMax.trans h.descriptorMax
    resourceMax := h.resourceMax }

theorem Paired.drop (h : f.Paired descs ptrs ress) (hd : d ∈ descs p)
    (hptr : f.descriptors.ptr d = some x) :
    (f.drop p d (f.descriptors.resource d) x).Paired (update descs p ((descs p).erase d))
      (update ptrs (f.descriptors.resource d) ((ptrs (f.descriptors.resource d)).erase x)) ress := by
  obtain ⟨x', hx, hptr', -⟩ := h.pointer p d hd
  obtain rfl := Option.some.inj (hptr.symm.trans hptr')
  exact { h.toHolds.drop hd hptr with
    owner := by
      intro p' d' hd'
      exact h.owner p' d' ((h.descriptorLists.mem_update_erase hd).mp hd').1
    back := by
      intro r' x' hx'
      obtain ⟨hold, hne⟩ := (h.pointerLists.mem_update_erase hx).mp hx'
      obtain ⟨p', d', hd', hres, hptr''⟩ := h.back r' x' hold
      have hned : d' ≠ d := by
        rintro rfl
        exact hne (Option.some.inj (hptr''.symm.trans hptr))
      exact ⟨p', d', (h.descriptorLists.mem_update_erase hd).mpr ⟨hd', hned⟩, hres, hptr''⟩
    noValue := h.noValue
    descriptorMax := (releaseBlock_samePool _ d).sizeMax.trans h.descriptorMax
    resourceMax := h.resourceMax }

/-- A resource that no process has open has no pointers. -/
theorem Paired.unused_iff (h : f.Paired descs ptrs ress) :
    (f.resources.descriptorsPtrs r).size = 0 ↔
      ∀ p, ∀ d ∈ descs p, f.descriptors.resource d ≠ r := by
  constructor
  · intro hsize p d hd hres
    obtain ⟨x, hx, -⟩ := h.pointer p d hd
    rw [hres, h.toHolds.unused hsize] at hx
    exact List.not_mem_nil hx
  · intro hunused
    have hnil : ptrs r = [] := by
      rw [List.eq_nil_iff_forall_not_mem]
      intro x hx
      obtain ⟨p, d, hd, hres, -⟩ := h.back r x hx
      exact hunused p d hd hres
    rw [(h.pointerLists.represents r).size, hnil]
    rfl

end Files

/-! ### The processes stay -/

namespace Processes

variable {v v' : Processes} {e : Event} {p : Addr}

theorem update_ne_zombie {status : Addr → ProcessStatus} {q : Addr} (h : status q ≠ .zombie)
    {s : ProcessStatus} (hs : s ≠ .zombie) (p : Addr) : update status p s q ≠ .zombie := by
  rw [Function.update_apply]
  split_ifs
  · exact hs
  · exact h

theorem schedule_noZombie {q : Addr} (h : v.status q ≠ .zombie) (p : Addr) :
    (v.schedule p).status q ≠ .zombie := by
  cases hnext : v.due ++ v.queue .ready with
  | nil =>
    rw [schedule_nil hnext]
    exact h
  | cons next rest =>
    rw [schedule_cons hnext]
    refine update_ne_zombie (update_ne_zombie ?_ (by decide) p) (by decide) next
    split_ifs
    · decide
    · exact h

/-- Only the process that exits becomes a zombie. -/
theorem Step.noZombie (hstep : v.Step e v') (h : v.status p ≠ .zombie)
    (hexit : ∀ value, e = .call (.exit value) → v.running ≠ some p) : v'.status p ≠ .zombie := by
  cases hstep with
  | quiet | sleepFails | waitFails | reap | other => exact h
  | start q => exact update_ne_zombie h (by decide) q
  | tick q => exact schedule_noZombie (v := { v with time := toInt (v.time + 1) }) h q
  | preempt q => exact schedule_noZombie (v := v.trap q .preempt) h q
  | create q c => exact update_ne_zombie h (by decide) c
  | sleep q | wait q => exact update_ne_zombie h (by decide) q
  | exitToParent q i parent value hq | exitToReady q i parent next value hq =>
    have hne : p ≠ q := by
      rintro rfl
      exact hexit value rfl hq
    refine update_ne_zombie ?_ (by decide) _
    exact (Function.update_of_ne hne ..).trans_ne h

/-- A process that is no zombie and does not exit stays. -/
theorem Step.mem_all (hstep : v.Step e v') (hv : v.Consistent) (h : v.status p ≠ .zombie)
    (hexit : ∀ value, e = .call (.exit value) → v.running ≠ some p) (hp : p ∈ v.all) :
    p ∈ v'.all := by
  cases hstep with
  | quiet | sleepFails | waitFails | other => exact hp
  | start q hidle => exact (start_perm hidle q).mem_iff.mpr (List.mem_cons_of_mem q hp)
  | tick q hq =>
    have htick : ({ v with time := toInt (v.time + 1) } : Processes).Consistent := { hv with }
    exact (htick.schedule_perm hq).mem_iff.mpr hp
  | preempt q hq => exact ((hv.trap hq _).schedule_perm hq).mem_iff.mpr hp
  | create q c x => exact (create_perm _ q c x).mem_iff.mpr (List.mem_cons_of_mem c hp)
  | sleep q _ _ hq | wait q _ _ _ hq => exact (block_perm hq).mem_iff.mpr hp
  | reap q x pid result hq _ hzombie =>
    have hne : p ≠ v.child x := by
      rintro rfl
      exact h hzombie
    have hmem : v.child x ∈ v.all → p ∈ ((v.trap q (.wait pid result)).reap q x).all := fun hchild ↦
      ((hv.trap hq _).mem_reap (hv.zombie_of_status hchild hzombie)).mpr ⟨hp, hne⟩
    by_cases hchild : v.child x ∈ v.all
    · exact hmem hchild
    · -- the zombie has gone already, and the lists stay as they are
      have hgone : v.child x ∉ v.queue .zombie := fun hqueue ↦ hchild (mem_all_of_queue hqueue)
      have hsame : ((v.trap q (.wait pid result)).reap q x).queue = v.queue := by
        rw [reap_queue]
        exact (congrArg _ (List.erase_of_not_mem hgone)).trans (Function.update_eq_self ..)
      rw [all, hsame]
      exact hp
  | exitToParent q i parent value hq _ _ hawaits =>
    have hne : p ≠ q := by
      rintro rfl
      exact hexit value rfl hq
    have hperm := (hv.trap hq (.exit value)).exitToParent_perm hq ((hv.trap_awaits hq).mpr hawaits) i value
    exact (List.mem_cons.mp (hperm.mem_iff.mp hp)).resolve_left hne
  | exitToReady q i parent next value hq _ _ _ hnext =>
    exact (exitToReady_perm (v := v.trap q (.exit value)) hq hnext i value).mem_iff.mpr hp

end Processes

/-! ### The calls -/

/-- The system calls of a run in which processes open, close and destroy resources. -/
def Syscall.ofResources : Syscall → Bool
  | .preempt | .fork | .spawn | .wait .. | .sleep _ => true
  | .openResource .. | .closeResource _ | .destroyResource _ => true
  | .exit _ | .shutdown | .openQueue .. | .sendMsg .. | .recvMsg .. | .wakeupQueue .. => false

/-- The actions of a run in which processes open, close and destroy resources. -/
def Action.ofResources : Action → Bool
  | .start | .timer | .write .. => true
  | .syscall c => c.ofResources
  | .call _ | .statement => false

namespace Kernel

variable {k k' : Kernel} {v v' : Processes} {a : Action} {c : Syscall} {p : Addr}
  {descs ptrs : Addr → List Addr} {ress : List Addr} {id fd : ℤ}

theorem ofResources_of_request (ha : a.ofResources = true) (hrequest : k.request a = some c) :
    c.ofResources = true := by
  cases a with
  | syscall c' =>
    rw [Kernel.request] at hrequest
    split_ifs at hrequest
    obtain rfl := Option.some.inj hrequest
    exact ha
  | start | timer | write => simp [Kernel.request] at hrequest
  | call | statement => exact absurd ha Bool.false_ne_true

theorem concernsUsers_of_resources (hc : c.ofResources = true) : c.concernsUsers = false := by
  cases c <;> simp_all [Syscall.ofResources, Syscall.concernsUsers]

/-- The lists are no longer than the pools are large. -/
theorem resources_length (h : k.files.Paired descs ptrs ress) : ress.length ≤ walkBound := by
  have hlength := h.resourcePool.length_le h.resourceList.nodup h.resource_allocated
    (by rw [h.resourceMax]; decide)
  have hsize := h.resourcePool.size_nonneg
  rw [h.resourceMax] at hlength
  simp only [maxNumResources, walkBound] at hlength ⊢
  omega

theorem descriptors_length (h : k.files.Paired descs ptrs ress) (p : Addr) :
    (descs p).length ≤ walkBound :=
  length_le_walkBound h.descriptorPool h.descriptorMax (h.descriptorLists.represents p).nodup
    (h.descriptor_allocated p)

/-- A lookup by id ends at the resource with this id. -/
theorem resourceById_eq (h : k.files.Paired descs ptrs ress) (id : ℤ) :
    k.resourceById id = some (ress.find? fun r ↦ k.resources.id r = id) :=
  h.resourceList.scan_terminates _ (resources_length h)

theorem descriptorByFd_eq (h : k.files.Paired descs ptrs ress) (p : Addr) (fd : ℤ) :
    k.descriptorByFd p fd = some ((descs p).find? fun d ↦ k.descriptors.fd d = fd) :=
  (h.descriptorLists.represents p).scan_terminates _ (descriptors_length h p)

/-- A close ends, whatever its argument is. -/
theorem internalCloseResource_isSome (h : k.files.Paired descs ptrs ress)
    (hp : k.running = some p) (fd : ℤ) : (internalCloseResource fd k).isSome := by
  simp only [internalCloseResource, hp, Option.bind_eq_bind, Option.bind_some, descriptorByFd_eq h]
  cases hfound : (descs p).find? fun d ↦ k.descriptors.fd d = fd with
  | none => rfl
  | some d =>
    obtain ⟨x, -, hptr, -⟩ := h.pointer p d (List.mem_of_find?_eq_some hfound)
    have hptr' : k.descriptors.ptr d = some x := hptr
    simp [detachDescriptor, hptr']

/-- A destroy ends. It succeeds if the resource is there and no process has it open. -/
theorem internalDestroyResource_iff (h : k.files.Paired descs ptrs ress) (hp : k.running = some p)
    (id : ℤ) : ∃ k', internalDestroyResource id k = some k' ∧
      (k'.pcbs.syscallRetvalue p = 0 ↔
        ∃ r ∈ ress, k.resources.id r = id ∧ ∀ q, ∀ d ∈ descs q, k.descriptors.resource d ≠ r) := by
  simp only [internalDestroyResource, hp, Option.bind_eq_bind, Option.bind_some, resourceById_eq h]
  have hfails : ∀ value : ℤ, value < 0 → (k.setRetvalue p value).pcbs.syscallRetvalue p ≠ 0 := by
    intro value hvalue
    change update k.pcbs.syscallRetvalue p value p ≠ 0
    rw [Function.update_self]
    exact hvalue.ne
  cases hfound : ress.find? fun r ↦ k.resources.id r = id with
  | none =>
    refine ⟨_, rfl, iff_of_false (hfails _ (by decide)) ?_⟩
    rintro ⟨r, hr, hid, -⟩
    simpa [hid] using List.find?_eq_none.mp hfound r hr
  | some r =>
    have hr := List.mem_of_find?_eq_some hfound
    have hid : k.resources.id r = id := by simpa using List.find?_some hfound
    by_cases hsize : (k.resources.descriptorsPtrs r).size = 0
    · have hunused := h.unused_iff.mp hsize
      have hnoValue : (k.detachResource (some r)).resources.value r = none := h.noValue r
      have hempty := h.pointerLists.represents r
      rw [h.toHolds.unused hsize] at hempty
      have hfirst : (k.resources.descriptorsPtrs r).first = none := hempty.first
      have hlast : (k.resources.descriptorsPtrs r).last = none := hempty.last
      have hvalue : (k.detachResource (some r)).freeValue r = some (k.detachResource (some r)) := by
        rw [freeValue, hnoValue]
      obtain ⟨k₁, hfree⟩ : ∃ k₁, (k.detachResource (some r)).resourceFree r = some k₁ :=
        ⟨_, if_neg (by simp [detachResource, hfirst, hlast])⟩
      refine ⟨k₁.setRetvalue p 0, ?_, iff_of_true ?_ ⟨r, hr, hid, hunused⟩⟩
      · simp only [hsize, ne_eq, not_true_eq_false, if_false, hvalue, Option.bind_some, hfree]
      · exact Function.update_self ..
    · refine ⟨_, if_pos hsize, iff_of_false (hfails _ (by decide)) ?_⟩
      rintro ⟨r', hr', hid', hunused⟩
      obtain rfl : r' = r := h.ids r' hr' r hr (hid'.trans hid.symm)
      exact hsize (h.unused_iff.mpr hunused)

/-- An open ends, unless the file descriptors of the process have run out. -/
theorem internalOpenResource_isSome (h : k.files.Paired descs ptrs ress) (hp : k.running = some p)
    (hfd : k.pcbs.lastFd p ≠ intMax) (id type : ℤ) (mode : BitVec 32) :
    (internalOpenResource id type mode k).isSome := by
  have hdescriptor : ∀ k₁ : Kernel, k₁.pcbs.lastFd p ≠ intMax → ∀ r,
      (k₁.openDescriptor p r).isSome := by
    intro k₁ hfd₁ r
    unfold openDescriptor descriptorAlloc
    rcases k₁.descriptors.allocator.getBlock with ⟨_ | d, pool⟩
    · rfl
    · simp [hfd₁]
  have hfound : ∀ k₁ : Kernel, k₁.pcbs.lastFd p ≠ intMax → ∀ res,
      (k₁.openFound p res type mode).isSome := by
    intro k₁ hfd₁ res
    cases res with
    | none => rfl
    | some r =>
      simp only [openFound]
      split_ifs
      · rfl
      · rfl
      · exact hdescriptor k₁ hfd₁ r
  simp only [internalOpenResource, hp, Option.bind_eq_bind, Option.bind_some, resourceById_eq h]
  split_ifs
  · rfl
  · cases hres : ress.find? fun r ↦ k.resources.id r = id with
    | some r => exact hfound k hfd (some r)
    | none =>
      simp only [resourceAlloc]
      rcases k.resources.allocator.getBlock with ⟨_ | r, pool⟩
      · rfl
      · refine hfound _ ?_ (some r)
        exact hfd
  · exact hfound k hfd _

/-! ### Steps -/

/-- The tables after an open; only the descriptors of the caller can change. -/
theorem Opens.paired {type : ℤ} {mode : BitVec 32} (h : k.files.Paired descs ptrs ress)
    (hopens : k.Opens p id type mode k') :
    ∃ descs' ptrs' ress', k'.files.Paired descs' ptrs' ress' ∧ ∀ q, q ≠ p → descs' q = descs q := by
  cases hopens with
  | failed hfiles =>
    rw [hfiles]
    exact ⟨descs, ptrs, ress, h, fun _ _ ↦ rfl⟩
  | joined r d x pool ptrPool hfound _ hget hgetPtr hfiles =>
    rw [hfiles]
    have hr := (resourceById_some h.toHolds hfound).1
    exact ⟨_, _, _, h.join hr hget hgetPtr, fun q hq ↦ Function.update_of_ne hq _ _⟩
  | created r resPool hnone _ hnew hfiles =>
    rw [hfiles]
    have hids := fun r' hr' ↦ resourceById_none h.toHolds hnone (r := r') hr'
    exact ⟨_, _, _, h.create id type hnew hids, fun _ _ ↦ rfl⟩
  | createdJoined r d x resPool pool ptrPool hnone _ hnew hget hgetPtr hfiles =>
    rw [hfiles]
    have hids := fun r' hr' ↦ resourceById_none h.toHolds hnone (r := r') hr'
    have hr : r ∈ ress ++ [r] := List.mem_append_right _ (List.mem_singleton_self r)
    exact ⟨_, _, _, (h.create id type hnew hids).join hr hget hgetPtr, fun q hq ↦
      Function.update_of_ne hq _ _⟩

theorem internalCloseResource_paired (h : k.files.Paired descs ptrs ress) (hp : k.running = some p)
    (hclose : internalCloseResource fd k = some k') :
    ∃ descs' ptrs' ress', k'.files.Paired descs' ptrs' ress' ∧ ∀ q, q ≠ p → descs' q = descs q := by
  obtain ⟨p', hp', ⟨-, hfiles, -⟩ | ⟨d, x, hfound, hptr, hfiles, -⟩⟩ :=
    internalCloseResource_files hclose
  · rw [hfiles]
    exact ⟨descs, ptrs, ress, h, fun _ _ ↦ rfl⟩
  · obtain rfl : p = p' := Option.some.inj (hp.symm.trans hp')
    rw [hfiles]
    have hd := (descriptorByFd_some h.toHolds hfound).1
    exact ⟨_, _, _, h.drop hd hptr, fun q hq ↦ Function.update_of_ne hq _ _⟩

theorem internalDestroyResource_paired (h : k.files.Paired descs ptrs ress)
    (hdestroy : internalDestroyResource id k = some k') :
    ∃ ptrs' ress', k'.files.Paired descs ptrs' ress' := by
  obtain ⟨-, -, ⟨hfiles, -⟩ | ⟨r, hfound, hsize, hfiles, -⟩⟩ :=
    internalDestroyResource_files hdestroy
  · rw [hfiles]
    exact ⟨ptrs, ress, h⟩
  · rw [hfiles]
    have hr := (resourceById_some h.toHolds hfound).1
    exact ⟨_, _, h.destroy hr (h.toHolds.unused hsize)⟩

/-- The invariant: the tables are paired, and whoever has a descriptor is there. -/
structure Tabled (k : Kernel) (v : Processes) : Prop where
  noZombie : ∀ q, v.status q ≠ .zombie
  paired : ∃ descs ptrs ress, k.files.Paired descs ptrs ress ∧ ∀ p, descs p ≠ [] → p ∈ v.all

theorem Tabled.step (h : k.Tabled v) (hshows : k.Shows v) (hv : v.Consistent)
    (ha : a.ofResources = true) (hstep : k.step a = some k') (hstep' : v.Step (k.event a) v') :
    k'.Tabled v' := by
  have hexit : ∀ q value, k.event a = .call (.exit value) → v.running ≠ some q :=
    fun _ value hevent ↦ Bool.noConfusion (ofResources_of_request ha (event_eq_call.mp hevent))
  have hshutdown : k.request a ≠ some .shutdown := fun hrequest ↦
    Bool.noConfusion (ofResources_of_request ha hrequest)
  have hstays : ∀ q ∈ v.all, q ∈ v'.all := fun q ↦ hstep'.mem_all hv (h.noZombie q) (hexit q)
  obtain ⟨descs, ptrs, ress, hpaired, howners⟩ := h.paired
  refine ⟨fun q ↦ hstep'.noZombie (h.noZombie q) (hexit q), ?_⟩
  cases step_files hshutdown hstep with
  | same hfiles =>
    rw [hfiles]
    exact ⟨descs, ptrs, ress, hpaired, fun p hp ↦ hstays p (howners p hp)⟩
  | newProcess p hfresh hfiles =>
    -- the block of the new process was free, so it has no descriptors
    have hnew : p ∉ v.all := by
      obtain ⟨s, hlists⟩ := hshows
      have hget : k.pcbs.allocator.getBlock = (some p, k.pcbs.allocator.getBlock.2) :=
        Prod.ext hfresh rfl
      obtain ⟨-, -, hfree, -⟩ := getBlock_some hlists.scheduled.pool hget
      exact fun hp ↦ hfree (hlists.allocated_iff.mpr hp)
    have hnone : descs p = [] := by
      by_contra hdescs
      exact hnew (howners p hdescs)
    rw [hfiles]
    exact ⟨descs, ptrs, ress, hpaired.reset hnone, fun p hp ↦ hstays p (howners p hp)⟩
  | call p c next hrunning hcalls hkind hcall =>
    have hp : p ∈ v'.all := by
      refine hstays p (Processes.mem_all_of_running ?_)
      rw [← hshows.running, hrunning]
    have hothers : ∀ descs' : Addr → List Addr, (∀ q, q ≠ p → descs' q = descs q) →
        ∀ q, descs' q ≠ [] → q ∈ v'.all := by
      intro descs' hsame q hq
      by_cases hqp : q = p
      · rw [hqp]
        exact hp
      · rw [hsame q hqp] at hq
        exact hstays q (howners q hq)
    have hresources := ofResources_of_request ha (hcalls.request hrunning)
    cases c with
    | openResource id type mode =>
      obtain ⟨p', hp', hopens⟩ := internalOpenResource_files
        (k := k.trap p next (.openResource id type mode)) hpaired.toHolds hcall
      obtain rfl : p = p' := Option.some.inj (hrunning.symm.trans hp')
      obtain ⟨descs', ptrs', ress', hpaired', hsame⟩ := Opens.paired
        (k := k.trap p next (.openResource id type mode)) hpaired hopens
      exact ⟨descs', ptrs', ress', hpaired', hothers descs' hsame⟩
    | closeResource fd =>
      obtain ⟨descs', ptrs', ress', hpaired', hsame⟩ := internalCloseResource_paired
        (k := k.trap p next (.closeResource fd)) hpaired hrunning hcall
      exact ⟨descs', ptrs', ress', hpaired', hothers descs' hsame⟩
    | destroyResource id =>
      obtain ⟨ptrs', ress', hpaired'⟩ := internalDestroyResource_paired
        (k := k.trap p next (.destroyResource id)) hpaired hcall
      exact ⟨descs, ptrs', ress', hpaired', hothers descs fun _ _ ↦ rfl⟩
    | exit | openQueue => exact absurd hresources Bool.false_ne_true
    | preempt | fork | spawn | wait | sleep | shutdown | sendMsg | recvMsg | wakeupQueue =>
      exact absurd hkind Bool.false_ne_true

/-! ### Whole runs -/

/-- The tables of resources and descriptors agree, and every call is done that concerns them. -/
structure TablesConsistent (k : Kernel) : Prop where
  resources : Represents k.resources.list k.resourcesList k.files.resourceNodes ∧
    (k.files.resourceNodes.map k.resources.id).Nodup
  descriptors : ∀ p,
    Represents k.descriptors.list (k.pcbs.descriptors p) (k.files.descriptorNodes p) ∧
      ((k.files.descriptorNodes p).map k.descriptors.fd).Nodup ∧
        ∀ d ∈ k.files.descriptorNodes p, k.descriptors.fd d < k.pcbs.lastFd p
  pointers : ∀ r,
    Represents k.descriptorPtrs.list (k.resources.descriptorsPtrs r) (k.files.pointerNodes r)
  descriptor_bound : ∀ p, ∀ d ∈ k.files.descriptorNodes p,
    k.descriptors.resource d ∈ k.files.resourceNodes ∧ k.descriptors.pcb d = p ∧
      ∃ x, k.descriptors.ptr d = some x ∧
        (k.files.pointerNodes (k.descriptors.resource d)).count x = 1 ∧
          k.descriptorPtrs.descriptor x = d
  pointer_bound : ∀ r, ∀ x ∈ k.files.pointerNodes r, ∃ p, ∃ d ∈ k.files.descriptorNodes p,
    k.descriptors.resource d = r ∧ k.descriptors.ptr d = some x
  pools : k.descriptors.allocator.size = k.descriptorPtrs.allocator.size ∧
    (k.descriptors.allocator.getBlock.1 ≠ none → k.descriptorPtrs.allocator.getBlock.1 ≠ none)
  opens : ∀ p ∈ k.running, k.atUser = true → k.pcbs.lastFd p ≠ intMax →
    ∀ id type mode, (k.step (.syscall (.openResource id type mode))).isSome
  closes : k.atUser = true → ∀ fd, (k.step (.syscall (.closeResource fd))).isSome
  destroys : ∀ p ∈ k.running, k.atUser = true → ∀ id,
    ∃ k', k.step (.syscall (.destroyResource id)) = some k' ∧
      (k'.pcbs.syscallRetvalue p = 0 ↔ ∃ r ∈ k.files.resourceNodes, k.resources.id r = id ∧
        ∀ q, ∀ d ∈ k.files.descriptorNodes q, k.descriptors.resource d ≠ r)

theorem tablesConsistent_of_paired (h : k.files.Paired descs ptrs ress) : k.TablesConsistent := by
  have hdescs := h.toHolds.descriptorNodes_eq
  have hptrs := h.toHolds.pointerNodes_eq
  have hress := h.toHolds.resourceNodes_eq
  have hcall : ∀ c p, k.running = some p → k.atUser = true →
      ∃ next, k.step (.syscall c) = syscallVector c (k.trap p next c) := by
    intro c p hp huser
    have hrequest : k.request (.syscall c) = some c := by simp [Kernel.request, huser]
    obtain ⟨next, -, hsame⟩ := step_eq_syscallVector hp hrequest
    exact ⟨next, hsame⟩
  constructor
  · rw [hress]
    refine ⟨h.resourceList, h.resourceList.nodup.map_on fun r hr r' hr' hsame ↦ ?_⟩
    exact h.ids r hr r' hr' hsame
  · intro p
    rw [hdescs]
    have hlist := h.descriptorLists.represents p
    refine ⟨hlist, hlist.nodup.map_on fun d hd d' hd' hsame ↦ ?_, h.fd_lt p⟩
    exact h.fd_inj p d hd d' hd' hsame
  · intro r
    rw [hptrs]
    exact h.pointerLists.represents r
  · rw [hdescs, hptrs, hress]
    intro p d hd
    obtain ⟨x, hx, hptr, hback⟩ := h.pointer p d hd
    have hnodup := (h.pointerLists.represents (k.descriptors.resource d)).nodup
    refine ⟨h.toHolds.resource_mem hd, h.owner p d hd, x, hptr, ?_, hback⟩
    exact List.count_eq_one_of_mem hnodup hx
  · rw [hdescs, hptrs]
    exact h.back
  · refine ⟨h.sameSize, fun hdescriptor hpointer ↦ hdescriptor ?_⟩
    have hempty := h.pointerPool.getBlock_eq_none_iff.mp hpointer
    exact h.descriptorPool.getBlock_eq_none_iff.mpr (h.sameSize.trans hempty)
  · intro p hp huser hfd id type mode
    obtain ⟨next, hsame⟩ := hcall (.openResource id type mode) p hp huser
    rw [hsame]
    exact internalOpenResource_isSome (k := k.trap p next (.openResource id type mode)) h hp hfd id
      type mode
  · intro huser fd
    obtain ⟨p, -, hp, -⟩ := atUser_iff.mp huser
    obtain ⟨next, hsame⟩ := hcall (.closeResource fd) p hp huser
    rw [hsame]
    exact internalCloseResource_isSome (k := k.trap p next (.closeResource fd)) h hp fd
  · intro p hp huser id
    obtain ⟨next, hsame⟩ := hcall (.destroyResource id) p hp huser
    rw [hsame, hdescs, hress]
    exact internalDestroyResource_iff (k := k.trap p next (.destroyResource id)) h hp id

end Kernel

theorem Layout.boot_tabled (layout : Layout) :
    layout.boot.Tabled (layout.boot.processes (fun _ ↦ []) [] fun _ ↦ []) where
  noZombie := fun q ↦ by simp [Kernel.processes, Layout.boot]
  paired := by
    have hok := layout.boot_filesOk
    refine ⟨_, _, _, { hok with
      owner := fun p d hd ↦ absurd hd List.not_mem_nil
      back := fun r x hx ↦ absurd hx List.not_mem_nil
      noValue := fun r ↦ rfl
      descriptorMax := rfl
      resourceMax := rfl }, fun p hp ↦ absurd rfl hp⟩

/-- In every run in which processes open, close and destroy resources, the tables agree. -/
theorem tablesConsistent_of_resources (layout : Layout) {actions : List Action} {k : Kernel}
    (hactions : ∀ a ∈ actions, a.ofResources = true)
    (hrun : Runs.run Kernel.step layout.boot actions = some k) : k.TablesConsistent := by
  obtain ⟨-, v, -, -, htabled⟩ := Kernel.satisfies_run
    (fun k a ha c hrequest ↦ Kernel.concernsUsers_of_resources
      (Kernel.ofResources_of_request ha hrequest))
    (fun k k' a v v' ha hstep hshows hv h hstep' _ ↦ h.step hshows hv ha hstep hstep')
    (layout.boot_satisfies layout.boot_tabled) (Runs.Meets.of_forall _ hactions) hrun
  obtain ⟨descs, ptrs, ress, hpaired, -⟩ := htabled.paired
  exact Kernel.tablesConsistent_of_paired hpaired

/-- Two processes open a resource, one closes it, and both try to destroy it. -/
theorem tablesConsistent_of_resources_twoOwners : ∃ k,
    Runs.run Kernel.step sampleLayout.boot
      [.start, .syscall .spawn, .syscall (.openResource 7 1 dsosCreate), .timer,
        .syscall (.openResource 7 1 0), .syscall (.destroyResource 7),
        .syscall (.closeResource 0)] = some k ∧ k.TablesConsistent := by
  have hruns : (Runs.run Kernel.step sampleLayout.boot
      [.start, .syscall .spawn, .syscall (.openResource 7 1 dsosCreate), .timer,
        .syscall (.openResource 7 1 0), .syscall (.destroyResource 7),
        .syscall (.closeResource 0)]).isSome := by decide +kernel
  obtain ⟨k, hk⟩ := Option.isSome_iff_exists.mp hruns
  exact ⟨k, hk, tablesConsistent_of_resources sampleLayout (by decide) hk⟩

end DisastrOS
