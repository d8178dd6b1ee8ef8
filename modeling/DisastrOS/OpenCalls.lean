import DisastrOS.OpenErrors
import DisastrOS.QueueCalls
import DisastrOS.Termination

/-!
# The two calls of an opening

What `dmq_open` does, by the state in which it is called. The first call finds or creates the resource
and gives the process a descriptor (`OpensResource.opened`); the second one joins the queue of the
resource or a new one (`Opened.joins`), or gives the resource up.
-/

set_option autoImplicit false
set_option relaxedAutoImplicit false

namespace DisastrOS

open LinkedLists PoolAllocator
open Function (update)

variable {k k' k₁ : Kernel} {users : Addr × Role → List Addr} {p r d q : Addr} {id fd : ℤ}
  {mode : BitVec 32}

namespace Kernel

/-! ### The first call -/

theorem hasBit_resourceFlags_create (mode : BitVec 32) :
    hasBit (resourceFlags mode) dsosCreate = hasBit mode dsosCreat := by
  unfold resourceFlags
  split_ifs with hcreat hexcl
  · rw [hcreat]
    decide
  · rw [hcreat]
    decide
  · rw [Bool.eq_false_iff.mpr hcreat]
    decide

theorem hasBit_resourceFlags_excl (mode : BitVec 32) :
    hasBit (resourceFlags mode) dsosExcl = (hasBit mode dsosCreat && hasBit mode dsosQExcl) := by
  unfold resourceFlags
  split_ifs with hcreat hexcl
  · rw [hcreat, hexcl]
    decide
  · rw [hcreat, Bool.eq_false_iff.mpr hexcl]
    decide
  · rw [Bool.eq_false_iff.mpr hcreat, Bool.false_and]
    decide

/-- `dmq_open` finds the resource `r` of the id, or creates it. -/
def FindsResource (k : Kernel) (id : ℤ) (mode : BitVec 32) (r : Addr) : Prop :=
  k.resourceById id = some (some r) ∧ k.resources.type r = 2 ∧
      ¬ (hasBit mode dsosCreat = true ∧ hasBit mode dsosQExcl = true) ∨
    k.resourceById id = some none ∧ hasBit mode dsosCreat = true ∧
      k.resources.allocator.getBlock.1 = some r

/-- The state in which it is there. -/
def withResource (k : Kernel) (id : ℤ) (r : Addr) : Kernel :=
  if k.resourceById id = some none then
    (k.resourceAlloc id 2).2.insertResource k.resourcesList.last (some r)
  else k

/-- A descriptor is left for it, and a number for the descriptor. -/
def OpensResource (k : Kernel) (p : Addr) (id : ℤ) (mode : BitVec 32) (r : Addr) : Prop :=
  k.FindsResource id mode r ∧ k.descriptors.allocator.getBlock.1 ≠ none ∧ k.pcbs.lastFd p ≠ intMax

theorem openDescriptor_full (hnone : k.descriptors.allocator.getBlock.1 = none) :
    k.openDescriptor p r = some (k.setRetvalue p dsosEresourcenofd) := by
  rcases hget : k.descriptors.allocator.getBlock with ⟨_ | d, pool⟩
  · simp only [openDescriptor, descriptorAlloc, hget]
  · rw [hget] at hnone
    cases hnone

theorem openDescriptor_retvalue (hsome : k.descriptors.allocator.getBlock.1 ≠ none)
    (hopen : k.openDescriptor p r = some k') :
    k'.pcbs.syscallRetvalue p = k.pcbs.lastFd p ∧ k.pcbs.lastFd p ≠ intMax := by
  rcases hget : k.descriptors.allocator.getBlock with ⟨_ | d, pool⟩
  · rw [hget] at hsome
    exact absurd rfl hsome
  · simp only [openDescriptor, descriptorAlloc, hget, Option.ite_none_left_eq_some,
      Option.some.injEq] at hopen
    obtain ⟨hfd, hopen⟩ := hopen
    refine ⟨?_, hfd⟩
    rcases hgetPtr : k.descriptorPtrs.allocator.getBlock with ⟨_ | x, ptrPool⟩
    · simp only [descriptorPtrAlloc, hgetPtr] at hopen
      rw [← hopen]
      exact (Function.update_self ..).trans (Function.update_self ..)
    · simp only [descriptorPtrAlloc, hgetPtr] at hopen
      rw [← hopen]
      exact (Function.update_self ..).trans (Function.update_self ..)

theorem openDescriptor_isSome (hsome : k.descriptors.allocator.getBlock.1 ≠ none)
    (hfd : k.pcbs.lastFd p ≠ intMax) : (k.openDescriptor p r).isSome := by
  rcases hget : k.descriptors.allocator.getBlock with ⟨_ | d, pool⟩
  · rw [hget] at hsome
    exact absurd rfl hsome
  · simp only [openDescriptor, descriptorAlloc, hget, hfd, if_false, Option.isSome_some]

/-- There is no number for the next descriptor. -/
theorem openDescriptor_overflow (hsome : k.descriptors.allocator.getBlock.1 ≠ none)
    (hfd : k.pcbs.lastFd p = intMax) : k.openDescriptor p r = none := by
  rcases hget : k.descriptors.allocator.getBlock with ⟨_ | d, pool⟩
  · rw [hget] at hsome
    exact absurd rfl hsome
  · simp only [openDescriptor, descriptorAlloc, hget, hfd, if_true]

/-- The state in which the resource is there, as the tables see it. -/
theorem withResource_files (hfinds : k.FindsResource id mode r) :
    (k.resourceById id = some (some r) ∧ k.withResource id r = k) ∨
      ∃ pool, k.resourceById id = some none ∧ k.resources.allocator.getBlock = (some r, pool) ∧
        (k.withResource id r).files = k.files.create r pool id 2 ∧
        k.withResource id r = { k with
          resources := (k.withResource id r).resources
          resourcesList := (k.withResource id r).resourcesList } := by
  unfold withResource
  rcases hfinds with ⟨hfound, -, -⟩ | ⟨hnone, -, hget⟩
  · rw [hfound, if_neg (by simp)]
    exact Or.inl ⟨rfl, rfl⟩
  · rcases hblock : k.resources.allocator.getBlock with ⟨_ | r', pool⟩
    · rw [hblock] at hget
      cases hget
    · rw [hblock] at hget
      obtain rfl := Option.some.inj hget
      rw [hnone, if_pos rfl]
      simp only [resourceAlloc, hblock]
      exact Or.inr ⟨pool, trivial, rfl, rfl, rfl⟩

/-- The first call, if the resource is there or is created. -/
theorem internalOpenResource_of_finds (hp : k.running = some p)
    (hfinds : k.FindsResource id mode r) :
    internalOpenResource id 2 (resourceFlags mode) k =
      (k.withResource id r).openDescriptor p r := by
  have hexcl := hasBit_resourceFlags_excl mode
  have hcreate := hasBit_resourceFlags_create mode
  unfold withResource
  rcases hfinds with ⟨hfound, htype, hbits⟩ | ⟨hnone, hcreat, hget⟩
  · have hnoExcl : hasBit (resourceFlags mode) dsosExcl = false := by
      rw [hexcl, Bool.and_eq_false_iff]
      by_contra hboth
      simp only [not_or, Bool.not_eq_false] at hboth
      exact hbits hboth
    rw [hfound, if_neg (by simp)]
    simp [internalOpenResource, openFound, hp, hfound, hnoExcl, htype]
  · rcases hblock : k.resources.allocator.getBlock with ⟨_ | r', pool⟩
    · rw [hblock] at hget
      cases hget
    · rw [hblock] at hget
      obtain rfl := Option.some.inj hget
      rw [hnone, if_pos rfl]
      simp [internalOpenResource, openFound, hp, hnone, hcreate, hcreat, resourceAlloc, hblock,
        insertResource, listInit, Head.empty]

/-- The first call fails at once otherwise. -/
theorem internalOpenResource_of_not_finds (hp : k.running = some p)
    (hfinds : ∀ r, ¬ k.FindsResource id mode r)
    (hopen : internalOpenResource id 2 (resourceFlags mode) k = some k') :
    ∃ err < 0, k' = k.setRetvalue p err := by
  have hexcl := hasBit_resourceFlags_excl mode
  have hcreate := hasBit_resourceFlags_create mode
  rw [internalOpenResource, hp, Option.bind_eq_bind, Option.bind_some] at hopen
  obtain ⟨found, hfound, hrest⟩ := Option.bind_eq_some_iff.mp hopen
  cases found with
  | some r =>
    by_cases htype : k.resources.type r = 2
    · have hbits : hasBit mode dsosCreat = true ∧ hasBit mode dsosQExcl = true := by
        by_contra hbits
        exact hfinds r (Or.inl ⟨hfound, htype, hbits⟩)
      simp only [hcreate, hexcl, hbits, Bool.and_self, Option.isSome_some, and_self, if_true,
        Option.some.injEq] at hrest
      exact ⟨_, by decide, hrest.symm⟩
    · have hfails : k.openFound p (some r) 2 (resourceFlags mode) =
          some (k.setRetvalue p dsosEresourceopen) := if_pos htype
      simp only [hfails] at hrest
      split_ifs at hrest
      · exact ⟨_, by decide, (Option.some.inj hrest).symm⟩
      · exact ⟨_, by decide, (Option.some.inj hrest).symm⟩
      · exact ⟨_, by decide, (Option.some.inj hrest).symm⟩
  | none =>
    have hfails : k.openFound p none 2 (resourceFlags mode) =
        some (k.setRetvalue p dsosEresourceopen) := rfl
    by_cases hcreat : hasBit mode dsosCreat = true
    · rcases hblock : k.resources.allocator.getBlock with ⟨_ | r, pool⟩
      · simp only [hcreate, hcreat, if_true, Option.isSome_none, Bool.false_eq_true, and_false,
          if_false, resourceAlloc, hblock] at hrest
        exact ⟨_, by decide, (Option.some.inj hrest).symm⟩
      · exact absurd (Or.inr ⟨hfound, hcreat, by rw [hblock]⟩) (hfinds r)
    · simp only [hcreate, hcreat, Bool.false_eq_true, if_false, hfails] at hrest
      exact ⟨_, by decide, (Option.some.inj hrest).symm⟩

theorem FindsResource.ok (h : k.files.Ok) (hfinds : k.FindsResource id mode r) :
    (k.withResource id r).files.Ok ∧ r ∈ (k.withResource id r).files.resourceNodes := by
  rcases withResource_files hfinds with ⟨hfound, hsame⟩ | ⟨pool, hnone, hget, hfiles, -⟩
  · rw [hsame]
    exact ⟨h, (resourceById_some h hfound).1⟩
  · have hcreated := Files.Holds.create h id 2 hget fun r' hr' ↦ resourceById_none h hnone hr'
    rw [hfiles]
    refine ⟨hcreated.ok, ?_⟩
    rw [hcreated.resourceNodes_eq]
    exact List.mem_append_right _ (List.mem_singleton_self r)

/-- What the first call does. -/
theorem openResource_cases (h : k.files.Ok) (hp : k.running = some p)
    (hopen : internalOpenResource id 2 (resourceFlags mode) k = some k₁) :
    (∃ err < 0, k₁ = k.setRetvalue p err) ∨ ∃ r, k.FindsResource id mode r ∧
      (k.descriptors.allocator.getBlock.1 = none ∧
          k₁ = (k.withResource id r).setRetvalue p dsosEresourcenofd ∨
        k.OpensResource p id mode r ∧ ∃ d x pool ptrPool,
          k.descriptors.allocator.getBlock = (some d, pool) ∧
          k.descriptorPtrs.allocator.getBlock = (some x, ptrPool) ∧
          k₁.files = (k.withResource id r).files.join p r d x pool ptrPool ∧
          k₁.pcbs.syscallRetvalue p = k.pcbs.lastFd p) := by
  by_cases hfinds : ∃ r, k.FindsResource id mode r
  · obtain ⟨r, hfinds⟩ := hfinds
    refine Or.inr ⟨r, hfinds, ?_⟩
    rw [internalOpenResource_of_finds hp hfinds] at hopen
    have hsame : (k.withResource id r).descriptors = k.descriptors ∧
        (k.withResource id r).descriptorPtrs = k.descriptorPtrs ∧
        (k.withResource id r).pcbs = k.pcbs := by
      rcases withResource_files hfinds with ⟨-, hsame⟩ | ⟨-, -, -, -, hframe⟩
      · rw [hsame]
        exact ⟨rfl, rfl, rfl⟩
      · rw [hframe]
        exact ⟨rfl, rfl, rfl⟩
    by_cases hnone : k.descriptors.allocator.getBlock.1 = none
    · rw [openDescriptor_full (by rw [hsame.1]; exact hnone)] at hopen
      exact Or.inl ⟨hnone, (Option.some.inj hopen).symm⟩
    · obtain ⟨hret, hfd⟩ := openDescriptor_retvalue (by rw [hsame.1]; exact hnone) hopen
      rw [hsame.2.2] at hret hfd
      refine Or.inr ⟨⟨hfinds, hnone, hfd⟩, ?_⟩
      obtain ⟨-, hneg⟩ | ⟨d, x, pool, ptrPool, hget, hgetPtr, hfiles, -⟩ :=
        openDescriptor_files (hfinds.ok h).1 hopen
      · have hnonneg : 0 ≤ k.pcbs.lastFd p := h.lastFd_nonneg p
        omega
      · rw [hsame.1] at hget
        rw [hsame.2.1] at hgetPtr
        exact ⟨d, x, pool, ptrPool, hget, hgetPtr, hfiles, hret⟩
  · exact Or.inl (internalOpenResource_of_not_finds hp (not_exists.mp hfinds) hopen)

/-! ### Lookups -/

/-- A lookup by id goes through the whole list if it has to. -/
theorem resourceById_find (hok : k.files.Ok) (hsized : k.files.Sized) (id : ℤ) :
    k.resourceById id = some (k.files.resourceNodes.find? fun r ↦ k.resources.id r = id) := by
  have hlength : k.files.resourceNodes.length ≤ walkBound := by
    refine length_le_of_sizeMax hok.resourcePool ?_ ?_ hok.resourceList.nodup hok.resource_allocated
    · rw [hsized.resources]
      decide
    · rw [hsized.resources]
      decide
  exact hok.resourceList.scan_terminates _ hlength

/-- A lookup finds what is there. -/
theorem resourceById_of_mem (hok : k.files.Ok) (hsized : k.files.Sized)
    (hr : r ∈ k.files.resourceNodes) :
    k.resourceById (k.resources.id r) = some (some r) := by
  have hscan := resourceById_find hok hsized (k.resources.id r)
  rw [hscan, resourceById_unique hok hr hscan]

/-- A lookup by file descriptor goes through the whole list if it has to. -/
theorem descriptorByFd_find (hok : k.files.Ok) (hsized : k.files.Sized) (p : Addr) (fd : ℤ) :
    k.descriptorByFd p fd =
      some ((k.files.descriptorNodes p).find? fun d ↦ k.descriptors.fd d = fd) := by
  have hlength := length_le_walkBound hok.descriptorPool hsized.descriptors
    (hok.descriptorLists.represents p).nodup (hok.descriptor_allocated p)
  exact (hok.descriptorLists.represents p).scan_terminates _ hlength

theorem descriptorByFd_of_mem (hok : k.files.Ok) (hsized : k.files.Sized)
    (hd : d ∈ k.files.descriptorNodes p) :
    k.descriptorByFd p (k.descriptors.fd d) = some (some d) := by
  have hscan := descriptorByFd_find hok hsized p (k.descriptors.fd d)
  rw [hscan, descriptorByFd_unique hok hd hscan]

/-! ### Entering the process -/

/-- `List_insert` takes the blocks that the pool hands out, one after the other, at the ends of the
given lists. -/
def takesUsers (pool : PoolAllocator) (list : Memory Addr) : List (ListHead Addr) → Bool
  | [] => true
  | head :: heads =>
    match pool.getBlock with
    | (none, _) => false
    | (some u, pool) =>
      decide (list u = Links.unlinked) &&
        takesUsers pool (listInsert list head head.last (some u)).list heads

/-- The lists of the queue that the mode asks for. -/
def askedHeads (k : Kernel) (q : Addr) (mode : BitVec 32) (roles : List Role) :
    List (ListHead Addr) := (askedRoles mode roles).map fun role ↦ k.queues.users (q, role)

/-- The lists that the process would be entered in: those of the queue of the resource, or of a new
one. -/
def joinHeads (k : Kernel) (r : Addr) (mode : BitVec 32) : List (ListHead Addr) :=
  match k.resources.value r with
  | some q => k.askedHeads q mode allRoles
  | none => (askedRoles mode allRoles).map fun _ ↦ listInit

/-- One role: there is no block, or it carries links, or it is taken. -/
theorem queueAddRole_takes {role : Role} (hbit : hasBit mode (roleBit role) = true) (k : Kernel)
    (q d : Addr) (pid : ℤ) :
    (∃ k', k.queueAddRole q pid mode (some d) role = some (false, k') ∧
        ∀ heads, takesUsers k.queueUsers.allocator k.queueUsers.list
          (k.queues.users (q, role) :: heads) = false) ∨
      ∃ k', k.queueAddRole q pid mode (some d) role = some (true, k') ∧
        (∀ role', role' ≠ role → k'.queues.users (q, role') = k.queues.users (q, role')) ∧
        ∀ heads, takesUsers k.queueUsers.allocator k.queueUsers.list
          (k.queues.users (q, role) :: heads) =
            takesUsers k'.queueUsers.allocator k'.queueUsers.list heads := by
  have hstep : ∀ o k₁, k.queueUserAlloc pid = (o, k₁) → k₁.queues = k.queues →
      k₁.queueUsers.list = k.queueUsers.list →
      let entered := listInsert k.queueUsers.list (k.queues.users (q, role))
        (k.queues.users (q, role)).last o
      ∃ k', k.queueAddRole q pid mode (some d) role = some (entered.ret.isSome, k') ∧
        k'.queueUsers.allocator = k₁.queueUsers.allocator ∧ k'.queueUsers.list = entered.list ∧
        ∀ role', role' ≠ role → k'.queues.users (q, role') = k.queues.users (q, role') := by
    intro o k₁ halloc hqueues hlist
    unfold Kernel.queueAddRole
    rw [if_pos hbit, Option.bind_eq_bind, Option.bind_some, halloc, ← hqueues, ← hlist]
    refine ⟨_, rfl, rfl, rfl, fun role' hrole' ↦ ?_⟩
    exact Function.update_of_ne (fun hsame ↦ hrole' (Prod.mk.inj hsame).2) _ _
  rcases hget : k.queueUsers.allocator.getBlock with ⟨_ | u, pool⟩
  · obtain ⟨k', hadd, -⟩ := hstep none k (by simp only [queueUserAlloc, hget]) rfl rfl
    refine Or.inl ⟨k', hadd, fun heads ↦ ?_⟩
    simp only [takesUsers, hget]
  · obtain ⟨k', hadd, hpool, hlist, hothers⟩ := hstep (some u) (k.queueUserAlloc pid).2
      (by simp only [queueUserAlloc, hget]) (by simp only [queueUserAlloc, hget])
      (by simp only [queueUserAlloc, hget])
    have hpool' : k'.queueUsers.allocator = pool := by
      rw [hpool]
      simp only [queueUserAlloc, hget]
    by_cases hunlinked : k.queueUsers.list u = Links.unlinked
    · have hret : (listInsert k.queueUsers.list (k.queues.users (q, role))
          (k.queues.users (q, role)).last (some u)).ret = some u := by
        simp [listInsert, hunlinked, Links.unlinked]
      rw [hret] at hadd
      refine Or.inr ⟨k', hadd, hothers, fun heads ↦ ?_⟩
      simp only [takesUsers, hget, hunlinked, decide_true, Bool.true_and, hpool', hlist]
    · have hret : (listInsert k.queueUsers.list (k.queues.users (q, role))
          (k.queues.users (q, role)).last (some u)).ret = none :=
        congrArg ListResult.ret (listInsert_refused hunlinked _)
      rw [hret] at hadd
      refine Or.inl ⟨k', hadd, fun heads ↦ ?_⟩
      simp only [takesUsers, hget, hunlinked, decide_false, Bool.false_and]

theorem addRoles_takes {roles : List Role} (hnodup : roles.Nodup) (k : Kernel) (q d : Addr) (pid : ℤ)
    (mode : BitVec 32) : ∃ k', addRoles q pid mode (some d) roles k =
      some (takesUsers k.queueUsers.allocator k.queueUsers.list (k.askedHeads q mode roles), k') := by
  induction roles generalizing k with
  | nil => exact ⟨k, rfl⟩
  | cons role roles ih =>
    obtain ⟨hrole, hnodup⟩ := List.nodup_cons.mp hnodup
    cases hbit : hasBit mode (roleBit role) with
    | false =>
      have hasked : k.askedHeads q mode (role :: roles) = k.askedHeads q mode roles := by
        simp [askedHeads, askedRoles, hbit]
      obtain ⟨k', hadd⟩ := ih hnodup k
      refine ⟨k', ?_⟩
      rw [Kernel.addRoles, queueAddRole_unasked hbit, hasked]
      exact hadd
    | true =>
      have hasked : k.askedHeads q mode (role :: roles) =
          k.queues.users (q, role) :: k.askedHeads q mode roles := by
        simp [askedHeads, askedRoles, hbit]
      obtain ⟨k₁, hadd, htakes⟩ | ⟨k₁, hadd, hothers, htakes⟩ :=
        queueAddRole_takes hbit k q d pid
      · refine ⟨k₁, ?_⟩
        rw [Kernel.addRoles, hadd, hasked, htakes]
        rfl
      · have hheads : k₁.askedHeads q mode roles = k.askedHeads q mode roles := by
          refine List.map_congr_left fun role' hrole' ↦ hothers role' ?_
          rintro rfl
          exact hrole (List.mem_of_mem_filter hrole')
        obtain ⟨k', hrest⟩ := ih hnodup k₁
        refine ⟨k', ?_⟩
        rw [Kernel.addRoles, hadd, hasked, htakes, ← hheads]
        exact hrest

/-- Joining a queue succeeds exactly if the blocks are taken. -/
theorem joinQueue_takes (htype : k.resources.type r = 2)
    (hfound : k.descriptorByFd p fd = some (some d)) (q : Addr) (mode : BitVec 32) :
    ∃ k', k.joinQueue p r q fd mode = some k' ∧ k'.pcbs.syscallRetvalue p =
      if takesUsers k.queueUsers.allocator k.queueUsers.list (k.askedHeads q mode allRoles) then fd
      else listInsertionError := by
  obtain ⟨k₁, hadd⟩ := addRoles_takes (show allRoles.Nodup by decide) k q d (k.pcbs.pid p) mode
  rw [joinQueue, if_neg (not_not.mpr htype), hfound, Option.bind_eq_bind, Option.bind_some,
    queueAddPid_roles, hadd]
  cases takesUsers k.queueUsers.allocator k.queueUsers.list (k.askedHeads q mode allRoles) with
  | true => exact ⟨_, rfl, Function.update_self ..⟩
  | false => exact ⟨_, rfl, Function.update_self ..⟩

/-- If the lists are in order, this is a matter of counting. -/
theorem UsersOrdered.takesUsers_iff (h : k.UsersOrdered users) (q : Addr) (mode : BitVec 32) :
    takesUsers k.queueUsers.allocator k.queueUsers.list (k.askedHeads q mode allRoles) = true ↔
      (askedRoles mode allRoles).length ≤ k.queueUsers.allocator.size := by
  have hnodup : allRoles.Nodup := by decide
  obtain ⟨k₁, hadd⟩ := addRoles_takes hnodup k q 0 0 mode
  constructor
  · intro htakes
    by_contra hfull
    obtain ⟨k₂, hadd', -⟩ := h.addRoles_full (not_le.mp hfull) q 0 0
    rw [hadd, htakes] at hadd'
    cases hadd'
  · intro hfree
    obtain ⟨k₂, -, hadd', -⟩ := h.addRoles hnodup hfree q 0 0
    rw [hadd] at hadd'
    exact (Prod.mk.inj (Option.some.inj hadd')).1

/-! ### After the first call -/

theorem FindsResource.unique {r' : Addr} (hfinds : k.FindsResource id mode r)
    (hfinds' : k.FindsResource id mode r') : r' = r := by
  rcases hfinds with ⟨hfound, -⟩ | ⟨hnone, -, hget⟩ <;>
    rcases hfinds' with ⟨hfound', -⟩ | ⟨hnone', -, hget'⟩
  · rw [hfound] at hfound'
    exact (Option.some.inj (Option.some.inj hfound')).symm
  · rw [hfound] at hnone'
    cases Option.some.inj hnone'
  · rw [hnone] at hfound'
    cases Option.some.inj hfound'
  · rw [hget] at hget'
    exact (Option.some.inj hget').symm

theorem FindsResource.attributes (hok : k.files.Ok) (hsized : k.files.Sized)
    (hfinds : k.FindsResource id mode r) :
    (k.withResource id r).files.Sized ∧ (k.withResource id r).resources.id r = id ∧
      (k.withResource id r).resources.type r = 2 ∧
      (k.withResource id r).resources.value r = k.resources.value r := by
  rcases withResource_files hfinds with ⟨hfound, hsame⟩ | ⟨pool, hnone, hget, hfiles, -⟩
  · rw [hsame]
    refine ⟨hsized, (resourceById_some hok hfound).2, ?_, rfl⟩
    rcases hfinds with ⟨-, htype, -⟩ | ⟨hnone, -, -⟩
    · exact htype
    · rw [hfound] at hnone
      cases Option.some.inj hnone
  · have hresources := congrArg Files.resources hfiles
    have hid : (k.withResource id r).resources.id = update k.resources.id r id :=
      congrArg Resources.id hresources
    have htype : (k.withResource id r).resources.type = update k.resources.type r 2 :=
      congrArg Resources.type hresources
    have hvalue : (k.withResource id r).resources.value = k.resources.value :=
      (congrArg Resources.value hresources).trans rfl
    rw [hfiles, hid, htype, hvalue, Function.update_self, Function.update_self]
    exact ⟨hsized.create id 2 hget, rfl, rfl, rfl⟩

/-- The first call has given the process descriptor `d` of resource `r`. -/
structure Opened (k : Kernel) (p : Addr) (id : ℤ) (r d : Addr) (k₁ : Kernel) : Prop where
  running : k₁.running = some p
  files : ∃ x pool ptrPool,
    (k.withResource id r).files.descriptors.allocator.getBlock = (some d, pool) ∧
      (k.withResource id r).files.descriptorPtrs.allocator.getBlock = (some x, ptrPool) ∧
      k₁.files = (k.withResource id r).files.join p r d x pool ptrPool ∧
      k₁.descriptors.ptr d = some x
  ok : k₁.files.Ok
  nodes : k₁.files.descriptorNodes p = k.files.descriptorNodes p ++ [d]
  retvalue : k₁.pcbs.syscallRetvalue p = k.pcbs.lastFd p
  queues : k₁.queues = k.queues
  queueUsers : k₁.queueUsers = k.queueUsers
  lookup : k₁.resourceById id = some (some r)
  type : k₁.resources.type r = 2
  value : k₁.resources.value r = k.resources.value r
  descriptor : k₁.descriptorByFd p (k.pcbs.lastFd p) = some (some d)
  resource : k₁.descriptors.resource d = r

theorem OpensResource.opened (hok : k.files.Ok) (hsized : k.files.Sized) (hp : k.running = some p)
    (hopens : k.OpensResource p id mode r) :
    ∃ k₁ d, internalOpenResource id 2 (resourceFlags mode) k = some k₁ ∧ k.Opened p id r d k₁ := by
  obtain ⟨hfinds, hsome, hfd⟩ := hopens
  have hsame : (k.withResource id r).descriptors = k.descriptors ∧
      (k.withResource id r).pcbs = k.pcbs ∧ (k.withResource id r).queues = k.queues ∧
      (k.withResource id r).queueUsers = k.queueUsers := by
    rcases withResource_files hfinds with ⟨-, hsame⟩ | ⟨-, -, -, -, hframe⟩
    · rw [hsame]
      exact ⟨rfl, rfl, rfl, rfl⟩
    · rw [hframe]
      exact ⟨rfl, rfl, rfl, rfl⟩
  have hopen := internalOpenResource_of_finds hp hfinds
  have hisSome : ((k.withResource id r).openDescriptor p r).isSome :=
    openDescriptor_isSome (by rw [hsame.1]; exact hsome) (by rw [hsame.2.1]; exact hfd)
  obtain ⟨k₁, hk₁⟩ := Option.isSome_iff_exists.mp hisSome
  rw [hk₁] at hopen
  obtain ⟨err, herr, rfl⟩ | ⟨r', hfinds', ⟨hnone, -⟩ | ⟨-, d, x, pool, ptrPool, hget, hgetPtr, hfiles,
    hret⟩⟩ := openResource_cases hok hp hopen
  · obtain ⟨hret, -⟩ := openDescriptor_retvalue (by rw [hsame.1]; exact hsome) hk₁
    rw [hsame.2.1] at hret
    have hself : (k.setRetvalue p err).pcbs.syscallRetvalue p = err := Function.update_self ..
    have hnonneg : 0 ≤ k.pcbs.lastFd p := hok.lastFd_nonneg p
    omega
  · exact absurd hnone hsome
  · obtain rfl := hfinds.unique hfinds'
    obtain ⟨hokWith, hr⟩ := hfinds.ok hok
    obtain ⟨hsizedWith, hid, htype, hvalue⟩ := hfinds.attributes hok hsized
    have hgetWith : (k.withResource id r').files.descriptors.allocator.getBlock = (some d, pool) :=
      (congrArg (fun ds : Descriptors ↦ ds.allocator.getBlock) hsame.1).trans hget
    have hgetPtrWith : (k.withResource id r').files.descriptorPtrs.allocator.getBlock =
        (some x, ptrPool) := by
      rcases withResource_files hfinds with ⟨-, hsame⟩ | ⟨-, -, -, -, hframe⟩
      · rw [hsame]
        exact hgetPtr
      · rw [hframe]
        exact hgetPtr
    have hjoin := Files.Holds.join (p := p) hokWith hr hgetWith hgetPtrWith
    have hok₁ : k₁.files.Ok := hfiles ▸ hjoin.ok
    have hsized₁ : k₁.files.Sized := hfiles ▸ hsizedWith.join hgetWith p r' x
    have hframe := internalOpenResource_eq hopen
    have hdescs : (k.withResource id r').files.descriptorNodes p = k.files.descriptorNodes p := by
      unfold Files.descriptorNodes files
      rw [hsame.1, hsame.2.1]
    have hnodes : k₁.files.descriptorNodes p = k.files.descriptorNodes p ++ [d] := by
      rw [hfiles, hjoin.descriptorNodes_eq, Function.update_self, hdescs]
    have hid₁ : k₁.resources.id r' = id := (congrArg (fun f : Files ↦ f.resources.id r') hfiles).trans hid
    have hfd₁ : k₁.descriptors.fd d = k.pcbs.lastFd p := by
      refine (congrArg (fun f : Files ↦ f.descriptors.fd d) hfiles).trans ?_
      refine (Function.update_self ..).trans ?_
      exact congrFun (congrArg (·.lastFd) hsame.2.1) p
    have hp₁ : k₁.running = some p := by
      rw [hframe]
      exact hp
    refine ⟨k₁, d, hopen, hp₁, ⟨x, pool, ptrPool, hgetWith, hgetPtrWith, hfiles, ?_⟩, hok₁,
      hnodes, hret, ?_,
      ?_, ?_, ?_, ?_, ?_, ?_⟩
    · exact (congrArg (fun f : Files ↦ f.descriptors.ptr d) hfiles).trans (Function.update_self ..)
    · rw [hframe]
    · rw [hframe]
    · have hr₁ : r' ∈ k₁.files.resourceNodes := by
        rw [hfiles, hjoin.resourceNodes_eq]
        exact hr
      have hlookup := resourceById_of_mem hok₁ hsized₁ hr₁
      rw [hid₁] at hlookup
      exact hlookup
    · exact (congrArg (fun f : Files ↦ f.resources.type r') hfiles).trans htype
    · exact (congrArg (fun f : Files ↦ f.resources.value r') hfiles).trans hvalue
    · have hd₁ : d ∈ k₁.files.descriptorNodes p := by
        rw [hnodes]
        exact List.mem_append_right _ (List.mem_singleton_self d)
      have hfound := descriptorByFd_of_mem hok₁ hsized₁ hd₁
      rw [hfd₁] at hfound
      exact hfound
    · exact (congrArg (fun f : Files ↦ f.descriptors.resource d) hfiles).trans
        (Function.update_self ..)

/-! ### After the second call -/

theorem queueAlloc_heads (halloc : k.queueAlloc = (some q, k₁)) :
    k₁.queueUsers = k.queueUsers ∧ ∀ role, k₁.queues.users (q, role) = listInit := by
  rcases hget : k.queues.allocator.getBlock with ⟨_ | q', pool⟩
  · simp [queueAlloc, hget] at halloc
  · simp only [queueAlloc, hget, Prod.mk.injEq, Option.some.injEq] at halloc
    obtain ⟨rfl, rfl⟩ := halloc
    refine ⟨rfl, fun role ↦ ?_⟩
    cases role <;> simp

/-- The second call joins the queue of the resource, or a new one. -/
theorem Opened.joins (h : k.Opened p id r d k₁) (mode : BitVec 32)
    (hqueue : k.resources.value r ≠ none ∨ k.queues.allocator.getBlock.1 ≠ none) :
    ∃ k₂, internalOpenQueue id (k.pcbs.lastFd p) mode (k₁.secondCall p id mode) = some k₂ ∧
      k₂.files.descriptorNodes p = k.files.descriptorNodes p ++ [d] ∧
      k₂.pcbs.syscallRetvalue p =
        if takesUsers k.queueUsers.allocator k.queueUsers.list (k.joinHeads r mode) then
          k.pcbs.lastFd p
        else listInsertionError := by
  have hp : (k₁.secondCall p id mode).running = some p := h.running
  have hlookup : (k₁.secondCall p id mode).resourceById id = some (some r) := h.lookup
  have hnodes : ∀ (k' k₂ : Kernel) (q : Addr), k'.pcbs.descriptors = k₁.pcbs.descriptors →
      k'.descriptors = k₁.descriptors → k'.joinQueue p r q (k.pcbs.lastFd p) mode = some k₂ →
        k₂.files.descriptorNodes p = k.files.descriptorNodes p ++ [d] := by
    intro k' k₂ q hlists hdescs hjoin
    rw [← h.nodes]
    change (k₂.pcbs.descriptors p).toList k₂.descriptors.list =
      (k₁.pcbs.descriptors p).toList k₁.descriptors.list
    rw [joinQueue_eq hjoin]
    change (k'.pcbs.descriptors p).toList k'.descriptors.list = _
    rw [hlists, hdescs]
  cases hvalue : k.resources.value r with
  | some q =>
    have hvalue₁ : (k₁.secondCall p id mode).resources.value r = some q := h.value.trans hvalue
    obtain ⟨k₂, hjoin, hret⟩ :=
      joinQueue_takes (k := k₁.secondCall p id mode) h.type h.descriptor q mode
    refine ⟨k₂, ?_, hnodes (k₁.secondCall p id mode) k₂ q rfl rfl hjoin, ?_⟩
    · rw [internalOpenQueue_of_value hp hlookup hvalue₁, hjoin]
    · have husers : (k₁.secondCall p id mode).queueUsers = k.queueUsers := h.queueUsers
      have hheads : (k₁.secondCall p id mode).askedHeads q mode allRoles = k.joinHeads r mode := by
        have hqueues : (k₁.secondCall p id mode).queues = k.queues := h.queues
        unfold askedHeads joinHeads
        rw [hvalue, hqueues]
        rfl
      rw [hret, husers, hheads]
  | none =>
    have hvalue₁ : (k₁.secondCall p id mode).resources.value r = none := h.value.trans hvalue
    have hsome : (k₁.secondCall p id mode).queues.allocator.getBlock.1 ≠ none := by
      have hqueues : (k₁.secondCall p id mode).queues = k.queues := h.queues
      rw [hqueues]
      exact hqueue.resolve_left fun hne ↦ hne hvalue
    obtain ⟨q, k₂, halloc⟩ := queueAlloc_some hsome
    have hframe := (queueAlloc_eq halloc).2
    obtain ⟨husers, hlists⟩ := queueAlloc_heads halloc
    have htype : k₂.resources.type r = 2 := by
      rw [hframe]
      exact h.type
    have hdescriptor : k₂.descriptorByFd p (k.pcbs.lastFd p) = some (some d) := by
      rw [hframe]
      exact h.descriptor
    obtain ⟨k₃, hjoin, hret⟩ := joinQueue_takes
      (k := { k₂ with resources.value := update k₂.resources.value r (some q) }) htype hdescriptor q
      mode
    refine ⟨k₃, ?_, hnodes _ k₃ q ?_ ?_ hjoin, ?_⟩
    · rw [internalOpenQueue_of_queueAlloc hp hlookup hvalue₁ halloc, hjoin]
    · rw [hframe]
      rfl
    · rw [hframe]
      rfl
    · have husers' : k₂.queueUsers = k.queueUsers := husers.trans h.queueUsers
      have hheads : { k₂ with resources.value := update k₂.resources.value r (some q) }.askedHeads q
          mode allRoles = k.joinHeads r mode := by
        unfold askedHeads joinHeads
        rw [hvalue]
        exact List.map_congr_left fun role _ ↦ hlists role
      rw [hret, hheads, husers']

/-- Giving up a resource without a queue ends. -/
theorem giveUpResource_isSome {x : Addr} (hok : k.files.Ok) (hp : k.running = some p)
    (hfound : k.resourceById id = some (some r)) (hvalue : k.resources.value r = none)
    (hopen : k.descriptorByFd p fd = some (some d)) (hptr : k.descriptors.ptr d = some x) :
    (k.giveUpResource p id fd).isSome := by
  have hptr' : (k.detachDescriptor p (some d)).descriptors.ptr d = some x := hptr
  have hclose : ∃ k₁, internalCloseResource fd k = some k₁ := by
    rw [internalCloseResource, hp, Option.bind_eq_bind, Option.bind_some, hopen,
      Option.bind_eq_bind, Option.bind_some]
    simp only [hptr', Option.bind_some]
    exact ⟨_, rfl⟩
  obtain ⟨k₁, hclose⟩ := hclose
  obtain ⟨p', hp', ⟨hnone, -⟩ | ⟨d', x', hd', hx', hfiles, hret⟩⟩ := internalCloseResource_files hclose
  · obtain rfl := Option.some.inj (hp.symm.trans hp')
    rw [hopen] at hnone
    cases Option.some.inj hnone
  · obtain rfl := Option.some.inj (hp.symm.trans hp')
    have hok₁ : k₁.files.Ok := by
      rw [hfiles]
      exact (Files.Holds.drop hok (descriptorByFd_some hok hd').1 hx').ok
    have hframe := internalCloseResource_eq hclose
    have hp₁ : k₁.running = some p := by
      rw [hframe]
      exact hp
    have hfound₁ : k₁.resourceById id = some (some r) := by
      rw [hframe]
      exact hfound
    have hvalue₁ : (k₁.detachResource (some r)).resources.value r = none := by
      rw [hframe]
      exact hvalue
    have hdestroy : ∃ k₂, internalDestroyResource id k₁ = some k₂ := by
      rw [internalDestroyResource, hp₁, Option.bind_eq_bind, Option.bind_some, hfound₁,
        Option.bind_eq_bind, Option.bind_some]
      by_cases hsize : (k₁.resources.descriptorsPtrs r).size = 0
      · have hempty := hok₁.pointerLists.represents r
        rw [Files.Holds.unused hok₁ hsize] at hempty
        have hfree : (k₁.detachResource (some r)).freeValue r =
            some (k₁.detachResource (some r)) := by rw [freeValue, hvalue₁]
        have hfirst : (k₁.resources.descriptorsPtrs r).first = none := hempty.first
        have hlast : (k₁.resources.descriptorsPtrs r).last = none := hempty.last
        have hresource : ∃ k₂, (k₁.detachResource (some r)).resourceFree r = some k₂ :=
          ⟨_, if_neg (by simp [detachResource, hfirst, hlast])⟩
        obtain ⟨k₂, hresource⟩ := hresource
        simp only [hsize, ne_eq, not_true_eq_false, if_false, Option.bind_eq_bind, hfree,
          Option.bind_some, hresource]
        exact ⟨_, rfl⟩
      · exact ⟨_, if_pos hsize⟩
    obtain ⟨k₂, hdestroy⟩ := hdestroy
    rw [giveUpResource, hclose, Option.bind_eq_bind, Option.bind_some, if_neg (not_not.mpr hret),
      hdestroy, Option.bind_some]
    split_ifs <;> rfl

/-! ### The whole call -/

/-- The state in which `dmq_open` makes its first call. -/
def firstCall (k : Kernel) (p : Addr) (id : ℤ) (mode : BitVec 32) : Kernel :=
  k.trap p (.openResult id mode) (.openResource id 2 (resourceFlags mode))

/-- `dmq_open` returns the error of its first call. -/
theorem dmqCall_open_failed {ret : ℤ} (h : k.At p (.user ret))
    (hopen : internalOpenResource id 2 (resourceFlags mode) (k.firstCall p id mode) = some k₁)
    (hneg : k₁.pcbs.syscallRetvalue p < 0) :
    dmqCall (.openQueue id mode) k = some (k₁.setContext p (.user (k₁.pcbs.syscallRetvalue p))) := by
  unfold firstCall at hopen
  rw [dmqCall_open h, hopen, Option.bind_some, if_pos hneg]

/-- `dmq_open` returns the result of its second call. -/
theorem dmqCall_open_opened {k₂ : Kernel} {ret : ℤ} (h : k.At p (.user ret)) (hok : k.files.Ok)
    (hopen : internalOpenResource id 2 (resourceFlags mode) (k.firstCall p id mode) = some k₁)
    (hopened : (k.firstCall p id mode).Opened p id r d k₁)
    (hsecond : internalOpenQueue id (k.pcbs.lastFd p) mode (k₁.secondCall p id mode) = some k₂) :
    dmqCall (.openQueue id mode) k = some (k₂.setContext p (.user (k₂.pcbs.syscallRetvalue p))) := by
  have hret : k₁.pcbs.syscallRetvalue p = k.pcbs.lastFd p := hopened.retvalue
  have hnonneg : 0 ≤ k.pcbs.lastFd p := hok.lastFd_nonneg p
  unfold firstCall at hopen
  rw [dmqCall_open h, hopen, Option.bind_some, hret, if_neg (not_lt.mpr hnonneg), hsecond,
    Option.bind_some]

end Kernel

end DisastrOS
