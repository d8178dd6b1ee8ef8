import DisastrOS.Library.Runs
import DisastrOS.QueueUsers

/-!
# Errors of an opening

`internal_openQueue` compares none of its arguments with the tables before it starts to change them. It
validates them exactly when they are good anyway, or fail before the first change (`validates_iff`).
-/

set_option autoImplicit false
set_option relaxedAutoImplicit false

namespace DisastrOS

open LinkedLists PoolAllocator
open Function (update)

variable {k k' k₁ : Kernel} {users : Addr × Role → List Addr} {p r d q : Addr} {id fd : ℤ}
  {mode : BitVec 32}

/-- The descriptors, the resources and the users of the queues are in order. -/
structure Kernel.QueuesInOrder (k : Kernel) : Prop where
  files : k.files.Ok
  users : ∃ users, k.UsersOrdered users

namespace Kernel

/-! ### What `OPEN_QUEUE` does, by the state of the resource -/

theorem internalOpenQueue_of_value (hp : k.running = some p)
    (hfound : k.resourceById id = some (some r)) (hvalue : k.resources.value r = some q) :
    internalOpenQueue id fd mode k = k.joinQueue p r q fd mode := by
  rw [internalOpenQueue, hp, hfound]
  simp only [Option.bind_eq_bind, Option.bind_some, hvalue]

theorem internalOpenQueue_of_queueAlloc (hp : k.running = some p)
    (hfound : k.resourceById id = some (some r)) (hvalue : k.resources.value r = none)
    (halloc : k.queueAlloc = (some q, k₁)) :
    internalOpenQueue id fd mode k =
      { k₁ with resources.value := update k₁.resources.value r (some q) }.joinQueue p r q fd
        mode := by
  rw [internalOpenQueue, hp, hfound]
  simp only [Option.bind_eq_bind, Option.bind_some, hvalue, halloc]

theorem internalOpenQueue_of_noQueue (hp : k.running = some p)
    (hfound : k.resourceById id = some (some r)) (hvalue : k.resources.value r = none)
    (halloc : k.queueAlloc = (none, k)) :
    internalOpenQueue id fd mode k = k.giveUpResource p id fd := by
  rw [internalOpenQueue, hp, hfound]
  simp only [Option.bind_eq_bind, Option.bind_some, hvalue, halloc]

theorem queueAlloc_eq {o : Option Addr} (halloc : k.queueAlloc = (o, k₁)) :
    o = k.queues.allocator.getBlock.1 ∧ k₁ = { k with queues := k₁.queues } := by
  rcases hget : k.queues.allocator.getBlock with ⟨_ | q, pool⟩
  · simp only [queueAlloc, hget, Prod.mk.injEq] at halloc
    obtain ⟨rfl, rfl⟩ := halloc
    exact ⟨rfl, rfl⟩
  · simp only [queueAlloc, hget, Prod.mk.injEq] at halloc
    obtain ⟨rfl, rfl⟩ := halloc
    exact ⟨rfl, rfl⟩

theorem queueAlloc_none (hnone : k.queues.allocator.getBlock.1 = none) :
    k.queueAlloc = (none, k) := by
  rcases hget : k.queues.allocator.getBlock with ⟨_ | q, pool⟩
  · simp [queueAlloc, hget]
  · rw [hget] at hnone
    exact absurd hnone (Option.some_ne_none q)

theorem queueAlloc_some (hsome : k.queues.allocator.getBlock.1 ≠ none) :
    ∃ q k₁, k.queueAlloc = (some q, k₁) := by
  rcases halloc : k.queueAlloc with ⟨_ | q, k₁⟩
  · exact absurd (queueAlloc_eq halloc).1.symm hsome
  · exact ⟨q, k₁, rfl⟩

/-- A descriptor that is not open is refused before anything changes. -/
theorem giveUpResource_of_notOpen (hp : k.running = some p)
    (hfound : k.descriptorByFd p fd = some none) (id : ℤ) :
    k.giveUpResource p id fd = some (k.setRetvalue p dsosEresourceclose) := by
  have hclose : k.internalCloseResource fd = some (k.setRetvalue p dsosEresourceclose) := by
    rw [internalCloseResource, hp, Option.bind_eq_bind, Option.bind_some, hfound]
    rfl
  have hret : (k.setRetvalue p dsosEresourceclose).pcbs.syscallRetvalue p ≠ 0 := by
    change update k.pcbs.syscallRetvalue p dsosEresourceclose p ≠ 0
    rw [Function.update_self]
    decide
  rw [giveUpResource, hclose, Option.bind_eq_bind, Option.bind_some, if_pos hret]

/-- Giving up a descriptor that is open takes it from the process. -/
theorem giveUpResource_takes (h : k.files.Ok) (hp : k.running = some p)
    (hfound : k.resourceById id = some (some r)) (hopen : k.descriptorByFd p fd = some (some d))
    (hgive : k.giveUpResource p id fd = some k') :
    k'.files.descriptorNodes p = (k.files.descriptorNodes p).erase d ∧
      d ∈ k.files.descriptorNodes p ∧ k'.resources.value = k.resources.value := by
  have hd := (descriptorByFd_some h hopen).1
  obtain ⟨-, ⟨hnone, -⟩ | ⟨d', x, hd', hx, hfiles⟩⟩ := giveUpResource_files hp hfound hgive
  · rw [hopen] at hnone
    cases Option.some.inj hnone
  · rw [hopen] at hd'
    obtain rfl := Option.some.inj (Option.some.inj hd')
    have hnodes := congrFun (Files.Holds.drop h hd hx).descriptorNodes_eq p
    rw [Function.update_self] at hnodes
    refine ⟨?_, hd, ?_⟩
    · rcases hfiles with ⟨-, hfiles⟩ | ⟨-, hfiles⟩
      · rw [hfiles]
        exact hnodes
      · rw [hfiles]
        exact hnodes
    · rcases hfiles with ⟨-, hfiles⟩ | ⟨-, hfiles⟩
      · exact congrArg (·.resources.value) hfiles
      · exact congrArg (·.resources.value) hfiles

/-! ### Validation -/

/-- `OPEN_QUEUE` has succeeded: the descriptor is one the process has of the queue resource with the
id, and each entry that the mode asks for is in the list of its role of the queue of that resource. -/
structure OpensSoundly (k : Kernel) (p : Addr) (id fd : ℤ) (mode : BitVec 32) (r d q : Addr)
    (k' : Kernel) : Prop where
  retvalue : k'.pcbs.syscallRetvalue p = fd
  resource : k.resourceById id = some (some r)
  type : k.resources.type r = 2
  descriptor : k.descriptorByFd p fd = some (some d)
  same : k.descriptors.resource d = r
  value : k'.resources.value r = some q
  entries : ∀ role, hasBit mode (roleBit role) = true → ∃ u, k'.descriptors.rwn d role = some u ∧
    u ∈ (k'.queues.users (q, role)).toList k'.queueUsers.list

/-- `OPEN_QUEUE` has set an error, and has changed neither the descriptors and the resources, nor the
queues and what belongs to them. -/
structure RefusesCleanly (k : Kernel) (p : Addr) (k' : Kernel) : Prop where
  retvalue : k'.pcbs.syscallRetvalue p < 0
  files : k'.files = k.files
  queues : k'.queues = k.queues
  queueUsers : k'.queueUsers = k.queueUsers
  messages : k'.messages = k.messages ∧ k'.msgStrings = k.msgStrings

/-- `OPEN_QUEUE` ends, and has succeeded or was refused. -/
def Validates (k : Kernel) (p : Addr) (id fd : ℤ) (mode : BitVec 32) : Prop :=
  ∃ k', internalOpenQueue id fd mode k = some k' ∧
    ((∃ r d q, k.OpensSoundly p id fd mode r d q k') ∨ k.RefusesCleanly p k')

/-- The process has the descriptor, it is one of the resource, and there is a block for each role. -/
def CanJoin (k : Kernel) (p r : Addr) (fd : ℤ) (mode : BitVec 32) : Prop :=
  ∃ d, k.descriptorByFd p fd = some (some d) ∧ k.descriptors.resource d = r ∧
    (askedRoles mode allRoles).length ≤ k.queueUsers.allocator.size

/-- No block is left, and the descriptor has no entry yet for the first role asked for. -/
def JoinFails (k : Kernel) (p : Addr) (fd : ℤ) (mode : BitVec 32) : Prop :=
  k.queueUsers.allocator.size = 0 ∧ ∃ d, k.descriptorByFd p fd = some (some d) ∧
    ∃ role ∈ (askedRoles mode allRoles).head?, k.descriptors.rwn d role = none

/-- The resource is there. If it has a queue or gets one, it is of the type of queues and the process can
join; or it has one, and is of another type or the process fails to join at once; or there is no queue
left to give it, and the process does not have the descriptor. -/
def ArgumentsMatch (k : Kernel) (p : Addr) (id fd : ℤ) (mode : BitVec 32) : Prop :=
  ∃ r, k.resourceById id = some (some r) ∧
    ((k.resources.value r ≠ none ∨ k.queues.allocator.getBlock.1 ≠ none) ∧
        k.resources.type r = 2 ∧ k.CanJoin p r fd mode ∨
      k.resources.value r ≠ none ∧ (k.resources.type r ≠ 2 ∨ k.JoinFails p fd mode) ∨
      k.resources.value r = none ∧ k.queues.allocator.getBlock.1 = none ∧
        k.descriptorByFd p fd = some none)

theorem OpensSoundly.resource_eq {r' : Addr} (h : k.OpensSoundly p id fd mode r' d q k')
    (hfound : k.resourceById id = some (some r)) : r' = r :=
  Option.some.inj (Option.some.inj (h.resource.symm.trans hfound))

theorem OpensSoundly.entry (h : k.OpensSoundly p id fd mode r d q k') (role : Role)
    (hbit : hasBit mode (roleBit role) = true) : ∃ u, k'.descriptors.rwn d role = some u := by
  obtain ⟨u, hu, -⟩ := h.entries role hbit
  exact ⟨u, hu⟩

theorem UsersOrdered.setValue (h : k.UsersOrdered users) (r : Addr) (value : Option Addr) :
    { k with resources.value := update k.resources.value r value }.UsersOrdered users :=
  h.congr rfl rfl

/-- Joining a queue succeeds if the process can join. -/
theorem UsersOrdered.joinQueue_sound (h : k.UsersOrdered users) (htype : k.resources.type r = 2)
    (hvalue : k.resources.value r = some q) (hcan : k.CanJoin p r fd mode) :
    ∃ k' d, k.joinQueue p r q fd mode = some k' ∧ k'.pcbs.syscallRetvalue p = fd ∧
      k.descriptorByFd p fd = some (some d) ∧ k.descriptors.resource d = r ∧
      k'.resources.value r = some q ∧
      ∀ role, hasBit mode (roleBit role) = true → ∃ u, k'.descriptors.rwn d role = some u ∧
        u ∈ (k'.queues.users (q, role)).toList k'.queueUsers.list := by
  obtain ⟨d, hfound, hsame, hfree⟩ := hcan
  obtain ⟨k₁, users₁, hjoined, hjoin⟩ := h.joinQueue htype hfound hfree q
  refine ⟨_, d, hjoin, ?_, hfound, hsame, ?_, ?_⟩
  · change update k₁.pcbs.syscallRetvalue p fd p = fd
    rw [Function.update_self]
  · have hvalue₁ : k₁.resources.value r = some q := by
      rw [hjoined.frame]
      exact hvalue
    exact hvalue₁
  · intro role hbit
    have hasked : role ∈ askedRoles mode allRoles :=
      List.mem_filter.mpr ⟨by cases role <;> decide, hbit⟩
    obtain ⟨u, hu, hlist, -⟩ := hjoined.entry role hasked
    refine ⟨u, hu, ?_⟩
    change u ∈ (k₁.queues.users (q, role)).toList k₁.queueUsers.list
    rw [(hjoined.listed.lists.represents (q, role)).toList_eq, hlist]
    exact List.mem_append_right _ (List.mem_singleton_self u)

/-- If the process has got its entries from joining a queue, it could join. -/
theorem UsersOrdered.canJoin (h : k.UsersOrdered users)
    (hjoin : k.joinQueue p r q fd mode = some k') (htype : k.resources.type r = 2)
    (hd : k.descriptorByFd p fd = some (some d)) (hsame : k.descriptors.resource d = r)
    (hentries : ∀ role, hasBit mode (roleBit role) = true → ∃ u, k'.descriptors.rwn d role = some u) :
    k.CanJoin p r fd mode := by
  obtain ⟨hne, -⟩ | ⟨-, ⟨hnone, -⟩ | ⟨d', hd', ⟨hfree, -⟩ |
    ⟨-, k₁, rfl, -, ⟨last, hlast, hnull⟩, -⟩⟩⟩ := h.joinQueue_cases hjoin
  · exact absurd htype hne
  · rw [hnone] at hd
    cases Option.some.inj hd
  · rw [hd] at hd'
    obtain rfl := Option.some.inj (Option.some.inj hd')
    exact ⟨d, hd, hsame, hfree⟩
  · rw [hd] at hd'
    obtain rfl := Option.some.inj (Option.some.inj hd')
    obtain ⟨u, hu⟩ := hentries last (List.mem_filter.mp hlast).2
    have hu' : k₁.descriptors.rwn d last = some u := hu
    rw [hnull] at hu'
    cases hu'

/-- Joining a queue changes nothing only if the type is another or the process fails to join at once. -/
theorem UsersOrdered.joinFails (h : k.UsersOrdered users)
    (hjoin : k.joinQueue p r q fd mode = some k') (hfiles : k'.files = k.files)
    (hqueues : k'.queues = k.queues) (husers : k'.queueUsers = k.queueUsers) :
    k.resources.type r ≠ 2 ∨ k.JoinFails p fd mode := by
  obtain ⟨htype, rfl⟩ | ⟨htype, ⟨hnone, rfl⟩ | ⟨d, hfound, ⟨hfree, k₁, users₁, hjoined, rfl⟩ |
    ⟨hfull, k₁, rfl, hsize, -, hframe, hfirst⟩⟩⟩ := h.joinQueue_cases hjoin
  · exact Or.inl htype
  · have hopenings := congrFun (congrArg Queues.openings hqueues) q
    simp [setRetvalue] at hopenings
  · have hopenings := congrFun (congrArg Queues.openings hqueues) q
    have hsame : k₁.queues.openings = k.queues.openings := by rw [hjoined.frame]
    simp [setRetvalue, hsame] at hopenings
  · have hzero : k.queueUsers.allocator.size = 0 := by
      rw [← husers]
      exact hsize
    obtain ⟨first, hhead, hk₁⟩ := hfirst hzero
    have hrwn : k₁.descriptors.rwn d first = k.descriptors.rwn d first :=
      congrArg (fun f : Files ↦ f.descriptors.rwn d first) hfiles
    have hnull : k₁.descriptors.rwn d first = none := by
      rw [hk₁]
      simp
    exact Or.inr ⟨hzero, d, hfound, first, hhead, hrwn.symm.trans hnull⟩

/-- The call goes well under the condition. -/
theorem QueuesInOrder.validates (h : k.QueuesInOrder) (hp : k.running = some p)
    (hmatch : k.ArgumentsMatch p id fd mode) : k.Validates p id fd mode := by
  obtain ⟨users, husers⟩ := h.users
  obtain ⟨r, hfound, ⟨hqueue, htype, hcan⟩ | ⟨hvalue, hfails⟩ | ⟨hvalue, hnone, hnotOpen⟩⟩ := hmatch
  · cases hvalue : k.resources.value r with
    | some q =>
      obtain ⟨k', d, hjoin, hret, hd, hsame, hvalue', hentries⟩ :=
        husers.joinQueue_sound htype hvalue hcan
      refine ⟨k', ?_, Or.inl ⟨r, d, q, hret, hfound, htype, hd, hsame, hvalue', hentries⟩⟩
      rw [internalOpenQueue_of_value hp hfound hvalue, hjoin]
    | none =>
      obtain ⟨q, k₁, halloc⟩ := queueAlloc_some (hqueue.resolve_left fun hne ↦ hne hvalue)
      have hframe := (queueAlloc_eq halloc).2
      obtain ⟨users₁, husers₁, -⟩ := husers.queueAlloc halloc
      obtain ⟨k', d, hjoin, hret, hd, hsame, hvalue', hentries⟩ :=
        (husers₁.setValue r (some q)).joinQueue_sound (p := p) (by rw [hframe]; exact htype)
          (Function.update_self ..) (by rw [hframe]; exact hcan)
      refine ⟨k', ?_, Or.inl ⟨r, d, q, hret, hfound, htype, ?_, ?_, hvalue', hentries⟩⟩
      · rw [internalOpenQueue_of_queueAlloc hp hfound hvalue halloc, hjoin]
      · rw [hframe] at hd
        exact hd
      · rw [hframe] at hsame
        exact hsame
  · obtain ⟨q, hq⟩ := Option.ne_none_iff_exists'.mp hvalue
    by_cases htype : k.resources.type r = 2
    · obtain ⟨hzero, d, hd, first, hhead, hnull⟩ := hfails.resolve_left (not_not.mpr htype)
      have hasked : askedRoles mode allRoles ≠ [] := by
        rintro hnil
        rw [hnil] at hhead
        cases hhead
      have hpos := List.length_pos_of_ne_nil hasked
      obtain ⟨k₁, hjoin, -, -, -, hfirst⟩ :=
        husers.joinQueue_full (p := p) htype hd (by rw [hzero]; exact_mod_cast hpos) q
      obtain ⟨first', hhead', hk₁⟩ := hfirst hzero
      obtain rfl : first' = first := Option.mem_unique hhead' hhead
      have hrwn : update k.descriptors.rwn d (update (k.descriptors.rwn d) first' none) =
          k.descriptors.rwn := by
        rw [← hnull, Function.update_eq_self, Function.update_eq_self]
      rw [hrwn] at hk₁
      refine ⟨k.setRetvalue p listInsertionError, ?_, Or.inr ⟨?_, rfl, rfl, rfl, rfl, rfl⟩⟩
      · rw [internalOpenQueue_of_value hp hfound hq, hjoin, hk₁]
      · change update k.pcbs.syscallRetvalue p listInsertionError p < 0
        rw [Function.update_self]
        decide
    · refine ⟨k.setRetvalue p invalidFd, ?_, Or.inr ⟨?_, rfl, rfl, rfl, rfl, rfl⟩⟩
      · rw [internalOpenQueue_of_value hp hfound hq, joinQueue_type htype]
      · change update k.pcbs.syscallRetvalue p invalidFd p < 0
        rw [Function.update_self]
        decide
  · refine ⟨k.setRetvalue p dsosEresourceclose, ?_, Or.inr ⟨?_, rfl, rfl, rfl, rfl, rfl⟩⟩
    · rw [internalOpenQueue_of_noQueue hp hfound hvalue (queueAlloc_none hnone),
        giveUpResource_of_notOpen hp hnotOpen]
    · change update k.pcbs.syscallRetvalue p dsosEresourceclose p < 0
      rw [Function.update_self]
      decide

/-- It goes well under no other. -/
theorem QueuesInOrder.argumentsMatch (h : k.QueuesInOrder) (hp : k.running = some p)
    (hvalid : k.Validates p id fd mode) : k.ArgumentsMatch p id fd mode := by
  obtain ⟨users, husers⟩ := h.users
  obtain ⟨k', hopen, hvalid⟩ := hvalid
  obtain ⟨p', r, hp', hfound, ⟨q, hvalue, hjoin⟩ | ⟨hvalue, ⟨q, k₁, halloc, hjoin⟩ |
    ⟨halloc, hgive⟩⟩⟩ := internalOpenQueue_cases hopen
  · obtain rfl := Option.some.inj (hp.symm.trans hp')
    refine ⟨r, hfound, ?_⟩
    have hne : k.resources.value r ≠ none := by simp [hvalue]
    rcases hvalid with ⟨r', d, q', hsound⟩ | hrefused
    · obtain rfl := hsound.resource_eq hfound
      exact Or.inl ⟨Or.inl hne, hsound.type, husers.canJoin hjoin hsound.type hsound.descriptor
        hsound.same hsound.entry⟩
    · exact Or.inr (Or.inl ⟨hne, husers.joinFails hjoin hrefused.files hrefused.queues
        hrefused.queueUsers⟩)
  · obtain rfl := Option.some.inj (hp.symm.trans hp')
    obtain ⟨hq, hframe⟩ := queueAlloc_eq halloc
    have hset : k'.resources.value r = some q := by
      rw [joinQueue_eq hjoin]
      exact Function.update_self ..
    rcases hvalid with ⟨r', d, q', hsound⟩ | hrefused
    · obtain rfl := hsound.resource_eq hfound
      obtain ⟨users₁, husers₁, -⟩ := husers.queueAlloc halloc
      refine ⟨r', hfound, Or.inl ⟨Or.inr (hq ▸ Option.some_ne_none q), hsound.type, ?_⟩⟩
      have hcan := (husers₁.setValue r' (some q)).canJoin hjoin (by rw [hframe]; exact hsound.type)
        (by rw [hframe]; exact hsound.descriptor) (by rw [hframe]; exact hsound.same) hsound.entry
      rw [hframe] at hcan
      exact hcan
    · have hsame := congrArg (fun f : Files ↦ f.resources.value r) hrefused.files
      have hsome : some q = k.resources.value r := hset.symm.trans hsame
      rw [hvalue] at hsome
      cases hsome
  · obtain rfl := Option.some.inj (hp.symm.trans hp')
    have hnone : k.queues.allocator.getBlock.1 = none := by
      by_contra hsome
      obtain ⟨q, k₁, halloc'⟩ := queueAlloc_some hsome
      cases (Prod.mk.inj (halloc.symm.trans halloc')).1
    refine ⟨r, hfound, Or.inr (Or.inr ⟨hvalue, hnone, ?_⟩)⟩
    cases hopened : k.descriptorByFd p fd with
    | none =>
      obtain ⟨k₁, hclose, -⟩ := Option.bind_eq_some_iff.mp hgive
      rw [internalCloseResource, hp, Option.bind_eq_bind, Option.bind_some, hopened] at hclose
      exact absurd hclose (Option.some_ne_none k₁).symm
    | some ds =>
      cases ds with
      | none => rfl
      | some d =>
        obtain ⟨hnodes, hd, hvalues⟩ := giveUpResource_takes h.files hp hfound hopened hgive
        rcases hvalid with ⟨r', d', q, hsound⟩ | hrefused
        · obtain rfl := hsound.resource_eq hfound
          have hq := hsound.value
          rw [hvalues, hvalue] at hq
          cases hq
        · rw [hrefused.files] at hnodes
          have hlength := List.length_erase_of_mem hd
          have hpos := List.length_pos_of_mem hd
          rw [← hnodes] at hlength
          omega

end Kernel

/-! ### Reaching a consistent state -/

theorem Layout.boot_usersOrdered (layout : Layout) : layout.boot.UsersOrdered fun _ ↦ [] := by
  obtain ⟨hok, -⟩ := freshPool_ok (by decide : 1 ≤ sizeofQueueUser)
    (by decide : 1 ≤ maxNumProcesses) (by decide) layout.queueUsersBuffer
  exact
    { lists := threads_empty.toFamily
      pool := hok
      allocated := fun _ _ hu ↦ absurd hu List.not_mem_nil
      unlinked := fun _ _ ↦ rfl }

theorem Layout.boot_queuesInOrder (layout : Layout) : layout.boot.QueuesInOrder :=
  ⟨layout.boot_filesOk, _, layout.boot_usersOrdered⟩

theorem Kernel.QueuesInOrder.start (h : k.QueuesInOrder) (hstep : k.step .start = some k') :
    k'.QueuesInOrder := by
  obtain ⟨users, husers⟩ := h.users
  have hrequest : k.request .start ≠ some .shutdown := by
    unfold Kernel.request
    simp
  refine ⟨Kernel.filesOk_step h.files hrequest hstep, users, ?_⟩
  obtain ⟨-, p, pool, -, rfl⟩ := startProcess_cases hstep
  exact husers.congr rfl rfl

theorem Kernel.QueuesInOrder.openResource (h : k.QueuesInOrder) {id type : ℤ} {mode : BitVec 32}
    (hstep : k.step (.syscall (.openResource id type mode)) = some k') : k'.QueuesInOrder := by
  obtain ⟨users, husers⟩ := h.users
  have hrequest : k.request (.syscall (.openResource id type mode)) ≠ some .shutdown := by
    unfold Kernel.request
    simp
  refine ⟨Kernel.filesOk_step h.files hrequest hstep, users, ?_⟩
  have hcall : k.disastrOSSyscall (.openResource id type mode) = some k' := by
    unfold Kernel.step at hstep
    split_ifs at hstep
    exact hstep
  obtain ⟨p, -, hopen⟩ := Option.bind_eq_some_iff.mp hcall
  have hframe := internalOpenResource_eq hopen
  exact husers.congr (by rw [hframe]) (by rw [hframe])

/-- With enough blocks, `OPEN_QUEUE` keeps the lists of the users in order. -/
theorem Kernel.internalOpenQueue_usersOrdered (h : ∃ users, k.UsersOrdered users)
    (hopen : Kernel.internalOpenQueue id fd mode k = some k')
    (hfree : (Kernel.askedRoles mode Kernel.allRoles).length ≤ k.queueUsers.allocator.size) :
    ∃ users, k'.UsersOrdered users := by
  obtain ⟨users, husers⟩ := h
  have hjoins : ∀ (k₁ : Kernel) users p r q, k₁.UsersOrdered users →
      k₁.queueUsers = k.queueUsers → k₁.joinQueue p r q fd mode = some k' →
        ∃ users, k'.UsersOrdered users := by
    intro k₁ users p r q husers hsame hjoin
    obtain ⟨-, rfl⟩ | ⟨-, ⟨-, rfl⟩ | ⟨d, -, ⟨-, k₂, users₂, hjoined, rfl⟩ | ⟨hfull, -⟩⟩⟩ :=
      husers.joinQueue_cases hjoin
    · exact ⟨users, husers.congr rfl rfl⟩
    · exact ⟨users, husers.congr rfl rfl⟩
    · exact ⟨users₂, hjoined.listed.congr rfl rfl⟩
    · rw [hsame] at hfull
      exact absurd hfree (not_le.mpr hfull)
  obtain ⟨p, r, -, hfound, ⟨q, -, hjoin⟩ | ⟨hvalue, ⟨q, k₁, halloc, hjoin⟩ | ⟨-, hgive⟩⟩⟩ :=
    Kernel.internalOpenQueue_cases hopen
  · exact hjoins k users p r q husers rfl hjoin
  · obtain ⟨users₁, husers₁, -⟩ := husers.queueAlloc halloc
    refine hjoins _ users₁ p r q (husers₁.setValue r (some q)) ?_ hjoin
    rw [(Kernel.queueAlloc_eq halloc).2]
  · obtain ⟨-, -, hqueues, husers'⟩ := Kernel.giveUpResource_store hfound hvalue hgive
    exact ⟨users, husers.congr husers' (congrArg (·.users) hqueues)⟩

theorem Kernel.QueuesInOrder.openQueue (h : k.QueuesInOrder)
    (hstep : k.step (.syscall (.openQueue id fd mode)) = some k')
    (hfree : (Kernel.askedRoles mode Kernel.allRoles).length ≤ k.queueUsers.allocator.size) :
    k'.QueuesInOrder := by
  obtain ⟨users, husers⟩ := h.users
  have hrequest : k.request (.syscall (.openQueue id fd mode)) ≠ some .shutdown := by
    unfold Kernel.request
    simp
  refine ⟨Kernel.filesOk_step h.files hrequest hstep, ?_⟩
  have hcall : k.disastrOSSyscall (.openQueue id fd mode) = some k' := by
    unfold Kernel.step at hstep
    split_ifs at hstep
    exact hstep
  obtain ⟨p, -, hopen⟩ := Option.bind_eq_some_iff.mp hcall
  refine Kernel.internalOpenQueue_usersOrdered ⟨users, ?_⟩ hopen hfree
  exact husers.congr rfl rfl

/-- In every consistent state, for all arguments: `internal_openQueue` validates them exactly if they
match or fail before the first change. -/
theorem validates_iff {k : Kernel} {p : Addr} (h : k.QueuesInOrder) (hp : k.running = some p)
    (id fd : ℤ) (mode : BitVec 32) : k.Validates p id fd mode ↔ k.ArgumentsMatch p id fd mode :=
  ⟨h.argumentsMatch hp, h.validates hp⟩

/-- The first process opens a resource of the type of queues, and then its queue. -/
theorem validates_iff_newQueue : ∃ k p,
    Runs.run Kernel.step sampleLayout.boot [.start, .syscall (.openResource 0 2 dsosCreate)] =
      some k ∧ k.running = some p ∧ k.Validates p 0 0 0o3 := by
  have hends : ((Runs.run Kernel.step sampleLayout.boot
      [.start, .syscall (.openResource 0 2 dsosCreate)]).any fun k ↦
        decide (k.running = some 0x400000 ∧ k.resourceById 0 = some (some 0x1800000) ∧
          k.queues.allocator.getBlock.1 ≠ none ∧ k.resources.type 0x1800000 = 2 ∧
          k.descriptorByFd 0x400000 0 = some (some 0x2200000) ∧
          k.descriptors.resource 0x2200000 = 0x1800000 ∧
          k.queueUsers.allocator.size = maxNumProcesses)) = true := by decide +kernel
  obtain ⟨k, hk, hstate⟩ := (Option.any_eq_true _ _).mp hends
  obtain ⟨hp, hfound, hqueue, htype, hd, hsame, hsize⟩ := of_decide_eq_true hstate
  have hordered : k.QueuesInOrder := by
    obtain ⟨k₁, hstart, hrest⟩ := Option.bind_eq_some_iff.mp hk
    obtain ⟨k₂, hopen, hlast⟩ := Option.bind_eq_some_iff.mp hrest
    obtain rfl := Option.some.inj hlast
    exact (sampleLayout.boot_queuesInOrder.start hstart).openResource hopen
  refine ⟨k, 0x400000, hk, hp, (validates_iff hordered hp 0 0 0o3).mpr
    ⟨0x1800000, hfound, Or.inl ⟨Or.inr hqueue, htype, 0x2200000, hd, hsame, ?_⟩⟩⟩
  rw [hsize]
  decide

/-- The first process asks for the queue of a resource that is not there. -/
theorem unknownResource_not_validates : ∃ k p,
    Runs.run Kernel.step sampleLayout.boot [.start] = some k ∧ k.QueuesInOrder ∧
      k.running = some p ∧ k.atUser = true ∧ ¬ k.Validates p 5 0 1 := by
  have hends : ((Runs.run Kernel.step sampleLayout.boot [.start]).any fun k ↦
      decide (k.running = some 0x400000 ∧ k.atUser = true ∧
        (Kernel.internalOpenQueue 5 0 1 k).isNone = true)) = true := by decide +kernel
  obtain ⟨k, hk, hstate⟩ := (Option.any_eq_true _ _).mp hends
  obtain ⟨hp, huser, hnone⟩ := of_decide_eq_true hstate
  have hordered : k.QueuesInOrder := by
    obtain ⟨k₁, hstart, hlast⟩ := Option.bind_eq_some_iff.mp hk
    obtain rfl := Option.some.inj hlast
    exact sampleLayout.boot_queuesInOrder.start hstart
  refine ⟨k, 0x400000, hk, hordered, hp, huser, ?_⟩
  rintro ⟨k', hopen, -⟩
  rw [hopen] at hnone
  cases hnone

end DisastrOS
