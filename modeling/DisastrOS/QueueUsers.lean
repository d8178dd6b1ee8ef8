import DisastrOS.Files

/-!
# Opening a queue

`UsersOrdered` says that the lists of the users of the queues are in order, and that the free user
blocks carry no links. `Queue_add_pid` then enters a process under each role that the mode asks for,
if there are as many free blocks as roles (`UsersOrdered.addRoles`), and else stops at the role for
which there is no block left (`UsersOrdered.addRoles_full`).
-/

set_option autoImplicit false
set_option relaxedAutoImplicit false

namespace DisastrOS

open LinkedLists PoolAllocator
open Function (update)

namespace Kernel

variable {k k' k₁ : Kernel} {users users' users₁ : Addr × Role → List Addr} {q d u : Addr}
  {pid : ℤ} {mode : BitVec 32} {role : Role} {roles : List Role}

/-- The lists of users are well formed and made of allocated blocks, and the free blocks carry no
links. -/
structure UsersOrdered (k : Kernel) (users : Addr × Role → List Addr) : Prop where
  lists : Family k.queueUsers.list k.queues.users users
  pool : k.queueUsers.allocator.Ok
  allocated : ∀ i, ∀ u ∈ users i, k.queueUsers.allocator.Allocated u
  unlinked : ∀ u, ¬ k.queueUsers.allocator.Allocated u → k.queueUsers.list u = Links.unlinked

theorem UsersOrdered.congr (h : k.UsersOrdered users) (husers : k'.queueUsers = k.queueUsers)
    (hqueues : k'.queues.users = k.queues.users) : k'.UsersOrdered users where
  lists := by rw [husers, hqueues]; exact h.lists
  pool := by rw [husers]; exact h.pool
  allocated := by rw [husers]; exact h.allocated
  unlinked := by rw [husers]; exact h.unlinked

/-! ### One role -/

/-- A part of `Queue_add_pid` has put the block `u` at the end of the list of its role. -/
structure Entered (k : Kernel) (users : Addr × Role → List Addr) (q d : Addr) (pid : ℤ)
    (role : Role) (u : Addr) (k' : Kernel) : Prop where
  listed : k'.UsersOrdered (update users (q, role) (users (q, role) ++ [u]))
  free : ¬ k.queueUsers.allocator.Allocated u
  allocated : ∀ x, k'.queueUsers.allocator.Allocated x ↔
    x = u ∨ k.queueUsers.allocator.Allocated x
  size : k'.queueUsers.allocator.size = k.queueUsers.allocator.size - 1
  pid : k'.queueUsers.pid = update k.queueUsers.pid u pid
  rwn : k'.descriptors.rwn =
    update k.descriptors.rwn d (update (k.descriptors.rwn d) role (some u))
  frame : k' = { k with
    queueUsers := k'.queueUsers
    queues := { k.queues with users := k'.queues.users }
    descriptors := { k.descriptors with rwn := k'.descriptors.rwn } }

theorem queueAddRole_unasked (hbit : hasBit mode (roleBit role) = false) (ds : Option Addr) :
    k.queueAddRole q pid mode ds role = some (true, k) := by
  rw [Kernel.queueAddRole, if_neg (by simp [hbit])]

/-- The null descriptor is written to. -/
theorem queueAddRole_null (hbit : hasBit mode (roleBit role) = true) :
    k.queueAddRole q pid mode none role = none := by
  rw [Kernel.queueAddRole, if_pos hbit]
  rfl

theorem insertUser_null (k : Kernel) (i : Addr × Role) (prev : Option Addr) :
    k.insertUser i prev none = k := by
  have hsame : update k.queues.users i (k.queues.users i) = k.queues.users :=
    Function.update_eq_self i _
  unfold insertUser
  simp only [listInsert, hsame]

/-- With no block left, the entry of the descriptor is overwritten with null. -/
theorem UsersOrdered.queueAddRole_full (h : k.UsersOrdered users)
    (hbit : hasBit mode (roleBit role) = true) (hfull : k.queueUsers.allocator.size = 0) :
    k.queueAddRole q pid mode (some d) role = some (false, { k with
      descriptors.rwn :=
        update k.descriptors.rwn d (update (k.descriptors.rwn d) role none) }) := by
  rcases hget : k.queueUsers.allocator.getBlock with ⟨_ | u, pool⟩
  · unfold Kernel.queueAddRole
    rw [if_pos hbit]
    simp only [queueUserAlloc, hget, insertUser_null]
    rfl
  · have hnone := h.pool.getBlock_eq_none_iff.mpr hfull
    rw [hget] at hnone
    exact absurd hnone (Option.some_ne_none u)

/-- The state after block `u` was put at the end of the list of the role. -/
def enterUser (k : Kernel) (q d : Addr) (pid : ℤ) (role : Role) (u : Addr) : Kernel :=
  let entered := (k.queueUserAlloc pid).2.insertUser (q, role) (k.queues.users (q, role)).last
    (some u)
  { entered with
    descriptors.rwn := update k.descriptors.rwn d (update (k.descriptors.rwn d) role (some u)) }

theorem UsersOrdered.queueAddRole (h : k.UsersOrdered users)
    (hbit : hasBit mode (roleBit role) = true) (hfree : 0 < k.queueUsers.allocator.size)
    (q d : Addr) (pid : ℤ) :
    ∃ u, k.queueAddRole q pid mode (some d) role = some (true, k.enterUser q d pid role u) ∧
      k.Entered users q d pid role u (k.enterUser q d pid role u) := by
  rcases hget : k.queueUsers.allocator.getBlock with ⟨_ | u, pool⟩
  · have hzero := (h.pool.getBlock_none hget).2
    omega
  obtain ⟨hpool, -, hnotAllocated, hsize, hallocated⟩ := getBlock_some h.pool hget
  have hunlinked := h.unlinked u hnotAllocated
  have hnew : ∀ i, u ∉ users i := fun i hu ↦ hnotAllocated (h.allocated i u hu)
  have hret := ((h.lists.represents (q, role)).listInsert_last hunlinked (hnew _)).2
  have hlists := h.lists.listInsert_last (q, role) hunlinked hnew
  refine ⟨u, ?_, ?_⟩
  · unfold Kernel.queueAddRole
    rw [if_pos hbit]
    simp only [enterUser, queueUserAlloc, hget, hret, Option.bind_eq_bind, Option.bind_some,
      Option.isSome_some]
    rfl
  · simp only [enterUser, queueUserAlloc, hget]
    constructor
    · constructor
      · exact hlists
      · exact hpool
      · intro i x hx
        refine (hallocated x).mpr ?_
        rcases mem_update_append.mp hx with hold | ⟨rfl, -⟩
        · exact Or.inr (h.allocated i x hold)
        · exact Or.inl rfl
      · intro x hx
        have hx' := not_or.mp fun hor ↦ hx ((hallocated x).mpr hor)
        refine Eq.trans ?_ (h.unlinked x hx'.2)
        exact listInsert_list_of_notMem (h.lists.represents _) hunlinked (hnew _)
          (fun hmem ↦ hx'.2 (h.allocated _ x hmem)) hx'.1
    · exact hnotAllocated
    · exact hallocated
    · exact hsize
    · rfl
    · rfl
    · rfl

/-! ### The three roles -/

/-- The roles that a mode asks for, among some. -/
def askedRoles (mode : BitVec 32) (roles : List Role) : List Role :=
  roles.filter fun role ↦ hasBit mode (roleBit role)

/-- The parts of `Queue_add_pid` one after another. -/
def addRoles (q : Addr) (pid : ℤ) (mode : BitVec 32) (ds : Option Addr) :
    List Role → Kernel → Option (Bool × Kernel)
  | [], k => some (true, k)
  | role :: roles, k => do
    let (added, k) ← k.queueAddRole q pid mode ds role
    if added then addRoles q pid mode ds roles k else some (false, k)

/-- The roles in the order of `Queue_add_pid`. -/
def allRoles : List Role := [.reader, .writer, .nonBlock]

theorem queueAddPid_roles (k : Kernel) (q : Addr) (pid : ℤ) (mode : BitVec 32) (ds : Option Addr) :
    k.queueAddPid q pid mode ds = (addRoles q pid mode ds allRoles k).map fun r ↦
      if r.1 then
        (0, { r.2 with
          queues.openings := update r.2.queues.openings q (r.2.queues.openings q + 1) })
      else (listInsertionError, r.2) := by
  unfold queueAddPid allRoles addRoles
  cases k.queueAddRole q pid mode ds .reader with
  | none => rfl
  | some r₁ =>
    obtain ⟨added₁, k₁⟩ := r₁
    cases added₁ with
    | false => rfl
    | true =>
      unfold addRoles
      cases hwriter : k₁.queueAddRole q pid mode ds .writer with
      | none => simp [hwriter]
      | some r₂ =>
        obtain ⟨added₂, k₂⟩ := r₂
        cases added₂ with
        | false => simp [hwriter]
        | true =>
          unfold addRoles
          cases hnonBlock : k₂.queueAddRole q pid mode ds .nonBlock with
          | none => simp [hwriter, hnonBlock]
          | some r₃ =>
            obtain ⟨added₃, k₃⟩ := r₃
            cases added₃ <;> simp [hwriter, hnonBlock, addRoles]

/-- The process has entered under each of the roles asked for. -/
structure Joined (k : Kernel) (users : Addr × Role → List Addr) (q d : Addr) (pid : ℤ)
    (asked : List Role) (k' : Kernel) (users' : Addr × Role → List Addr) : Prop where
  listed : k'.UsersOrdered users'
  entry : ∀ role ∈ asked, ∃ u, k'.descriptors.rwn d role = some u ∧
    users' (q, role) = users (q, role) ++ [u] ∧ k'.queueUsers.pid u = pid ∧
      ¬ k.queueUsers.allocator.Allocated u
  noEntry : ∀ role, role ∉ asked → k'.descriptors.rwn d role = k.descriptors.rwn d role ∧
    users' (q, role) = users (q, role)
  users_of_ne : ∀ i, i.1 ≠ q → users' i = users i
  rwn_of_ne : ∀ d', d' ≠ d → k'.descriptors.rwn d' = k.descriptors.rwn d'
  pid_of_allocated : ∀ u, k.queueUsers.allocator.Allocated u →
    k'.queueUsers.pid u = k.queueUsers.pid u
  allocated : ∀ u, k'.queueUsers.allocator.Allocated u ↔ k.queueUsers.allocator.Allocated u ∨
    ∃ role ∈ asked, k'.descriptors.rwn d role = some u
  size : k'.queueUsers.allocator.size = k.queueUsers.allocator.size - asked.length
  frame : k' = { k with
    queueUsers := k'.queueUsers
    queues := { k.queues with users := k'.queues.users }
    descriptors := { k.descriptors with rwn := k'.descriptors.rwn } }

theorem Joined.refl (h : k.UsersOrdered users) (q d : Addr) (pid : ℤ) :
    k.Joined users q d pid [] k users where
  listed := h
  entry role hrole := absurd hrole List.not_mem_nil
  noEntry _ _ := ⟨rfl, rfl⟩
  users_of_ne _ _ := rfl
  rwn_of_ne _ _ := rfl
  pid_of_allocated _ _ := rfl
  allocated u := by simp
  size := by simp
  frame := rfl

/-- One role, and then the others. -/
theorem Joined.cons (hentered : k.Entered users q d pid role u k₁)
    (h : k₁.Joined (update users (q, role) (users (q, role) ++ [u])) q d pid roles k' users')
    (hrole : role ∉ roles) : k.Joined users q d pid (role :: roles) k' users' := by
  have hself : k'.descriptors.rwn d role = some u := by
    rw [(h.noEntry role hrole).1, hentered.rwn, Function.update_self, Function.update_self]
  have hallocated : k₁.queueUsers.allocator.Allocated u := (hentered.allocated u).mpr (Or.inl rfl)
  constructor
  · exact h.listed
  · intro role' hrole'
    rcases List.mem_cons.mp hrole' with rfl | hrest
    · refine ⟨u, hself, ?_, ?_, hentered.free⟩
      · rw [(h.noEntry role' hrole).2, Function.update_self]
      · rw [h.pid_of_allocated u hallocated, hentered.pid, Function.update_self]
    · obtain ⟨v, hv, hlist, hpid, hfree⟩ := h.entry role' hrest
      have hne : role' ≠ role := by
        rintro rfl
        exact hrole hrest
      refine ⟨v, hv, ?_, hpid, fun hold ↦ hfree ((hentered.allocated v).mpr (Or.inr hold))⟩
      rw [hlist, Function.update_of_ne fun hsame ↦ hne (Prod.mk.inj hsame).2]
  · intro role' hrole'
    obtain ⟨hne, hrest⟩ := not_or.mp fun hor ↦ hrole' (List.mem_cons.mpr hor)
    obtain ⟨hrwn, hlist⟩ := h.noEntry role' hrest
    constructor
    · rw [hrwn, hentered.rwn, Function.update_self, Function.update_of_ne hne]
    · rw [hlist, Function.update_of_ne fun hsame ↦ hne (Prod.mk.inj hsame).2]
  · intro i hi
    rw [h.users_of_ne i hi, Function.update_of_ne fun hsame ↦ hi (congrArg Prod.fst hsame)]
  · intro d' hd'
    rw [h.rwn_of_ne d' hd', hentered.rwn, Function.update_of_ne hd']
  · intro v hv
    have hne : v ≠ u := by
      rintro rfl
      exact hentered.free hv
    rw [h.pid_of_allocated v ((hentered.allocated v).mpr (Or.inr hv)), hentered.pid,
      Function.update_of_ne hne]
  · intro v
    rw [h.allocated, hentered.allocated]
    simp only [List.mem_cons, exists_eq_or_imp, hself, Option.some.injEq]
    tauto
  · rw [h.size, hentered.size, List.length_cons]
    omega
  · have hframe := h.frame
    rw [hentered.frame] at hframe
    exact hframe

/-- With enough free blocks, the process enters under all the roles asked for. -/
theorem UsersOrdered.addRoles (h : k.UsersOrdered users) (hnodup : roles.Nodup)
    (hfree : (askedRoles mode roles).length ≤ k.queueUsers.allocator.size) (q d : Addr) (pid : ℤ) :
    ∃ k' users', addRoles q pid mode (some d) roles k = some (true, k') ∧
      k.Joined users q d pid (askedRoles mode roles) k' users' := by
  induction roles generalizing k users with
  | nil => exact ⟨k, users, rfl, .refl h q d pid⟩
  | cons role roles ih =>
    obtain ⟨hrole, hnodup⟩ := List.nodup_cons.mp hnodup
    cases hbit : hasBit mode (roleBit role) with
    | false =>
      have hasked : askedRoles mode (role :: roles) = askedRoles mode roles := by
        simp [askedRoles, hbit]
      rw [hasked] at hfree ⊢
      obtain ⟨k', users', hadd, hjoined⟩ := ih h hnodup hfree
      refine ⟨k', users', ?_, hjoined⟩
      rw [Kernel.addRoles, queueAddRole_unasked hbit]
      exact hadd
    | true =>
      have hasked : askedRoles mode (role :: roles) = role :: askedRoles mode roles := by
        simp [askedRoles, hbit]
      rw [hasked, List.length_cons] at hfree
      rw [hasked]
      obtain ⟨u, hadd, hentered⟩ := h.queueAddRole hbit (by omega) q d pid
      obtain ⟨k', users', hrest, hjoined⟩ :=
        ih hentered.listed hnodup (by rw [hentered.size]; omega)
      refine ⟨k', users', ?_, .cons hentered hjoined fun hmem ↦ ?_⟩
      · rw [Kernel.addRoles, hadd]
        exact hrest
      · exact hrole (List.mem_of_mem_filter hmem)

/-- Without, it stops with no block left; and if there was none from the start, all that has happened
is that the first entry was overwritten with null. -/
theorem UsersOrdered.addRoles_full (h : k.UsersOrdered users)
    (hfull : k.queueUsers.allocator.size < (askedRoles mode roles).length) (q d : Addr) (pid : ℤ) :
    ∃ k', Kernel.addRoles q pid mode (some d) roles k = some (false, k') ∧
      k'.queueUsers.allocator.size = 0 ∧
      (∃ role ∈ askedRoles mode roles, k'.descriptors.rwn d role = none) ∧
      k' = { k with
        queueUsers := k'.queueUsers
        queues := { k.queues with users := k'.queues.users }
        descriptors := { k.descriptors with rwn := k'.descriptors.rwn } } ∧
      (k.queueUsers.allocator.size = 0 → ∃ first ∈ (askedRoles mode roles).head?, k' = { k with
        descriptors.rwn :=
          update k.descriptors.rwn d (update (k.descriptors.rwn d) first none) }) := by
  induction roles generalizing k users with
  | nil =>
    have hnonneg := h.pool.size_nonneg
    simp [askedRoles] at hfull
    omega
  | cons role roles ih =>
    cases hbit : hasBit mode (roleBit role) with
    | false =>
      have hasked : askedRoles mode (role :: roles) = askedRoles mode roles := by
        simp [askedRoles, hbit]
      rw [hasked] at hfull ⊢
      obtain ⟨k', hadd, hrest⟩ := ih h hfull
      refine ⟨k', ?_, hrest⟩
      rw [Kernel.addRoles, queueAddRole_unasked hbit]
      exact hadd
    | true =>
      have hasked : askedRoles mode (role :: roles) = role :: askedRoles mode roles := by
        simp [askedRoles, hbit]
      rw [hasked, List.length_cons] at hfull
      rw [hasked]
      by_cases hzero : k.queueUsers.allocator.size = 0
      · refine ⟨{ k with
          descriptors.rwn := update k.descriptors.rwn d (update (k.descriptors.rwn d) role none) },
          ?_, hzero, ⟨role, List.mem_cons_self, by simp⟩, rfl, fun _ ↦ ⟨role, rfl, rfl⟩⟩
        rw [Kernel.addRoles, h.queueAddRole_full hbit hzero]
        rfl
      · have hpos := h.pool.size_nonneg
        obtain ⟨u, hadd, hentered⟩ :=
          h.queueAddRole hbit (by omega) q d pid
        obtain ⟨k', hrest, hsize, ⟨last, hlast, hnull⟩, hframe, -⟩ :=
          ih hentered.listed (by rw [hentered.size]; omega)
        refine ⟨k', ?_, hsize, ⟨last, List.mem_cons_of_mem _ hlast, hnull⟩, ?_,
          fun hnone ↦ absurd hnone hzero⟩
        · rw [Kernel.addRoles, hadd]
          exact hrest
        · rw [hentered.frame] at hframe
          exact hframe

/-- The null descriptor is written to as soon as a role is asked for. -/
theorem addRoles_null (k : Kernel) (q : Addr) (pid : ℤ) (mode : BitVec 32) (roles : List Role) :
    Kernel.addRoles q pid mode none roles k =
      if askedRoles mode roles = [] then some (true, k) else none := by
  induction roles with
  | nil => rfl
  | cons role roles ih =>
    cases hbit : hasBit mode (roleBit role) with
    | false =>
      have hasked : askedRoles mode (role :: roles) = askedRoles mode roles := by
        simp [askedRoles, hbit]
      rw [Kernel.addRoles, queueAddRole_unasked hbit, hasked]
      exact ih
    | true =>
      have hasked : askedRoles mode (role :: roles) ≠ [] := by simp [askedRoles, hbit]
      rw [Kernel.addRoles, queueAddRole_null hbit, if_neg hasked]
      rfl

/-! ### The second part of the call -/

theorem joinQueue_type {p r : Addr} {fd : ℤ} (htype : k.resources.type r ≠ 2) :
    k.joinQueue p r q fd mode = some (k.setRetvalue p invalidFd) := if_pos htype

/-- A process without the descriptor counts as a user if it asks for no role. -/
theorem joinQueue_null {p r : Addr} {fd : ℤ} (htype : k.resources.type r = 2)
    (hfound : k.descriptorByFd p fd = some none) :
    k.joinQueue p r q fd mode = if askedRoles mode allRoles = [] then
      some ({ k with
        queues.openings := update k.queues.openings q (k.queues.openings q + 1) }.setRetvalue p fd)
      else none := by
  rw [joinQueue, if_neg (not_not.mpr htype), hfound, Option.bind_eq_bind, Option.bind_some,
    queueAddPid_roles, addRoles_null]
  split_ifs <;> rfl

/-- A process with the descriptor enters under all roles, if there are enough blocks. -/
theorem UsersOrdered.joinQueue (h : k.UsersOrdered users) {p r : Addr} {fd : ℤ}
    (htype : k.resources.type r = 2) (hfound : k.descriptorByFd p fd = some (some d))
    (hfree : (askedRoles mode allRoles).length ≤ k.queueUsers.allocator.size) (q : Addr) :
    ∃ k' users', k.Joined users q d (k.pcbs.pid p) (askedRoles mode allRoles) k' users' ∧
      k.joinQueue p r q fd mode = some ({ k' with
        queues.openings :=
          update k'.queues.openings q (k'.queues.openings q + 1) }.setRetvalue p fd) := by
  obtain ⟨k', users', hadd, hjoined⟩ :=
    h.addRoles (show allRoles.Nodup by decide) hfree q d (k.pcbs.pid p)
  refine ⟨k', users', hjoined, ?_⟩
  rw [Kernel.joinQueue, if_neg (not_not.mpr htype), hfound, Option.bind_eq_bind, Option.bind_some,
    queueAddPid_roles, hadd]
  rfl

/-- Without, the call fails, with no block left. -/
theorem UsersOrdered.joinQueue_full (h : k.UsersOrdered users) {p r : Addr} {fd : ℤ}
    (htype : k.resources.type r = 2) (hfound : k.descriptorByFd p fd = some (some d))
    (hfull : k.queueUsers.allocator.size < (askedRoles mode allRoles).length) (q : Addr) :
    ∃ k', k.joinQueue p r q fd mode = some (k'.setRetvalue p listInsertionError) ∧
      k'.queueUsers.allocator.size = 0 ∧
      (∃ role ∈ askedRoles mode allRoles, k'.descriptors.rwn d role = none) ∧
      k' = { k with
        queueUsers := k'.queueUsers
        queues := { k.queues with users := k'.queues.users }
        descriptors := { k.descriptors with rwn := k'.descriptors.rwn } } ∧
      (k.queueUsers.allocator.size = 0 → ∃ first ∈ (askedRoles mode allRoles).head?,
        k' = { k with
          descriptors.rwn :=
            update k.descriptors.rwn d (update (k.descriptors.rwn d) first none) }) := by
  obtain ⟨k', hadd, hrest⟩ := h.addRoles_full hfull q d (k.pcbs.pid p)
  refine ⟨k', ?_, hrest⟩
  rw [Kernel.joinQueue, if_neg (not_not.mpr htype), hfound, Option.bind_eq_bind, Option.bind_some,
    queueAddPid_roles, hadd]
  rfl

/-- How the second part of the call can end. -/
theorem UsersOrdered.joinQueue_cases (h : k.UsersOrdered users) {p r : Addr} {fd : ℤ}
    (hjoin : k.joinQueue p r q fd mode = some k') :
    k.resources.type r ≠ 2 ∧ k' = k.setRetvalue p invalidFd ∨
      k.resources.type r = 2 ∧ (k.descriptorByFd p fd = some none ∧
        k' = { k with
          queues.openings :=
            update k.queues.openings q (k.queues.openings q + 1) }.setRetvalue p fd ∨
        ∃ d, k.descriptorByFd p fd = some (some d) ∧
          ((askedRoles mode allRoles).length ≤ k.queueUsers.allocator.size ∧
              (∃ k₁ users₁,
                k.Joined users q d (k.pcbs.pid p) (askedRoles mode allRoles) k₁ users₁ ∧
                k' = { k₁ with
                  queues.openings :=
                    update k₁.queues.openings q (k₁.queues.openings q + 1) }.setRetvalue p fd) ∨
            k.queueUsers.allocator.size < (askedRoles mode allRoles).length ∧
              ∃ k₁, k' = k₁.setRetvalue p listInsertionError ∧ k₁.queueUsers.allocator.size = 0 ∧
                (∃ role ∈ askedRoles mode allRoles, k₁.descriptors.rwn d role = none) ∧
                k₁ = { k with
                  queueUsers := k₁.queueUsers
                  queues := { k.queues with users := k₁.queues.users }
                  descriptors := { k.descriptors with rwn := k₁.descriptors.rwn } } ∧
                (k.queueUsers.allocator.size = 0 → ∃ first ∈ (askedRoles mode allRoles).head?,
                  k₁ = { k with
                    descriptors.rwn :=
                      update k.descriptors.rwn d (update (k.descriptors.rwn d) first none) }))) := by
  by_cases htype : k.resources.type r = 2
  · refine Or.inr ⟨htype, ?_⟩
    cases hfound : k.descriptorByFd p fd with
    | none =>
      rw [Kernel.joinQueue, if_neg (not_not.mpr htype), hfound] at hjoin
      exact absurd hjoin (Option.some_ne_none k').symm
    | some ds =>
      cases ds with
      | none =>
        rw [joinQueue_null htype hfound] at hjoin
        split_ifs at hjoin
        exact Or.inl ⟨rfl, (Option.some.inj hjoin).symm⟩
      | some d =>
        refine Or.inr ⟨d, rfl, ?_⟩
        by_cases hfree : ((askedRoles mode allRoles).length : ℤ) ≤ k.queueUsers.allocator.size
        · obtain ⟨k₁, users₁, hjoined, heq⟩ := h.joinQueue htype hfound hfree q
          rw [heq] at hjoin
          exact Or.inl ⟨hfree, k₁, users₁, hjoined, (Option.some.inj hjoin).symm⟩
        · have hfull := not_le.mp hfree
          obtain ⟨k₁, heq, hrest⟩ := h.joinQueue_full htype hfound hfull q
          rw [heq] at hjoin
          exact Or.inr ⟨hfull, k₁, (Option.some.inj hjoin).symm, hrest⟩
  · rw [joinQueue_type htype] at hjoin
    exact Or.inl ⟨htype, (Option.some.inj hjoin).symm⟩

/-- A new queue has no users. -/
theorem UsersOrdered.queueAlloc (h : k.UsersOrdered users) (halloc : k.queueAlloc = (some q, k₁)) :
    ∃ users₁, k₁.UsersOrdered users₁ ∧ (∀ role, users₁ (q, role) = []) ∧
      ∀ i, i.1 ≠ q → users₁ i = users i := by
  rcases hget : k.queues.allocator.getBlock with ⟨_ | q', pool⟩
  · simp [Kernel.queueAlloc, hget] at halloc
  simp only [Kernel.queueAlloc, hget, Prod.mk.injEq, Option.some.injEq] at halloc
  obtain ⟨rfl, rfl⟩ := halloc
  refine ⟨update (update (update users (q', .reader) []) (q', .writer) []) (q', .nonBlock) [],
    ?_, ?_, ?_⟩
  · constructor
    · exact ((h.lists.clear (q', .reader)).clear (q', .writer)).clear (q', .nonBlock)
    · exact h.pool
    · intro i u hu
      refine h.allocated i u ?_
      simp only [Function.update_apply] at hu
      split_ifs at hu <;> simp_all
    · exact h.unlinked
  · intro role
    cases role <;> simp
  · rintro ⟨q, role⟩ hne
    simp_all

/-! ### Leaving a list -/

/-- User `u` is handed out and in no list. -/
structure Aside (k : Kernel) (users : Addr × Role → List Addr) (u : Addr) : Prop where
  allocated : k.queueUsers.allocator.Allocated u
  notMem : ∀ i, u ∉ users i
  unlinked : k.queueUsers.list u = Links.unlinked

@[simp]
theorem detachUser_null (k : Kernel) (i : Addr × Role) : k.detachUser i none = k := by
  simp [detachUser]

/-- A user that is detached is set aside. -/
theorem UsersOrdered.leave (h : k.UsersOrdered users) {i : Addr × Role} (hu : u ∈ users i) :
    (k.detachUser i (some u)).UsersOrdered (update users i ((users i).erase u)) where
  lists := h.lists.listDetach hu
  pool := h.pool
  allocated j v hv := h.allocated j v ((h.lists.mem_update_erase hu).mp hv).1
  unlinked v hv := by
    have hne : v ∉ users i := fun hv' ↦ hv (h.allocated i v hv')
    exact (listDetach_list_of_notMem (h.lists.represents i) hu hne).trans (h.unlinked v hv)

theorem UsersOrdered.aside (h : k.UsersOrdered users) {i : Addr × Role} (hu : u ∈ users i) :
    (k.detachUser i (some u)).Aside (update users i ((users i).erase u)) u where
  allocated := h.allocated i u hu
  notMem := h.lists.notMem_erase hu
  unlinked := listDetach_list_self _ (k.queues.users i) _

/-- Another user stays aside. -/
theorem Aside.leave {v : Addr} (haside : k.Aside users v) (h : k.UsersOrdered users)
    {i : Addr × Role} (hu : u ∈ users i) :
    (k.detachUser i (some u)).Aside (update users i ((users i).erase u)) v where
  allocated := haside.allocated
  notMem j hv := haside.notMem j ((h.lists.mem_update_erase hu).mp hv).1
  unlinked :=
    (listDetach_list_of_notMem (h.lists.represents i) hu (haside.notMem i)).trans haside.unlinked

theorem UsersOrdered.free (h : k.UsersOrdered users) (haside : k.Aside users u) :
    (k.queueUserFree (some u)).UsersOrdered users := by
  obtain ⟨hpool, -, hallocated⟩ := h.pool.release haside.allocated
  refine ⟨h.lists, hpool, fun i v hv ↦ (hallocated v).mpr ⟨?_, h.allocated i v hv⟩, fun v hv ↦ ?_⟩
  · rintro rfl
    exact haside.notMem i hv
  · by_cases hne : v = u
    · subst hne
      exact haside.unlinked
    · exact h.unlinked v fun hallocated' ↦ hv ((hallocated v).mpr ⟨hne, hallocated'⟩)

theorem Aside.free {u' : Addr} (h : k.Aside users u') (hok : k.queueUsers.allocator.Ok)
    (haside : k.Aside users u) (hne : u' ≠ u) : (k.queueUserFree (some u)).Aside users u' where
  allocated := ((hok.release haside.allocated).2.2 u').mpr ⟨hne, h.allocated⟩
  notMem := h.notMem
  unlinked := h.unlinked

theorem enterUser_samePool (k : Kernel) (q d : Addr) (pid : ℤ) (role : Role) (u : Addr) :
    SamePool k.queueUsers.allocator (k.enterUser q d pid role u).queueUsers.allocator := by
  have hsame := getBlock_samePool k.queueUsers.allocator
  unfold Kernel.enterUser queueUserAlloc
  split
  · exact .refl _
  · rename_i hget
    rw [hget] at hsame
    exact hsame

/-- A user that is set aside stays so when another one enters a list. -/
theorem Aside.enterUser {v : Addr} {pid : ℤ} (haside : k.Aside users v) (h : k.UsersOrdered users)
    (hentered : k.Entered users q d pid role u (k.enterUser q d pid role u)) :
    (k.enterUser q d pid role u).Aside (update users (q, role) (users (q, role) ++ [u])) v := by
  have hne : v ≠ u := by
    rintro rfl
    exact hentered.free haside.allocated
  refine ⟨(hentered.allocated v).mpr (Or.inr haside.allocated), fun i hv ↦ ?_, ?_⟩
  · obtain hv | ⟨hv, -⟩ := mem_update_append.mp hv
    · exact haside.notMem i hv
    · exact hne hv
  · have hunlinked := h.unlinked u hentered.free
    have hlist : (k.enterUser q d pid role u).queueUsers.list =
        (listInsert k.queueUsers.list (k.queues.users (q, role))
          (k.queues.users (q, role)).last (some u)).list := by
      unfold Kernel.enterUser queueUserAlloc
      split <;> rfl
    have hnew : u ∉ users (q, role) := fun hu ↦ hentered.free (h.allocated _ u hu)
    rw [hlist, listInsert_list_of_notMem (h.lists.represents (q, role)) hunlinked hnew
      (haside.notMem _) hne]
    exact haside.unlinked

/-- The null pointer is not the address of a user. -/
theorem queueUserFree_null {layout : Layout}
    (hsame : SamePool layout.boot.queueUsers.allocator k.queueUsers.allocator) :
    k.queueUserFree none = k := by
  have hpool : (k.queueUsers.allocator.releaseBlock 0).2 = k.queueUsers.allocator := by
    unfold releaseBlock
    dsimp only
    split_ifs with halign hrange hfree
    · rfl
    · rfl
    · rfl
    · exfalso
      have hbuffer : k.queueUsers.allocator.buffer = layout.queueUsersBuffer := hsame.buffer
      have hitem : k.queueUsers.allocator.itemSize = sizeofQueueUser := hsame.itemSize
      have hmax : k.queueUsers.allocator.sizeMax = maxNumProcesses := hsame.sizeMax
      rw [hbuffer, hitem] at halign hrange
      rw [hmax] at hrange
      push Not at halign hrange
      obtain ⟨hlow, hhigh⟩ := hrange
      refine layout.null_rejected _ hlow hhigh ?_
      have hdivides := Int.tmod_add_mul_tdiv (toInt (0 - layout.queueUsersBuffer)) sizeofQueueUser
      rw [halign, zero_add] at hdivides
      rw [mul_comm]
      exact hdivides.symm
  change { k with queueUsers.allocator := (k.queueUsers.allocator.releaseBlock 0).2 } = k
  rw [hpool]

end Kernel

end DisastrOS
