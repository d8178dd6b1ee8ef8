import DisastrOS.Openings

/-!
# Users of the queues

`Enrolled` ties the three lists of users of each queue to the descriptors: the members of a list are the
entries of the openings that are still in it, each of one of them.
-/

set_option autoImplicit false
set_option relaxedAutoImplicit false

namespace DisastrOS

open LinkedLists PoolAllocator
open Function (update)

namespace Files

variable {f f' : Files} {p r d d' x : Addr} {pool ptrPool : PoolAllocator}

/-- Descriptor `d` stays a descriptor of its resource. -/
structure Stays (f f' : Files) (d : Addr) : Prop extends f.Kept f' d where
  allocated : f.descriptors.allocator.Allocated d → f'.descriptors.allocator.Allocated d
  leads : f.Leads d → f'.Leads d

theorem Stays.refl (f : Files) (d : Addr) : f.Stays f d :=
  { Kept.refl f d with
    allocated := fun h ↦ h
    leads := fun h ↦ h }

theorem Stays.trans {f'' : Files} (h : f.Stays f' d) (h' : f'.Stays f'' d) : f.Stays f'' d :=
  { h.toKept.trans h'.toKept with
    allocated := fun hallocated ↦ h'.allocated (h.allocated hallocated)
    leads := fun hleads ↦ h'.leads (h.leads hleads) }

theorem Stays.reset (f : Files) (p d : Addr) : f.Stays (f.reset p) d :=
  { Stays.refl f d with toKept := .reset f p d }

theorem Stays.setRwn (f : Files) (rwn : Addr → Role → Option Addr) (d : Addr) :
    f.Stays { f with descriptors.rwn := rwn } d := { Stays.refl f d with toKept := .setRwn f rwn d }

theorem Stays.setValue (d : Addr) (hnone : f.resources.value r = none) (value : Option Addr) :
    f.Stays { f with resources.value := update f.resources.value r value } d :=
  { Stays.refl f d with toKept := .setValue d hnone value }

theorem Stays.destroy (f : Files) (r d : Addr) : f.Stays (f.destroy r) d :=
  { Stays.refl f d with toKept := .destroy f r d }

theorem Stays.create (hok : f.Ok) (id type : ℤ)
    (hget : f.resources.allocator.getBlock = (some r, pool))
    (hnew : ∀ r' ∈ f.resourceNodes, f.resources.id r' ≠ id) (hleads : f.Leads d) :
    f.Stays (f.create r pool id type) d := by
  obtain ⟨-, -, hfree, -⟩ := getBlock_some hok.resourcePool hget
  have hnodes := (Holds.create hok id type hget hnew).pointerNodes_eq
  have hne : f.descriptors.resource d ≠ r := by
    obtain ⟨x, hx, -⟩ := hleads
    rintro rfl
    exact hfree (hok.resource_allocated _ (hok.listed _ x hx))
  exact
    { Stays.refl f d with
      id := Function.update_of_ne hne _ _
      type := Function.update_of_ne hne _ _
      leads := by
        unfold Leads
        rw [hnodes]
        exact fun h ↦ h }

theorem Stays.join (hok : f.Ok) (hr : r ∈ f.resourceNodes)
    (hget : f.descriptors.allocator.getBlock = (some d', pool))
    (hgetPtr : f.descriptorPtrs.allocator.getBlock = (some x, ptrPool)) (p : Addr)
    (hd : f.descriptors.allocator.Allocated d) : f.Stays (f.join p r d' x pool ptrPool) d := by
  obtain ⟨-, -, hfree, -, hallocated⟩ := getBlock_some hok.descriptorPool hget
  obtain ⟨-, -, hfreePtr, -⟩ := getBlock_some hok.pointerPool hgetPtr
  have hne : d ≠ d' := by
    rintro rfl
    exact hfree hd
  have hkept : f.Kept (f.join p r d' x pool ptrPool) d := .join f p r x pool ptrPool hne
  refine { hkept with allocated := fun h ↦ (hallocated d).mpr (Or.inr h), leads := ?_ }
  rintro ⟨y, hy, hyd⟩
  have hne : y ≠ x := by
    rintro rfl
    exact hfreePtr (hok.pointer_allocated _ y hy)
  refine ⟨y, ?_, (Function.update_of_ne hne _ _).trans hyd⟩
  rw [hkept.resource, (Holds.join hok hr hget hgetPtr).pointerNodes_eq]
  exact mem_update_append.mpr (Or.inl hy)

theorem Stays.drop (hok : f.Ok) (hd' : d' ∈ f.descriptorNodes p)
    (hptr : f.descriptors.ptr d' = some x) (hne : d ≠ d') :
    f.Stays (f.drop p d' (f.descriptors.resource d') x) d := by
  obtain ⟨x', hx, hptr', hdesc⟩ := hok.pointer p d' hd'
  obtain rfl := Option.some.inj (hptr.symm.trans hptr')
  obtain ⟨-, -, hallocated⟩ := hok.descriptorPool.release (hok.descriptor_allocated p d' hd')
  refine { Kept.drop f p d' (f.descriptors.resource d') x d with
    allocated := fun h ↦ (hallocated d).mpr ⟨hne, h⟩, leads := ?_ }
  rintro ⟨y, hy, hyd⟩
  refine ⟨y, ?_, hyd⟩
  rw [(Holds.drop hok hd' hptr).pointerNodes_eq]
  refine (hok.pointerLists.mem_update_erase hx).mpr ⟨hy, ?_⟩
  rintro rfl
  exact hne (hyd.symm.trans hdesc)

/-- A descriptor that is given up is one of its resource no more. -/
theorem Backed.not_leads (h : f.Backed) (hfree : ¬ f.descriptors.allocator.Allocated d) :
    ¬ f.Leads d := by
  rintro ⟨x, hx, rfl⟩
  exact hfree (h.allocated _ x hx)

/-- Of the resources that a step creates, opens and closes, only the one that is opened gets a descriptor. -/
theorem Leads.of_create {id type : ℤ} (hleads : (f.create r pool id type).Leads d) (hok : f.Ok)
    (hget : f.resources.allocator.getBlock = (some r, pool))
    (hnew : ∀ r' ∈ f.resourceNodes, f.resources.id r' ≠ id) : f.Leads d := by
  obtain ⟨x, hx, hdesc⟩ := hleads
  rw [(Holds.create hok id type hget hnew).pointerNodes_eq] at hx
  exact ⟨x, hx, hdesc⟩

theorem Leads.of_drop (hleads : (f.drop p d (f.descriptors.resource d) x).Leads d') (hok : f.Ok)
    (hd : d ∈ f.descriptorNodes p) (hptr : f.descriptors.ptr d = some x) : f.Leads d' := by
  obtain ⟨x', hx', hptr', -⟩ := hok.pointer p d hd
  obtain rfl := Option.some.inj (hptr.symm.trans hptr')
  obtain ⟨y, hy, hdesc⟩ := hleads
  rw [(Holds.drop hok hd hptr).pointerNodes_eq] at hy
  exact ⟨y, ((hok.pointerLists.mem_update_erase hx').mp hy).1, hdesc⟩

theorem Leads.of_join (hleads : (f.join p r d x pool ptrPool).Leads d') (hok : f.Ok)
    (hr : r ∈ f.resourceNodes) (hget : f.descriptors.allocator.getBlock = (some d, pool))
    (hgetPtr : f.descriptorPtrs.allocator.getBlock = (some x, ptrPool)) (hne : d' ≠ d) : f.Leads d' := by
  obtain ⟨-, -, hfree, -⟩ := getBlock_some hok.pointerPool hgetPtr
  obtain ⟨y, hy, hdesc⟩ := hleads
  have hresource : (f.join p r d x pool ptrPool).descriptors.resource d' = f.descriptors.resource d' :=
    Function.update_of_ne hne ..
  rw [(Holds.join hok hr hget hgetPtr).pointerNodes_eq, hresource] at hy
  have hdesc' : update f.descriptorPtrs.descriptor x d y = d' := hdesc
  obtain hold | ⟨rfl, -⟩ := mem_update_append.mp hy
  · have hfresh : y ≠ x := by
      rintro rfl
      exact hfree (hok.pointer_allocated _ y hold)
    rw [Function.update_of_ne hfresh] at hdesc'
    exact ⟨y, hold, hdesc'⟩
  · rw [Function.update_self] at hdesc'
    exact absurd hdesc'.symm hne

end Files

/-! ### Roles of an opening -/

theorem Opening.leave_left (o : Opening) (role role' : Role) :
    (o.leave role).left role' = false ↔ o.left role' = false ∧ role' ≠ role := by
  change update o.left role true role' = false ↔ _
  rw [Function.update_apply]
  split_ifs with hrole
  · simp [hrole]
  · simp [hrole]

/-- The process is in the list of a role. -/
def Opening.enter (o : Opening) (role : Role) : Opening :=
  { o with left := update o.left role false }

theorem Opening.enter_left (o : Opening) (role role' : Role) :
    (o.enter role).left role' = false ↔ o.left role' = false ∨ role' = role := by
  change update o.left role false role' = false ↔ _
  rw [Function.update_apply]
  split_ifs with hrole
  · simp [hrole]
  · simp [hrole]

namespace Kernel

variable {layout : Layout} {k k' : Kernel} {m m' : Addr → Option Opening}
  {users : Addr × Role → List Addr} {p q d d' u u' : Addr} {role : Role}

/-! ### Entries -/

/-- A note is the new one, or an old one. -/
theorem eq_or_of_update {o o' : Opening} (ho' : update m d (some o) d' = some o') :
    d' = d ∧ o' = o ∨ d' ≠ d ∧ m d' = some o' := by
  by_cases hd : d' = d
  · subst hd
    rw [Function.update_self] at ho'
    exact Or.inl ⟨rfl, (Option.some.inj ho').symm⟩
  · rw [Function.update_of_ne hd] at ho'
    exact Or.inr ⟨hd, ho'⟩

/-- User `u` is the entry of descriptor `d` in a role on queue `q`, and has not been taken out since the
descriptor was opened. -/
structure LiveEntry (k : Kernel) (m : Addr → Option Opening) (d q : Addr) (role : Role) (u : Addr) :
    Prop where
  inside : ∃ o, m d = some o ∧ o.left role = false
  entry : k.descriptors.rwn d role = some u
  queue : k.resources.value (k.descriptors.resource d) = some q

theorem liveEntry_congr (hfiles : k'.files = k.files) :
    k'.LiveEntry m d q role u ↔ k.LiveEntry m d q role u := by
  have hrwn : k'.descriptors.rwn = k.descriptors.rwn := congrArg (·.descriptors.rwn) hfiles
  have hvalue : k'.resources.value (k'.descriptors.resource d) =
      k.resources.value (k.descriptors.resource d) :=
    congrArg (fun f : Files ↦ f.resources.value (f.descriptors.resource d)) hfiles
  constructor
  · rintro ⟨hinside, hentry, hqueue⟩
    rw [hrwn] at hentry
    rw [hvalue] at hqueue
    exact ⟨hinside, hentry, hqueue⟩
  · rintro ⟨hinside, hentry, hqueue⟩
    rw [← hrwn] at hentry
    rw [← hvalue] at hqueue
    exact ⟨hinside, hentry, hqueue⟩

/-- The descriptors of the openings are in the table, with the entries that the mode asks for. -/
structure Noted (k : Kernel) (m : Addr → Option Opening) : Prop where
  descriptor : ∀ d o, m d = some o → k.descriptors.allocator.Allocated d ∧ k.files.Leads d
  queue : ∀ d o, m d = some o → ∃ q, k.resources.value (k.descriptors.resource d) = some q
  mode : ∀ d o, m d = some o → ∀ role, o.left role = false →
    (k.descriptors.rwn d role).isSome = hasBit o.mode (roleBit role)
  pid : ∀ d o, m d = some o → ∀ role, o.left role = false →
    ∀ u, k.descriptors.rwn d role = some u → k.queueUsers.pid u = o.pid

/-- The users of the queues are the entries of the openings. -/
structure Enrolled (layout : Layout) (k : Kernel) (m : Addr → Option Opening)
    (users : Addr × Role → List Addr) : Prop extends k.Noted m, k.UsersOrdered users where
  samePool : SamePool layout.boot.queueUsers.allocator k.queueUsers.allocator
  members : ∀ q role u, u ∈ users (q, role) ↔ ∃ d, k.LiveEntry m d q role u
  inj : ∀ {d d' q q' role role' u}, k.LiveEntry m d q role u → k.LiveEntry m d' q' role' u → d = d'

/-- Fewer openings, in fewer lists. -/
theorem Noted.mono (h : k.Noted m)
    (hnotes : ∀ d o', m' d = some o' → ∃ o, m d = some o ∧ o'.mode = o.mode ∧ o'.pid = o.pid ∧
      ∀ role, o'.left role = false → o.left role = false) : k.Noted m' := by
  constructor
  · intro d o' ho'
    obtain ⟨o, ho, -⟩ := hnotes d o' ho'
    exact h.descriptor d o ho
  · intro d o' ho'
    obtain ⟨o, ho, -⟩ := hnotes d o' ho'
    exact h.queue d o ho
  · intro d o' ho' role hleft
    obtain ⟨o, ho, hmode, -, hinside⟩ := hnotes d o' ho'
    rw [hmode]
    exact h.mode d o ho role (hinside role hleft)
  · intro d o' ho' role hleft
    obtain ⟨o, ho, -, hpid, hinside⟩ := hnotes d o' ho'
    rw [hpid]
    exact h.pid d o ho role (hinside role hleft)

/-- The users of the queues, with the pool they come from. -/
def roll (k : Kernel) : PoolAllocator × Memory Addr × (Addr → ℤ) × (Addr × Role → ListHead Addr) :=
  (k.queueUsers.allocator, k.queueUsers.list, k.queueUsers.pid, k.queues.users)

theorem UsersOrdered.of_roll (h : k.UsersOrdered users) (hroll : k'.roll = k.roll) :
    k'.UsersOrdered users := by
  obtain ⟨hpool, hrest⟩ := Prod.mk.inj hroll
  obtain ⟨hlist, hrest⟩ := Prod.mk.inj hrest
  have hheads := (Prod.mk.inj hrest).2
  constructor
  · rw [hlist, hheads]
    exact h.lists
  · rw [hpool]
    exact h.pool
  · rw [hpool]
    exact h.allocated
  · rw [hpool, hlist]
    exact h.unlinked

theorem Enrolled.of_stays (h : k.Enrolled layout m users) (hroll : k'.roll = k.roll)
    (hstays : ∀ d o, m d = some o → k.files.Stays k'.files d ∧
      k'.descriptors.rwn d = k.descriptors.rwn d) : k'.Enrolled layout m users := by
  obtain ⟨hpool, hrest⟩ := Prod.mk.inj hroll
  obtain ⟨-, hrest⟩ := Prod.mk.inj hrest
  have hpid := (Prod.mk.inj hrest).1
  have hresource : ∀ d o, m d = some o → k'.descriptors.resource d = k.descriptors.resource d :=
    fun d o ho ↦ (hstays d o ho).1.resource
  have hvalue : ∀ d o, m d = some o → k'.resources.value (k'.descriptors.resource d) =
      k.resources.value (k.descriptors.resource d) := by
    intro d o ho
    obtain ⟨q, hq⟩ := h.queue d o ho
    rw [hresource d o ho, hq]
    exact (hstays d o ho).1.value q hq
  have hlive : ∀ d q role u, k'.LiveEntry m d q role u ↔ k.LiveEntry m d q role u := by
    intro d q role u
    constructor
    · rintro ⟨⟨o, ho, hleft⟩, hentry, hqueue⟩
      rw [(hstays d o ho).2] at hentry
      rw [hvalue d o ho] at hqueue
      exact ⟨⟨o, ho, hleft⟩, hentry, hqueue⟩
    · rintro ⟨⟨o, ho, hleft⟩, hentry, hqueue⟩
      rw [← (hstays d o ho).2] at hentry
      rw [← hvalue d o ho] at hqueue
      exact ⟨⟨o, ho, hleft⟩, hentry, hqueue⟩
  constructor
  · constructor
    · intro d o ho
      obtain ⟨hallocated, hleads⟩ := h.descriptor d o ho
      have hstay := (hstays d o ho).1
      exact ⟨hstay.allocated hallocated, hstay.leads hleads⟩
    · intro d o ho
      rw [hvalue d o ho]
      exact h.queue d o ho
    · intro d o ho
      rw [(hstays d o ho).2]
      exact h.mode d o ho
    · intro d o ho
      rw [(hstays d o ho).2, hpid]
      exact h.pid d o ho
  · exact h.toUsersOrdered.of_roll hroll
  · rw [hpool]
    exact h.samePool
  · simp only [hlive]
    exact h.members
  · simp only [hlive]
    exact h.inj

theorem Enrolled.setValue (h : k.Enrolled layout m users) {r : Addr}
    (hnone : k.resources.value r = none) (value : Option Addr) :
    { k with resources.value := update k.resources.value r value }.Enrolled layout m users :=
  h.of_stays rfl fun d _ _ ↦ ⟨Files.Stays.setValue (f := k.files) d hnone value, rfl⟩

theorem Aside.of_roll (h : k.Aside users u) (hroll : k'.roll = k.roll) : k'.Aside users u := by
  obtain ⟨hpool, hrest⟩ := Prod.mk.inj hroll
  constructor
  · rw [hpool]
    exact h.allocated
  · exact h.notMem
  · rw [(Prod.mk.inj hrest).1]
    exact h.unlinked

/-! ### Leaving a queue -/

/-- An opening that has been taken out of all its lists can be forgotten. -/
theorem Enrolled.forget (h : k.Enrolled layout m users)
    (hleft : ∀ o, m d = some o → ∀ role, o.left role = true) :
    k.Enrolled layout (update m d none) users := by
  have hold : ∀ d' o, update m d none d' = some o → m d' = some o := by
    intro d' o ho
    rw [Function.update_apply] at ho
    split_ifs at ho
    exact ho
  have hlive : ∀ d' q role u, k.LiveEntry (update m d none) d' q role u ↔ k.LiveEntry m d' q role u := by
    intro d' q role u
    constructor
    · rintro ⟨⟨o, ho, hout⟩, hentry, hqueue⟩
      exact ⟨⟨o, hold d' o ho, hout⟩, hentry, hqueue⟩
    · rintro ⟨⟨o, ho, hout⟩, hentry, hqueue⟩
      have hne : d' ≠ d := by
        rintro rfl
        exact Bool.false_ne_true (hout.symm.trans (hleft o ho role))
      exact ⟨⟨o, (Function.update_of_ne hne ..).trans ho, hout⟩, hentry, hqueue⟩
  exact
    { h with
      toNoted := h.toNoted.mono fun d' o ho ↦ ⟨o, hold d' o ho, rfl, rfl, fun _ h ↦ h⟩
      members := by
        simp only [hlive]
        exact h.members
      inj := by
        simp only [hlive]
        exact h.inj }

/-- The entries that are left once an opening has left the list of a role. -/
theorem liveEntry_leave {o : Opening} (ho : m d = some o) (d' q : Addr) (role' : Role) (u : Addr) :
    k.LiveEntry (update m d (some (o.leave role))) d' q role' u ↔
      k.LiveEntry m d' q role' u ∧ ¬ (d' = d ∧ role' = role) := by
  by_cases hd : d' = d
  · subst hd
    constructor
    · rintro ⟨⟨o', ho', hout⟩, hentry, hvalue⟩
      rw [Function.update_self] at ho'
      obtain rfl := Option.some.inj ho'
      obtain ⟨hinside, hrole⟩ := (Opening.leave_left o role role').mp hout
      exact ⟨⟨⟨o, ho, hinside⟩, hentry, hvalue⟩, fun hsame ↦ hrole hsame.2⟩
    · rintro ⟨⟨⟨o', ho', hinside⟩, hentry, hvalue⟩, hne⟩
      obtain rfl := Option.some.inj (ho.symm.trans ho')
      refine ⟨⟨_, Function.update_self .., ?_⟩, hentry, hvalue⟩
      exact (Opening.leave_left o role role').mpr ⟨hinside, fun hrole ↦ hne ⟨rfl, hrole⟩⟩
  · have hsame : update m d (some (o.leave role)) d' = m d' := Function.update_of_ne hd ..
    constructor
    · rintro ⟨⟨o', ho', hout⟩, hentry, hvalue⟩
      exact ⟨⟨⟨o', hsame ▸ ho', hout⟩, hentry, hvalue⟩, fun hboth ↦ hd hboth.1⟩
    · rintro ⟨⟨⟨o', ho', hout⟩, hentry, hvalue⟩, -⟩
      exact ⟨⟨o', hsame ▸ ho', hout⟩, hentry, hvalue⟩

theorem Noted.leave (h : k.Noted m) {o : Opening} (ho : m d = some o) (role : Role) :
    k.Noted (update m d (some (o.leave role))) := by
  refine h.mono fun d' o' ho' ↦ ?_
  obtain ⟨rfl, rfl⟩ | ⟨-, hm⟩ := eq_or_of_update ho'
  · exact ⟨o, ho, rfl, rfl, fun role' hout ↦ ((Opening.leave_left o role role').mp hout).1⟩
  · exact ⟨o', hm, rfl, rfl, fun _ hout ↦ hout⟩

/-- An opening without an entry in a role has nothing to be taken out. -/
theorem Enrolled.leave_none (h : k.Enrolled layout m users) {o : Opening} (ho : m d = some o)
    (hentry : k.descriptors.rwn d role = none) :
    k.Enrolled layout (update m d (some (o.leave role))) users := by
  have hlive : ∀ d' q role' u, k.LiveEntry (update m d (some (o.leave role))) d' q role' u ↔
      k.LiveEntry m d' q role' u := by
    intro d' q role' u
    rw [liveEntry_leave ho]
    refine ⟨fun hentry ↦ hentry.1, fun hentry' ↦ ⟨hentry', ?_⟩⟩
    rintro ⟨rfl, rfl⟩
    exact absurd (hentry.symm.trans hentry'.entry) (by simp)
  exact
    { h with
      toNoted := h.toNoted.leave ho role
      members := by
        simp only [hlive]
        exact h.members
      inj := by
        simp only [hlive]
        exact h.inj }

/-- The entry of an opening in a role is taken out of its list. -/
theorem Enrolled.leave_some (h : k.Enrolled layout m users) {o : Opening} (ho : m d = some o)
    (hlive : k.LiveEntry m d q role u) :
    (k.detachUser (q, role) (some u)).Enrolled layout (update m d (some (o.leave role)))
      (update users (q, role) ((users (q, role)).erase u)) := by
  have hu : u ∈ users (q, role) := (h.members q role u).mpr ⟨d, hlive⟩
  have hmem : ∀ i v, v ∈ update users (q, role) ((users (q, role)).erase u) i ↔ v ∈ users i ∧ v ≠ u :=
    fun i v ↦ h.lists.mem_update_erase hu
  have hafter : ∀ {d' q' role' v},
      (k.detachUser (q, role) (some u)).LiveEntry (update m d (some (o.leave role))) d' q' role' v ↔
        k.LiveEntry m d' q' role' v ∧ ¬ (d' = d ∧ role' = role) := by
    intro d' q' role' v
    rw [← liveEntry_leave ho]
    exact liveEntry_congr rfl
  constructor
  · exact { h.toNoted.leave ho role with }
  · exact h.toUsersOrdered.leave hu
  · exact h.samePool
  · intro q' role' v
    rw [hmem, h.members]
    constructor
    · rintro ⟨⟨d', hlive'⟩, hne⟩
      refine ⟨d', hafter.mpr ⟨hlive', ?_⟩⟩
      rintro ⟨rfl, rfl⟩
      exact hne (Option.some.inj (hlive'.entry.symm.trans hlive.entry))
    · rintro ⟨d', hafter'⟩
      obtain ⟨hlive', hne⟩ := hafter.mp hafter'
      refine ⟨⟨d', hlive'⟩, ?_⟩
      rintro rfl
      have hi := h.lists.disjoint _ _ v ((h.members q' role' v).mpr ⟨d', hlive'⟩) hu
      exact hne ⟨h.inj hlive' hlive, (Prod.mk.inj hi).2⟩
  · intro d₁ d₂ q₁ q₂ role₁ role₂ v h₁ h₂
    exact h.inj (hafter.mp h₁).1 (hafter.mp h₂).1

/-- An opening is taken out of the list of a role. The members are set aside. -/
theorem Enrolled.leave (h : k.Enrolled layout m users) {o : Opening} (ho : m d = some o)
    (hinside : o.left role = false) (hqueue : k.resources.value (k.descriptors.resource d) = some q) :
    ∃ users', (k.detachUser (q, role) (k.descriptors.rwn d role)).Enrolled layout
        (update m d (some (o.leave role))) users' ∧
      (∀ v, k.Aside users v → (k.detachUser (q, role) (k.descriptors.rwn d role)).Aside users' v) ∧
      ∀ u, k.descriptors.rwn d role = some u →
        (k.detachUser (q, role) (k.descriptors.rwn d role)).Aside users' u := by
  cases hentry : k.descriptors.rwn d role with
  | none =>
    rw [detachUser_null]
    exact ⟨users, h.leave_none ho hentry, fun v hv ↦ hv, fun u hu ↦ absurd hu (by simp)⟩
  | some u =>
    have hlive : k.LiveEntry m d q role u := ⟨⟨o, ho, hinside⟩, hentry, hqueue⟩
    have hu : u ∈ users (q, role) := (h.members q role u).mpr ⟨d, hlive⟩
    refine ⟨_, h.leave_some ho hlive, fun v hv ↦ hv.leave h.toUsersOrdered hu, fun u' hu' ↦ ?_⟩
    obtain rfl := Option.some.inj hu'
    exact h.toUsersOrdered.aside hu

/-! ### Freeing a user -/

theorem Enrolled.free (h : k.Enrolled layout m users) (haside : k.Aside users u) :
    (k.queueUserFree (some u)).Enrolled layout m users := by
  have hlive : ∀ d q role v, (k.queueUserFree (some u)).LiveEntry m d q role v ↔
      k.LiveEntry m d q role v := fun _ _ _ _ ↦ liveEntry_congr rfl
  exact
    { toNoted := { h.toNoted with }
      toUsersOrdered := h.toUsersOrdered.free haside
      samePool := h.samePool.trans (releaseBlock_samePool _ _)
      members := by
        simp only [hlive]
        exact h.members
      inj := by
        simp only [hlive]
        exact h.inj }

/-- The null pointer is not the address of a user. -/
theorem Enrolled.queueUserFree_none (h : k.Enrolled layout m users) : k.queueUserFree none = k :=
  queueUserFree_null h.samePool

/-! ### Entering a queue -/

/-- A descriptor is noted that is in no list yet. -/
theorem Enrolled.note (h : k.Enrolled layout m users) {o : Opening} (hnew : m d = none)
    (hallocated : k.descriptors.allocator.Allocated d) (hleads : k.files.Leads d)
    (hqueue : k.resources.value (k.descriptors.resource d) = some q)
    (hout : ∀ role, o.left role = true) : k.Enrolled layout (update m d (some o)) users := by
  have hlive : ∀ d' q role u, k.LiveEntry (update m d (some o)) d' q role u ↔
      k.LiveEntry m d' q role u := by
    intro d' q role u
    constructor
    · rintro ⟨⟨o', ho', hinside⟩, hentry, hvalue⟩
      obtain ⟨-, rfl⟩ | ⟨-, hm⟩ := eq_or_of_update ho'
      · exact absurd (hinside.symm.trans (hout role)) Bool.false_ne_true
      · exact ⟨⟨o', hm, hinside⟩, hentry, hvalue⟩
    · rintro ⟨⟨o', ho', hinside⟩, hentry, hvalue⟩
      have hne : d' ≠ d := by
        rintro rfl
        exact absurd (hnew.symm.trans ho') (by simp)
      exact ⟨⟨o', (Function.update_of_ne hne ..).trans ho', hinside⟩, hentry, hvalue⟩
  constructor
  · constructor
    · intro d' o' ho'
      obtain ⟨rfl, -⟩ | ⟨-, hm⟩ := eq_or_of_update ho'
      · exact ⟨hallocated, hleads⟩
      · exact h.descriptor d' o' hm
    · intro d' o' ho'
      obtain ⟨rfl, -⟩ | ⟨-, hm⟩ := eq_or_of_update ho'
      · exact ⟨q, hqueue⟩
      · exact h.queue d' o' hm
    · intro d' o' ho' role hinside
      obtain ⟨-, rfl⟩ | ⟨-, hm⟩ := eq_or_of_update ho'
      · exact absurd (hinside.symm.trans (hout role)) Bool.false_ne_true
      · exact h.mode d' o' hm role hinside
    · intro d' o' ho' role hinside
      obtain ⟨-, rfl⟩ | ⟨-, hm⟩ := eq_or_of_update ho'
      · exact absurd (hinside.symm.trans (hout role)) Bool.false_ne_true
      · exact h.pid d' o' hm role hinside
  · exact h.toUsersOrdered
  · exact h.samePool
  · simp only [hlive]
    exact h.members
  · simp only [hlive]
    exact h.inj

/-- The mode does not ask for the role: the opening has no entry, and is in no list. -/
theorem Enrolled.enter_none (h : k.Enrolled layout m users) {o : Opening} (ho : m d = some o)
    (hentry : k.descriptors.rwn d role = none) (hbit : hasBit o.mode (roleBit role) = false) :
    k.Enrolled layout (update m d (some (o.enter role))) users := by
  have hlive : ∀ d' q role' u, k.LiveEntry (update m d (some (o.enter role))) d' q role' u ↔
      k.LiveEntry m d' q role' u := by
    intro d' q role' u
    constructor
    · rintro ⟨⟨o', ho', hinside⟩, hentry', hvalue⟩
      obtain ⟨rfl, rfl⟩ | ⟨-, hm⟩ := eq_or_of_update ho'
      · obtain hinside | rfl := (Opening.enter_left o role role').mp hinside
        · exact ⟨⟨o, ho, hinside⟩, hentry', hvalue⟩
        · exact absurd (hentry.symm.trans hentry') (by simp)
      · exact ⟨⟨o', hm, hinside⟩, hentry', hvalue⟩
    · rintro ⟨⟨o', ho', hinside⟩, hentry', hvalue⟩
      by_cases hd : d' = d
      · subst hd
        obtain rfl := Option.some.inj (ho.symm.trans ho')
        refine ⟨⟨_, Function.update_self .., ?_⟩, hentry', hvalue⟩
        exact (Opening.enter_left o role role').mpr (Or.inl hinside)
      · exact ⟨⟨o', (Function.update_of_ne hd ..).trans ho', hinside⟩, hentry', hvalue⟩
  constructor
  · constructor
    · intro d' o' ho'
      obtain ⟨rfl, -⟩ | ⟨-, hm⟩ := eq_or_of_update ho'
      · exact h.descriptor d' o ho
      · exact h.descriptor d' o' hm
    · intro d' o' ho'
      obtain ⟨rfl, -⟩ | ⟨-, hm⟩ := eq_or_of_update ho'
      · exact h.queue d' o ho
      · exact h.queue d' o' hm
    · intro d' o' ho' role' hinside
      obtain ⟨rfl, rfl⟩ | ⟨-, hm⟩ := eq_or_of_update ho'
      · obtain hinside | rfl := (Opening.enter_left o role role').mp hinside
        · exact h.mode d' o ho role' hinside
        · rw [hentry]
          exact hbit.symm
      · exact h.mode d' o' hm role' hinside
    · intro d' o' ho' role' hinside u hu
      obtain ⟨rfl, rfl⟩ | ⟨-, hm⟩ := eq_or_of_update ho'
      · obtain hinside | rfl := (Opening.enter_left o role role').mp hinside
        · exact h.pid d' o ho role' hinside u hu
        · exact absurd (hentry.symm.trans hu) (by simp)
      · exact h.pid d' o' hm role' hinside u hu
  · exact h.toUsersOrdered
  · exact h.samePool
  · simp only [hlive]
    exact h.members
  · simp only [hlive]
    exact h.inj

section Enters

variable {o : Opening} {pid : ℤ}

/-- A part of `Queue_add_pid` that succeeds: the mode does not ask for the role, or there is a new user. -/
theorem UsersOrdered.enters (h : k.UsersOrdered users) {mode : BitVec 32}
    (hadd : k.queueAddRole q pid mode (some d) role = some (true, k')) :
    hasBit mode (roleBit role) = false ∧ k' = k ∨ hasBit mode (roleBit role) = true ∧
      ∃ u, k' = k.enterUser q d pid role u ∧ k.Entered users q d pid role u k' := by
  cases hbit : hasBit mode (roleBit role) with
  | false =>
    rw [queueAddRole_unasked hbit] at hadd
    exact Or.inl ⟨rfl, (Prod.mk.inj (Option.some.inj hadd)).2.symm⟩
  | true =>
    obtain hfull | hfree := h.pool.size_nonneg.eq_or_lt
    · rw [h.queueAddRole_full hbit hfull.symm] at hadd
      exact absurd (Prod.mk.inj (Option.some.inj hadd)).1 Bool.false_ne_true
    · obtain ⟨u, hadd', hentered⟩ := h.queueAddRole hbit hfree q d pid
      obtain rfl := (Prod.mk.inj (Option.some.inj (hadd'.symm.trans hadd))).2
      exact Or.inr ⟨rfl, u, rfl, hentered⟩

theorem Entered.rwn_self (h : k.Entered users q d pid role u k') : k'.descriptors.rwn d role = some u := by
  rw [h.rwn, Function.update_self, Function.update_self]

theorem Entered.rwn_of_ne (h : k.Entered users q d pid role u k') {role' : Role}
    (hne : ¬ (d' = d ∧ role' = role)) : k'.descriptors.rwn d' role' = k.descriptors.rwn d' role' := by
  rw [h.rwn, Function.update_apply]
  split_ifs with hd
  · rw [Function.update_of_ne fun hrole ↦ hne ⟨hd, hrole⟩, hd]
  · rfl

theorem Entered.value_eq (h : k.Entered users q d pid role u k') (d' : Addr) :
    k'.resources.value (k'.descriptors.resource d') =
      k.resources.value (k.descriptors.resource d') := by
  rw [h.frame]

/-- An entry is the new one, or one of the old ones. -/
theorem Entered.liveEntry_iff (h : k.Entered users q d pid role u k') (ho : m d = some o)
    (hout : o.left role = true) (hqueue : k.resources.value (k.descriptors.resource d) = some q)
    {q' : Addr} {role' : Role} :
    k'.LiveEntry (update m d (some (o.enter role))) d' q' role' u' ↔
      k.LiveEntry m d' q' role' u' ∨ d' = d ∧ q' = q ∧ role' = role ∧ u' = u := by
  by_cases hsame : d' = d ∧ role' = role
  · obtain ⟨rfl, rfl⟩ := hsame
    constructor
    · rintro ⟨-, hentry, hvalue⟩
      rw [h.value_eq, hqueue] at hvalue
      obtain rfl := Option.some.inj hvalue
      obtain rfl := Option.some.inj (h.rwn_self.symm.trans hentry)
      exact Or.inr ⟨rfl, rfl, rfl, rfl⟩
    · rintro (⟨⟨o', ho', hinside⟩, -, -⟩ | ⟨-, rfl, -, rfl⟩)
      · obtain rfl := Option.some.inj (ho.symm.trans ho')
        exact absurd (hinside.symm.trans hout) Bool.false_ne_true
      · refine ⟨⟨_, Function.update_self .., ?_⟩, h.rwn_self, (h.value_eq d').trans hqueue⟩
        exact (Opening.enter_left o role' role').mpr (Or.inr rfl)
  · have hnotes : (∃ o', update m d (some (o.enter role)) d' = some o' ∧ o'.left role' = false) ↔
        ∃ o', m d' = some o' ∧ o'.left role' = false := by
      constructor
      · rintro ⟨o', ho', hinside⟩
        obtain ⟨rfl, rfl⟩ | ⟨-, hm⟩ := eq_or_of_update ho'
        · obtain hinside | rfl := (Opening.enter_left o role role').mp hinside
          · exact ⟨o, ho, hinside⟩
          · exact absurd ⟨rfl, rfl⟩ hsame
        · exact ⟨o', hm, hinside⟩
      · rintro ⟨o', ho', hinside⟩
        by_cases hd : d' = d
        · subst hd
          obtain rfl := Option.some.inj (ho.symm.trans ho')
          exact ⟨_, Function.update_self .., (Opening.enter_left o role role').mpr (Or.inl hinside)⟩
        · exact ⟨o', (Function.update_of_ne hd ..).trans ho', hinside⟩
    constructor
    · rintro ⟨hinside, hentry, hvalue⟩
      rw [h.rwn_of_ne hsame] at hentry
      rw [h.value_eq] at hvalue
      exact Or.inl ⟨hnotes.mp hinside, hentry, hvalue⟩
    · rintro (⟨hinside, hentry, hvalue⟩ | ⟨rfl, -, rfl, -⟩)
      · exact ⟨hnotes.mpr hinside, (h.rwn_of_ne hsame).trans hentry, (h.value_eq d').trans hvalue⟩
      · exact absurd ⟨rfl, rfl⟩ hsame

/-- A user of a queue is not a block that the pool hands out. -/
theorem Enrolled.ne_fresh (h : k.Enrolled layout m users) (hentered : k.Entered users q d pid role u k')
    {q' : Addr} {role' : Role} (hlive : k.LiveEntry m d' q' role' u') : u' ≠ u := by
  rintro rfl
  exact hentered.free (h.allocated _ u' ((h.members q' role' u').mpr ⟨d', hlive⟩))

theorem Noted.enter (h : k.Noted m) (hentered : k.Entered users q d o.pid role u k') (ho : m d = some o)
    (hbit : hasBit o.mode (roleBit role) = true)
    (hqueue : k.resources.value (k.descriptors.resource d) = some q)
    (hfresh : ∀ d' q' role' u', k.LiveEntry m d' q' role' u' → u' ≠ u) :
    k'.Noted (update m d (some (o.enter role))) := by
  constructor
  · intro d' o' ho'
    have hboth : k.descriptors.allocator.Allocated d' ∧ k.files.Leads d' := by
      obtain ⟨rfl, -⟩ | ⟨-, hm⟩ := eq_or_of_update ho'
      · exact h.descriptor d' o ho
      · exact h.descriptor d' o' hm
    rw [hentered.frame]
    exact hboth
  · intro d' o' ho'
    rw [hentered.value_eq]
    obtain ⟨rfl, -⟩ | ⟨-, hm⟩ := eq_or_of_update ho'
    · exact ⟨q, hqueue⟩
    · exact h.queue d' o' hm
  · intro d' o' ho' role' hinside
    obtain ⟨rfl, rfl⟩ | ⟨hne, hm⟩ := eq_or_of_update ho'
    · by_cases hrole : role' = role
      · rw [hrole, hentered.rwn_self]
        exact hbit.symm
      · rw [hentered.rwn_of_ne fun hsame ↦ hrole hsame.2]
        exact h.mode d' o ho role' (((Opening.enter_left o role role').mp hinside).resolve_right hrole)
    · rw [hentered.rwn_of_ne fun hsame ↦ hne hsame.1]
      exact h.mode d' o' hm role' hinside
  · intro d' o' ho' role' hinside v hv
    have hold {o' : Opening} (hm : m d' = some o') (hinside : o'.left role' = false)
        (hv : k.descriptors.rwn d' role' = some v) : k'.queueUsers.pid v = o'.pid := by
      obtain ⟨q', hq'⟩ := h.queue d' o' hm
      rw [hentered.pid, Function.update_of_ne (hfresh _ _ _ _ ⟨⟨o', hm, hinside⟩, hv, hq'⟩)]
      exact h.pid d' o' hm role' hinside v hv
    obtain ⟨rfl, rfl⟩ | ⟨hne, hm⟩ := eq_or_of_update ho'
    · by_cases hrole : role' = role
      · subst hrole
        obtain rfl := Option.some.inj (hentered.rwn_self.symm.trans hv)
        rw [hentered.pid]
        exact Function.update_self ..
      · rw [hentered.rwn_of_ne fun hsame ↦ hrole hsame.2] at hv
        have hinside' := ((Opening.enter_left o role role').mp hinside).resolve_right hrole
        have hpid : k'.queueUsers.pid v = o.pid := hold ho hinside' hv
        exact hpid
    · rw [hentered.rwn_of_ne fun hsame ↦ hne hsame.1] at hv
      exact hold hm hinside hv

/-- The opening gets a new user in the list of the role. -/
theorem Enrolled.enter_some (h : k.Enrolled layout m users) (ho : m d = some o)
    (hout : o.left role = true) (hqueue : k.resources.value (k.descriptors.resource d) = some q)
    (hbit : hasBit o.mode (roleBit role) = true)
    (hentered : k.Entered users q d o.pid role u (k.enterUser q d o.pid role u)) :
    (k.enterUser q d o.pid role u).Enrolled layout (update m d (some (o.enter role)))
      (update users (q, role) (users (q, role) ++ [u])) := by
  have hfresh : ∀ d' q' role' u', k.LiveEntry m d' q' role' u' → u' ≠ u :=
    fun _ _ _ _ ↦ h.ne_fresh hentered
  have hlive : ∀ {d' q' role' v},
      (k.enterUser q d o.pid role u).LiveEntry (update m d (some (o.enter role))) d' q' role' v ↔
        k.LiveEntry m d' q' role' v ∨ d' = d ∧ q' = q ∧ role' = role ∧ v = u :=
    hentered.liveEntry_iff ho hout hqueue
  constructor
  · exact h.toNoted.enter hentered ho hbit hqueue hfresh
  · exact hentered.listed
  · exact h.samePool.trans (enterUser_samePool ..)
  · intro q' role' v
    simp only [hlive]
    rw [mem_update_append, h.members]
    constructor
    · rintro (⟨d', hlive'⟩ | ⟨rfl, hi⟩)
      · exact ⟨d', Or.inl hlive'⟩
      · exact ⟨d, Or.inr ⟨rfl, (Prod.mk.inj hi).1, (Prod.mk.inj hi).2, rfl⟩⟩
    · rintro ⟨d', hlive' | ⟨rfl, rfl, rfl, rfl⟩⟩
      · exact Or.inl ⟨d', hlive'⟩
      · exact Or.inr ⟨rfl, rfl⟩
  · intro d₁ d₂ q₁ q₂ role₁ role₂ v h₁ h₂
    obtain hlive₁ | ⟨rfl, -, -, rfl⟩ := hlive.mp h₁
    · obtain hlive₂ | ⟨-, -, -, rfl⟩ := hlive.mp h₂
      · exact h.inj hlive₁ hlive₂
      · exact absurd rfl (hfresh _ _ _ _ hlive₁)
    · obtain hlive₂ | ⟨rfl, -, -, -⟩ := hlive.mp h₂
      · exact absurd rfl (hfresh _ _ _ _ hlive₂)
      · rfl

/-- A part of `Queue_add_pid` for an opening that is not in the list of its role yet. -/
theorem Enrolled.enter (h : k.Enrolled layout m users) (ho : m d = some o)
    (hout : o.left role = true) (hentry : k.descriptors.rwn d role = none)
    (hqueue : k.resources.value (k.descriptors.resource d) = some q)
    (hadd : k.queueAddRole q o.pid o.mode (some d) role = some (true, k')) :
    ∃ users', k'.Enrolled layout (update m d (some (o.enter role))) users' ∧
      ∀ v, k.Aside users v → k'.Aside users' v := by
  obtain ⟨hbit, rfl⟩ | ⟨hbit, u, rfl, hentered⟩ := h.toUsersOrdered.enters hadd
  · exact ⟨users, h.enter_none ho hentry hbit, fun v hv ↦ hv⟩
  · exact ⟨_, h.enter_some ho hout hqueue hbit hentered, fun v hv ↦
      hv.enterUser h.toUsersOrdered hentered⟩

end Enters

/-- A `Queue_add_pid` that succeeds, for a descriptor that is in no list. -/
theorem Enrolled.queueAddPid (h : k.Enrolled layout m users) {pid : ℤ} {mode : BitVec 32}
    (hnew : m d = none) (hallocated : k.descriptors.allocator.Allocated d) (hleads : k.files.Leads d)
    (hqueue : k.resources.value (k.descriptors.resource d) = some q)
    (hentries : ∀ role, k.descriptors.rwn d role = none)
    (hadd : k.queueAddPid q pid mode (some d) = some (0, k')) :
    ∃ users', k'.Enrolled layout (update m d (some ⟨mode, pid, fun _ ↦ false⟩)) users' ∧
      ∀ v, k.Aside users v → k'.Aside users' v := by
  -- the other entries of the descriptor, and its queue, stay
  have hkeeps : ∀ {k k' : Kernel} {role : Role} (role' : Role),
      k.queueAddRole q pid mode (some d) role = some (true, k') → role' ≠ role →
        k'.descriptors.rwn d role' = k.descriptors.rwn d role' ∧
        k'.resources.value (k'.descriptors.resource d) =
          k.resources.value (k.descriptors.resource d) := by
    intro k k' role role' hadd hrole
    constructor
    · obtain ⟨-, -, rfl⟩ | ⟨-, d', entry, hds, -, hrwn⟩ := queueAddRole_entry hadd
      · rfl
      · obtain rfl := Option.some.inj hds
        rw [hrwn, Function.update_self, Function.update_of_ne hrole]
    · rw [queueAddRole_eq hadd]
  obtain ⟨k₁, k₂, k₃, h₁, h₂, h₃, rfl⟩ := queueAddPid_success hadd
  have hnoted := h.note (o := ⟨mode, pid, fun _ ↦ true⟩) hnew hallocated hleads hqueue fun _ ↦ rfl
  obtain ⟨users₁, henrolled₁, haside₁⟩ :=
    hnoted.enter (Function.update_self ..) rfl (hentries .reader) hqueue h₁
  have hqueue₁ := (hkeeps .writer h₁ (by decide)).2.trans hqueue
  have hentry₁ := (hkeeps .writer h₁ (by decide)).1.trans (hentries .writer)
  obtain ⟨users₂, henrolled₂, haside₂⟩ :=
    henrolled₁.enter (Function.update_self ..) rfl hentry₁ hqueue₁ h₂
  have hqueue₂ := (hkeeps .nonBlock h₂ (by decide)).2.trans hqueue₁
  have hentry₂ := (hkeeps .nonBlock h₂ (by decide)).1.trans
    ((hkeeps .nonBlock h₁ (by decide)).1.trans (hentries .nonBlock))
  obtain ⟨users₃, henrolled₃, haside₃⟩ :=
    henrolled₂.enter (Function.update_self ..) rfl hentry₂ hqueue₂ h₃
  refine ⟨users₃, ?_, fun v hv ↦ ?_⟩
  · have hleft : ((({ mode, pid, left := fun _ ↦ true : Opening }.enter .reader).enter
        .writer).enter .nonBlock) = ⟨mode, pid, fun _ ↦ false⟩ := by
      have hroles : update (update (update (fun _ ↦ true) Role.reader false) .writer false)
          .nonBlock false = fun _ ↦ false := by
        ext role
        cases role <;> rfl
      exact congrArg (Opening.mk mode pid) hroles
    simp only [Function.update_idem, hleft] at henrolled₃
    exact henrolled₃.of_stays rfl fun d' _ _ ↦ ⟨.refl _ d', rfl⟩
  · exact (haside₃ v (haside₂ v (haside₁ v hv))).of_roll rfl

/-- A new queue has no users. -/
theorem Enrolled.queueAlloc (h : k.Enrolled layout m users) (howned : k.files.Owned k.queues.allocator)
    {k₁ : Kernel} (halloc : k.queueAlloc = (some q, k₁)) :
    k₁.Enrolled layout m users ∧ ∀ v, k.Aside users v → k₁.Aside users v := by
  rcases hget : k.queues.allocator.getBlock with ⟨_ | q', pool⟩
  · simp [Kernel.queueAlloc, hget] at halloc
  simp only [Kernel.queueAlloc, hget, Prod.mk.injEq, Option.some.injEq] at halloc
  obtain ⟨rfl, hk₁⟩ := halloc
  have hlive : ∀ d q role u, k₁.LiveEntry m d q role u ↔ k.LiveEntry m d q role u := by
    intro d q role u
    refine liveEntry_congr ?_
    rw [← hk₁]
    rfl
  subst hk₁
  obtain ⟨-, -, hfree, -⟩ := getBlock_some howned.pool hget
  have hempty : ∀ role, users (q', role) = [] := by
    intro role
    by_contra hne
    obtain ⟨u, hu⟩ := List.exists_mem_of_ne_nil _ hne
    obtain ⟨d, ⟨o, ho, -⟩, -, hqueue⟩ := (h.members q' role u).mp hu
    obtain ⟨-, x, hx, -⟩ := h.descriptor d o ho
    exact hfree (howned.values.live _ (howned.ok.listed _ x hx) q' hqueue).2
  have hsame : ∀ role, update users (q', role) [] = users := by
    intro role
    rw [← hempty role, Function.update_eq_self]
  refine ⟨?_, fun v hv ↦ ⟨hv.allocated, hv.notMem, hv.unlinked⟩⟩
  exact
    { toNoted := { h.toNoted with }
      lists := by
        have hlists := ((h.lists.clear (q', .reader)).clear (q', .writer)).clear (q', .nonBlock)
        simp only [hsame] at hlists
        exact hlists
      pool := h.pool
      samePool := h.samePool
      allocated := h.allocated
      unlinked := h.unlinked
      members := by
        simp only [hlive]
        exact h.members
      inj := by
        simp only [hlive]
        exact h.inj }

end Kernel

end DisastrOS
