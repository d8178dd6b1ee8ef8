import DisastrOS.Files

/-!
# The descriptors of a process

What a step does to one descriptor: it keeps it, `OPEN_QUEUE` sets its entries, or the process has no
descriptor with this number any more (`Kernel.step_descriptor`). The other processes leave the descriptors
of a process alone (`Kernel.step_descriptors`), unless the block of a process is given to a new one.
-/

set_option autoImplicit false
set_option relaxedAutoImplicit false

namespace DisastrOS

open LinkedLists PoolAllocator
open Function (update)

namespace Files

variable {f f' f'' : Files} {p p' r d d' x : Addr} {pool ptrPool : PoolAllocator}

/-- Descriptor `d` is as it was, its entries aside, and refers to the same resource. -/
structure Kept (f f' : Files) (d : Addr) : Prop where
  fd : f'.descriptors.fd d = f.descriptors.fd d
  resource : f'.descriptors.resource d = f.descriptors.resource d
  id : f'.resources.id (f.descriptors.resource d) = f.resources.id (f.descriptors.resource d)
  type : f'.resources.type (f.descriptors.resource d) = f.resources.type (f.descriptors.resource d)
  value : ∀ q, f.resources.value (f.descriptors.resource d) = some q →
    f'.resources.value (f.descriptors.resource d) = some q

theorem Kept.refl (f : Files) (d : Addr) : f.Kept f d where
  fd := rfl
  resource := rfl
  id := rfl
  type := rfl
  value _ h := h

theorem Kept.trans (h : f.Kept f' d) (h' : f'.Kept f'' d) : f.Kept f'' d where
  fd := h'.fd.trans h.fd
  resource := h'.resource.trans h.resource
  id := by
    have hid := h'.id
    rw [h.resource] at hid
    exact hid.trans h.id
  type := by
    have htype := h'.type
    rw [h.resource] at htype
    exact htype.trans h.type
  value q hq := by
    have hvalue := h'.value q
    rw [h.resource] at hvalue
    exact hvalue (h.value q hq)

/-- The descriptors of process `p` are the same. -/
structure SameFor (f f' : Files) (p : Addr) : Prop where
  nodes : f'.descriptorNodes p = f.descriptorNodes p
  kept : ∀ d ∈ f.descriptorNodes p, f.Kept f' d
  rwn : ∀ d ∈ f.descriptorNodes p, f'.descriptors.rwn d = f.descriptors.rwn d

theorem SameFor.refl (f : Files) (p : Addr) : f.SameFor f p where
  nodes := rfl
  kept d _ := .refl f d
  rwn _ _ := rfl

theorem SameFor.trans (h : f.SameFor f' p) (h' : f'.SameFor f'' p) : f.SameFor f'' p := by
  have hmem : ∀ d ∈ f.descriptorNodes p, d ∈ f'.descriptorNodes p := by
    intro d hd
    rw [h.nodes]
    exact hd
  constructor
  · exact h'.nodes.trans h.nodes
  · exact fun d hd ↦ (h.kept d hd).trans (h'.kept d (hmem d hd))
  · exact fun d hd ↦ (h'.rwn d (hmem d hd)).trans (h.rwn d hd)

/-! ### The operations on the table -/

theorem Kept.create (hok : f.Ok) (hget : f.resources.allocator.getBlock = (some r, pool))
    (id type : ℤ) (hd : d ∈ f.descriptorNodes p) : f.Kept (f.create r pool id type) d := by
  obtain ⟨-, -, hfree, -⟩ := getBlock_some hok.resourcePool hget
  have hne : f.descriptors.resource d ≠ r := by
    rintro rfl
    exact hfree (hok.resource_allocated _ (Holds.resource_mem hok hd))
  exact
    { Kept.refl f d with
      id := Function.update_of_ne hne _ _
      type := Function.update_of_ne hne _ _ }

theorem Kept.destroy (f : Files) (r d : Addr) : f.Kept (f.destroy r) d := { Kept.refl f d with }

/-- A new descriptor is not one that a process has. -/
theorem Ok.ne_new (hok : f.Ok) (hget : f.descriptors.allocator.getBlock = (some d', pool))
    (hd : d ∈ f.descriptorNodes p) : d ≠ d' := by
  obtain ⟨-, -, hfree, -⟩ := getBlock_some hok.descriptorPool hget
  rintro rfl
  exact hfree (hok.descriptor_allocated p d hd)

theorem Kept.join (f : Files) (p r x : Addr) (pool ptrPool : PoolAllocator) (hne : d ≠ d') :
    f.Kept (f.join p r d' x pool ptrPool) d :=
  { Kept.refl f d with
    fd := Function.update_of_ne hne _ _
    resource := Function.update_of_ne hne _ _ }

theorem Kept.drop (f : Files) (p d' r x d : Addr) : f.Kept (f.drop p d' r x) d :=
  { Kept.refl f d with }

theorem Kept.reset (f : Files) (p d : Addr) : f.Kept (f.reset p) d := { Kept.refl f d with }

theorem Kept.setRwn (f : Files) (rwn : Addr → Role → Option Addr) (d : Addr) :
    f.Kept { f with descriptors.rwn := rwn } d := { Kept.refl f d with }

theorem Kept.setValue (d : Addr) (hnone : f.resources.value r = none) (value : Option Addr) :
    f.Kept { f with resources.value := update f.resources.value r value } d :=
  { Kept.refl f d with
    value := by
      intro q hq
      have hne : f.descriptors.resource d ≠ r := by
        rintro hsame
        rw [hsame, hnone] at hq
        exact absurd hq (by simp)
      exact (Function.update_of_ne hne _ _).trans hq }

/-! ### Other processes -/

theorem SameFor.create (hok : f.Ok) (hget : f.resources.allocator.getBlock = (some r, pool))
    (id type : ℤ) (p : Addr) : f.SameFor (f.create r pool id type) p :=
  { SameFor.refl f p with kept := fun _ hd ↦ .create hok hget id type hd }

theorem SameFor.destroy (f : Files) (r p : Addr) : f.SameFor (f.destroy r) p :=
  { SameFor.refl f p with kept := fun d _ ↦ .destroy f r d }

theorem SameFor.join (hok : f.Ok) (hr : r ∈ f.resourceNodes)
    (hget : f.descriptors.allocator.getBlock = (some d, pool))
    (hgetPtr : f.descriptorPtrs.allocator.getBlock = (some x, ptrPool)) (hne : p ≠ p') :
    f.SameFor (f.join p' r d x pool ptrPool) p where
  nodes := by rw [(Holds.join hok hr hget hgetPtr).descriptorNodes_eq, Function.update_of_ne hne]
  kept _ hd' := .join f p' r x pool ptrPool (hok.ne_new hget hd')
  rwn _ hd' := Function.update_of_ne (hok.ne_new hget hd') _ _

theorem SameFor.drop (hok : f.Ok) (hd : d ∈ f.descriptorNodes p')
    (hptr : f.descriptors.ptr d = some x) (hne : p ≠ p') :
    f.SameFor (f.drop p' d (f.descriptors.resource d) x) p where
  nodes := by rw [(Holds.drop hok hd hptr).descriptorNodes_eq, Function.update_of_ne hne]
  kept d' _ := .drop f p' d (f.descriptors.resource d) x d'
  rwn _ _ := rfl

theorem SameFor.reset (hok : f.Ok) (hne : p ≠ p') : f.SameFor (f.reset p') p where
  nodes := by rw [(Holds.reset hok p').descriptorNodes_eq, Function.update_of_ne hne]
  kept d _ := .reset f p' d
  rwn _ _ := rfl

theorem SameFor.setRwn (f : Files) (p : Addr) {rwn : Addr → Role → Option Addr}
    (hrwn : ∀ d ∈ f.descriptorNodes p, rwn d = f.descriptors.rwn d) :
    f.SameFor { f with descriptors.rwn := rwn } p where
  nodes := rfl
  kept d _ := .setRwn f rwn d
  rwn := hrwn

theorem SameFor.setValue (f : Files) (p : Addr) (hnone : f.resources.value r = none)
    (value : Option Addr) :
    f.SameFor { f with resources.value := update f.resources.value r value } p where
  nodes := rfl
  kept d _ := .setValue d hnone value
  rwn _ _ := rfl

/-- Two processes have no descriptor in common. -/
theorem Ok.disjoint (hok : f.Ok) (hne : p ≠ p') (hd : d ∈ f.descriptorNodes p) :
    d ∉ f.descriptorNodes p' :=
  fun hd' ↦ hne (hok.descriptorLists.disjoint p p' d hd hd')

end Files

namespace Kernel

variable {k k' : Kernel} {a : Action} {p p' d : Addr} {id fd : ℤ}

/-! ### The entries of a descriptor -/

/-- A part of `Queue_add_pid` writes to one entry of one descriptor, if the mode asks for it. -/
theorem queueAddRole_entry {q : Addr} {pid : ℤ} {mode : BitVec 32} {ds : Option Addr} {role : Role}
    {added : Bool} (hadd : k.queueAddRole q pid mode ds role = some (added, k')) :
    hasBit mode (roleBit role) = false ∧ added = true ∧ k' = k ∨
      hasBit mode (roleBit role) = true ∧ ∃ d entry, ds = some d ∧ added = entry.isSome ∧
        k'.descriptors.rwn =
          update k.descriptors.rwn d (update (k.descriptors.rwn d) role entry) := by
  unfold queueAddRole at hadd
  split_ifs at hadd with hbit
  · obtain ⟨d, hds, hrest⟩ := Option.bind_eq_some_iff.mp hadd
    obtain ⟨hadded, rfl⟩ := Prod.mk.inj (Option.some.inj hrest)
    refine Or.inr ⟨hbit, d, _, hds, hadded.symm, ?_⟩
    have halloc : (k.queueUserAlloc pid).2.descriptors = k.descriptors := by
      unfold queueUserAlloc
      split <;> rfl
    change update (k.queueUserAlloc pid).2.descriptors.rwn d
      (update ((k.queueUserAlloc pid).2.descriptors.rwn d) role _) = _
    rw [halloc]
  · obtain ⟨rfl, rfl⟩ := Prod.mk.inj (Option.some.inj hadd)
    exact Or.inl ⟨by simpa using hbit, rfl, rfl⟩

theorem queueAddRole_rwn {q : Addr} {pid : ℤ} {mode : BitVec 32} {ds : Option Addr} {role : Role}
    {added : Bool} (hadd : k.queueAddRole q pid mode ds role = some (added, k')) {d : Addr}
    (hd : ds ≠ some d) : k'.descriptors.rwn d = k.descriptors.rwn d := by
  obtain ⟨-, -, rfl⟩ | ⟨-, d', entry, hds, -, hrwn⟩ := queueAddRole_entry hadd
  · rfl
  · have hne : d ≠ d' := by
      rintro rfl
      exact hd hds
    rw [hrwn, Function.update_of_ne hne]

theorem queueAddPid_rwn {q : Addr} {pid : ℤ} {mode : BitVec 32} {ds : Option Addr} {err : ℤ}
    (hadd : k.queueAddPid q pid mode ds = some (err, k')) {d : Addr} (hd : ds ≠ some d) :
    k'.descriptors.rwn d = k.descriptors.rwn d := by
  obtain ⟨⟨added₁, k₁⟩, h₁, hrest⟩ := Option.bind_eq_some_iff.mp hadd
  have hrwn₁ := queueAddRole_rwn h₁ hd
  dsimp only at hrest
  split_ifs at hrest
  · obtain ⟨-, rfl⟩ := Prod.mk.inj (Option.some.inj hrest)
    exact hrwn₁
  · obtain ⟨⟨added₂, k₂⟩, h₂, hrest⟩ := Option.bind_eq_some_iff.mp hrest
    have hrwn₂ := (queueAddRole_rwn h₂ hd).trans hrwn₁
    dsimp only at hrest
    split_ifs at hrest
    · obtain ⟨-, rfl⟩ := Prod.mk.inj (Option.some.inj hrest)
      exact hrwn₂
    · obtain ⟨⟨added₃, k₃⟩, h₃, hrest⟩ := Option.bind_eq_some_iff.mp hrest
      have hrwn₃ := (queueAddRole_rwn h₃ hd).trans hrwn₂
      dsimp only at hrest
      split_ifs at hrest
      · obtain ⟨-, rfl⟩ := Prod.mk.inj (Option.some.inj hrest)
        exact hrwn₃
      · obtain ⟨-, rfl⟩ := Prod.mk.inj (Option.some.inj hrest)
        exact hrwn₃

/-- A `Queue_add_pid` that succeeds has added the process in each role that the mode asks for. -/
theorem queueAddPid_success {q : Addr} {pid : ℤ} {mode : BitVec 32} {ds : Option Addr}
    (hadd : k.queueAddPid q pid mode ds = some (0, k')) :
    ∃ k₁ k₂ k₃, k.queueAddRole q pid mode ds .reader = some (true, k₁) ∧
      k₁.queueAddRole q pid mode ds .writer = some (true, k₂) ∧
      k₂.queueAddRole q pid mode ds .nonBlock = some (true, k₃) ∧
      k' = { k₃ with queues.openings := update k₃.queues.openings q (k₃.queues.openings q + 1) } := by
  obtain ⟨⟨added₁, k₁⟩, h₁, hrest⟩ := Option.bind_eq_some_iff.mp hadd
  cases added₁ with
  | false => exact absurd (Prod.mk.inj (Option.some.inj hrest)).1 (by decide)
  | true =>
  obtain ⟨⟨added₂, k₂⟩, h₂, hrest⟩ := Option.bind_eq_some_iff.mp hrest
  cases added₂ with
  | false => exact absurd (Prod.mk.inj (Option.some.inj hrest)).1 (by decide)
  | true =>
  obtain ⟨⟨added₃, k₃⟩, h₃, hrest⟩ := Option.bind_eq_some_iff.mp hrest
  cases added₃ with
  | false => exact absurd (Prod.mk.inj (Option.some.inj hrest)).1 (by decide)
  | true => exact ⟨k₁, k₂, k₃, h₁, h₂, h₃, (Prod.mk.inj (Option.some.inj hrest)).2.symm⟩

/-- The part for another role leaves an entry in place, and its own part sets it. -/
theorem queueAddRole_isSome {q : Addr} {pid : ℤ} {mode : BitVec 32} {d : Addr} {role role' : Role}
    (hadd : k.queueAddRole q pid mode (some d) role = some (true, k'))
    (h : (k.descriptors.rwn d role').isSome ∨ role' = role ∧ hasBit mode (roleBit role) = true) :
    (k'.descriptors.rwn d role').isSome := by
  obtain ⟨hbit, -, rfl⟩ | ⟨-, d', entry, hds, hadded, hrwn⟩ := queueAddRole_entry hadd
  · obtain h | ⟨-, hset⟩ := h
    · exact h
    · exact absurd (hbit.symm.trans hset) Bool.false_ne_true
  · obtain rfl := Option.some.inj hds
    rw [hrwn, Function.update_self, Function.update_apply]
    split_ifs with hrole
    · exact hadded.symm
    · exact h.resolve_right fun hsame ↦ hrole hsame.1

theorem joinQueue_rwn {r q : Addr} {mode : BitVec 32} (hjoin : k.joinQueue p r q fd mode = some k')
    {d : Addr} (hd : k.descriptorByFd p fd ≠ some (some d)) :
    k'.descriptors.rwn d = k.descriptors.rwn d := by
  obtain ⟨-, rfl⟩ | ⟨-, ds, err, k₁, hds, hadd, rfl⟩ := joinQueue_cases hjoin
  · rfl
  · exact queueAddPid_rwn hadd fun hsome ↦ hd (hds.trans (congrArg some hsome))

/-- `OPEN_QUEUE` writes to the descriptor that it is called with. -/
theorem internalOpenQueue_rwn {mode : BitVec 32} (hp : k.running = some p)
    (hopen : internalOpenQueue id fd mode k = some k') {d : Addr}
    (hd : k.descriptorByFd p fd ≠ some (some d)) : k'.descriptors.rwn d = k.descriptors.rwn d := by
  obtain ⟨p', r, hp', -, ⟨q, -, hjoin⟩ | ⟨-, ⟨q, k₁, halloc, hjoin⟩ | ⟨-, hgive⟩⟩⟩ :=
    internalOpenQueue_cases hopen
  · obtain rfl := Option.some.inj (hp.symm.trans hp')
    exact joinQueue_rwn hjoin hd
  · obtain rfl := Option.some.inj (hp.symm.trans hp')
    rcases hget : k.queues.allocator.getBlock with ⟨_ | q', pool⟩
    · simp [queueAlloc, hget] at halloc
    · simp only [queueAlloc, hget, Prod.mk.injEq, Option.some.injEq] at halloc
      obtain ⟨rfl, rfl⟩ := halloc
      exact joinQueue_rwn hjoin hd
  · rw [giveUpResource_eq hgive]

/-- An `OPEN_QUEUE` that succeeds adds the process to the queue of the resource, which can be new. -/
theorem internalOpenQueue_success {mode : BitVec 32} (hp : k.running = some p)
    (hopen : internalOpenQueue id fd mode k = some k') (hret : 0 ≤ k'.pcbs.syscallRetvalue p) :
    ∃ r q k₁ ds k₂, k.resourceById id = some (some r) ∧
      (k.resources.value r = some q ∧ k₁ = k ∨ k.resources.value r = none ∧
        ∃ k₀, k.queueAlloc = (some q, k₀) ∧
          k₁ = { k₀ with resources.value := update k₀.resources.value r (some q) }) ∧
      k₁.descriptorByFd p fd = some ds ∧
      k₁.queueAddPid q (k₁.pcbs.pid p) mode ds = some (0, k₂) ∧ k' = k₂.setRetvalue p fd := by
  -- a process that does not join the queue gets an error
  have hjoined {k₁ : Kernel} {r q : Addr} (hjoin : k₁.joinQueue p r q fd mode = some k') :
      ∃ ds k₂, k₁.descriptorByFd p fd = some ds ∧
        k₁.queueAddPid q (k₁.pcbs.pid p) mode ds = some (0, k₂) ∧ k' = k₂.setRetvalue p fd := by
    obtain ⟨-, rfl⟩ | ⟨-, ds, err, k₂, hds, hadd, rfl⟩ := joinQueue_cases hjoin
    · change 0 ≤ update k₁.pcbs.syscallRetvalue p invalidFd p at hret
      rw [Function.update_self] at hret
      exact absurd hret (by decide)
    · by_cases herr : err = 0
      · subst herr
        exact ⟨ds, k₂, hds, hadd, rfl⟩
      · change 0 ≤ update k₂.pcbs.syscallRetvalue p (if err ≠ 0 then listInsertionError else fd) p at hret
        rw [Function.update_self, if_pos herr] at hret
        exact absurd hret (by decide)
  obtain ⟨p₁, hp₁, hopens⟩ := internalOpenQueue_files hopen
  obtain rfl := Option.some.inj (hp.symm.trans hp₁)
  obtain ⟨p₂, r, hp₂, hfound, ⟨q, hvalue, hjoin⟩ | ⟨hvalue, ⟨q, k₀, halloc, hjoin⟩ | ⟨hnone, -⟩⟩⟩ :=
    internalOpenQueue_cases hopen
  · obtain rfl := Option.some.inj (hp.symm.trans hp₂)
    obtain ⟨ds, k₂, hds, hadd, hk'⟩ := hjoined hjoin
    exact ⟨r, q, k, ds, k₂, hfound, Or.inl ⟨hvalue, rfl⟩, hds, hadd, hk'⟩
  · obtain rfl := Option.some.inj (hp.symm.trans hp₂)
    obtain ⟨ds, k₂, hds, hadd, hk'⟩ := hjoined hjoin
    exact ⟨r, q, _, ds, k₂, hfound, Or.inr ⟨hvalue, k₀, halloc, rfl⟩, hds, hadd, hk'⟩
  · cases hopens with
    | joined r' q hfound' hvalue' =>
      obtain rfl := Option.some.inj (Option.some.inj (hfound.symm.trans hfound'))
      exact absurd (hvalue.symm.trans hvalue') (by simp)
    | fresh r' q pool _ _ hget => simp [queueAlloc, hget] at hnone
    | refused _ _ hneg => exact absurd hret (not_le.mpr hneg)
    | closed _ _ _ _ _ _ hneg => exact absurd hret (not_le.mpr hneg)
    | gaveUp _ _ _ _ _ _ _ _ _ _ hneg => exact absurd hret (not_le.mpr hneg)

/-- The descriptor of an `OPEN_QUEUE` that succeeds has the entries that the mode asks for. -/
theorem internalOpenQueue_entry {mode : BitVec 32} (hp : k.running = some p)
    (hopen : internalOpenQueue id fd mode k = some k') (hret : 0 ≤ k'.pcbs.syscallRetvalue p)
    {role : Role} (hbit : hasBit mode (roleBit role) = true) :
    ∃ d, k.descriptorByFd p fd = some (some d) ∧ (k'.descriptors.rwn d role).isSome := by
  obtain ⟨r, q, k₁, ds, k₂, -, hqueue, hds, hadd, rfl⟩ := internalOpenQueue_success hp hopen hret
  have hlookup : k₁.descriptorByFd p fd = k.descriptorByFd p fd := by
    obtain ⟨-, rfl⟩ | ⟨-, k₀, halloc, rfl⟩ := hqueue
    · rfl
    · rcases hget : k.queues.allocator.getBlock with ⟨_ | q', pool⟩
      · simp [queueAlloc, hget] at halloc
      · simp only [queueAlloc, hget, Prod.mk.injEq] at halloc
        rw [← halloc.2]
        rfl
  obtain ⟨k₃, k₄, k₅, h₁, h₂, h₃, rfl⟩ := queueAddPid_success hadd
  have hown : ∃ k₆ k₇, queueAddRole k₆ q (k₁.pcbs.pid p) mode ds role = some (true, k₇) := by
    cases role with
    | reader => exact ⟨_, _, h₁⟩
    | writer => exact ⟨_, _, h₂⟩
    | nonBlock => exact ⟨_, _, h₃⟩
  obtain ⟨k₆, k₇, hadd'⟩ := hown
  obtain ⟨hclear, -, -⟩ | ⟨-, d, entry, rfl, -, -⟩ := queueAddRole_entry hadd'
  · exact absurd (hbit.symm.trans hclear) Bool.noConfusion
  refine ⟨d, hlookup.symm.trans hds, ?_⟩
  change (k₅.descriptors.rwn d role).isSome
  cases role with
  | reader =>
    have hset := queueAddRole_isSome h₁ (.inr ⟨rfl, hbit⟩)
    exact queueAddRole_isSome h₃ (.inl (queueAddRole_isSome h₂ (.inl hset)))
  | writer =>
    have hset := queueAddRole_isSome h₂ (.inr ⟨rfl, hbit⟩)
    exact queueAddRole_isSome h₃ (.inl hset)
  | nonBlock => exact queueAddRole_isSome h₃ (.inr ⟨rfl, hbit⟩)

/-! ### Steps -/

theorem Opens.sameFor {type : ℤ} {mode : BitVec 32} (hok : k.files.Ok)
    (hopens : k.Opens p' id type mode k') (hne : p ≠ p') : k.files.SameFor k'.files p := by
  cases hopens with
  | failed hfiles =>
    rw [hfiles]
    exact .refl _ p
  | joined r d x pool ptrPool hfound _ hget hgetPtr hfiles =>
    rw [hfiles]
    exact .join hok (resourceById_some hok hfound).1 hget hgetPtr hne
  | created r resPool _ _ hnew hfiles =>
    rw [hfiles]
    exact .create hok hnew id type p
  | createdJoined r d x resPool pool ptrPool hnone _ hnew hget hgetPtr hfiles =>
    have hcreated := Files.Holds.create hok id type hnew fun r' hr' ↦
      resourceById_none hok hnone hr'
    have hr : r ∈ (k.files.create r resPool id type).resourceNodes := by
      rw [hcreated.resourceNodes_eq]
      exact List.mem_append_right _ (List.mem_singleton_self r)
    rw [hfiles]
    exact (Files.SameFor.create hok hnew id type p).trans (.join hcreated.ok hr hget hgetPtr hne)

theorem OpensQueue.sameFor {mode : BitVec 32} (hok : k.files.Ok)
    (hopens : k.OpensQueue p' id fd mode k') (hne : p ≠ p')
    (hrwn : ∀ d, k.descriptorByFd p' fd ≠ some (some d) →
      k'.descriptors.rwn d = k.descriptors.rwn d) : k.files.SameFor k'.files p := by
  have hothers : ∀ d ∈ k.files.descriptorNodes p, k'.descriptors.rwn d = k.descriptors.rwn d := by
    intro d hd
    refine hrwn d fun hfound ↦ hok.disjoint hne hd ?_
    exact (descriptorByFd_some hok hfound).1
  cases hopens with
  | joined r q _ _ hfiles =>
    rw [hfiles]
    exact .setRwn _ p hothers
  | fresh r q pool _ hvalue _ hfiles =>
    rw [hfiles]
    exact (Files.SameFor.setRwn _ p hothers).trans (.setValue _ p hvalue (some q))
  | refused hfiles =>
    rw [hfiles]
    exact .refl _ p
  | closed d x hfound hptr hfiles =>
    rw [hfiles]
    exact .drop hok (descriptorByFd_some hok hfound).1 hptr hne
  | gaveUp r d x hfound hptr _ _ _ hfiles =>
    rw [hfiles]
    exact (Files.SameFor.drop hok (descriptorByFd_some hok hfound).1 hptr hne).trans (.destroy _ r p)

theorem internalExit_sameFor (hok : k.files.Ok) {value : ℤ} (hp' : k.running = some p')
    (hexit : internalExit value k = some k') (hne : p ≠ p') : k.files.SameFor k'.files p := by
  obtain ⟨hfields, -⟩ := internalExit_fields hexit
  have hnodes : k'.files.descriptorNodes p = k.files.descriptorNodes p := by
    obtain hfiles | ⟨p₁, _, hp₁, hholds, -⟩ := internalExit_files hok hexit
    · rw [hfiles]
    · obtain rfl := Option.some.inj (hp'.symm.trans hp₁)
      rw [hholds.descriptorNodes_eq, Function.update_of_ne hne]
  constructor
  · exact hnodes
  · intro d _
    rw [hfields]
    exact { Files.Kept.refl k.files d with }
  · intro d _
    rw [hfields]
    rfl

/-- What a step does to the descriptors of a process that does not call for it: nothing, unless the
process is new. -/
theorem step_descriptors (hok : k.files.Ok) (hshutdown : k.request a ≠ some .shutdown)
    (hstep : k.step a = some k')
    (hquiet : ∀ c, k.request a = some c → c.touchesFiles = true → k.running ≠ some p) :
    k.files.SameFor k'.files p ∨ k'.files = k.files.reset p ∧
      (k'.pcbs.cpuState p = .user 0 ∨ k.request a = some .fork) := by
  cases step_files hshutdown hstep with
  | same hfiles =>
    rw [hfiles]
    exact Or.inl (.refl _ p)
  | newProcess p' _ hfiles _ hcontext =>
    rw [hfiles]
    by_cases hp : p = p'
    · subst hp
      exact Or.inr ⟨rfl, hcontext⟩
    · exact Or.inl (.reset hok hp)
  | call p' c next hrunning hcalls hkind hcall =>
    left
    have hne : p ≠ p' := by
      rintro rfl
      exact hquiet c (hcalls.request hrunning) hkind hrunning
    have htrap : (k.trap p' next c).files.Ok := hok
    cases c with
    | openResource id type mode =>
      obtain ⟨p₁, hp₁, hopens⟩ := internalOpenResource_files htrap hcall
      obtain rfl := Option.some.inj (hrunning.symm.trans hp₁)
      exact Opens.sameFor (k := k.trap p' next (.openResource id type mode)) hok hopens hne
    | closeResource fd =>
      obtain ⟨p₁, hp₁, ⟨-, hfiles, -⟩ | ⟨d, x, hfound, hptr, hfiles, -⟩⟩ :=
        internalCloseResource_files hcall
      · rw [hfiles]
        exact .refl _ p
      · obtain rfl := Option.some.inj (hrunning.symm.trans hp₁)
        rw [hfiles]
        exact .drop htrap (descriptorByFd_some htrap hfound).1 hptr hne
    | destroyResource id =>
      obtain ⟨_, -, ⟨hfiles, -⟩ | ⟨r, -, -, hfiles, -⟩⟩ := internalDestroyResource_files hcall
      · rw [hfiles]
        exact .refl _ p
      · rw [hfiles]
        exact .destroy _ r p
    | openQueue id fd mode =>
      obtain ⟨p₁, hp₁, hopens⟩ := internalOpenQueue_files hcall
      obtain rfl := Option.some.inj (hrunning.symm.trans hp₁)
      have hrwn : ∀ d, (k.trap p' next (.openQueue id fd mode)).descriptorByFd p' fd ≠ some (some d) →
          k'.descriptors.rwn d = (k.trap p' next (.openQueue id fd mode)).descriptors.rwn d :=
        fun d ↦ internalOpenQueue_rwn (k := k.trap p' next (.openQueue id fd mode)) hrunning hcall
      exact OpensQueue.sameFor (k := k.trap p' next (.openQueue id fd mode)) hok hopens hne hrwn
    | exit value =>
      exact internalExit_sameFor (k := k.trap p' next (.exit value)) hok hrunning hcall hne
    | preempt | fork | spawn | wait | sleep | shutdown | sendMsg | recvMsg | wakeupQueue =>
      exact absurd hkind Bool.false_ne_true

/-! ### The descriptors of the process that takes the step -/

theorem Opens.keeps {type : ℤ} {mode : BitVec 32} (hok : k.files.Ok)
    (hopens : k.Opens p id type mode k') (hd : d ∈ k.files.descriptorNodes p) :
    d ∈ k'.files.descriptorNodes p ∧ k.files.Kept k'.files d ∧
      k'.descriptors.rwn d = k.descriptors.rwn d := by
  have hjoins {f : Files} {r d' x : Addr} {pool ptrPool : PoolAllocator} (hok : f.Ok)
      (hr : r ∈ f.resourceNodes) (hget : f.descriptors.allocator.getBlock = (some d', pool))
      (hgetPtr : f.descriptorPtrs.allocator.getBlock = (some x, ptrPool))
      (hd : d ∈ f.descriptorNodes p) :
      d ∈ (f.join p r d' x pool ptrPool).descriptorNodes p ∧
        f.Kept (f.join p r d' x pool ptrPool) d ∧
          (f.join p r d' x pool ptrPool).descriptors.rwn d = f.descriptors.rwn d := by
    have hne := hok.ne_new hget hd
    refine ⟨?_, .join f p r x pool ptrPool hne, Function.update_of_ne hne _ _⟩
    rw [(Files.Holds.join hok hr hget hgetPtr).descriptorNodes_eq, Function.update_self]
    exact List.mem_append_left _ hd
  change d ∈ k'.files.descriptorNodes p ∧ k.files.Kept k'.files d ∧
    k'.files.descriptors.rwn d = k.files.descriptors.rwn d
  cases hopens with
  | failed hfiles =>
    rw [hfiles]
    exact ⟨hd, .refl _ d, rfl⟩
  | joined r d' x pool ptrPool hfound _ hget hgetPtr hfiles =>
    rw [hfiles]
    exact hjoins hok (resourceById_some hok hfound).1 hget hgetPtr hd
  | created r resPool _ _ hnew hfiles =>
    rw [hfiles]
    exact ⟨hd, .create hok hnew id type hd, rfl⟩
  | createdJoined r d' x resPool pool ptrPool hnone _ hnew hget hgetPtr hfiles =>
    have hcreated := Files.Holds.create hok id type hnew fun r' hr' ↦
      resourceById_none hok hnone hr'
    have hr : r ∈ (k.files.create r resPool id type).resourceNodes := by
      rw [hcreated.resourceNodes_eq]
      exact List.mem_append_right _ (List.mem_singleton_self r)
    obtain ⟨hmem, hkept, hrwn⟩ := hjoins hcreated.ok hr hget hgetPtr hd
    rw [hfiles]
    exact ⟨hmem, (Files.Kept.create hok hnew id type hd).trans hkept, hrwn⟩

/-- What a step does to one descriptor. -/
inductive DescriptorStep (k : Kernel) (a : Action) (k' : Kernel) (p d : Addr) : Prop
  | kept (hmem : d ∈ k'.files.descriptorNodes p) (hkept : k.files.Kept k'.files d)
    (hrwn : k'.descriptors.rwn d = k.descriptors.rwn d)
  | entered (id : ℤ) (mode : BitVec 32) (next : Context) (hrunning : k.running = some p)
    (hcalls : k.Calls p a (.openQueue id (k.descriptors.fd d) mode) next)
    (hmem : d ∈ k'.files.descriptorNodes p) (hkept : k.files.Kept k'.files d)
  | gone (hgone : ∀ d' ∈ k'.files.descriptorNodes p, k'.descriptors.fd d' ≠ k.descriptors.fd d)

theorem descriptorStep_of_sameFor (hsame : k.files.SameFor k'.files p)
    (hd : d ∈ k.files.descriptorNodes p) : k.DescriptorStep a k' p d := by
  refine .kept ?_ (hsame.kept d hd) (hsame.rwn d hd)
  rw [hsame.nodes]
  exact hd

/-- A process drops one of its descriptors: it keeps the others, and has none with the number of that
one any more. -/
theorem descriptorStep_of_drop {d' x : Addr} (hok : k.files.Ok)
    (hfound : k.descriptorByFd p fd = some (some d')) (hptr : k.descriptors.ptr d' = some x)
    (hd : d ∈ k.files.descriptorNodes p) (hkept : k.files.Kept k'.files d)
    (hnodes : k'.files.descriptorNodes p =
      (k.files.drop p d' (k.descriptors.resource d') x).descriptorNodes p)
    (hfds : k'.descriptors.fd = k.descriptors.fd) (hrwn : k'.descriptors.rwn = k.descriptors.rwn) :
    k.DescriptorStep a k' p d := by
  obtain ⟨hd', hfd⟩ := descriptorByFd_some hok hfound
  have hrest : k'.files.descriptorNodes p = (k.files.descriptorNodes p).erase d' := by
    have hdropped := congrFun (Files.Holds.drop hok hd' hptr).descriptorNodes_eq p
    exact (hnodes.trans hdropped).trans (Function.update_self ..)
  have hnodup := (hok.descriptorLists.represents p).nodup
  by_cases hsame : d = d'
  · subst hsame
    refine .gone fun d₁ hd₁ ↦ ?_
    rw [hrest] at hd₁
    rw [hfds]
    obtain ⟨hne, hmem⟩ := hnodup.mem_erase_iff.mp hd₁
    exact fun hequal ↦ hne (hok.fd_inj p d₁ hmem d hd hequal)
  · refine .kept ?_ hkept (congrFun hrwn d)
    rw [hrest]
    exact hnodup.mem_erase_iff.mpr ⟨hsame, hd⟩

/-- `OPEN_QUEUE` keeps the descriptors of the process, but it can give up the one it is called with. -/
theorem OpensQueue.descriptorStep {mode : BitVec 32} {next : Context} (hok : k.files.Ok)
    (hcalls : k.Calls p a (.openQueue id fd mode) next) (hp : k.running = some p)
    (hopens : (k.trap p next (.openQueue id fd mode)).OpensQueue p id fd mode k')
    (hcall : syscallVector (.openQueue id fd mode) (k.trap p next (.openQueue id fd mode)) = some k')
    (hd : d ∈ k.files.descriptorNodes p) : k.DescriptorStep a k' p d := by
  have hentered (hmem : d ∈ k'.files.descriptorNodes p) (hkept : k.files.Kept k'.files d) :
      k.DescriptorStep a k' p d := by
    by_cases hsame : k.descriptors.fd d = fd
    · subst hsame
      exact .entered id mode next hp hcalls hmem hkept
    · refine .kept hmem hkept ?_
      refine internalOpenQueue_rwn (k := k.trap p next (.openQueue id fd mode)) hp hcall ?_
      intro hfound
      exact hsame (descriptorByFd_some (k := k.trap p next _) hok hfound).2
  cases hopens with
  | joined r q _ _ hfiles =>
    rw [hfiles] at hentered
    exact hentered hd (.setRwn _ _ d)
  | fresh r q pool _ hvalue _ hfiles =>
    rw [hfiles] at hentered
    exact hentered hd ((Files.Kept.setRwn k.files _ d).trans (.setValue d hvalue (some q)))
  | refused hfiles =>
    exact descriptorStep_of_sameFor (by rw [hfiles]; exact .refl _ p) hd
  | closed d' x hfound hptr hfiles =>
    refine descriptorStep_of_drop hok hfound hptr hd ?_ ?_ ?_ ?_
    · rw [hfiles]
      exact .drop ..
    · rw [hfiles]
      rfl
    · exact congrArg (·.descriptors.fd) hfiles
    · exact congrArg (·.descriptors.rwn) hfiles
  | gaveUp r d' x hfound hptr _ _ _ hfiles =>
    refine descriptorStep_of_drop hok hfound hptr hd ?_ ?_ ?_ ?_
    · rw [hfiles]
      exact (Files.Kept.drop ..).trans (.destroy ..)
    · rw [hfiles]
      rfl
    · exact congrArg (·.descriptors.fd) hfiles
    · exact congrArg (·.descriptors.rwn) hfiles

theorem step_descriptor (hok : k.files.Ok) (hshutdown : k.request a ≠ some .shutdown)
    (hstep : k.step a = some k') (hd : d ∈ k.files.descriptorNodes p) :
    k.DescriptorStep a k' p d := by
  by_cases hquiet : ∀ c, k.request a = some c → c.touchesFiles = true → k.running ≠ some p
  · obtain hsame | ⟨hreset, -⟩ := step_descriptors hok hshutdown hstep hquiet
    · exact descriptorStep_of_sameFor hsame hd
    · refine .gone fun d' hd' ↦ ?_
      rw [hreset, (Files.Holds.reset hok p).descriptorNodes_eq, Function.update_self] at hd'
      exact absurd hd' List.not_mem_nil
  push Not at hquiet
  obtain ⟨c, hrequest, hkind, hp⟩ := hquiet
  obtain ⟨next, hcalls, hcall⟩ := step_syscall hp hrequest hstep
  cases c with
  | openResource id type mode =>
    obtain ⟨p₁, hp₁, hopens⟩ := internalOpenResource_files (k := k.trap p next _) hok hcall
    obtain rfl := Option.some.inj (hp.symm.trans hp₁)
    obtain ⟨hmem, hkept, hrwn⟩ :=
      Opens.keeps (k := k.trap p next (.openResource id type mode)) hok hopens hd
    exact .kept hmem hkept hrwn
  | closeResource fd =>
    obtain ⟨p₁, hp₁, ⟨-, hfiles, -⟩ | ⟨d', x, hfound, hptr, hfiles, -⟩⟩ :=
      internalCloseResource_files hcall
    · exact descriptorStep_of_sameFor (by rw [hfiles]; exact .refl _ p) hd
    · obtain rfl := Option.some.inj (hp.symm.trans hp₁)
      refine descriptorStep_of_drop hok hfound hptr hd ?_ ?_ ?_ ?_
      · rw [hfiles]
        exact .drop ..
      · rw [hfiles]
        rfl
      · exact congrArg (·.descriptors.fd) hfiles
      · exact congrArg (·.descriptors.rwn) hfiles
  | destroyResource id =>
    obtain ⟨_, -, ⟨hfiles, -⟩ | ⟨r, -, -, hfiles, -⟩⟩ := internalDestroyResource_files hcall
    · exact descriptorStep_of_sameFor (by rw [hfiles]; exact .refl _ p) hd
    · exact descriptorStep_of_sameFor (by rw [hfiles]; exact .destroy _ r p) hd
  | openQueue id fd mode =>
    obtain ⟨p₁, hp₁, hopens⟩ := internalOpenQueue_files hcall
    obtain rfl := Option.some.inj (hp.symm.trans hp₁)
    exact hopens.descriptorStep hok hcalls hp hcall hd
  | exit value =>
    obtain hfiles | ⟨p₁, _, hp₁, hholds, -⟩ :=
      internalExit_files (k := k.trap p next (.exit value)) hok hcall
    · exact descriptorStep_of_sameFor (by rw [hfiles]; exact .refl _ p) hd
    · obtain rfl := Option.some.inj (hp.symm.trans hp₁)
      refine .gone fun d' hd' ↦ ?_
      rw [hholds.descriptorNodes_eq, Function.update_self] at hd'
      exact absurd hd' List.not_mem_nil
  | preempt | fork | spawn | wait | sleep | shutdown | sendMsg | recvMsg | wakeupQueue =>
    exact absurd hkind Bool.false_ne_true

end Kernel

end DisastrOS
