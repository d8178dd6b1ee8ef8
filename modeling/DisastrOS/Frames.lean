import DisastrOS.Rendezvous
import DisastrOS.System

/-!
# What the handlers leave alone

For each handler of the resources and of the messages, and for the statements of the queue functions,
one equation that names the fields it may change: the state afterwards is the state before with these
fields taken from the state afterwards. Any other field is read off the equation.
-/

set_option autoImplicit false
set_option relaxedAutoImplicit false

namespace DisastrOS

open LinkedLists
open Function (update)

namespace Kernel

variable {k k' : Kernel}

/-! ### Resources -/

theorem openDescriptor_eq {p res : Addr} (hopen : k.openDescriptor p res = some k') :
    k' = { k with
      descriptors := k'.descriptors
      descriptorPtrs := k'.descriptorPtrs
      resources := { k.resources with descriptorsPtrs := k'.resources.descriptorsPtrs }
      pcbs := { k.pcbs with
        descriptors := k'.pcbs.descriptors
        lastFd := k'.pcbs.lastFd
        syscallRetvalue := k'.pcbs.syscallRetvalue } } := by
  unfold openDescriptor at hopen
  rcases hget : k.descriptors.allocator.getBlock with ⟨_ | des, pool⟩
  · simp only [descriptorAlloc, hget, Option.some.injEq] at hopen
    rw [← hopen]
    rfl
  · simp only [descriptorAlloc, hget, Option.ite_none_left_eq_some, Option.some.injEq] at hopen
    rcases hgetPtr : k.descriptorPtrs.allocator.getBlock with ⟨_ | desptr, ptrPool⟩
    · simp only [descriptorPtrAlloc, hgetPtr] at hopen
      rw [← hopen.2]
      rfl
    · simp only [descriptorPtrAlloc, hgetPtr] at hopen
      rw [← hopen.2]
      rfl

theorem openFound_eq {p : Addr} {res : Option Addr} {type : ℤ} {mode : BitVec 32}
    (hopen : k.openFound p res type mode = some k') :
    k' = { k with
      descriptors := k'.descriptors
      descriptorPtrs := k'.descriptorPtrs
      resources := { k.resources with descriptorsPtrs := k'.resources.descriptorsPtrs }
      pcbs := { k.pcbs with
        descriptors := k'.pcbs.descriptors
        lastFd := k'.pcbs.lastFd
        syscallRetvalue := k'.pcbs.syscallRetvalue } } := by
  unfold openFound at hopen
  split at hopen
  · rw [← Option.some.inj hopen]
    rfl
  · split_ifs at hopen
    · rw [← Option.some.inj hopen]
      rfl
    · rw [← Option.some.inj hopen]
      rfl
    · exact openDescriptor_eq hopen

/-- `internal_openResource` changes the resources, the descriptors and the caller. -/
theorem internalOpenResource_eq {id type : ℤ} {mode : BitVec 32}
    (hopen : internalOpenResource id type mode k = some k') :
    k' = { k with
      descriptors := k'.descriptors
      descriptorPtrs := k'.descriptorPtrs
      resources := { k.resources with
        allocator := k'.resources.allocator
        list := k'.resources.list
        id := k'.resources.id
        type := k'.resources.type
        descriptorsPtrs := k'.resources.descriptorsPtrs }
      resourcesList := k'.resourcesList
      pcbs := { k.pcbs with
        descriptors := k'.pcbs.descriptors
        lastFd := k'.pcbs.lastFd
        syscallRetvalue := k'.pcbs.syscallRetvalue } } := by
  obtain ⟨p, -, hrest⟩ := Option.bind_eq_some_iff.mp hopen
  obtain ⟨res, -, hrest⟩ := Option.bind_eq_some_iff.mp hrest
  split_ifs at hrest
  · rw [← Option.some.inj hrest]
    rfl
  · cases res with
    | some res =>
      have hframe := openFound_eq hrest
      rw [hframe]
    | none =>
      rcases hget : k.resources.allocator.getBlock with ⟨_ | res, pool⟩
      · simp only [resourceAlloc, hget, Option.some.injEq] at hrest
        rw [← hrest]
        rfl
      · simp only [resourceAlloc, hget] at hrest
        have hframe := openFound_eq hrest
        rw [hframe]
        rfl
  · have hframe := openFound_eq hrest
    rw [hframe]

/-- `internal_closeResource` changes the descriptors and the caller. -/
theorem internalCloseResource_eq {fd : ℤ} (hclose : internalCloseResource fd k = some k') :
    k' = { k with
      descriptors := { k.descriptors with
        allocator := k'.descriptors.allocator
        list := k'.descriptors.list }
      descriptorPtrs := { k.descriptorPtrs with
        allocator := k'.descriptorPtrs.allocator
        list := k'.descriptorPtrs.list }
      resources := { k.resources with descriptorsPtrs := k'.resources.descriptorsPtrs }
      pcbs := { k.pcbs with
        descriptors := k'.pcbs.descriptors
        syscallRetvalue := k'.pcbs.syscallRetvalue } } := by
  obtain ⟨p, -, hrest⟩ := Option.bind_eq_some_iff.mp hclose
  obtain ⟨des, -, hrest⟩ := Option.bind_eq_some_iff.mp hrest
  cases des with
  | none =>
    rw [← Option.some.inj hrest]
    rfl
  | some des =>
    obtain ⟨desptr, -, hk'⟩ := Option.bind_eq_some_iff.mp hrest
    rw [← Option.some.inj hk']
    rfl

theorem messageFree_eq (k : Kernel) (m : Option Addr) :
    k.messageFree m = { k with
      msgStrings.allocator := (k.messageFree m).msgStrings.allocator
      messages.allocator := (k.messageFree m).messages.allocator } := by
  simp only [messageFree]
  split_ifs <;> rfl

theorem freeMessages_eq {q : Addr} {bound : ℕ} {i : ℤ}
    (hfree : freeMessages q bound i k = some k') :
    k' = { k with
      msgStrings.allocator := k'.msgStrings.allocator
      messages := { k.messages with
        allocator := k'.messages.allocator
        list := k'.messages.list }
      queues.messages := k'.queues.messages } := by
  induction bound generalizing k i with
  | zero =>
    rw [freeMessages] at hfree
    split_ifs at hfree
    rw [← Option.some.inj hfree]
  | succ bound ih =>
    rw [freeMessages] at hfree
    split_ifs at hfree
    · have hframe := ih hfree
      rw [messageFree_eq] at hframe
      exact hframe
    · rw [← Option.some.inj hfree]

theorem freeUsers_eq {users : Addr × Role} {bound : ℕ} (hfree : freeUsers users bound k = some k') :
    k' = { k with
      queueUsers := { k.queueUsers with
        allocator := k'.queueUsers.allocator
        list := k'.queueUsers.list }
      queues.users := k'.queues.users } := by
  induction bound generalizing k with
  | zero =>
    rw [freeUsers] at hfree
    split_ifs at hfree
    rw [← Option.some.inj hfree]
  | succ bound ih =>
    rw [freeUsers] at hfree
    split at hfree
    · rw [← Option.some.inj hfree]
    · have hframe := ih hfree
      exact hframe

/-- `Queue_free` changes the queues, their messages and their users. -/
theorem queueFree_eq {q : Addr} (hfree : k.queueFree q = some k') :
    k' = { k with
      msgStrings.allocator := k'.msgStrings.allocator
      messages := { k.messages with
        allocator := k'.messages.allocator
        list := k'.messages.list }
      queueUsers := { k.queueUsers with
        allocator := k'.queueUsers.allocator
        list := k'.queueUsers.list }
      queues := { k.queues with
        allocator := k'.queues.allocator
        messages := k'.queues.messages
        users := k'.queues.users } } := by
  obtain ⟨k₁, h₁, hrest⟩ := Option.bind_eq_some_iff.mp hfree
  obtain ⟨k₂, h₂, hrest⟩ := Option.bind_eq_some_iff.mp hrest
  obtain ⟨k₃, h₃, hrest⟩ := Option.bind_eq_some_iff.mp hrest
  obtain ⟨k₄, h₄, hk'⟩ := Option.bind_eq_some_iff.mp hrest
  have hframe := freeUsers_eq h₄
  rw [freeUsers_eq h₃, freeUsers_eq h₂, freeMessages_eq h₁] at hframe
  rw [← Option.some.inj hk', hframe]

/-- `Queue_free`: the messages go first, and then everything but the messages is seen to. -/
theorem queueFree_cases {q : Addr} (hfree : k.queueFree q = some k') :
    ∃ k₁, freeMessages q walkBound 0 k = some k₁ ∧ k'.messages = k₁.messages ∧
      k'.msgStrings = k₁.msgStrings ∧ k'.queues.messages = k₁.queues.messages ∧
      k'.queues.allocator = (k.queues.allocator.releaseBlock q).2 := by
  obtain ⟨k₁, h₁, hrest⟩ := Option.bind_eq_some_iff.mp hfree
  obtain ⟨k₂, h₂, hrest⟩ := Option.bind_eq_some_iff.mp hrest
  obtain ⟨k₃, h₃, hrest⟩ := Option.bind_eq_some_iff.mp hrest
  obtain ⟨k₄, h₄, hk'⟩ := Option.bind_eq_some_iff.mp hrest
  have hframe := freeUsers_eq h₄
  rw [freeUsers_eq h₃, freeUsers_eq h₂] at hframe
  have hpool : k₁.queues.allocator = k.queues.allocator := by rw [freeMessages_eq h₁]
  refine ⟨k₁, h₁, ?_⟩
  rw [← Option.some.inj hk', hframe]
  exact ⟨rfl, rfl, rfl, by rw [← hpool]⟩

/-- The queue that a destruction of a resource frees. -/
def freedQueue (k : Kernel) (res : Addr) : Option Addr :=
  if k.resources.type res = 2 then k.resources.value res else none

theorem freeValue_cases {res : Addr} (hvalue : k.freeValue res = some k') :
    (∃ q, k.freedQueue res = some q ∧ k.queueFree q = some k') ∨
      k.freedQueue res = none ∧ k' = k := by
  unfold freeValue at hvalue
  cases hq : k.resources.value res with
  | none =>
    simp only [hq, Option.some.injEq] at hvalue
    exact Or.inr ⟨by simp [freedQueue, hq], hvalue.symm⟩
  | some q =>
    simp only [hq] at hvalue
    split_ifs at hvalue with htype
    · exact Or.inl ⟨q, by simp [freedQueue, hq, htype], hvalue⟩
    · exact Or.inr ⟨by simp [freedQueue, htype], (Option.some.inj hvalue).symm⟩

/-- What `internal_destroyResource` does: it fails, or the resource leaves the list, its queue is freed
and it is freed itself. -/
theorem internalDestroyResource_cases {id : ℤ} (hdestroy : internalDestroyResource id k = some k') :
    ∃ p found, k.running = some p ∧ k.resourceById id = some found ∧
      ((∃ err < 0, k' = k.setRetvalue p err) ∨
        ∃ res k₁, found = some res ∧ (k.resources.descriptorsPtrs res).size = 0 ∧
          (k.detachResource (some res)).freeValue res = some k₁ ∧
          (k₁.resources.descriptorsPtrs res).first = none ∧
          (k₁.resources.descriptorsPtrs res).last = none ∧
          k' = { k₁ with
            resources.allocator := (k₁.resources.allocator.releaseBlock res).2 }.setRetvalue p 0) := by
  obtain ⟨p, hp, hrest⟩ := Option.bind_eq_some_iff.mp hdestroy
  obtain ⟨found, hfound, hrest⟩ := Option.bind_eq_some_iff.mp hrest
  refine ⟨p, found, hp, hfound, ?_⟩
  cases found with
  | none => exact Or.inl ⟨dsosEresourceclose, by decide, (Option.some.inj hrest).symm⟩
  | some res =>
    dsimp only at hrest
    split_ifs at hrest with hsize
    · exact Or.inl ⟨dsosEresourceinuse, by decide, (Option.some.inj hrest).symm⟩
    · obtain ⟨k₁, hvalue, hrest⟩ := Option.bind_eq_some_iff.mp hrest
      obtain ⟨k₂, hres, hk'⟩ := Option.bind_eq_some_iff.mp hrest
      unfold resourceFree at hres
      split_ifs at hres with hempty
      simp only [not_or, Option.not_isSome_iff_eq_none] at hempty
      refine Or.inr ⟨res, k₁, rfl, not_not.mp hsize, hvalue, hempty.1, hempty.2, ?_⟩
      rw [← Option.some.inj hk', ← Option.some.inj hres]

/-- `internal_destroyResource` changes the resources, the queues and the caller. -/
theorem internalDestroyResource_eq {id : ℤ} (hdestroy : internalDestroyResource id k = some k') :
    k' = { k with
      msgStrings.allocator := k'.msgStrings.allocator
      messages := { k.messages with
        allocator := k'.messages.allocator
        list := k'.messages.list }
      queueUsers := { k.queueUsers with
        allocator := k'.queueUsers.allocator
        list := k'.queueUsers.list }
      queues := { k.queues with
        allocator := k'.queues.allocator
        messages := k'.queues.messages
        users := k'.queues.users }
      resources := { k.resources with
        allocator := k'.resources.allocator
        list := k'.resources.list }
      resourcesList := k'.resourcesList
      pcbs.syscallRetvalue := k'.pcbs.syscallRetvalue } := by
  obtain ⟨p, -, hrest⟩ := Option.bind_eq_some_iff.mp hdestroy
  obtain ⟨res, -, hrest⟩ := Option.bind_eq_some_iff.mp hrest
  cases res with
  | none =>
    rw [← Option.some.inj hrest]
    rfl
  | some res =>
    dsimp only at hrest
    split_ifs at hrest
    · rw [← Option.some.inj hrest]
      rfl
    · obtain ⟨k₁, hvalue, hrest⟩ := Option.bind_eq_some_iff.mp hrest
      obtain ⟨k₂, hres, hk'⟩ := Option.bind_eq_some_iff.mp hrest
      have hres' : k₂ = { k₁ with resources.allocator := k₂.resources.allocator } := by
        unfold resourceFree at hres
        split_ifs at hres
        rw [← Option.some.inj hres]
      have hvalue' : k₁ = { k.detachResource (some res) with
          msgStrings.allocator := k₁.msgStrings.allocator
          messages := { k.messages with
            allocator := k₁.messages.allocator
            list := k₁.messages.list }
          queueUsers := { k.queueUsers with
            allocator := k₁.queueUsers.allocator
            list := k₁.queueUsers.list }
          queues := { k.queues with
            allocator := k₁.queues.allocator
            messages := k₁.queues.messages
            users := k₁.queues.users } } := by
        unfold freeValue at hvalue
        split at hvalue
        · split_ifs at hvalue
          · exact queueFree_eq hvalue
          · rw [← Option.some.inj hvalue]
            rfl
        · rw [← Option.some.inj hvalue]
          rfl
      rw [← Option.some.inj hk', hres', hvalue']
      rfl

theorem queueAddRole_eq {q : Addr} {pid : ℤ} {mode : BitVec 32} {ds : Option Addr} {role : Role}
    {added : Bool} (hadd : k.queueAddRole q pid mode ds role = some (added, k')) :
    k' = { k with
      queueUsers := k'.queueUsers
      queues.users := k'.queues.users
      descriptors.rwn := k'.descriptors.rwn } := by
  unfold queueAddRole at hadd
  split_ifs at hadd
  · obtain ⟨ds, -, hrest⟩ := Option.bind_eq_some_iff.mp hadd
    rcases hget : k.queueUsers.allocator.getBlock with ⟨_ | qu, pool⟩
    · simp only [queueUserAlloc, hget, Option.some.injEq, Prod.mk.injEq] at hrest
      rw [← hrest.2]
      rfl
    · simp only [queueUserAlloc, hget, Option.some.injEq, Prod.mk.injEq] at hrest
      rw [← hrest.2]
      rfl
  · rw [← (Prod.mk.inj (Option.some.inj hadd)).2]

theorem queueAddPid_eq {q : Addr} {pid : ℤ} {mode : BitVec 32} {ds : Option Addr} {err : ℤ}
    (hadd : k.queueAddPid q pid mode ds = some (err, k')) :
    k' = { k with
      queueUsers := k'.queueUsers
      queues := { k.queues with
        users := k'.queues.users
        openings := k'.queues.openings }
      descriptors.rwn := k'.descriptors.rwn } := by
  obtain ⟨⟨added₁, k₁⟩, h₁, hrest⟩ := Option.bind_eq_some_iff.mp hadd
  have hframe₁ := queueAddRole_eq h₁
  dsimp only at hrest
  split_ifs at hrest
  · obtain ⟨-, rfl⟩ := Prod.mk.inj (Option.some.inj hrest)
    rw [hframe₁]
  · obtain ⟨⟨added₂, k₂⟩, h₂, hrest⟩ := Option.bind_eq_some_iff.mp hrest
    have hframe₂ := queueAddRole_eq h₂
    rw [hframe₁] at hframe₂
    dsimp only at hrest
    split_ifs at hrest
    · obtain ⟨-, rfl⟩ := Prod.mk.inj (Option.some.inj hrest)
      rw [hframe₂]
    · obtain ⟨⟨added₃, k₃⟩, h₃, hrest⟩ := Option.bind_eq_some_iff.mp hrest
      have hframe₃ := queueAddRole_eq h₃
      rw [hframe₂] at hframe₃
      dsimp only at hrest
      split_ifs at hrest
      · obtain ⟨-, rfl⟩ := Prod.mk.inj (Option.some.inj hrest)
        rw [hframe₃]
      · obtain ⟨-, rfl⟩ := Prod.mk.inj (Option.some.inj hrest)
        rw [hframe₃]

/-- The second part of `internal_openQueue` fails for a resource that is not of type 2, and otherwise
goes by the result of `Queue_add_pid`. -/
theorem joinQueue_cases {p res q : Addr} {fd : ℤ} {mode : BitVec 32}
    (hjoin : k.joinQueue p res q fd mode = some k') :
    k.resources.type res ≠ 2 ∧ k' = k.setRetvalue p invalidFd ∨
      k.resources.type res = 2 ∧ ∃ ds err k₁, k.descriptorByFd p fd = some ds ∧
        k.queueAddPid q (k.pcbs.pid p) mode ds = some (err, k₁) ∧
        k' = k₁.setRetvalue p (if err ≠ 0 then listInsertionError else fd) := by
  unfold joinQueue at hjoin
  split_ifs at hjoin with htype
  · exact Or.inl ⟨htype, (Option.some.inj hjoin).symm⟩
  · obtain ⟨ds, hds, hrest⟩ := Option.bind_eq_some_iff.mp hjoin
    obtain ⟨⟨err, k₁⟩, hadd, hk'⟩ := Option.bind_eq_some_iff.mp hrest
    exact Or.inr ⟨not_not.mp htype, ds, err, k₁, hds, hadd, (Option.some.inj hk').symm⟩

theorem joinQueue_eq {p res q : Addr} {fd : ℤ} {mode : BitVec 32}
    (hjoin : k.joinQueue p res q fd mode = some k') :
    k' = { k with
      queueUsers := k'.queueUsers
      queues := { k.queues with
        users := k'.queues.users
        openings := k'.queues.openings }
      descriptors.rwn := k'.descriptors.rwn
      pcbs.syscallRetvalue := k'.pcbs.syscallRetvalue } := by
  obtain ⟨-, rfl⟩ | ⟨-, _, _, k₁, -, hadd, rfl⟩ := joinQueue_cases hjoin
  · rfl
  · rw [queueAddPid_eq hadd]
    rfl

theorem giveUpResource_eq {p : Addr} {id fd : ℤ} (hgive : k.giveUpResource p id fd = some k') :
    k' = { k with
      msgStrings.allocator := k'.msgStrings.allocator
      messages := { k.messages with
        allocator := k'.messages.allocator
        list := k'.messages.list }
      queueUsers := { k.queueUsers with
        allocator := k'.queueUsers.allocator
        list := k'.queueUsers.list }
      queues := { k.queues with
        allocator := k'.queues.allocator
        messages := k'.queues.messages
        users := k'.queues.users }
      resources := { k.resources with
        allocator := k'.resources.allocator
        list := k'.resources.list
        descriptorsPtrs := k'.resources.descriptorsPtrs }
      resourcesList := k'.resourcesList
      descriptors := { k.descriptors with
        allocator := k'.descriptors.allocator
        list := k'.descriptors.list }
      descriptorPtrs := { k.descriptorPtrs with
        allocator := k'.descriptorPtrs.allocator
        list := k'.descriptorPtrs.list }
      pcbs := { k.pcbs with
        descriptors := k'.pcbs.descriptors
        syscallRetvalue := k'.pcbs.syscallRetvalue } } := by
  obtain ⟨k₁, hclose, hrest⟩ := Option.bind_eq_some_iff.mp hgive
  have hframe₁ := internalCloseResource_eq hclose
  split_ifs at hrest
  · rw [← Option.some.inj hrest, hframe₁]
  · obtain ⟨k₂, hdestroy, hrest⟩ := Option.bind_eq_some_iff.mp hrest
    have hframe₂ := internalDestroyResource_eq hdestroy
    rw [hframe₁] at hframe₂
    split_ifs at hrest
    · rw [← Option.some.inj hrest, hframe₂]
    · rw [← Option.some.inj hrest, hframe₂]
      rfl

/-- Giving up a resource that has no queue frees none. -/
theorem giveUpResource_store {p res : Addr} {id fd : ℤ}
    (hfound : k.resourceById id = some (some res)) (hvalue : k.resources.value res = none)
    (hgive : k.giveUpResource p id fd = some k') :
    k'.messages = k.messages ∧ k'.msgStrings = k.msgStrings ∧ k'.queues = k.queues ∧
      k'.queueUsers = k.queueUsers := by
  obtain ⟨k₁, hclose, hrest⟩ := Option.bind_eq_some_iff.mp hgive
  have hframe := internalCloseResource_eq hclose
  split_ifs at hrest
  · rw [← Option.some.inj hrest, hframe]
    exact ⟨rfl, rfl, rfl, rfl⟩
  · obtain ⟨k₂, hdestroy, hrest⟩ := Option.bind_eq_some_iff.mp hrest
    have hsame : k₂.messages = k.messages ∧ k₂.msgStrings = k.msgStrings ∧ k₂.queues = k.queues ∧
        k₂.queueUsers = k.queueUsers := by
      obtain ⟨p', found, -, hfound', ⟨err, -, rfl⟩ | ⟨res', k₃, rfl, -, hfree, -, -, rfl⟩⟩ :=
        internalDestroyResource_cases hdestroy
      · rw [hframe]
        exact ⟨rfl, rfl, rfl, rfl⟩
      · have hlookup : k₁.resourceById id = k.resourceById id := by
          rw [hframe]
          rfl
        rw [hlookup, hfound] at hfound'
        obtain rfl : res = res' := by simpa using hfound'
        have hnone : (k₁.detachResource (some res)).freedQueue res = none := by
          have hvalue' : k₁.resources.value res = none := by rw [hframe]; exact hvalue
          simp [freedQueue, detachResource, hvalue']
        obtain ⟨q, hq, -⟩ | ⟨-, rfl⟩ := freeValue_cases hfree
        · exact absurd (hnone.symm.trans hq) (by simp)
        · rw [hframe]
          exact ⟨rfl, rfl, rfl, rfl⟩
    split_ifs at hrest <;> rw [← Option.some.inj hrest] <;> exact hsame

/-- What `internal_openQueue` does: the resource has a queue already; it gets a new one; or there is no
queue left and the resource is given up. -/
theorem internalOpenQueue_cases {id fd : ℤ} {mode : BitVec 32}
    (hopen : internalOpenQueue id fd mode k = some k') :
    ∃ p res, k.running = some p ∧ k.resourceById id = some (some res) ∧
      ((∃ q, k.resources.value res = some q ∧ k.joinQueue p res q fd mode = some k') ∨
        k.resources.value res = none ∧
          ((∃ q k₁, k.queueAlloc = (some q, k₁) ∧
              ({ k₁ with
                resources.value := update k₁.resources.value res (some q) }).joinQueue p res q fd
                  mode = some k') ∨
            k.queueAlloc = (none, k) ∧ k.giveUpResource p id fd = some k')) := by
  obtain ⟨p, hp, hrest⟩ := Option.bind_eq_some_iff.mp hopen
  obtain ⟨found, hfound, hrest⟩ := Option.bind_eq_some_iff.mp hrest
  obtain ⟨res, hres, hrest⟩ := Option.bind_eq_some_iff.mp hrest
  refine ⟨p, res, hp, hres ▸ hfound, ?_⟩
  cases hvalue : k.resources.value res with
  | some q =>
    simp only [hvalue] at hrest
    exact Or.inl ⟨q, rfl, hrest⟩
  | none =>
    simp only [hvalue] at hrest
    rcases hget : k.queues.allocator.getBlock with ⟨_ | q, pool⟩
    · have halloc : k.queueAlloc = (none, k) := by simp [queueAlloc, hget]
      rw [halloc] at hrest
      exact Or.inr ⟨rfl, Or.inr ⟨halloc, hrest⟩⟩
    · rcases halloc : k.queueAlloc with ⟨_ | q', k₁⟩
      · simp [queueAlloc, hget] at halloc
      · rw [halloc] at hrest
        exact Or.inr ⟨rfl, Or.inl ⟨q', k₁, rfl, hrest⟩⟩

/-- `internal_openQueue` changes the resources, the descriptors, the queues and the caller. -/
theorem internalOpenQueue_eq {id fd : ℤ} {mode : BitVec 32}
    (hopen : internalOpenQueue id fd mode k = some k') :
    k' = { k with
      msgStrings.allocator := k'.msgStrings.allocator
      messages := { k.messages with
        allocator := k'.messages.allocator
        list := k'.messages.list }
      queueUsers := k'.queueUsers
      queues := k'.queues
      resources := { k.resources with
        allocator := k'.resources.allocator
        list := k'.resources.list
        descriptorsPtrs := k'.resources.descriptorsPtrs
        value := k'.resources.value }
      resourcesList := k'.resourcesList
      descriptors := { k.descriptors with
        allocator := k'.descriptors.allocator
        list := k'.descriptors.list
        rwn := k'.descriptors.rwn }
      descriptorPtrs := { k.descriptorPtrs with
        allocator := k'.descriptorPtrs.allocator
        list := k'.descriptorPtrs.list }
      pcbs := { k.pcbs with
        descriptors := k'.pcbs.descriptors
        syscallRetvalue := k'.pcbs.syscallRetvalue } } := by
  obtain ⟨p, res, -, -, ⟨q, -, hjoin⟩ | ⟨-, ⟨q, k₁, halloc, hjoin⟩ | ⟨-, hgive⟩⟩⟩ :=
    internalOpenQueue_cases hopen
  · rw [joinQueue_eq hjoin]
  · rcases hget : k.queues.allocator.getBlock with ⟨_ | q', pool⟩
    · simp [queueAlloc, hget] at halloc
    · simp only [queueAlloc, hget, Prod.mk.injEq] at halloc
      have hframe := joinQueue_eq hjoin
      rw [← halloc.2] at hframe
      rw [hframe]
  · rw [giveUpResource_eq hgive]

/-! ### Messages -/

/-- Waiting for a queue changes the entry of the process and the process. -/
theorem waitForQueue_eq {p : Addr} {entries : Option Addr} {role : Role} {retvalue : ℤ}
    (hwait : k.waitForQueue p entries role retvalue = some k') :
    ∃ ds entry, entries = some ds ∧ k.descriptors.rwn ds role = some entry ∧
      k' = (((({ k with
        queueUsers.status := update k.queueUsers.status entry .waiting }).setStatus p
          .waiting).insertPcb .waiting (k.lists .waiting).last (some p)).setRetvalue p retvalue) := by
  obtain ⟨ds, hds, hrest⟩ := Option.bind_eq_some_iff.mp hwait
  obtain ⟨entry, hentry, hk'⟩ := Option.bind_eq_some_iff.mp hrest
  exact ⟨ds, entry, hds, hentry, (Option.some.inj hk').symm⟩

theorem storeMessage_eq {msg : Option Addr} {m : Addr} (hstore : k.storeMessage msg m = some k') :
    k' = { k with msgStrings.byte := k'.msgStrings.byte } := by
  simp only [storeMessage] at hstore
  split at hstore
  · rw [← Option.some.inj hstore]
  · split_ifs at hstore
    rw [← Option.some.inj hstore]
  · simp at hstore

/-- What accepting a message does: a fresh string and a fresh message, or a failure when one of the two
pools is used up. -/
theorem acceptMessage_cases {p q : Addr} {msg : Option Addr}
    (haccept : k.acceptMessage p q msg = some k') :
    (∃ block pool m msgPool k₁, k.msgStrings.allocator.getBlock = (some block, pool) ∧
        k.messages.allocator.getBlock = (some m, msgPool) ∧
        (({ k with msgStrings.allocator := pool }).resetMessage m msgPool (some block)
          (k.queues.msgSize q)).storeMessage msg m = some k₁ ∧
        k' = (k₁.insertMessage q m).setRetvalue p 0) ∨
      (k.msgStrings.allocator.getBlock.1 = none ∨ k.messages.allocator.getBlock.1 = none) ∧
        k'.pcbs.syscallRetvalue p = dsosNoMsgSent ∧
        k' = { k with
          msgStrings.allocator := k.msgStrings.allocator.getBlock.2
          messages := { k.messages with
            allocator := k.messages.allocator.getBlock.2
            message := k'.messages.message
            len := k'.messages.len }
          pcbs.syscallRetvalue := k'.pcbs.syscallRetvalue } := by
  have hnone : ∀ a pool : PoolAllocator, a.getBlock = (none, pool) → pool = a := by
    intro a pool hget
    unfold PoolAllocator.getBlock at hget
    split_ifs at hget
    · exact (Prod.mk.inj hget).2.symm
    · exact absurd (Prod.mk.inj hget).1 (by simp)
  unfold acceptMessage at haccept
  rcases hget : k.msgStrings.allocator.getBlock with ⟨_ | block, pool⟩ <;>
    rcases hgetMsg : k.messages.allocator.getBlock with ⟨_ | m, msgPool⟩ <;>
    simp only [msgStringAlloc, messageAlloc, hget, hgetMsg] at haccept
  · obtain rfl := hnone _ _ hget
    obtain rfl := hnone _ _ hgetMsg
    rw [← Option.some.inj haccept]
    exact Or.inr ⟨Or.inl rfl, Function.update_self .., rfl⟩
  · obtain rfl := hnone _ _ hget
    rw [← Option.some.inj haccept]
    exact Or.inr ⟨Or.inl rfl, Function.update_self .., rfl⟩
  · obtain rfl := hnone _ _ hgetMsg
    rw [← Option.some.inj haccept]
    exact Or.inr ⟨Or.inr rfl, Function.update_self .., rfl⟩
  · obtain ⟨k₁, hstore, hk'⟩ := Option.bind_eq_some_iff.mp haccept
    exact Or.inl ⟨block, pool, m, msgPool, k₁, rfl, rfl, hstore, (Option.some.inj hk').symm⟩

theorem acceptMessage_eq {p q : Addr} {msg : Option Addr}
    (haccept : k.acceptMessage p q msg = some k') :
    k' = { k with
      msgStrings := k'.msgStrings
      messages := k'.messages
      queues.messages := k'.queues.messages
      pcbs.syscallRetvalue := k'.pcbs.syscallRetvalue } := by
  obtain ⟨block, pool, m, msgPool, k₁, -, -, hstore, rfl⟩ | ⟨-, -, hframe⟩ :=
    acceptMessage_cases haccept
  · rw [storeMessage_eq hstore]
    rfl
  · rw [hframe]

theorem deliverMessage_eq {p msg m : Addr} (hdeliver : k.deliverMessage p msg m = some k') :
    k' = { k with
      msgStrings.allocator := k'.msgStrings.allocator
      messages.allocator := k'.messages.allocator
      userBytes := k'.userBytes
      pcbs.syscallRetvalue := update k.pcbs.syscallRetvalue p 0 } := by
  obtain ⟨k₁, hload, hk'⟩ := Option.bind_eq_some_iff.mp hdeliver
  have hframe : k₁ = { k with userBytes := k₁.userBytes } := by
    simp only [loadMessage] at hload
    split at hload
    · rw [← Option.some.inj hload]
    · rw [← Option.some.inj hload]
    · simp at hload
  rw [← Option.some.inj hk', messageFree_eq, hframe]
  rfl

/-- What `internal_sendMessage` does: it stores the message, or waits for the queue. -/
theorem internalSendMessage_cases {msg : Option Addr} {fd : ℤ}
    (hsend : internalSendMessage msg fd k = some k') :
    ∃ p q entries, k.running = some p ∧ k.queueByFd p fd = some (some q) ∧
      k.queueEntries p fd = some entries ∧
      ((k.queues.messages q).size < k.queues.maxMessages q ∧ k.acceptMessage p q msg = some k' ∨
        k.queues.maxMessages q ≤ (k.queues.messages q).size ∧
          k.waitForQueue p entries .writer dsosNoMsgSent = some k') := by
  obtain ⟨p, hp, hrest⟩ := Option.bind_eq_some_iff.mp hsend
  obtain ⟨queue, hqueue, hrest⟩ := Option.bind_eq_some_iff.mp hrest
  obtain ⟨entries, hentries, hrest⟩ := Option.bind_eq_some_iff.mp hrest
  obtain ⟨q, hq, hrest⟩ := Option.bind_eq_some_iff.mp hrest
  refine ⟨p, q, entries, hp, hq ▸ hqueue, hentries, ?_⟩
  split_ifs at hrest with hroom
  · exact Or.inl ⟨hroom, hrest⟩
  · exact Or.inr ⟨not_lt.mp hroom, hrest⟩

/-- Popping from an empty list does nothing. -/
theorem popMessage_eq_none {q : Addr} (hpop : k.popMessage q = (none, k')) :
    (k.queues.messages q).first = none ∧ k' = k := by
  obtain ⟨hret, rfl⟩ := Prod.mk.inj hpop
  cases hfirst : (k.queues.messages q).first with
  | none => simp [listPop, hfirst]
  | some m => simp [listPop, listDetach, hfirst] at hret

/-- Popping takes the first message. -/
theorem popMessage_eq_some {q m : Addr} (hpop : k.popMessage q = (some m, k')) :
    (k.queues.messages q).first = some m := by
  obtain ⟨hret, -⟩ := Prod.mk.inj hpop
  cases hfirst : (k.queues.messages q).first with
  | none => simp [listPop, hfirst] at hret
  | some m' => simpa [listPop, listDetach, hfirst] using hret

/-- What `internal_recvMessage` does: it fails without a buffer, hands a message over, or waits for
the queue. -/
theorem internalRecvMessage_cases {msg : Option Addr} {fd : ℤ}
    (hrecv : internalRecvMessage msg fd k = some k') :
    ∃ p entries, k.running = some p ∧ k.queueEntries p fd = some entries ∧
      (msg = none ∧ k' = k.setRetvalue p dsosNoMsgReceived ∨
        ∃ buffer q, msg = some buffer ∧ k.queueByFd p fd = some (some q) ∧
          ((∃ m k₁, k.popMessage q = (some m, k₁) ∧ k₁.deliverMessage p buffer m = some k') ∨
            ∃ k₁, k.popMessage q = (none, k₁) ∧
              k₁.waitForQueue p entries .reader dsosNoMsgReceived = some k')) := by
  obtain ⟨p, hp, hrest⟩ := Option.bind_eq_some_iff.mp hrecv
  obtain ⟨queue, hqueue, hrest⟩ := Option.bind_eq_some_iff.mp hrest
  obtain ⟨entries, hentries, hrest⟩ := Option.bind_eq_some_iff.mp hrest
  refine ⟨p, entries, hp, hentries, ?_⟩
  cases msg with
  | none => exact Or.inl ⟨rfl, (Option.some.inj hrest).symm⟩
  | some buffer =>
    obtain ⟨q, hq, hrest⟩ := Option.bind_eq_some_iff.mp hrest
    refine Or.inr ⟨buffer, q, rfl, hq ▸ hqueue, ?_⟩
    rcases hpop : k.popMessage q with ⟨_ | m, k₁⟩
    · rw [hpop] at hrest
      exact Or.inr ⟨k₁, rfl, hrest⟩
    · rw [hpop] at hrest
      exact Or.inl ⟨m, k₁, rfl, hrest⟩

/-- The search for a user looks at the users, at `waiting_list` and at the pids. -/
theorem waitingUser_congr (husers : k'.queueUsers = k.queueUsers) (hlist : k'.pcbs.list = k.pcbs.list)
    (hpid : k'.pcbs.pid = k.pcbs.pid) (hlists : k'.lists = k.lists) (bound : ℕ)
    (start : Option Addr) : k'.waitingUser bound start = k.waitingUser bound start := by
  induction bound generalizing start with
  | zero => cases start <;> rfl
  | succ bound ih =>
    cases start with
    | none => rfl
    | some user => simp only [waitingUser, husers, hlist, hpid, hlists, ih]

/-- What `internal_wakeUpQueue` does: it wakes a process, or nothing. -/
theorem internalWakeUpQueue_cases {check : WakeupCheck} {q : Addr} {users : Addr × Role}
    (hwake : internalWakeUpQueue check q users k = some k') :
    ∃ p, k.running = some p ∧
      ((∃ queueUsr aux, k.wakeupCheck q check = true ∧
          k.waitingUser walkBound (k.queues.users users).first = some (some (queueUsr, aux)) ∧
          k' = (k.wakeUser queueUsr aux).setRetvalue p 0) ∨
        (k.wakeupCheck q check = true →
            k.waitingUser walkBound (k.queues.users users).first = some none) ∧
          k' = k.setRetvalue p 0) := by
  obtain ⟨p, hp, hrest⟩ := Option.bind_eq_some_iff.mp hwake
  refine ⟨p, hp, ?_⟩
  split_ifs at hrest with hcheck
  · obtain ⟨found, hfound, hk'⟩ := Option.bind_eq_some_iff.mp hrest
    cases found with
    | none => exact Or.inr ⟨fun _ ↦ hfound, (Option.some.inj hk').symm⟩
    | some pair => exact Or.inl ⟨pair.1, pair.2, hcheck, hfound, (Option.some.inj hk').symm⟩
  · exact Or.inr ⟨fun h ↦ absurd h hcheck, (Option.some.inj hrest).symm⟩

/-! ### Statements of the queue functions -/

theorem writeAttribute_eq (k : Kernel) (q : Addr) (attr newVal : ℤ) :
    k.writeAttribute q attr newVal = { k with
      queues := { k.queues with
        maxMessages := (k.writeAttribute q attr newVal).queues.maxMessages
        msgSize := (k.writeAttribute q attr newVal).queues.msgSize } } := by
  unfold writeAttribute
  split_ifs <;> rfl

/-- A statement changes the process, the queues and their users; the end of a shutdown changes
`running`. -/
theorem runStatement_eq {p : Addr} {context : Context}
    (hrun : k.runStatement p context = some k') :
    k' = { k with
      queues := { k.queues with
        users := k'.queues.users
        openings := k'.queues.openings
        maxMessages := k'.queues.maxMessages
        msgSize := k'.queues.msgSize }
      queueUsers := { k.queueUsers with
        allocator := k'.queueUsers.allocator
        list := k'.queueUsers.list }
      pcbs.cpuState := k'.pcbs.cpuState
      running := k'.running } := by
  have henter : ∀ {fd : ℤ} {next : Addr → Context}, k.enterQueue p fd next = some k' →
      k' = { k with pcbs.cpuState := k'.pcbs.cpuState } := by
    intro fd next h
    obtain ⟨queue, -, hk'⟩ := Option.bind_eq_some_iff.mp h
    cases queue <;> rw [← Option.some.inj hk'] <;> rfl
  have hset : ∀ {next : Context}, some (k.setContext p next) = some k' →
      k' = { k with pcbs.cpuState := k'.pcbs.cpuState } := by
    intro next h
    rw [← Option.some.inj h]
    rfl
  cases context with
  | close fd =>
    obtain ⟨queue, -, hrest⟩ := Option.bind_eq_some_iff.mp hrun
    cases queue with
    | none => rw [hset hrest]
    | some q =>
      obtain ⟨entries, -, hrest⟩ := Option.bind_eq_some_iff.mp hrest
      obtain ⟨ds, -, hrest⟩ := Option.bind_eq_some_iff.mp hrest
      rw [hset hrest]
  | closeDetach fd q ds role =>
    rw [← Option.some.inj hrun]
    rfl
  | closeFree fd q ds role entry =>
    simp only [runStatement] at hrun
    split at hrun <;> rw [← Option.some.inj hrun] <;> rfl
  | closeResult q =>
    simp only [runStatement] at hrun
    split_ifs at hrun
    · rw [hset hrun]
    · rw [← Option.some.inj hrun]
      rfl
  | getattr fd attr => rw [henter hrun]
  | getattrRead q attr => rw [hset hrun]
  | openResult id mode =>
    simp only [runStatement] at hrun
    split_ifs at hrun <;> rw [hset hrun]
  | openReturn => rw [hset hrun]
  | transfer c => rw [henter hrun]
  | transferSize c q =>
    simp only [runStatement] at hrun
    split at hrun <;> rw [hset hrun]
  | transferFind c q =>
    obtain ⟨entries, -, hrest⟩ := Option.bind_eq_some_iff.mp hrun
    obtain ⟨ds, -, hrest⟩ := Option.bind_eq_some_iff.mp hrest
    obtain ⟨found, -, hrest⟩ := Option.bind_eq_some_iff.mp hrest
    cases found <;> rw [hset hrest]
  | transferRoom c q ds =>
    simp only [runStatement] at hrun
    split_ifs at hrun <;> rw [hset hrun]
  | transferResult c q =>
    simp only [runStatement] at hrun
    split_ifs at hrun <;> rw [hset hrun]
  | setattr fd attr newVal => rw [henter hrun]
  | setattrCheck q attr newVal =>
    simp only [runStatement] at hrun
    split at hrun <;> rw [hset hrun]
  | setattrWrite q attr newVal =>
    rw [← Option.some.inj hrun, writeAttribute_eq]
    rfl
  | unlinkReturn => rw [hset hrun]
  | halting =>
    rw [← Option.some.inj hrun]
  | user _ | closeResource _ _ | openResource _ _ | openQueue _ _ _ | transferCall _ _
  | transferRetry _ _ | transferWake _ _ | unlink _ | graveyard => simp [runStatement] at hrun

/-- Only the write of `dmq_setattr` changes a capacity or a message size. -/
theorem runStatement_attributes {p : Addr} {context : Context}
    (hwrite : ∀ q attr newVal, context ≠ .setattrWrite q attr newVal)
    (hrun : k.runStatement p context = some k') :
    k'.queues.maxMessages = k.queues.maxMessages ∧ k'.queues.msgSize = k.queues.msgSize := by
  have henter : ∀ {fd : ℤ} {next : Addr → Context}, k.enterQueue p fd next = some k' →
      k'.queues.maxMessages = k.queues.maxMessages ∧ k'.queues.msgSize = k.queues.msgSize := by
    intro fd next h
    obtain ⟨queue, -, hk'⟩ := Option.bind_eq_some_iff.mp h
    cases queue <;> rw [← Option.some.inj hk'] <;> exact ⟨rfl, rfl⟩
  have hset : ∀ {k₁ : Kernel}, some k₁ = some k' →
      k₁.queues.maxMessages = k.queues.maxMessages → k₁.queues.msgSize = k.queues.msgSize →
        k'.queues.maxMessages = k.queues.maxMessages ∧ k'.queues.msgSize = k.queues.msgSize := by
    intro k₁ h hmax hsize
    rw [← Option.some.inj h]
    exact ⟨hmax, hsize⟩
  cases context with
  | close fd =>
    obtain ⟨queue, -, hrest⟩ := Option.bind_eq_some_iff.mp hrun
    cases queue with
    | none => exact hset hrest rfl rfl
    | some q =>
      obtain ⟨entries, -, hrest⟩ := Option.bind_eq_some_iff.mp hrest
      obtain ⟨ds, -, hrest⟩ := Option.bind_eq_some_iff.mp hrest
      exact hset hrest rfl rfl
  | closeDetach fd q ds role => exact hset hrun rfl rfl
  | closeFree fd q ds role entry =>
    simp only [runStatement] at hrun
    split at hrun <;> exact hset hrun rfl rfl
  | closeResult q =>
    simp only [runStatement] at hrun
    split_ifs at hrun <;> exact hset hrun rfl rfl
  | getattr fd attr => exact henter hrun
  | getattrRead q attr => exact hset hrun rfl rfl
  | openResult id mode =>
    simp only [runStatement] at hrun
    split_ifs at hrun <;> exact hset hrun rfl rfl
  | openReturn => exact hset hrun rfl rfl
  | transfer c => exact henter hrun
  | transferSize c q =>
    simp only [runStatement] at hrun
    split at hrun <;> exact hset hrun rfl rfl
  | transferFind c q =>
    obtain ⟨entries, -, hrest⟩ := Option.bind_eq_some_iff.mp hrun
    obtain ⟨ds, -, hrest⟩ := Option.bind_eq_some_iff.mp hrest
    obtain ⟨found, -, hrest⟩ := Option.bind_eq_some_iff.mp hrest
    cases found <;> exact hset hrest rfl rfl
  | transferRoom c q ds =>
    simp only [runStatement] at hrun
    split_ifs at hrun <;> exact hset hrun rfl rfl
  | transferResult c q =>
    simp only [runStatement] at hrun
    split_ifs at hrun <;> exact hset hrun rfl rfl
  | setattr fd attr newVal => exact henter hrun
  | setattrCheck q attr newVal =>
    simp only [runStatement] at hrun
    split at hrun <;> exact hset hrun rfl rfl
  | setattrWrite q attr newVal => exact absurd rfl (hwrite q attr newVal)
  | unlinkReturn => exact hset hrun rfl rfl
  | halting => exact hset hrun rfl rfl
  | user _ | closeResource _ _ | openResource _ _ | openQueue _ _ _ | transferCall _ _
  | transferRetry _ _ | transferWake _ _ | unlink _ | graveyard => simp [runStatement] at hrun

end Kernel

end DisastrOS
