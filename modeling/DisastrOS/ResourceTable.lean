import DisastrOS.Kernel
import DisastrOS.Library.HandleTables

/-!
# Resources and descriptors, without the lists

An abstract model of the resources: a table of handles (`Library.HandleTables`) in which the objects are the
resources, by their ids and with their types, the clients are the processes, and the handles are their
file descriptors. The system calls are functions of the table that say what is returned.
`ResourceTable.Step` allows a failing open of a queue to close the descriptor and to remove the resource,
and an exit to close all descriptors or none.

Every step is a sequence of operations of the table (`Step.performs`), and what the step says about
descriptors and resources that are given up is said of the operations.
-/

set_option autoImplicit false
set_option relaxedAutoImplicit false

namespace DisastrOS

open HandleTables

/-- The resources by id, with their types, and the file descriptors of the processes. -/
abbrev ResourceTable := Table Addr ℤ ℤ

/-- What happens to the table: nothing, a new process, or a system call of a process, which returns `ret`. -/
inductive FileEvent
  | quiet
  | creates (p : Addr)
  | call (p : Addr) (c : Syscall) (ret : ℤ)
deriving DecidableEq

/-- A process that makes the call may lose its file descriptor `fd`. -/
def Syscall.closes (fd : ℤ) : Syscall → Bool
  | .closeResource fd' | .openQueue _ fd' _ => fd' = fd
  | .exit _ => true
  | _ => false

/-- The call removes the resource with the given id, if it returns `ret`. -/
def Syscall.removes (id ret : ℤ) : Syscall → Bool
  | .destroyResource id' => id' = id ∧ ret = 0
  | .openQueue id' _ _ => id' = id ∧ ret = dsosEqueueopen
  | _ => false

namespace FileEvent

/-- The event may take file descriptor `fd` away from process `p`. -/
def Ends (p : Addr) (fd : ℤ) : FileEvent → Prop
  | .quiet => False
  | .creates q => q = p
  | .call q c _ => q = p ∧ c.closes fd = true

/-- The event removes the resource with the given id. -/
def Removes (id : ℤ) : FileEvent → Prop
  | .quiet | .creates _ => False
  | .call _ c ret => c.removes id ret = true

instance (p : Addr) (fd : ℤ) : DecidablePred (Ends p fd)
  | .quiet => inferInstanceAs (Decidable False)
  | .creates q => inferInstanceAs (Decidable (q = p))
  | .call q c _ => inferInstanceAs (Decidable (q = p ∧ c.closes fd = true))

instance (id : ℤ) : DecidablePred (Removes id)
  | .quiet | .creates _ => inferInstanceAs (Decidable False)
  | .call _ c ret => inferInstanceAs (Decidable (c.removes id ret = true))

end FileEvent

namespace ResourceTable

/-! ### The calls -/

/-- A process gets a descriptor. -/
def grantCall (t : ResourceTable) (p : Addr) (id : ℤ) : ℤ × ResourceTable :=
  if t.freeHandles = 0 then (dsosEresourcenofd, t) else (t.next p, t.grant p id)

/-- A resource is opened. One that is not there is created if the mode says so. One that is there is not
to be created exclusively, has to have the type, and is not opened exclusively while it is in use. -/
def openCall (t : ResourceTable) (p : Addr) (id type : ℤ) (mode : BitVec 32) : ℤ × ResourceTable :=
  match t.kind id with
  | none =>
    if hasBit mode dsosCreate then
      if t.freeObjects = 0 then (dsosEresourcecreate, t)
      else grantCall (t.create id type) p id
    else (dsosEresourceopen, t)
  | some type' =>
    if hasBit mode dsosCreate ∧ hasBit mode dsosExcl then (dsosEresourcenoexcl, t)
    else if type' ≠ type then (dsosEresourceopen, t)
    else if hasBit mode dsosExcl ∧ t.uses id ≠ 0 then (dsosEresourcenoexcl, t)
    else grantCall t p id

/-- A descriptor is closed. -/
def closeCall (t : ResourceTable) (p : Addr) (fd : ℤ) : ℤ × ResourceTable :=
  match t.handle p fd with
  | none => (dsosEresourceclose, t)
  | some _ => (0, t.drop p fd)

/-- A resource is removed, if it is not in use. -/
def destroyCall (t : ResourceTable) (id : ℤ) : ℤ × ResourceTable :=
  match t.kind id with
  | none => (dsosEresourceclose, t)
  | some _ => if t.uses id = 0 then (0, t.destroy id) else (dsosEresourceinuse, t)

/-- The end of an open of a queue when no queue is left: the resource is closed, and removed if it is not in
use any more. -/
def giveUpCall (t : ResourceTable) (p : Addr) (id fd : ℤ) : ℤ × ResourceTable :=
  match t.handle p fd with
  | none => (dsosEresourceclose, t)
  | some _ =>
    let destroyed := destroyCall (t.drop p fd) id
    if destroyed.1 = 0 then (dsosEqueueopen, destroyed.2) else destroyed

/-- One step. -/
inductive Step (t : ResourceTable) : FileEvent → ResourceTable → Prop
  | quiet : Step t .quiet t
  | create (p : Addr) : Step t (.creates p) (t.renew p)
  | openResource (p : Addr) (id type : ℤ) (mode : BitVec 32) :
    Step t (.call p (.openResource id type mode) (openCall t p id type mode).1)
      (openCall t p id type mode).2
  | closeResource (p : Addr) (fd : ℤ) :
    Step t (.call p (.closeResource fd) (closeCall t p fd).1) (closeCall t p fd).2
  | destroyResource (p : Addr) (id : ℤ) :
    Step t (.call p (.destroyResource id) (destroyCall t id).1) (destroyCall t id).2
  | openQueue (p : Addr) (id fd : ℤ) (mode : BitVec 32) (ret : ℤ) :
    Step t (.call p (.openQueue id fd mode) ret) t
  | giveUp (p : Addr) (id fd : ℤ) (mode : BitVec 32) :
    Step t (.call p (.openQueue id fd mode) (giveUpCall t p id fd).1) (giveUpCall t p id fd).2
  | exit (p : Addr) (value ret : ℤ) : Step t (.call p (.exit value) ret) t
  | exitToParent (p : Addr) (value ret : ℤ) (numbers : List ℤ) (t' : ResourceTable)
    (hdrops : t.Does (numbers.map (.drop p)) t') (hnone : ∀ fd, t'.handle p fd = none) :
    Step t (.call p (.exit value) ret) t'

/-! ### Steps as operations -/

variable {t t' : ResourceTable} {e : FileEvent} {p : Addr} {id type fd : ℤ} {mode : BitVec 32}

/-- What a call does is a sequence of operations, which end no more than the event says. -/
structure Performs (t : ResourceTable) (e : FileEvent) (ops : List (Op Addr ℤ ℤ)) (t' : ResourceTable) :
    Prop where
  does : t.Does ops t'
  ends : ∀ o ∈ ops, ∀ p fd, o.Ends p fd → e.Ends p fd
  removes : ∀ o ∈ ops, ∀ id, o.Removes id → e.Removes id
  renews : ∀ o ∈ ops, ∀ p, o.Renews p → e = .creates p

/-- Nothing is done. -/
theorem performs_nil (t : ResourceTable) (e : FileEvent) : Performs t e [] t where
  does := .nil t
  ends _ h := absurd h List.not_mem_nil
  removes _ h := absurd h List.not_mem_nil
  renews _ h := absurd h List.not_mem_nil

/-- One operation is done. -/
theorem performs_one {o : Op Addr ℤ ℤ} (ho : t.Allows o) (hends : ∀ p fd, o.Ends p fd → e.Ends p fd)
    (hremoves : ∀ id, o.Removes id → e.Removes id) (hrenews : ∀ p, o.Renews p → e = .creates p) :
    Performs t e [o] (t.apply o) where
  does := Table.does_one ho
  ends _ h := List.mem_singleton.mp h ▸ hends
  removes _ h := List.mem_singleton.mp h ▸ hremoves
  renews _ h := List.mem_singleton.mp h ▸ hrenews

theorem Performs.append {t₁ t₂ : ResourceTable} {ops ops' : List (Op Addr ℤ ℤ)} (h : Performs t e ops t₁)
    (h' : Performs t₁ e ops' t₂) : Performs t e (ops ++ ops') t₂ where
  does := h.does.append h'.does
  ends o ho := (List.mem_append.mp ho).elim (h.ends o) (h'.ends o)
  removes o ho := (List.mem_append.mp ho).elim (h.removes o) (h'.removes o)
  renews o ho := (List.mem_append.mp ho).elim (h.renews o) (h'.renews o)

theorem grantCall_performs (hthere : t.kind id ≠ none) (e : FileEvent) (p : Addr) :
    ∃ ops, Performs t e ops (grantCall t p id).2 := by
  unfold grantCall
  split_ifs
  · exact ⟨[], performs_nil t e⟩
  · have hallowed : t.Allows (.grant p id) := hthere
    exact ⟨_, performs_one hallowed (fun _ _ h ↦ h.elim) (fun _ h ↦ h.elim) fun _ h ↦ h.elim⟩

theorem openCall_performs (t : ResourceTable) (e : FileEvent) (p : Addr) (id type : ℤ) (mode : BitVec 32) :
    ∃ ops, Performs t e ops (openCall t p id type mode).2 := by
  have hnothing : ∃ ops, Performs t e ops t := ⟨[], performs_nil t e⟩
  unfold openCall
  split
  · rename_i hnone
    split_ifs
    · exact hnothing
    · have hallowed : t.Allows (.create id type) := hnone
      have hcreates : Performs t e [.create id type] (t.create id type) :=
        performs_one hallowed (fun _ _ h ↦ h.elim) (fun _ h ↦ h.elim) fun _ h ↦ h.elim
      have hthere : (t.create id type).kind id ≠ none := by
        change Function.update t.kind id (some type) id ≠ none
        rw [Function.update_self]
        exact Option.some_ne_none type
      obtain ⟨ops, hgrants⟩ := grantCall_performs hthere e p
      exact ⟨_, hcreates.append hgrants⟩
    · exact hnothing
  · rename_i type' hsome
    split_ifs
    · exact hnothing
    · exact hnothing
    · exact hnothing
    · exact grantCall_performs (by rw [hsome]; exact Option.some_ne_none type') e p

theorem destroyCall_performs (hremoves : (destroyCall t id).1 = 0 → e.Removes id) :
    ∃ ops, Performs t e ops (destroyCall t id).2 := by
  unfold destroyCall at hremoves ⊢
  split
  · exact ⟨[], performs_nil t e⟩
  · rename_i type' hsome
    split_ifs with hunused
    · have hallowed : t.Allows (.destroy id) := hunused
      refine ⟨_, performs_one hallowed (fun _ _ h ↦ h.elim) ?_ fun _ h ↦ h.elim⟩
      rintro _ rfl
      refine hremoves ?_
      simp only [hsome, if_pos hunused]
    · exact ⟨[], performs_nil t e⟩

theorem drop_performs (t : ResourceTable) (hends : e.Ends p fd) : Performs t e [.drop p fd] (t.drop p fd) :=
  performs_one (o := .drop p fd) trivial (fun _ _ ⟨hp, hfd⟩ ↦ hp ▸ hfd ▸ hends) (fun _ h ↦ h.elim)
    fun _ h ↦ h.elim

/-- Every step is a sequence of operations. -/
theorem Step.performs (h : Step t e t') : ∃ ops, Performs t e ops t' := by
  cases h with
  | quiet | openQueue | exit => exact ⟨[], performs_nil t _⟩
  | create p =>
    refine ⟨_, performs_one (o := .renew p) trivial ?_ (fun _ h ↦ h.elim) ?_⟩
    · rintro q fd rfl
      rfl
    · rintro q rfl
      rfl
  | openResource p id type mode => exact openCall_performs t _ p id type mode
  | closeResource p fd =>
    unfold closeCall
    split
    · exact ⟨[], performs_nil t _⟩
    · exact ⟨_, drop_performs t ⟨rfl, decide_eq_true rfl⟩⟩
  | destroyResource p id => exact destroyCall_performs fun hret ↦ decide_eq_true ⟨rfl, hret⟩
  | giveUp p id fd mode =>
    unfold giveUpCall
    split
    · exact ⟨[], performs_nil t _⟩
    · have hdrops : ∀ ret, Performs t (.call p (.openQueue id fd mode) ret) [.drop p fd] (t.drop p fd) :=
        fun ret ↦ drop_performs t ⟨rfl, decide_eq_true rfl⟩
      dsimp only
      split_ifs with hret
      · obtain ⟨ops, hdestroys⟩ : ∃ ops, Performs (t.drop p fd)
            (.call p (.openQueue id fd mode) dsosEqueueopen) ops (destroyCall (t.drop p fd) id).2 :=
          destroyCall_performs fun _ ↦ decide_eq_true ⟨rfl, rfl⟩
        exact ⟨_, (hdrops _).append hdestroys⟩
      · obtain ⟨ops, hdestroys⟩ : ∃ ops, Performs (t.drop p fd)
            (.call p (.openQueue id fd mode) (destroyCall (t.drop p fd) id).1) ops
            (destroyCall (t.drop p fd) id).2 := destroyCall_performs fun h ↦ absurd h hret
        exact ⟨_, (hdrops _).append hdestroys⟩
  | exitToParent p value ret numbers t' hdrops =>
    refine ⟨_, hdrops, ?_, ?_, ?_⟩
    · intro o ho q fd hends
      obtain ⟨n, -, rfl⟩ := List.mem_map.mp ho
      exact ⟨hends.1, rfl⟩
    · intro o ho id hremoves
      obtain ⟨n, -, rfl⟩ := List.mem_map.mp ho
      exact hremoves.elim
    · intro o ho q hrenews
      obtain ⟨n, -, rfl⟩ := List.mem_map.mp ho
      exact hrenews.elim

/-! ### Results -/

theorem grantCall_ret (t : ResourceTable) (p : Addr) (id : ℤ) :
    (grantCall t p id).1 = t.next p ∨ (grantCall t p id).1 < 0 := by
  unfold grantCall
  split_ifs
  · exact Or.inr (by decide : dsosEresourcenofd < 0)
  · exact Or.inl rfl

/-- An open returns the next number of the process, or an error. -/
theorem openCall_ret (t : ResourceTable) (p : Addr) (id type : ℤ) (mode : BitVec 32) :
    (openCall t p id type mode).1 = t.next p ∨ (openCall t p id type mode).1 < 0 := by
  unfold openCall
  split
  · split_ifs
    · exact Or.inr (by decide : dsosEresourcecreate < 0)
    · exact grantCall_ret (t.create id type) p id
    · exact Or.inr (by decide : dsosEresourceopen < 0)
  · split_ifs
    · exact Or.inr (by decide : dsosEresourcenoexcl < 0)
    · exact Or.inr (by decide : dsosEresourceopen < 0)
    · exact Or.inr (by decide : dsosEresourcenoexcl < 0)
    · exact grantCall_ret t p id

theorem grantCall_kind (t : ResourceTable) (p : Addr) (id : ℤ) : (grantCall t p id).2.kind = t.kind := by
  unfold grantCall
  split_ifs <;> rfl

/-- After an open that succeeds the resource is there, with the type. -/
theorem openCall_kind (hret : 0 ≤ (openCall t p id type mode).1) :
    (openCall t p id type mode).2.kind id = some type := by
  unfold openCall at hret ⊢
  split at hret
  · rename_i hnone
    split_ifs at hret ⊢
    · exact absurd hret (by decide : ¬ 0 ≤ dsosEresourcecreate)
    · rw [grantCall_kind]
      exact Function.update_self ..
    · exact absurd hret (by decide : ¬ 0 ≤ dsosEresourceopen)
  · rename_i type' hsome
    split_ifs at hret ⊢ with hboth htype hused
    · exact absurd hret (by decide : ¬ 0 ≤ dsosEresourcenoexcl)
    · exact absurd hret (by decide : ¬ 0 ≤ dsosEresourceopen)
    · exact absurd hret (by decide : ¬ 0 ≤ dsosEresourcenoexcl)
    · rw [grantCall_kind, hsome, not_not.mp htype]

/-- A resource that is there is not created again exclusively. -/
theorem openCall_exclusive (hkind : t.kind id ≠ none) (hcreate : hasBit mode dsosCreate = true)
    (hexcl : hasBit mode dsosExcl = true) :
    openCall t p id type mode = (dsosEresourcenoexcl, t) := by
  unfold openCall
  split
  · rename_i hnone
    exact absurd hnone hkind
  · exact if_pos ⟨hcreate, hexcl⟩

/-- A descriptor that was closed was one of the process, and is spent. -/
theorem closeCall_spent (ht : t.Sound) (hret : (closeCall t p fd).1 = 0) :
    0 ≤ fd ∧ (closeCall t p fd).2.Spent p fd := by
  unfold closeCall at hret ⊢
  cases hhandle : t.handle p fd with
  | none =>
    simp only [hhandle] at hret
    exact absurd hret (by decide)
  | some i =>
    have hgiven := ht.given p fd (by rw [hhandle]; exact Option.some_ne_none i)
    refine ⟨hgiven.1, ?_, ?_⟩
    · exact (t.drop_handle p p fd fd).trans (if_pos ⟨rfl, rfl⟩)
    · exact hgiven.2.trans_eq (congrFun (t.drop_next p fd) p).symm

/-! ### What every step keeps -/

theorem Step.sound (h : Step t e t') (ht : t.Sound) : t'.Sound := by
  obtain ⟨ops, hperforms⟩ := h.performs
  exact ht.does hperforms.does

/-- A descriptor stands for its resource until an event takes it away. -/
theorem Step.names (h : Step t e t') (ht : t.Sound) (hnames : t.Names p fd id type)
    (hlasts : ¬ e.Ends p fd) : t'.Names p fd id type := by
  obtain ⟨ops, hperforms⟩ := h.performs
  refine (hperforms.does.invariant (P := fun t ↦ t.Sound ∧ t.Names p fd id type)
    (Q := fun o ↦ ¬ o.Ends p fd) (fun o ho hends ↦ hlasts (hperforms.ends o ho p fd hends)) ?_
    ⟨ht, hnames⟩).2
  exact fun t o h ho hok ↦ ⟨h.1.apply ho, h.2.apply h.1 ho hok⟩

/-- A file descriptor that was closed is not given again. -/
theorem Step.spent (h : Step t e t') (hspent : t.Spent p fd) (hlasts : e ≠ .creates p) :
    t'.Spent p fd := by
  obtain ⟨ops, hperforms⟩ := h.performs
  refine hperforms.does.invariant (P := fun t ↦ t.Spent p fd) (Q := fun o ↦ ¬ o.Renews p)
    (fun o ho hrenews ↦ hlasts (hperforms.renews o ho p hrenews)) ?_ hspent
  exact fun t o h _ hok ↦ h.apply hok

/-- A resource stays, with its type, until an event removes it. -/
theorem Step.kind (h : Step t e t') (hkind : t.kind id = some type) (hlasts : ¬ e.Removes id) :
    t'.kind id = some type := by
  obtain ⟨ops, hperforms⟩ := h.performs
  refine hperforms.does.invariant (P := fun t ↦ t.kind id = some type) (Q := fun o ↦ ¬ o.Removes id)
    (fun o ho hremoves ↦ hlasts (hperforms.removes o ho id hremoves)) ?_ hkind
  exact fun t o h ho hok ↦ Table.kind_apply h ho hok

/-- A resource with a use that belongs to no descriptor is there for ever. -/
theorem Step.pinned (h : Step t e t') (hpinned : t.Pinned id type) : t'.Pinned id type := by
  obtain ⟨ops, hperforms⟩ := h.performs
  exact hperforms.does.invariant (P := fun t ↦ t.Pinned id type) (Q := fun _ ↦ True)
    (fun _ _ ↦ trivial) (fun _ _ h ho _ ↦ h.apply ho) hpinned

/-- A resource in use is not removed. -/
theorem destroyCall_inuse (hkind : t.kind id = some type) (hused : t.uses id ≠ 0) :
    destroyCall t id = (dsosEresourceinuse, t) := by
  rw [destroyCall, hkind]
  exact if_neg hused

end ResourceTable

end DisastrOS
