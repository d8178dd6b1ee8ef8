import Mathlib.Data.Finset.Card
import Mathlib.Data.Finset.Erase
import Mathlib.Logic.Function.Basic

/-!
# Tables of objects and handles

A table keeps objects under names, each of a kind, and gives its clients numbered handles of them; how
many objects and handles it can still take is part of the table. The operations are those of any such
table: an object is added or removed (`create`, `destroy`), a client gets or gives up a handle (`grant`,
`drop`), and a client starts again without handles (`renew`).

A table is `Sound` when the handles of an object are no more than it has uses. The uses may be more: a
client that starts again does not give its handles up. So whatever has a handle is in the table, and
an object that is removed when it has no uses has no handles. A handle stands for its object, and the
object keeps its kind, until the handle is given up (`Names`); and a number that was given is not given
again (`Spent`). An object with a use that belongs to no handle stays for ever (`Pinned`).
-/

set_option autoImplicit false
set_option relaxedAutoImplicit false

namespace DisastrOS.HandleTables

open Function (update)

/-- The objects, by their names, with their kinds and the number of their uses; the handles of each client,
by their numbers, and the number of the next one; and the room that is left. -/
@[ext]
structure Table (π ι κ : Type*) where
  kind : ι → Option κ
  uses : ι → ℕ
  handle : π → ℤ → Option ι
  next : π → ℤ
  freeObjects : ℤ
  freeHandles : ℤ

variable {π ι κ : Type*} [DecidableEq π] [DecidableEq ι] {t : Table π ι κ} {p q : π} {i j : ι} {c : κ}
  {n m : ℤ}

namespace Table

/-! ### The operations -/

/-- A new object. -/
def create (t : Table π ι κ) (i : ι) (c : κ) : Table π ι κ :=
  { t with
    kind := update t.kind i (some c)
    freeObjects := t.freeObjects - 1 }

/-- An object is removed. -/
def destroy (t : Table π ι κ) (i : ι) : Table π ι κ :=
  { t with
    kind := update t.kind i none
    freeObjects := t.freeObjects + 1 }

/-- A client gets a handle, with its next number. -/
def grant (t : Table π ι κ) (p : π) (i : ι) : Table π ι κ :=
  { t with
    uses := update t.uses i (t.uses i + 1)
    handle := update t.handle p (update (t.handle p) (t.next p) (some i))
    next := update t.next p (t.next p + 1)
    freeHandles := t.freeHandles - 1 }

/-- A client gives up a handle, if it has it. -/
def drop (t : Table π ι κ) (p : π) (n : ℤ) : Table π ι κ :=
  match t.handle p n with
  | none => t
  | some i =>
    { t with
      uses := update t.uses i (t.uses i - 1)
      handle := update t.handle p (update (t.handle p) n none)
      freeHandles := t.freeHandles + 1 }

/-- A client starts again without handles. -/
def renew (t : Table π ι κ) (p : π) : Table π ι κ :=
  { t with
    handle := update t.handle p fun _ ↦ none
    next := update t.next p 0 }

/-! ### Their effects -/

theorem drop_of_none (h : t.handle p n = none) : t.drop p n = t := by
  rw [drop, h]

theorem drop_of_some (h : t.handle p n = some i) : t.drop p n =
    { t with
      uses := update t.uses i (t.uses i - 1)
      handle := update t.handle p (update (t.handle p) n none)
      freeHandles := t.freeHandles + 1 } := by
  rw [drop, h]

@[simp]
theorem drop_kind (t : Table π ι κ) (p : π) (n : ℤ) : (t.drop p n).kind = t.kind := by
  unfold drop
  split <;> rfl

@[simp]
theorem drop_next (t : Table π ι κ) (p : π) (n : ℤ) : (t.drop p n).next = t.next := by
  unfold drop
  split <;> rfl

omit [DecidableEq ι] in
theorem handle_update (t : Table π ι κ) (p q : π) (n m : ℤ) (entry : Option ι) :
    update t.handle p (update (t.handle p) n entry) q m =
      if q = p ∧ m = n then entry else t.handle q m := by
  by_cases hq : q = p
  · subst hq
    rw [Function.update_self, Function.update_apply]
    simp
  · rw [Function.update_of_ne hq, if_neg fun h ↦ hq h.1]

theorem drop_handle (t : Table π ι κ) (p q : π) (n m : ℤ) :
    (t.drop p n).handle q m = if q = p ∧ m = n then none else t.handle q m := by
  cases hcases : t.handle p n with
  | none =>
    rw [drop_of_none hcases]
    split_ifs with hsame
    · rw [hsame.1, hsame.2, hcases]
    · rfl
  | some i =>
    rw [drop_of_some hcases]
    exact t.handle_update p q n m none

theorem grant_handle (t : Table π ι κ) (p q : π) (i : ι) (m : ℤ) :
    (t.grant p i).handle q m = if q = p ∧ m = t.next p then some i else t.handle q m :=
  t.handle_update p q (t.next p) m (some i)

omit [DecidableEq ι] in
theorem renew_handle (t : Table π ι κ) (p q : π) (m : ℤ) :
    (t.renew p).handle q m = if q = p then none else t.handle q m := by
  change update t.handle p (fun _ ↦ none) q m = _
  rw [Function.update_apply]
  split_ifs <;> rfl

/-! ### Uses without a handle -/

/-- Object `i` has `surplus` uses at least that belong to no handle. -/
def Spare (t : Table π ι κ) (i : ι) (surplus : ℕ) : Prop :=
  ∀ handles : Finset (π × ℤ), (∀ h ∈ handles, t.handle h.1 h.2 = some i) →
    handles.card + surplus ≤ t.uses i

variable {surplus : ℕ}

omit [DecidableEq π] [DecidableEq ι] in
theorem Spare.le_uses (h : t.Spare i surplus) : surplus ≤ t.uses i := by
  have hempty := h ∅ fun x hx ↦ absurd hx (Finset.notMem_empty x)
  rwa [Finset.card_empty, Nat.zero_add] at hempty

theorem Spare.grant (h : t.Spare j surplus) (p : π) (i : ι) : (t.grant p i).Spare j surplus := by
  intro handles hhandles
  change handles.card + surplus ≤ update t.uses i (t.uses i + 1) j
  -- all but the new handle were there before
  have hold : ∀ x ∈ handles.erase (p, t.next p), t.handle x.1 x.2 = some j := by
    intro x hx
    obtain ⟨hne, hmem⟩ := Finset.mem_erase.mp hx
    have hx := hhandles x hmem
    rwa [grant_handle, if_neg fun hsame ↦ hne (Prod.ext hsame.1 hsame.2)] at hx
  have hcard := h _ hold
  rw [Function.update_apply]
  split_ifs with hj
  · have hle := Finset.pred_card_le_card_erase (s := handles) (a := (p, t.next p))
    rw [hj] at hcard
    omega
  · have hnew : (p, t.next p) ∉ handles := by
      intro hmem
      have hsame := hhandles _ hmem
      rw [grant_handle, if_pos ⟨rfl, rfl⟩] at hsame
      exact hj (Option.some.inj hsame).symm
    rwa [Finset.erase_eq_of_notMem hnew] at hcard

theorem Spare.drop (h : t.Spare j surplus) (p : π) (n : ℤ) : (t.drop p n).Spare j surplus := by
  cases hcases : t.handle p n with
  | none =>
    rw [drop_of_none hcases]
    exact h
  | some i =>
    intro handles hhandles
    have huses : (t.drop p n).uses = update t.uses i (t.uses i - 1) := by rw [drop_of_some hcases]
    have hold : ∀ x ∈ handles, t.handle x.1 x.2 = some j ∧ x ≠ (p, n) := by
      intro x hx
      have hx := hhandles x hx
      rw [drop_handle] at hx
      split_ifs at hx with hsame
      exact ⟨hx, fun heq ↦ hsame (Prod.ext_iff.mp heq)⟩
    rw [huses, Function.update_apply]
    split_ifs with hj
    · -- with the handle that is given up they are one more
      have hnew : (p, n) ∉ handles := fun hmem ↦ (hold _ hmem).2 rfl
      have hcard := h (insert (p, n) handles) fun x hx ↦ by
        rcases Finset.mem_insert.mp hx with rfl | hmem
        · exact hj ▸ hcases
        · exact (hold x hmem).1
      rw [Finset.card_insert_of_notMem hnew, hj] at hcard
      omega
    · exact h handles fun x hx ↦ (hold x hx).1

omit [DecidableEq ι] in
theorem Spare.renew (h : t.Spare j surplus) (p : π) : (t.renew p).Spare j surplus := by
  refine fun handles hhandles ↦ h handles fun x hx ↦ ?_
  have hx := hhandles x hx
  rw [renew_handle] at hx
  split_ifs at hx
  exact hx

omit [DecidableEq ι] in
/-- A client that starts again leaves the uses of its handles behind. -/
theorem Spare.renew_of_handle (h : t.Spare i surplus) (hhandle : t.handle p n = some i) :
    (t.renew p).Spare i (surplus + 1) := by
  intro handles hhandles
  have hold : ∀ x ∈ handles, x.1 ≠ p ∧ t.handle x.1 x.2 = some i := by
    intro x hx
    have hx := hhandles x hx
    rw [renew_handle] at hx
    split_ifs at hx with hsame
    exact ⟨hsame, hx⟩
  have hnew : (p, n) ∉ handles := fun hmem ↦ (hold _ hmem).1 rfl
  have hcard := h (insert (p, n) handles) fun x hx ↦ by
    rcases Finset.mem_insert.mp hx with rfl | hmem
    · exact hhandle
    · exact (hold x hmem).2
  rw [Finset.card_insert_of_notMem hnew] at hcard
  exact (by omega : handles.card + (surplus + 1) ≤ t.uses i)

/-! ### Sound tables -/

/-- The numbers of handles were given, and each object has as many uses as handles at least, and none when
it is not there. -/
structure Sound (t : Table π ι κ) : Prop where
  next_nonneg : ∀ p, 0 ≤ t.next p
  given : ∀ p n, t.handle p n ≠ none → 0 ≤ n ∧ n < t.next p
  counted : ∀ i, ∀ handles : Finset (π × ℤ), (∀ h ∈ handles, t.handle h.1 h.2 = some i) →
    handles.card ≤ t.uses i
  unused : ∀ i, t.kind i = none → t.uses i = 0

omit [DecidableEq π] [DecidableEq ι] in
theorem Sound.spare (h : t.Sound) (i : ι) : t.Spare i 0 := h.counted i

omit [DecidableEq π] [DecidableEq ι] in
/-- Nobody has a handle of an object without uses. -/
theorem Sound.handle_ne (h : t.Sound) (hunused : t.uses i = 0) (p : π) (n : ℤ) :
    t.handle p n ≠ some i := by
  intro hhandle
  have hcard := h.counted i {(p, n)} fun x hx ↦ by
    rw [Finset.mem_singleton.mp hx]
    exact hhandle
  rw [Finset.card_singleton, hunused] at hcard
  omega

omit [DecidableEq π] in
theorem Sound.create (h : t.Sound) (i : ι) (c : κ) : (t.create i c).Sound where
  next_nonneg := h.next_nonneg
  given := h.given
  counted := h.counted
  unused j hj := by
    change update t.kind i (some c) j = none at hj
    rw [Function.update_apply] at hj
    split_ifs at hj
    exact h.unused j hj

omit [DecidableEq π] in
theorem Sound.destroy (h : t.Sound) (hunused : t.uses i = 0) : (t.destroy i).Sound where
  next_nonneg := h.next_nonneg
  given := h.given
  counted := h.counted
  unused j hj := by
    change update t.kind i none j = none at hj
    rw [Function.update_apply] at hj
    split_ifs at hj with hsame
    · exact hsame ▸ hunused
    · exact h.unused j hj

theorem Sound.grant (h : t.Sound) (hthere : t.kind i ≠ none) (p : π) : (t.grant p i).Sound where
  next_nonneg q := by
    change 0 ≤ update t.next p (t.next p + 1) q
    have hp := h.next_nonneg p
    rw [Function.update_apply]
    split_ifs
    · omega
    · exact h.next_nonneg q
  given q m hm := by
    change 0 ≤ m ∧ m < update t.next p (t.next p + 1) q
    have hp := h.next_nonneg p
    rw [grant_handle] at hm
    rw [Function.update_apply]
    split_ifs at hm with hnew
    · rw [if_pos hnew.1]
      omega
    · have hold := h.given q m hm
      split_ifs with hq
      · rw [hq] at hold
        omega
      · exact hold
  counted j := (h.spare j).grant p i
  unused j hj := by
    change update t.uses i (t.uses i + 1) j = 0
    have hne : j ≠ i := fun hsame ↦ hthere (hsame ▸ hj)
    rw [Function.update_of_ne hne]
    exact h.unused j hj

theorem Sound.drop (h : t.Sound) (p : π) (n : ℤ) : (t.drop p n).Sound := by
  cases hcases : t.handle p n with
  | none =>
    rw [drop_of_none hcases]
    exact h
  | some i =>
    have huses : (t.drop p n).uses = update t.uses i (t.uses i - 1) := by rw [drop_of_some hcases]
    constructor
    · rw [drop_next]
      exact h.next_nonneg
    · intro q m hm
      rw [drop_handle] at hm
      rw [drop_next]
      split_ifs at hm
      · exact absurd rfl hm
      · exact h.given q m hm
    · exact fun j ↦ (h.spare j).drop p n
    · intro j hj
      rw [drop_kind] at hj
      have hunused := h.unused j hj
      rw [huses, Function.update_apply]
      split_ifs with hsame
      · rw [hsame] at hunused
        omega
      · exact hunused

omit [DecidableEq ι] in
theorem Sound.renew (h : t.Sound) (p : π) : (t.renew p).Sound where
  next_nonneg q := by
    change 0 ≤ update t.next p 0 q
    rw [Function.update_apply]
    split_ifs
    · exact le_rfl
    · exact h.next_nonneg q
  given q m hm := by
    change 0 ≤ m ∧ m < update t.next p 0 q
    rw [renew_handle] at hm
    split_ifs at hm with hq
    · exact absurd rfl hm
    · rw [Function.update_of_ne hq]
      exact h.given q m hm
  counted j := (h.spare j).renew p
  unused := h.unused

end Table

/-! ### Sequences of operations -/

/-- An operation. -/
inductive Op (π ι κ : Type*)
  | create (i : ι) (c : κ)
  | destroy (i : ι)
  | grant (p : π) (i : ι)
  | drop (p : π) (n : ℤ)
  | renew (p : π)

/-- The operation takes handle `n` of client `p` away. -/
def Op.Ends (p : π) (n : ℤ) : Op π ι κ → Prop
  | .drop q m => q = p ∧ m = n
  | .renew q => q = p
  | .create .. | .destroy _ | .grant .. => False

/-- The operation removes object `i`. -/
def Op.Removes (i : ι) : Op π ι κ → Prop
  | .destroy j => j = i
  | .create .. | .grant .. | .drop .. | .renew _ => False

/-- The operation starts client `p` again. -/
def Op.Renews (p : π) : Op π ι κ → Prop
  | .renew q => q = p
  | .create .. | .destroy _ | .grant .. | .drop .. => False

namespace Table

def apply (t : Table π ι κ) : Op π ι κ → Table π ι κ
  | .create i c => t.create i c
  | .destroy i => t.destroy i
  | .grant p i => t.grant p i
  | .drop p n => t.drop p n
  | .renew p => t.renew p

/-- The table allows the operation: only a name that is free is given to a new object, only an object without
uses is removed, and only one that is there is handed out. -/
def Allows (t : Table π ι κ) : Op π ι κ → Prop
  | .create i _ => t.kind i = none
  | .destroy i => t.uses i = 0
  | .grant _ i => t.kind i ≠ none
  | .drop .. | .renew _ => True

/-- A sequence of operations that are allowed. -/
inductive Does : Table π ι κ → List (Op π ι κ) → Table π ι κ → Prop
  | nil (t : Table π ι κ) : Does t [] t
  | cons {t t' : Table π ι κ} {o : Op π ι κ} {ops : List (Op π ι κ)} (ho : t.Allows o)
    (hops : Does (t.apply o) ops t') : Does t (o :: ops) t'

/-- One operation. -/
theorem does_one {o : Op π ι κ} (ho : t.Allows o) : t.Does [o] (t.apply o) := .cons ho (.nil _)

theorem Does.append {t₁ t₂ : Table π ι κ} {ops ops' : List (Op π ι κ)} (h : t.Does ops t₁)
    (h' : t₁.Does ops' t₂) : t.Does (ops ++ ops') t₂ := by
  induction h with
  | nil => exact h'
  | cons ho _ ih => exact .cons ho (ih h')

/-- The induction rule: what every operation keeps that is allowed. -/
theorem Does.invariant {P : Table π ι κ → Prop} {Q : Op π ι κ → Prop} {t' : Table π ι κ}
    {ops : List (Op π ι κ)} (h : t.Does ops t') (hok : ∀ o ∈ ops, Q o)
    (hkeeps : ∀ t o, P t → t.Allows o → Q o → P (t.apply o)) (hstart : P t) : P t' := by
  induction h with
  | nil => exact hstart
  | cons ho _ ih =>
    exact ih (fun o hmem ↦ hok o (List.mem_cons_of_mem _ hmem))
      (hkeeps _ _ hstart ho (hok _ List.mem_cons_self))

theorem Sound.apply (h : t.Sound) {o : Op π ι κ} (ho : t.Allows o) : (t.apply o).Sound := by
  cases o with
  | create i c => exact h.create i c
  | destroy i => exact h.destroy ho
  | grant p i => exact h.grant ho p
  | drop p n => exact h.drop p n
  | renew p => exact h.renew p

theorem Sound.does (h : t.Sound) {ops : List (Op π ι κ)} {t' : Table π ι κ} (hdoes : t.Does ops t') :
    t'.Sound :=
  hdoes.invariant (Q := fun _ ↦ True) (fun _ _ ↦ trivial) (fun _ _ h ho _ ↦ h.apply ho) h

/-! ### What lasts -/

/-- Handle `n` of client `p` stands for object `i` of kind `c`. -/
structure Names (t : Table π ι κ) (p : π) (n : ℤ) (i : ι) (c : κ) : Prop where
  handle : t.handle p n = some i
  kind : t.kind i = some c

/-- A handle stands for its object until it is taken away. -/
theorem Names.apply (h : t.Names p n i c) (ht : t.Sound) {o : Op π ι κ} (ho : t.Allows o)
    (hlasts : ¬ o.Ends p n) : (t.apply o).Names p n i c := by
  cases o with
  | create j c' =>
    have hne : i ≠ j := by
      rintro rfl
      exact Option.some_ne_none c (h.kind.symm.trans ho)
    exact ⟨h.handle, (Function.update_of_ne hne ..).trans h.kind⟩
  | destroy j =>
    have hne : i ≠ j := by
      rintro rfl
      exact ht.handle_ne ho p n h.handle
    exact ⟨h.handle, (Function.update_of_ne hne ..).trans h.kind⟩
  | grant q j =>
    refine ⟨?_, h.kind⟩
    have hgiven := (ht.given p n (by rw [h.handle]; exact Option.some_ne_none i)).2
    have hne : ¬ (p = q ∧ n = t.next q) := by
      rintro ⟨rfl, hsame⟩
      omega
    exact (t.grant_handle q p j n).trans ((if_neg hne).trans h.handle)
  | drop q m =>
    refine ⟨?_, (congrFun (t.drop_kind q m) i).trans h.kind⟩
    exact (t.drop_handle q p m n).trans ((if_neg fun hsame ↦ hlasts ⟨hsame.1.symm, hsame.2.symm⟩).trans
      h.handle)
  | renew q =>
    refine ⟨?_, h.kind⟩
    exact (t.renew_handle q p n).trans ((if_neg fun hsame : p = q ↦ hlasts hsame.symm).trans h.handle)

/-- Handle `n` of client `p` was given, and given up. -/
structure Spent (t : Table π ι κ) (p : π) (n : ℤ) : Prop where
  handle : t.handle p n = none
  given : n < t.next p

/-- A number is not given twice, until the client starts again. -/
theorem Spent.apply (h : t.Spent p n) {o : Op π ι κ} (hlasts : ¬ o.Renews p) :
    (t.apply o).Spent p n := by
  cases o with
  | create | destroy => exact ⟨h.handle, h.given⟩
  | grant q j =>
    have hgiven := h.given
    have hne : ¬ (p = q ∧ n = t.next q) := by
      rintro ⟨rfl, hsame⟩
      omega
    refine ⟨(t.grant_handle q p j n).trans ((if_neg hne).trans h.handle), ?_⟩
    change n < update t.next q (t.next q + 1) p
    rw [Function.update_apply]
    split_ifs with hp
    · rw [hp] at hgiven
      omega
    · exact hgiven
  | drop q m =>
    refine ⟨?_, ?_⟩
    · refine (t.drop_handle q p m n).trans ?_
      split_ifs
      · rfl
      · exact h.handle
    · exact h.given.trans_eq (congrFun (t.drop_next q m) p).symm
  | renew q =>
    have hne : p ≠ q := fun hsame ↦ hlasts hsame.symm
    refine ⟨(t.renew_handle q p n).trans ((if_neg hne).trans h.handle), ?_⟩
    exact h.given.trans_eq (Function.update_of_ne hne ..).symm

/-- An object keeps its name and its kind until it is removed. -/
theorem kind_apply (h : t.kind i = some c) {o : Op π ι κ} (ho : t.Allows o) (hlasts : ¬ o.Removes i) :
    (t.apply o).kind i = some c := by
  cases o with
  | create j c' =>
    have hne : i ≠ j := by
      rintro rfl
      exact Option.some_ne_none c (h.symm.trans ho)
    exact (Function.update_of_ne hne ..).trans h
  | destroy j => exact (Function.update_of_ne (fun hsame : i = j ↦ hlasts hsame.symm) ..).trans h
  | grant | renew => exact h
  | drop q m => exact (congrFun (t.drop_kind q m) i).trans h

/-- Object `i` has the kind `c`, and a use that belongs to no handle. -/
structure Pinned (t : Table π ι κ) (i : ι) (c : κ) : Prop where
  spare : t.Spare i 1
  kind : t.kind i = some c

/-- Nothing takes such a use away, so the object stays for ever. -/
theorem Pinned.apply (h : t.Pinned i c) {o : Op π ι κ} (ho : t.Allows o) : (t.apply o).Pinned i c := by
  have hlasts : ¬ o.Removes i := by
    cases o with
    | destroy j =>
      rintro rfl
      exact absurd (h.spare.le_uses.trans_eq ho) (by decide)
    | create | grant | drop | renew => exact id
  refine ⟨?_, kind_apply h.kind ho hlasts⟩
  cases o with
  | create | destroy => exact h.spare
  | grant p j => exact h.spare.grant p j
  | drop p n => exact h.spare.drop p n
  | renew p => exact h.spare.renew p

omit [DecidableEq ι] in
/-- A client that starts again pins the objects of its handles. -/
theorem Names.pinned_renew (h : t.Names p n i c) (ht : t.Sound) : (t.renew p).Pinned i c :=
  ⟨(ht.spare i).renew_of_handle h.handle, h.kind⟩

end Table

end DisastrOS.HandleTables
