import Mathlib.Data.Set.Insert
import Mathlib.Algebra.Group.End
import Mathlib.Data.List.Basic

/-!
# Stores that differ in which blocks they use

Two runs of one program can take different blocks for the same purpose. A `Store` is a set of blocks in
use with lists of them, and `Renames ρ hidden s s'` says that `s` is `s'` with every block replaced by its
image under the permutation `ρ`, except that `s` has the `hidden` blocks besides. Each operation on both
stores keeps the relation (`Renames.take`, `Renames.append`, `Renames.erase`, `Renames.release`); a block
that is taken on both sides changes the permutation (`relabel`), but not on the blocks that were in use.
A block that is taken on one side only is hidden (`Renames.takeHidden`, `Renames.appendHidden`), until it
is taken out of its list and given back (`Renames.eraseHidden`, `Renames.releaseHidden`).
-/

set_option autoImplicit false
set_option relaxedAutoImplicit false

namespace DisastrOS.Renamings

/-! ### The visible part of a list -/

section Visible

variable {α : Type*} {hidden : Set α} {l : List α} {a b : α}

open scoped Classical in
/-- The elements that are not hidden. -/
noncomputable def visible (hidden : Set α) (l : List α) : List α := l.filter fun a ↦ a ∉ hidden

open scoped Classical in
theorem mem_visible : a ∈ visible hidden l ↔ a ∈ l ∧ a ∉ hidden := by
  rw [visible, List.mem_filter, decide_eq_true_iff]

open scoped Classical in
theorem visible_append (hidden : Set α) (l l' : List α) :
    visible hidden (l ++ l') = visible hidden l ++ visible hidden l' := List.filter_append ..

open scoped Classical in
theorem visible_cons_of_mem (ha : a ∈ hidden) (l : List α) :
    visible hidden (a :: l) = visible hidden l :=
  List.filter_cons_of_neg (by rw [decide_eq_true_iff]; exact not_not_intro ha)

open scoped Classical in
theorem visible_cons_of_notMem (ha : a ∉ hidden) (l : List α) :
    visible hidden (a :: l) = a :: visible hidden l :=
  List.filter_cons_of_pos (by rw [decide_eq_true_iff]; exact ha)

open scoped Classical in
theorem visible_eq_self (h : ∀ a ∈ l, a ∉ hidden) : visible hidden l = l :=
  List.filter_eq_self.mpr fun a ha ↦ decide_eq_true (h a ha)

/-- Hiding less makes no difference to a list without the blocks in question. -/
theorem visible_congr {hidden' : Set α} (h : ∀ a ∈ l, a ∈ hidden ↔ a ∈ hidden') :
    visible hidden l = visible hidden' l := by
  induction l with
  | nil => rfl
  | cons a l ih =>
    have htail := ih fun x hx ↦ h x (List.mem_cons_of_mem _ hx)
    have hhead := h a List.mem_cons_self
    by_cases ha : a ∈ hidden
    · rw [visible_cons_of_mem ha, visible_cons_of_mem (hhead.mp ha), htail]
    · rw [visible_cons_of_notMem ha, visible_cons_of_notMem fun ha' ↦ ha (hhead.mpr ha'), htail]

variable [DecidableEq α]

theorem visible_erase_of_mem (hb : b ∈ hidden) (l : List α) :
    visible hidden (l.erase b) = visible hidden l := by
  induction l with
  | nil => rfl
  | cons a l ih =>
    by_cases ha : a = b
    · rw [ha, List.erase_cons_head, visible_cons_of_mem hb]
    · rw [List.erase_cons_tail (by simpa using ha)]
      by_cases hhidden : a ∈ hidden
      · rw [visible_cons_of_mem hhidden, visible_cons_of_mem hhidden, ih]
      · rw [visible_cons_of_notMem hhidden, visible_cons_of_notMem hhidden, ih]

theorem visible_erase_of_notMem (hb : b ∉ hidden) (l : List α) :
    visible hidden (l.erase b) = (visible hidden l).erase b := by
  induction l with
  | nil => rfl
  | cons a l ih =>
    by_cases ha : a = b
    · rw [ha, List.erase_cons_head, visible_cons_of_notMem hb, List.erase_cons_head]
    · rw [List.erase_cons_tail (by simpa using ha)]
      by_cases hhidden : a ∈ hidden
      · rw [visible_cons_of_mem hhidden, visible_cons_of_mem hhidden, ih]
      · rw [visible_cons_of_notMem hhidden, visible_cons_of_notMem hhidden,
          List.erase_cons_tail (by simpa using ha), ih]

end Visible

/-! ### Stores -/

/-- The blocks in use, and lists of blocks. -/
@[ext]
structure Store (α ι : Type*) where
  taken : α → Prop
  lists : ι → List α

namespace Store

variable {α ι : Type*} [DecidableEq α] [DecidableEq ι]

/-- A block is taken from the pool. -/
def take (s : Store α ι) (b : α) : Store α ι := { s with taken := fun a ↦ a = b ∨ s.taken a }

/-- A block goes to the end of a list. -/
def append (s : Store α ι) (i : ι) (b : α) : Store α ι :=
  { s with lists := Function.update s.lists i (s.lists i ++ [b]) }

/-- A block leaves a list. -/
def erase (s : Store α ι) (i : ι) (b : α) : Store α ι :=
  { s with lists := Function.update s.lists i ((s.lists i).erase b) }

/-- A block goes back to the pool. -/
def release (s : Store α ι) (b : α) : Store α ι := { s with taken := fun a ↦ a ≠ b ∧ s.taken a }

omit [DecidableEq α] in
theorem append_self (s : Store α ι) (i : ι) (b : α) : (s.append i b).lists i = s.lists i ++ [b] :=
  Function.update_self ..

omit [DecidableEq α] in
theorem append_of_ne (s : Store α ι) {i j : ι} (b : α) (hne : j ≠ i) :
    (s.append i b).lists j = s.lists j := Function.update_of_ne hne ..

theorem erase_self (s : Store α ι) (i : ι) (b : α) : (s.erase i b).lists i = (s.lists i).erase b :=
  Function.update_self ..

theorem erase_of_ne (s : Store α ι) {i j : ι} (b : α) (hne : j ≠ i) :
    (s.erase i b).lists j = s.lists j := Function.update_of_ne hne ..

end Store

/-! ### The relation -/

section Relation

variable {α ι : Type*}

/-- Store `s` is `s'` with its blocks renamed by `ρ`, apart from the hidden blocks of `s`. -/
structure Renames (ρ : Equiv.Perm α) (hidden : Set α) (s s' : Store α ι) : Prop where
  taken_iff : ∀ a, s.taken (ρ a) ↔ s'.taken a ∨ ρ a ∈ hidden
  hidden_free : ∀ a, ρ a ∈ hidden → ¬ s'.taken a
  listed : ∀ i, ∀ a ∈ s'.lists i, s'.taken a
  lists : ∀ i, visible hidden (s.lists i) = (s'.lists i).map ρ

variable {ρ : Equiv.Perm α} {hidden : Set α} {s s' : Store α ι} {a b : α} {i : ι}

theorem Renames.taken_of_hidden (h : Renames ρ hidden s s') (hb : b ∈ hidden) : s.taken b := by
  have htaken := h.taken_iff (ρ.symm b)
  rw [Equiv.apply_symm_apply] at htaken
  exact htaken.mpr (Or.inr hb)

theorem Renames.not_hidden (h : Renames ρ hidden s s') (ha : s'.taken a) : ρ a ∉ hidden :=
  fun hhidden ↦ h.hidden_free a hhidden ha

theorem Renames.taken (h : Renames ρ hidden s s') (ha : s'.taken a) : s.taken (ρ a) :=
  (h.taken_iff a).mpr (Or.inl ha)

theorem Renames.mem_iff (h : Renames ρ hidden s s') (ha : s'.taken a) :
    ρ a ∈ s.lists i ↔ a ∈ s'.lists i := by
  rw [← List.mem_map_of_injective ρ.injective (l := s'.lists i), ← h.lists i, mem_visible,
    and_iff_left (h.not_hidden ha)]

/-- The blocks of a list are in use. -/
theorem Renames.taken_of_mem (h : Renames ρ hidden s s') (hb : b ∈ s.lists i) : s.taken b := by
  by_cases hhidden : b ∈ hidden
  · exact h.taken_of_hidden hhidden
  · have hmap : b ∈ (s'.lists i).map ρ := by
      rw [← h.lists i]
      exact mem_visible.mpr ⟨hb, hhidden⟩
    obtain ⟨a, ha, rfl⟩ := List.mem_map.mp hmap
    exact h.taken (h.listed i a ha)

/-- Without hidden blocks the lists are the renamed ones. -/
theorem Renames.lists_eq (h : Renames ρ ∅ s s') (i : ι) : s.lists i = (s'.lists i).map ρ := by
  rw [← h.lists i, visible_eq_self fun a _ ↦ Set.notMem_empty a]

/-- A store without hidden blocks is its own renaming. -/
theorem renames_refl (hlisted : ∀ i, ∀ a ∈ s.lists i, s.taken a) : Renames 1 ∅ s s where
  taken_iff a := (or_iff_left (Set.notMem_empty _)).symm
  hidden_free a ha := (Set.notMem_empty _ ha).elim
  listed := hlisted
  lists i := by
    rw [visible_eq_self fun a _ ↦ Set.notMem_empty a, Equiv.Perm.coe_one, List.map_id]

/-- A block that is taken on one side only is hidden. -/
theorem Renames.takeHidden (h : Renames ρ hidden s s') (hb : ¬ s.taken b) :
    Renames ρ (insert b hidden) (s.take b) s' where
  taken_iff x := by
    change ρ x = b ∨ s.taken (ρ x) ↔ s'.taken x ∨ ρ x = b ∨ ρ x ∈ hidden
    rw [h.taken_iff x, or_left_comm]
  hidden_free x hx hx' := by
    obtain hx | hx := hx
    · exact hb (hx ▸ h.taken hx')
    · exact h.hidden_free x hx hx'
  listed := h.listed
  lists i := by
    rw [← h.lists i]
    refine visible_congr fun x hx ↦ or_iff_right ?_
    rintro rfl
    exact hb (h.taken_of_mem hx)

/-- A hidden block goes to the end of a list. -/
theorem Renames.appendHidden [DecidableEq ι] (h : Renames ρ hidden s s') (hb : b ∈ hidden) (i : ι) :
    Renames ρ hidden (s.append i b) s' where
  taken_iff := h.taken_iff
  hidden_free := h.hidden_free
  listed := h.listed
  lists j := by
    by_cases hj : j = i
    · subst hj
      rw [Store.append_self, visible_append, h.lists j, visible_cons_of_mem hb]
      exact List.append_nil _
    · rw [Store.append_of_ne s b hj, h.lists j]

/-- A block that no list holds is given back. -/
theorem Renames.release (h : Renames ρ hidden s s') (ha : s'.taken a) (hout : ∀ i, a ∉ s'.lists i) :
    Renames ρ hidden (s.release (ρ a)) (s'.release a) where
  taken_iff x := by
    change ρ x ≠ ρ a ∧ s.taken (ρ x) ↔ (x ≠ a ∧ s'.taken x) ∨ ρ x ∈ hidden
    rw [ρ.injective.ne_iff, h.taken_iff x]
    constructor
    · rintro ⟨hne, hx | hx⟩
      · exact Or.inl ⟨hne, hx⟩
      · exact Or.inr hx
    · rintro (⟨hne, hx⟩ | hx)
      · exact ⟨hne, Or.inl hx⟩
      · refine ⟨?_, Or.inr hx⟩
        rintro rfl
        exact h.not_hidden ha hx
  hidden_free x hx := fun hx' ↦ h.hidden_free x hx hx'.2
  listed i x hx := ⟨fun hxa ↦ hout i (hxa ▸ hx), h.listed i x hx⟩
  lists := h.lists

/-- A hidden block that no list holds is given back. -/
theorem Renames.releaseHidden (h : Renames ρ hidden s s') (hb : b ∈ hidden)
    (hout : ∀ i, b ∉ s.lists i) : Renames ρ (hidden \ {b}) (s.release b) s' where
  taken_iff x := by
    change ρ x ≠ b ∧ s.taken (ρ x) ↔ s'.taken x ∨ ρ x ∈ hidden ∧ ρ x ≠ b
    rw [h.taken_iff x]
    constructor
    · rintro ⟨hne, hx | hx⟩
      · exact Or.inl hx
      · exact Or.inr ⟨hx, hne⟩
    · rintro (hx | ⟨hx, hne⟩)
      · exact ⟨fun hxb ↦ h.not_hidden hx (hxb ▸ hb), Or.inl hx⟩
      · exact ⟨hne, Or.inr hx⟩
  hidden_free x hx := h.hidden_free x hx.1
  listed := h.listed
  lists i := by
    rw [← h.lists i]
    refine visible_congr fun x hx ↦ and_iff_left ?_
    rintro rfl
    exact hout i hx

theorem Renames.append [DecidableEq ι] (h : Renames ρ hidden s s') (ha : s'.taken a) (i : ι) :
    Renames ρ hidden (s.append i (ρ a)) (s'.append i a) where
  taken_iff := h.taken_iff
  hidden_free := h.hidden_free
  listed j x hx := by
    by_cases hj : j = i
    · subst hj
      rw [Store.append_self, List.mem_append, List.mem_singleton] at hx
      obtain hx | rfl := hx
      · exact h.listed j x hx
      · exact ha
    · rw [Store.append_of_ne s' a hj] at hx
      exact h.listed j x hx
  lists j := by
    by_cases hj : j = i
    · subst hj
      rw [Store.append_self, Store.append_self, visible_append, h.lists j, List.map_append,
        visible_cons_of_notMem (h.not_hidden ha)]
      rfl
    · rw [Store.append_of_ne s _ hj, Store.append_of_ne s' a hj, h.lists j]

variable [DecidableEq α]

/-- The permutation that takes `a` to `b` and is otherwise `ρ`, as far as possible. -/
def relabel (ρ : Equiv.Perm α) (a b : α) : Equiv.Perm α := ρ.trans (Equiv.swap (ρ a) b)

@[simp]
theorem relabel_self (ρ : Equiv.Perm α) (a b : α) : relabel ρ a b a = b := Equiv.swap_apply_left ..

theorem relabel_of_ne (ρ : Equiv.Perm α) {x : α} (hne : x ≠ a) (hneb : ρ x ≠ b) :
    relabel ρ a b x = ρ x := Equiv.swap_apply_of_ne_of_ne (ρ.injective.ne hne) hneb

/-- The blocks in use keep their images when fresh blocks are taken on both sides. -/
theorem Renames.relabel_of_taken (h : Renames ρ hidden s s') (ha : ¬ s'.taken a) (hb : ¬ s.taken b)
    {x : α} (hx : s'.taken x) : relabel ρ a b x = ρ x := by
  apply relabel_of_ne
  · rintro rfl
    exact ha hx
  · rintro rfl
    exact hb (h.taken hx)

theorem Renames.take (h : Renames ρ hidden s s') (ha : ¬ s'.taken a) (hb : ¬ s.taken b) :
    Renames (relabel ρ a b) hidden (s.take b) (s'.take a) := by
  have hhidden : b ∉ hidden := fun hb' ↦ hb (h.taken_of_hidden hb')
  -- what the new permutation does with a block
  have hcases : ∀ x, x = a ∧ relabel ρ a b x = b ∨
      x ≠ a ∧ ¬ s'.taken x ∧ ρ x = b ∧ relabel ρ a b x = ρ a ∨
      x ≠ a ∧ ρ x ≠ b ∧ relabel ρ a b x = ρ x := by
    intro x
    by_cases hxa : x = a
    · exact Or.inl ⟨hxa, by rw [hxa, relabel_self]⟩
    · by_cases hxb : ρ x = b
      · refine Or.inr (Or.inl ⟨hxa, fun hx ↦ hb (hxb ▸ h.taken hx), hxb, ?_⟩)
        rw [relabel, Equiv.trans_apply, hxb, Equiv.swap_apply_right]
      · exact Or.inr (Or.inr ⟨hxa, hxb, relabel_of_ne ρ hxa hxb⟩)
  refine ⟨fun x ↦ ?_, fun x hx ↦ ?_, fun i x hx ↦ Or.inr (h.listed i x hx), fun i ↦ ?_⟩
  · change relabel ρ a b x = b ∨ s.taken (relabel ρ a b x) ↔
      (x = a ∨ s'.taken x) ∨ relabel ρ a b x ∈ hidden
    obtain ⟨hxa, hx⟩ | ⟨hxa, hfree, hxb, hx⟩ | ⟨hxa, hxb, hx⟩ := hcases x
    · exact iff_of_true (Or.inl hx) (Or.inl (Or.inl hxa))
    · have hab : ρ a ≠ b := fun hab ↦ hxa (ρ.injective (hxb.trans hab.symm))
      rw [hx, h.taken_iff a]
      simp only [hab, ha, hxa, hfree, false_or]
    · rw [hx, h.taken_iff x]
      simp only [hxa, hxb, false_or]
  · change ¬ (x = a ∨ s'.taken x)
    obtain ⟨-, hx'⟩ | ⟨hxa, hfree, -, -⟩ | ⟨hxa, -, hx'⟩ := hcases x
    · rw [hx'] at hx
      exact absurd hx hhidden
    · exact not_or.mpr ⟨hxa, hfree⟩
    · rw [hx'] at hx
      exact not_or.mpr ⟨hxa, h.hidden_free x hx⟩
  · change visible hidden (s.lists i) = (s'.lists i).map _
    rw [h.lists i]
    exact List.map_congr_left fun x hx ↦ (h.relabel_of_taken ha hb (h.listed i x hx)).symm

variable [DecidableEq ι]

theorem Renames.erase (h : Renames ρ hidden s s') (ha : s'.taken a) (i : ι) :
    Renames ρ hidden (s.erase i (ρ a)) (s'.erase i a) where
  taken_iff := h.taken_iff
  hidden_free := h.hidden_free
  listed j x hx := by
    by_cases hj : j = i
    · subst hj
      rw [Store.erase_self] at hx
      exact h.listed j x (List.mem_of_mem_erase hx)
    · rw [Store.erase_of_ne s' a hj] at hx
      exact h.listed j x hx
  lists j := by
    by_cases hj : j = i
    · subst hj
      rw [Store.erase_self, Store.erase_self, visible_erase_of_notMem (h.not_hidden ha), h.lists j,
        List.map_erase ρ.injective]
    · rw [Store.erase_of_ne s _ hj, Store.erase_of_ne s' a hj, h.lists j]

/-- A hidden block leaves a list. -/
theorem Renames.eraseHidden (h : Renames ρ hidden s s') (hb : b ∈ hidden) (i : ι) :
    Renames ρ hidden (s.erase i b) s' where
  taken_iff := h.taken_iff
  hidden_free := h.hidden_free
  listed := h.listed
  lists j := by
    by_cases hj : j = i
    · subst hj
      rw [Store.erase_self, visible_erase_of_mem hb, h.lists j]
    · rw [Store.erase_of_ne s b hj, h.lists j]

end Relation

end DisastrOS.Renamings
