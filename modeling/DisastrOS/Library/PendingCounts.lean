import Mathlib.Data.Set.Card

/-!
# Counts that are lowered late

A counter of holders that a holder raises when it comes, and that is lowered only after it has gone: in
between the release is pending. `Counts n held pending` says that the counter stands at the number of
those that hold something together with that of the releases that are pending. A holder that comes
(`Counts.acquire`), one that goes (`Counts.release`) and a release that is done (`Counts.settle`) keep
it, and where no release is pending the counter is the number of holders (`Counts.eq_length`).
-/

set_option autoImplicit false
set_option relaxedAutoImplicit false

namespace DisastrOS.PendingCounts

variable {α β : Type*} {n : ℤ} {held : Set α} {pending : Set β} {a : α} {b : β}

/-- The counter stands at the number of holders and of pending releases. -/
def Counts (n : ℤ) (held : Set α) (pending : Set β) : Prop :=
  ∃ c : ℕ, n = c ∧ held.encard + pending.encard = c

theorem counts_empty : Counts 0 (∅ : Set α) (∅ : Set β) := ⟨0, rfl, by simp⟩

theorem Counts.acquire (h : Counts n held pending) (hnew : a ∉ held) :
    Counts (n + 1) (insert a held) pending := by
  obtain ⟨c, rfl, hcard⟩ := h
  refine ⟨c + 1, by push_cast; rfl, ?_⟩
  rw [Set.encard_insert_of_notMem hnew, add_right_comm, hcard]
  push_cast
  rfl

/-- A holder goes, and its release is pending: the counter stays. -/
theorem Counts.release (h : Counts n held pending) (ha : a ∈ held) (hb : b ∉ pending) :
    Counts n (held \ {a}) (insert b pending) := by
  obtain ⟨c, rfl, hcard⟩ := h
  refine ⟨c, rfl, ?_⟩
  rw [Set.encard_insert_of_notMem hb, ← add_assoc, add_right_comm,
    Set.encard_sdiff_singleton_add_one ha]
  exact hcard

theorem Counts.settle (h : Counts n held pending) (hb : b ∈ pending) :
    Counts (n - 1) held (pending \ {b}) := by
  obtain ⟨c, rfl, hcard⟩ := h
  rw [← Set.encard_sdiff_singleton_add_one hb, ← add_assoc] at hcard
  cases c with
  | zero => simp at hcard
  | succ c =>
    refine ⟨c, by simp, ?_⟩
    rw [Nat.cast_add_one] at hcard
    exact ENat.add_left_injective_of_ne_top ENat.one_ne_top hcard

/-- Without a pending release the counter is the number of holders. -/
theorem Counts.eq_length (h : Counts n held (∅ : Set β)) {l : List α} (hnodup : l.Nodup)
    (hl : ∀ a, a ∈ l ↔ a ∈ held) : n = l.length := by
  classical
  obtain ⟨c, rfl, hcard⟩ := h
  have hheld : held = ↑l.toFinset := by
    ext a
    simp [hl]
  rw [hheld, Set.encard_coe_eq_coe_finsetCard, List.toFinset_card_of_nodup hnodup, Set.encard_empty,
    add_zero] at hcard
  exact_mod_cast hcard.symm

end DisastrOS.PendingCounts
