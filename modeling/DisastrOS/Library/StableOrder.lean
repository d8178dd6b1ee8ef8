import Mathlib.Data.List.TakeWhile
import Mathlib.Logic.Function.Basic
import Mathlib.Order.Lattice

/-!
# Lists in stable order

A list is in stable order when its keys do not decrease and equal keys stand in the order of their
numbers, which say when each element came. A new element, with a number above all others, goes after
the elements whose keys are not above its own (`StablySorted.place`), and the first element of a list in
order comes before all others (`StablySorted.head_before`).
-/

set_option autoImplicit false
set_option relaxedAutoImplicit false

namespace DisastrOS.StableOrder

open Function (update update_self update_of_ne)

variable {α κ : Type*} [LinearOrder κ]

/-- A smaller key, or the same key and a smaller number. -/
def Before (key : α → κ) (number : α → ℕ) (a b : α) : Prop :=
  key a < key b ∨ key a = key b ∧ number a < number b

/-- The keys do not decrease, and the numbers of equal keys grow. -/
def StablySorted (key : α → κ) (number : α → ℕ) (l : List α) : Prop := l.Pairwise (Before key number)

instance (key : α → κ) (number : α → ℕ) (a b : α) : Decidable (Before key number a b) :=
  inferInstanceAs (Decidable (_ ∨ _))

variable {key key' : α → κ} {number number' : α → ℕ} {a b : α} {l : List α}

theorem Before.key_le (h : Before key number a b) : key a ≤ key b := by
  rcases h with hlt | ⟨heq, -⟩
  · exact hlt.le
  · exact heq.le

theorem stablySorted_nil : StablySorted key number [] := List.Pairwise.nil

theorem StablySorted.tail (h : StablySorted key number (a :: l)) : StablySorted key number l :=
  (List.pairwise_cons.mp h).2

/-- The first element comes before all others. -/
theorem StablySorted.head_before (h : StablySorted key number (a :: l)) :
    ∀ b ∈ l, Before key number a b :=
  (List.pairwise_cons.mp h).1

/-- The order of a list is about its own elements. -/
theorem StablySorted.congr (h : StablySorted key number l) (hkey : ∀ a ∈ l, key' a = key a)
    (hnumber : ∀ a ∈ l, number' a = number a) : StablySorted key' number' l := by
  refine List.Pairwise.imp_of_mem (fun {a b} ha hb hbefore ↦ ?_) h
  rw [Before, hkey a ha, hkey b hb, hnumber a ha, hnumber b hb]
  exact hbefore

/-- What comes after the first elements up to a key is above the key. -/
theorem StablySorted.lt_of_mem_dropWhile (h : StablySorted key number l) {x : κ} :
    ∀ b ∈ l.dropWhile (key · ≤ x), x < key b := by
  induction l with
  | nil => exact fun _ hb ↦ absurd hb List.not_mem_nil
  | cons a rest ih =>
    intro b hb
    by_cases ha : key a ≤ x
    · rw [List.dropWhile_cons_of_pos (by simpa using ha)] at hb
      exact ih h.tail b hb
    · rw [List.dropWhile_cons_of_neg (by simpa using ha)] at hb
      rcases List.mem_cons.mp hb with rfl | hrest
      · exact not_le.mp ha
      · exact (not_le.mp ha).trans_le (h.head_before b hrest).key_le

omit [LinearOrder κ] in
/-- What is in a list after an element was put somewhere. -/
theorem mem_place {test : α → Bool} :
    b ∈ l.takeWhile test ++ a :: l.dropWhile test ↔ b = a ∨ b ∈ l := by
  have hsplit : l.takeWhile test ++ l.dropWhile test = l := List.takeWhile_append_dropWhile
  rw [List.mem_append, List.mem_cons, ← or_assoc, or_comm (b := b = a), or_assoc,
    ← List.mem_append, hsplit]

/-- A new element with key `x`, the last one to come, goes after all whose keys are not above `x`. -/
theorem StablySorted.place [DecidableEq α] (h : StablySorted key number l) (hnew : a ∉ l) {x : κ} {n : ℕ}
    (hlast : ∀ b ∈ l, number b < n) :
    StablySorted (update key a x) (update number a n)
      (l.takeWhile (key · ≤ x) ++ a :: l.dropWhile (key · ≤ x)) := by
  have hkey : ∀ b ∈ l, update key a x b = key b := fun b hb ↦
    update_of_ne (ne_of_mem_of_not_mem hb hnew) _ _
  have hnumber : ∀ b ∈ l, update number a n b = number b := fun b hb ↦
    update_of_ne (ne_of_mem_of_not_mem hb hnew) _ _
  have hsplit : l.takeWhile (key · ≤ x) ++ l.dropWhile (key · ≤ x) = l :=
    List.takeWhile_append_dropWhile
  have hordered := h.congr hkey hnumber
  rw [StablySorted, ← hsplit, List.pairwise_append] at hordered
  obtain ⟨hfront, hback, hcross⟩ := hordered
  rw [StablySorted, List.pairwise_append, List.pairwise_cons]
  refine ⟨hfront, ⟨?_, hback⟩, ?_⟩
  · intro b hb
    rw [Before, update_self, hkey b ((List.dropWhile_sublist _).subset hb)]
    exact Or.inl (h.lt_of_mem_dropWhile b hb)
  · intro b hb c hc
    rcases List.mem_cons.mp hc with rfl | hc
    · have hmem : b ∈ l := (List.takeWhile_sublist _).subset hb
      have hle : key b ≤ x := by simpa using List.mem_takeWhile_imp hb
      rw [Before, update_self, update_self, hkey b hmem, hnumber b hmem]
      exact hle.lt_or_eq.imp_right fun heq ↦ ⟨heq, hlast b hmem⟩
    · exact hcross b hb c hc

end DisastrOS.StableOrder
