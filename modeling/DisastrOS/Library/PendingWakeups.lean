import Mathlib.Data.Set.Card

/-!
# Wake-ups that are under way

Participants take units from a common supply, one at a time, and block when they find nothing to take.
Others put units in, and each of them wakes a blocked participant later, in a step of its own. `Served`
bounds the supply, as long as anybody is blocked, by the participants that are about to take and those that
are about to wake: no wake-up is lost. It is kept by every `Move`.

In a move the sets may be larger or smaller than they have to be, in the direction that does no harm, so a
system is tied to the moves by inclusions between what it is before and after a step.
-/

set_option autoImplicit false
set_option relaxedAutoImplicit false

namespace DisastrOS.PendingWakeups

variable {P : Type*}

/-- What can be taken, who is about to take, who is about to wake somebody, and who is blocked. -/
structure State (P : Type*) where
  supply : ℤ
  trying : Set P
  waking : Set P
  blocked : Set P

namespace State

variable {s s' : State P} {p x : P}

/-- If anybody is blocked, then as many participants as there are units are about to take one or to wake
somebody. -/
def Served (s : State P) : Prop :=
  s.blocked.Nonempty → (s.supply.toNat : ℕ∞) ≤ s.trying.encard + s.waking.encard

/-- What can happen. A unit is taken by `p`, or put in by `p`, who is to wake somebody afterwards; somebody
finds nothing to take; `p` wakes the blocked participant `x`; and whatever adds no units, blocks nobody, and
lets nobody forget what it was about to do. -/
inductive Move (s s' : State P) : Prop
  | settle (hsupply : s'.supply ≤ s.supply) (htrying : s.trying ⊆ s'.trying)
      (hwaking : s.waking ⊆ s'.waking) (hblocked : s'.blocked ⊆ s.blocked)
  | take (p : P) (hsupply : s'.supply = s.supply - 1) (htrying : s.trying \ {p} ⊆ s'.trying)
      (hwaking : s.waking ⊆ s'.waking) (hblocked : s'.blocked ⊆ s.blocked)
  | put (p : P) (hsupply : s'.supply = s.supply + 1) (htrying : s.trying ⊆ s'.trying)
      (hnew : p ∉ s.waking) (hwaking : insert p s.waking ⊆ s'.waking) (hblocked : s'.blocked ⊆ s.blocked)
  | exhaust (hsupply : s'.supply ≤ 0)
  | wake (p x : P) (hsupply : s'.supply = s.supply) (hx : x ∈ s.blocked) (hnew : x ∉ s.trying)
      (htrying : insert x s.trying ⊆ s'.trying) (hwaking : s.waking \ {p} ⊆ s'.waking)
  | release (hblocked : s'.blocked = ∅)

theorem Served.settle (h : s.Served) (hsupply : s'.supply ≤ s.supply) (htrying : s.trying ⊆ s'.trying)
    (hwaking : s.waking ⊆ s'.waking) (hblocked : s'.blocked ⊆ s.blocked) : s'.Served := by
  intro hsome
  have hle : s'.supply.toNat ≤ s.supply.toNat := Int.toNat_le_toNat hsupply
  calc (s'.supply.toNat : ℕ∞) ≤ s.supply.toNat := by exact_mod_cast hle
    _ ≤ s.trying.encard + s.waking.encard := h (hsome.mono hblocked)
    _ ≤ s'.trying.encard + s'.waking.encard :=
      add_le_add (Set.encard_le_encard htrying) (Set.encard_le_encard hwaking)

theorem Served.take (h : s.Served) (hsupply : s'.supply = s.supply - 1)
    (htrying : s.trying \ {p} ⊆ s'.trying) (hwaking : s.waking ⊆ s'.waking)
    (hblocked : s'.blocked ⊆ s.blocked) : s'.Served := by
  intro hsome
  have hbefore := h (hsome.mono hblocked)
  -- taking a unit accounts for the participant that took it
  have hrest : s.trying.encard ≤ s'.trying.encard + 1 :=
    calc s.trying.encard ≤ (s.trying \ {p}).encard + 1 := by
          simpa using Set.encard_le_encard_sdiff_add_encard s.trying {p}
      _ ≤ s'.trying.encard + 1 := add_le_add (Set.encard_le_encard htrying) le_rfl
  cases hunits : s.supply.toNat with
  | zero =>
    have hzero : s'.supply.toNat = 0 := by omega
    rw [hzero]
    exact zero_le
  | succ n =>
    have hn : s'.supply.toNat = n := by omega
    rw [hn]
    rw [hunits] at hbefore
    have hsum : ((n : ℕ∞) + 1) ≤ s'.trying.encard + s'.waking.encard + 1 :=
      calc ((n : ℕ∞) + 1) = ((n + 1 : ℕ) : ℕ∞) := by push_cast; rfl
        _ ≤ s.trying.encard + s.waking.encard := hbefore
        _ ≤ s'.trying.encard + 1 + s'.waking.encard :=
          add_le_add hrest (Set.encard_le_encard hwaking)
        _ = s'.trying.encard + s'.waking.encard + 1 := add_right_comm _ _ _
    exact (ENat.add_le_add_iff_right ENat.one_ne_top).mp hsum

theorem Served.put (h : s.Served) (hsupply : s'.supply = s.supply + 1) (htrying : s.trying ⊆ s'.trying)
    (hnew : p ∉ s.waking) (hwaking : insert p s.waking ⊆ s'.waking)
    (hblocked : s'.blocked ⊆ s.blocked) : s'.Served := by
  intro hsome
  have hle : s'.supply.toNat ≤ s.supply.toNat + 1 := by omega
  calc (s'.supply.toNat : ℕ∞) ≤ (s.supply.toNat + 1 : ℕ) := by exact_mod_cast hle
    _ = s.supply.toNat + 1 := by push_cast; rfl
    _ ≤ s.trying.encard + s.waking.encard + 1 := add_le_add (h (hsome.mono hblocked)) le_rfl
    _ = s.trying.encard + (insert p s.waking).encard := by
      rw [Set.encard_insert_of_notMem hnew, add_assoc]
    _ ≤ s'.trying.encard + s'.waking.encard :=
      add_le_add (Set.encard_le_encard htrying) (Set.encard_le_encard hwaking)

theorem Served.wake (h : s.Served) (hsupply : s'.supply = s.supply) (hx : x ∈ s.blocked)
    (hnew : x ∉ s.trying) (htrying : insert x s.trying ⊆ s'.trying)
    (hwaking : s.waking \ {p} ⊆ s'.waking) : s'.Served := by
  intro _
  -- the participant that is woken makes up for the one that has woken it
  have hrest : s.waking.encard ≤ s'.waking.encard + 1 :=
    calc s.waking.encard ≤ (s.waking \ {p}).encard + 1 := by
          simpa using Set.encard_le_encard_sdiff_add_encard s.waking {p}
      _ ≤ s'.waking.encard + 1 := add_le_add (Set.encard_le_encard hwaking) le_rfl
  rw [hsupply]
  calc (s.supply.toNat : ℕ∞) ≤ s.trying.encard + s.waking.encard := h ⟨x, hx⟩
    _ ≤ s.trying.encard + (s'.waking.encard + 1) := add_le_add le_rfl hrest
    _ = (insert x s.trying).encard + s'.waking.encard := by
      rw [Set.encard_insert_of_notMem hnew, add_assoc, add_comm _ (1 : ℕ∞)]
    _ ≤ s'.trying.encard + s'.waking.encard := add_le_add (Set.encard_le_encard htrying) le_rfl

/-- No move loses a wake-up. -/
theorem Served.move (h : s.Served) (hmove : Move s s') : s'.Served := by
  cases hmove with
  | settle hsupply htrying hwaking hblocked => exact h.settle hsupply htrying hwaking hblocked
  | take p hsupply htrying hwaking hblocked => exact h.take hsupply htrying hwaking hblocked
  | put p hsupply htrying hnew hwaking hblocked => exact h.put hsupply htrying hnew hwaking hblocked
  | exhaust hsupply =>
    intro _
    rw [Int.toNat_of_nonpos hsupply]
    exact zero_le
  | wake p x hsupply hx hnew htrying hwaking => exact h.wake hsupply hx hnew htrying hwaking
  | release hblocked =>
    rintro ⟨y, hy⟩
    rw [hblocked] at hy
    exact absurd hy (Set.notMem_empty y)

/-- Where there is something to take and somebody is blocked, somebody is about to take or to wake. -/
theorem Served.exists_trying_or_waking (h : s.Served) (hsupply : 0 < s.supply)
    (hblocked : s.blocked.Nonempty) : s.trying.Nonempty ∨ s.waking.Nonempty := by
  by_contra hnone
  rw [not_or, Set.not_nonempty_iff_eq_empty, Set.not_nonempty_iff_eq_empty] at hnone
  have hbound := h hblocked
  rw [hnone.1, hnone.2, Set.encard_empty, add_zero] at hbound
  have hzero : s.supply.toNat = 0 := by simpa using hbound
  omega

end State

end DisastrOS.PendingWakeups
