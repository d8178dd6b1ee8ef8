import Mathlib.Data.List.Nodup
import Mathlib.Logic.Function.Basic

/-!
# Chains of indices

A free list kept in an array: each free index holds the next free index, and the last one holds an
index that stands for the end. `ChainFrom next stop start chain` says that following `next` from
`start` visits exactly `chain` and then meets `stop`. Taking the first index off the chain and
putting an index in front of it are the two steps an allocator makes (`ChainFrom.tail`,
`ChainFrom.push`).
-/

set_option autoImplicit false
set_option relaxedAutoImplicit false

namespace DisastrOS.IndexChain

variable {ι : Type*}

/-- Following `next` from `start` visits `chain` in order and then meets `stop`. -/
def ChainFrom (next : ι → ι) (stop : ι) : ι → List ι → Prop
  | start, [] => start = stop
  | start, i :: rest => start = i ∧ ChainFrom next stop (next i) rest

theorem ChainFrom.congr {next next' : ι → ι} {stop start : ι} {chain : List ι}
    (h : ChainFrom next stop start chain) (hsame : ∀ i ∈ chain, next' i = next i) :
    ChainFrom next' stop start chain := by
  induction chain generalizing start with
  | nil => exact h
  | cons i rest ih =>
    refine ⟨h.1, ?_⟩
    rw [hsame i List.mem_cons_self]
    exact ih h.2 fun j hj ↦ hsame j (List.mem_cons_of_mem _ hj)

/-- What an index of the chain holds is the next index of the chain or the end. -/
theorem ChainFrom.next_mem {next : ι → ι} {stop start : ι} {chain : List ι}
    (h : ChainFrom next stop start chain) {i : ι} (hi : i ∈ chain) :
    next i = stop ∨ next i ∈ chain := by
  induction chain generalizing start with
  | nil => exact absurd hi List.not_mem_nil
  | cons j rest ih =>
    rcases List.mem_cons.mp hi with rfl | hi
    · cases rest with
      | nil => exact Or.inl h.2
      | cons k tail =>
        refine Or.inr (List.mem_cons_of_mem _ ?_)
        rw [h.2.1]
        exact List.mem_cons_self
    · exact (ih h.2 hi).imp_right (List.mem_cons_of_mem _)

/-- A chain whose indices differ from the end starts at the end exactly when it is empty. -/
theorem ChainFrom.start_eq_stop_iff {next : ι → ι} {stop start : ι} {chain : List ι}
    (h : ChainFrom next stop start chain) (hstop : stop ∉ chain) : start = stop ↔ chain = [] := by
  cases chain with
  | nil => exact iff_of_true h rfl
  | cons i rest =>
    refine iff_of_false (fun hstart ↦ hstop ?_) (List.cons_ne_nil i rest)
    rw [← hstart, h.1]
    exact List.mem_cons_self

variable [DecidableEq ι]

/-- The chain after its first index was taken off and overwritten. -/
theorem ChainFrom.tail {next : ι → ι} {stop start i : ι} {rest : List ι}
    (h : ChainFrom next stop start (i :: rest)) (hnodup : (i :: rest).Nodup) (mark : ι) :
    ChainFrom (Function.update next i mark) stop (next i) rest :=
  h.2.congr fun _ hj ↦
    Function.update_of_ne (ne_of_mem_of_not_mem hj (List.nodup_cons.mp hnodup).1) _ _

/-- The chain with a new index in front. -/
theorem ChainFrom.push {next : ι → ι} {stop start : ι} {chain : List ι}
    (h : ChainFrom next stop start chain) {i : ι} (hnew : i ∉ chain) :
    ChainFrom (Function.update next i start) stop i (i :: chain) := by
  refine ⟨rfl, ?_⟩
  rw [Function.update_self]
  exact h.congr fun _ hj ↦ Function.update_of_ne (ne_of_mem_of_not_mem hj hnew) _ _

end DisastrOS.IndexChain
