import DisastrOS.Constants
import DisastrOS.Library.IndexChain
import Mathlib.Data.Finset.Card
import Mathlib.Data.Finset.Range
import Mathlib.Tactic.Linarith
import Mathlib.Tactic.Ring

/-!
# The pool allocator (`pool_allocator.c`)

A pool cuts a buffer into `sizeMax` blocks of `itemSize` bytes and keeps, behind them, one `int` for
each block: the index of the next free block, `nullIdx` for the last free one, and `detachedIdx`
for a block that is handed out. `getBlock` takes the first index off this chain, `releaseBlock`
checks an address and puts its index in front.

`Sound` is the invariant: the chain visits `size` distinct indices and every other index is marked
detached. `Allocated` is the set of the addresses that are handed out. Each function has one lemma
that says what it does to both (`getBlock_some`, `getBlock_none`, `releaseBlock_allocated`,
`releaseBlock_rejected`), and the rest of the development reads a pool through these only.

`allocatedBlocks` is the finite set of these addresses, which `size` complements to the whole pool.

`poolAllocator_contract` is the whole contract over any sequence of calls after `init`.
-/

set_option autoImplicit false
set_option relaxedAutoImplicit false

namespace DisastrOS

open IndexChain

/-- `enum PoolAllocatorResult`. -/
inductive PoolAllocatorResult
  | success
  | notEnoughMemory
  | unalignedFree
  | outOfRange
  | doubleFree
deriving DecidableEq, Repr

/-- The values of the enumeration. -/
def PoolAllocatorResult.toInt : PoolAllocatorResult → ℤ
  | .success => 0
  | .notEnoughMemory => -1
  | .unalignedFree => -2
  | .outOfRange => -3
  | .doubleFree => -4

/-- `struct PoolAllocator`. The array behind `free_list` is a function of the index. -/
structure PoolAllocator where
  buffer : Addr
  freeListAddr : Addr
  freeList : ℤ → ℤ
  bufferSize : ℤ
  size : ℤ
  sizeMax : ℤ
  itemSize : ℤ
  firstIdx : ℤ

def nullIdx : ℤ := -1

def detachedIdx : ℤ := -2

/-- `sizeof(int)`. -/
def sizeofInt : ℤ := 4

namespace PoolAllocator

/-- The loop of `PoolAllocator_init`, with `steps` turns to go from index `i`. -/
def populate (freeList : ℤ → ℤ) (i : ℤ) : ℕ → ℤ → ℤ
  | 0 => freeList
  | steps + 1 => populate (Function.update freeList i (i + 1)) (i + 1) steps

/-- `PoolAllocator_init`. -/
def init (a : PoolAllocator) (itemSize numItems : ℤ) (memoryBlock : Addr) (memorySize : ℤ) :
    PoolAllocatorResult × PoolAllocator :=
  let requestedSize := toInt (numItems * (itemSize + sizeofInt))
  if memorySize < requestedSize then (.notEnoughMemory, a)
  else
    (.success,
      { buffer := memoryBlock
        freeListAddr := memoryBlock + itemSize * numItems
        freeList := Function.update (populate a.freeList 0 (numItems - 1).toNat) (numItems - 1)
          nullIdx
        bufferSize := itemSize * numItems
        size := numItems
        sizeMax := numItems
        itemSize := itemSize
        firstIdx := 0 })

/-- `PoolAllocator_getBlock`. -/
def getBlock (a : PoolAllocator) : Option Addr × PoolAllocator :=
  if a.firstIdx = nullIdx then (none, a)
  else
    (some (a.buffer + a.firstIdx * a.itemSize),
      { a with
        firstIdx := a.freeList a.firstIdx
        size := a.size - 1
        freeList := Function.update a.freeList a.firstIdx detachedIdx })

/-- `PoolAllocator_releaseBlock`. The distance to the buffer is stored in an `int`, and `%` and `/`
round towards zero. -/
def releaseBlock (a : PoolAllocator) (block : Addr) : PoolAllocatorResult × PoolAllocator :=
  let offset := toInt (block - a.buffer)
  if offset.tmod a.itemSize ≠ 0 then (.unalignedFree, a)
  else
    let idx := offset.tdiv a.itemSize
    if idx < 0 ∨ a.sizeMax ≤ idx then (.outOfRange, a)
    else if a.freeList idx ≠ detachedIdx then (.doubleFree, a)
    else
      (.success,
        { a with
          freeList := Function.update a.freeList idx a.firstIdx
          firstIdx := idx
          size := a.size + 1 })

/-! ### The invariant of a pool -/

/-- The address is the start of a block of the pool. -/
def IsBlock (a : PoolAllocator) (block : Addr) : Prop :=
  ∃ i, 0 ≤ i ∧ i < a.sizeMax ∧ block = a.buffer + i * a.itemSize

/-- The address is the start of a block that is handed out. -/
def Allocated (a : PoolAllocator) (block : Addr) : Prop :=
  ∃ i, 0 ≤ i ∧ i < a.sizeMax ∧ block = a.buffer + i * a.itemSize ∧ a.freeList i = detachedIdx

/-- The free chain visits `chain`, and every index outside it is marked detached. -/
structure Sound (a : PoolAllocator) (chain : List ℤ) : Prop where
  itemSize_pos : 1 ≤ a.itemSize
  fits : a.sizeMax * (a.itemSize + sizeofInt) ≤ intMax
  chained : ChainFrom a.freeList nullIdx a.firstIdx chain
  nodup : chain.Nodup
  range : ∀ i ∈ chain, 0 ≤ i ∧ i < a.sizeMax
  detached : ∀ i, 0 ≤ i → i < a.sizeMax → i ∉ chain → a.freeList i = detachedIdx
  size : a.size = chain.length

/-- The pool has a sound free chain. -/
def Ok (a : PoolAllocator) : Prop := ∃ chain, a.Sound chain

/-- Two states of one pool: the buffer and the geometry are set once, by `init`. -/
structure SamePool (a a' : PoolAllocator) : Prop where
  buffer : a'.buffer = a.buffer
  freeListAddr : a'.freeListAddr = a.freeListAddr
  sizeMax : a'.sizeMax = a.sizeMax
  itemSize : a'.itemSize = a.itemSize

theorem SamePool.refl (a : PoolAllocator) : SamePool a a := ⟨rfl, rfl, rfl, rfl⟩

theorem SamePool.trans {a b c : PoolAllocator} (hab : SamePool a b) (hbc : SamePool b c) :
    SamePool a c :=
  ⟨hbc.buffer.trans hab.buffer, hbc.freeListAddr.trans hab.freeListAddr,
    hbc.sizeMax.trans hab.sizeMax, hbc.itemSize.trans hab.itemSize⟩

theorem SamePool.isBlock {a a' : PoolAllocator} (h : SamePool a a') (block : Addr) :
    a'.IsBlock block ↔ a.IsBlock block := by
  simp only [IsBlock, h.buffer, h.sizeMax, h.itemSize]

variable {a a' : PoolAllocator} {chain : List ℤ} {block : Addr}

theorem Allocated.isBlock (h : a.Allocated block) : a.IsBlock block := by
  obtain ⟨i, hi, hmax, hblock, -⟩ := h
  exact ⟨i, hi, hmax, hblock⟩

/-- Two different blocks of a pool do not overlap. -/
theorem IsBlock.disjoint (hpos : 1 ≤ a.itemSize) {block' : Addr} (h : a.IsBlock block)
    (h' : a.IsBlock block') (hne : block ≠ block') :
    block + a.itemSize ≤ block' ∨ block' + a.itemSize ≤ block := by
  obtain ⟨i, -, -, rfl⟩ := h
  obtain ⟨j, -, -, rfl⟩ := h'
  rcases lt_trichotomy i j with hij | rfl | hij
  · left
    nlinarith
  · exact absurd rfl hne
  · right
    nlinarith

/-- A block lies between the start of the buffer and the bookkeeping. -/
theorem IsBlock.inside (hpos : 1 ≤ a.itemSize) (h : a.IsBlock block) :
    a.buffer ≤ block ∧ block + a.itemSize ≤ a.buffer + a.itemSize * a.sizeMax := by
  obtain ⟨i, hi, hmax, rfl⟩ := h
  constructor
  · nlinarith
  · nlinarith

/-- The start addresses of different blocks are different. -/
theorem blockAddr_inj (hpos : 1 ≤ a.itemSize) {i j : ℤ}
    (h : a.buffer + i * a.itemSize = a.buffer + j * a.itemSize) : i = j :=
  mul_right_cancel₀ (by omega : a.itemSize ≠ 0) (add_left_cancel h)

theorem Sound.nullIdx_notMem (h : a.Sound chain) : nullIdx ∉ chain := fun hmem ↦ by
  have hrange := (h.range nullIdx hmem).1
  simp [nullIdx] at hrange

/-- An index of the pool is on the chain exactly when it is not marked detached. -/
theorem Sound.mem_iff (h : a.Sound chain) {i : ℤ} (hi : 0 ≤ i) (hmax : i < a.sizeMax) :
    i ∈ chain ↔ a.freeList i ≠ detachedIdx := by
  constructor
  · intro hmem heq
    rcases h.chained.next_mem hmem with hnext | hnext
    · rw [heq] at hnext
      exact absurd hnext (by decide)
    · rw [heq] at hnext
      exact absurd (h.range _ hnext).1 (by decide)
  · intro hne
    by_contra hmem
    exact hne (h.detached i hi hmax hmem)

/-! ### Distances fit in an int -/

/-- A distance that fits in an `int` is stored exactly. -/
theorem toInt_eq {n : ℤ} (hlow : -2147483648 ≤ n) (hhigh : n ≤ 2147483647) : toInt n = n := by
  unfold toInt
  rw [Int.bmod_def]
  omega

/-- The distance of a block to the start of its buffer is stored exactly. -/
theorem toInt_blockOffset (h : a.Sound chain) {i : ℤ} (hi : 0 ≤ i) (hmax : i < a.sizeMax) :
    toInt (a.buffer + i * a.itemSize - a.buffer) = i * a.itemSize := by
  have hpos := h.itemSize_pos
  have hfits := h.fits
  simp only [sizeofInt, intMax] at hfits
  have hle : i * a.itemSize ≤ a.sizeMax * (a.itemSize + 4) := by nlinarith
  rw [add_sub_cancel_left]
  exact toInt_eq (by nlinarith) (by omega)

/-! ### The two calls -/

theorem getBlock_samePool (a : PoolAllocator) : SamePool a a.getBlock.2 := by
  unfold getBlock
  split_ifs
  · exact SamePool.refl a
  · exact ⟨rfl, rfl, rfl, rfl⟩

theorem releaseBlock_samePool (a : PoolAllocator) (block : Addr) :
    SamePool a (a.releaseBlock block).2 := by
  simp only [releaseBlock]
  split_ifs <;> first | exact SamePool.refl a | exact ⟨rfl, rfl, rfl, rfl⟩

/-- A call that hands out no block changes nothing, and the pool is used up. -/
theorem getBlock_none (h : a.Sound chain) (hget : a.getBlock = (none, a')) :
    a' = a ∧ chain = [] := by
  unfold getBlock at hget
  split_ifs at hget with hfirst
  · exact ⟨(Prod.mk.inj hget).2.symm,
      (h.chained.start_eq_stop_iff h.nullIdx_notMem).mp hfirst⟩
  · exact absurd (Prod.mk.inj hget).1 (by simp)

/-- A call that hands out a block hands out a free one and marks it. -/
theorem Sound.getBlock_some (h : a.Sound chain) (hget : a.getBlock = (some block, a')) :
    ∃ i rest, chain = i :: rest ∧ block = a.buffer + i * a.itemSize ∧ a'.Sound rest ∧
      a'.freeList = Function.update a.freeList i detachedIdx ∧ a'.size = a.size - 1 := by
  unfold getBlock at hget
  split_ifs at hget with hfirst
  · exact absurd (Prod.mk.inj hget).1 (by simp)
  · cases chain with
    | nil => exact absurd h.chained hfirst
    | cons i rest =>
      have hi : a.firstIdx = i := h.chained.1
      obtain ⟨hblock, rfl⟩ := Prod.mk.inj hget
      obtain ⟨hnotRest, hrestNodup⟩ := List.nodup_cons.mp h.nodup
      refine ⟨i, rest, rfl, by rw [← Option.some.inj hblock, hi], ?_, by rw [hi], rfl⟩
      exact
        { itemSize_pos := h.itemSize_pos
          fits := h.fits
          chained := by
            rw [hi]
            exact h.chained.tail h.nodup detachedIdx
          nodup := hrestNodup
          range := fun j hj ↦ h.range j (List.mem_cons_of_mem _ hj)
          detached := fun j hj hmax hnot ↦ by
            dsimp only
            rw [hi]
            by_cases hji : j = i
            · rw [hji, Function.update_self]
            · rw [Function.update_of_ne hji]
              exact h.detached j hj hmax fun hmem ↦ (List.mem_cons.mp hmem).elim hji hnot
          size := by
            have hsize := h.size
            simp only [List.length_cons] at hsize ⊢
            omega }

/-- Handing out a block: it was not handed out before, and nothing else changes. -/
theorem getBlock_some (h : a.Ok) (hget : a.getBlock = (some block, a')) :
    a'.Ok ∧ a.IsBlock block ∧ ¬ a.Allocated block ∧ a'.size = a.size - 1 ∧
      ∀ x, a'.Allocated x ↔ x = block ∨ a.Allocated x := by
  obtain ⟨chain, h⟩ := h
  obtain ⟨i, rest, rfl, rfl, hsound, hlist, hsize⟩ := h.getBlock_some hget
  have hsame : SamePool a a' := by
    have := getBlock_samePool a
    rwa [hget] at this
  obtain ⟨hi, hmax⟩ := h.range i List.mem_cons_self
  have hfree := (h.mem_iff hi hmax).mp List.mem_cons_self
  have hpos := h.itemSize_pos
  refine ⟨⟨rest, hsound⟩, ⟨i, hi, hmax, rfl⟩, ?_, hsize, fun x ↦ ?_⟩
  · rintro ⟨j, -, -, hj, hdetached⟩
    rw [blockAddr_inj hpos hj] at hfree
    exact hfree hdetached
  · constructor
    · rintro ⟨j, hj, hjmax, rfl, hdetached⟩
      rw [hsame.buffer, hsame.itemSize]
      by_cases hji : j = i
      · exact Or.inl (by rw [hji])
      · rw [hlist, Function.update_of_ne hji] at hdetached
        exact Or.inr ⟨j, hj, hsame.sizeMax ▸ hjmax, rfl, hdetached⟩
    · rintro (rfl | ⟨j, hj, hjmax, rfl, hdetached⟩)
      · exact ⟨i, hi, hsame.sizeMax ▸ hmax, by rw [hsame.buffer, hsame.itemSize],
          by rw [hlist, Function.update_self]⟩
      · refine ⟨j, hj, hsame.sizeMax ▸ hjmax, by rw [hsame.buffer, hsame.itemSize], ?_⟩
        rw [hlist]
        by_cases hji : j = i
        · rw [hji, Function.update_self]
        · rw [Function.update_of_ne hji, hdetached]

/-- What `releaseBlock` computes for the start of a block. -/
private theorem releaseBlock_start (h : a.Sound chain) {i : ℤ} (hi : 0 ≤ i) (hmax : i < a.sizeMax) :
    a.releaseBlock (a.buffer + i * a.itemSize) =
      if a.freeList i ≠ detachedIdx then (.doubleFree, a)
      else (.success,
        { a with
          freeList := Function.update a.freeList i a.firstIdx
          firstIdx := i
          size := a.size + 1 }) := by
  have hpos := h.itemSize_pos
  have hmod : (i * a.itemSize).tmod a.itemSize = 0 := Int.mul_tmod_left i a.itemSize
  have hdiv : (i * a.itemSize).tdiv a.itemSize = i := Int.mul_tdiv_cancel i (by omega)
  simp only [releaseBlock, toInt_blockOffset h hi hmax, hmod, hdiv]
  rw [if_neg (by simp), if_neg (by omega)]

/-- Releasing a block that is handed out succeeds, and makes it free. -/
theorem releaseBlock_allocated (h : a.Ok) (hblock : a.Allocated block) :
    ∃ a', a.releaseBlock block = (.success, a') ∧ a'.Ok ∧ a'.size = a.size + 1 ∧
      ∀ x, a'.Allocated x ↔ x ≠ block ∧ a.Allocated x := by
  obtain ⟨chain, h⟩ := h
  obtain ⟨i, hi, hmax, rfl, hdetached⟩ := hblock
  have hpos := h.itemSize_pos
  have hnot : i ∉ chain := fun hmem ↦ (h.mem_iff hi hmax).mp hmem hdetached
  have hfirst : a.firstIdx ≠ detachedIdx := by
    cases chain with
    | nil =>
      have hnull : a.firstIdx = nullIdx := h.chained
      rw [hnull]
      decide
    | cons j rest =>
      have hrange := (h.range j List.mem_cons_self).1
      rw [h.chained.1]
      simp only [detachedIdx]
      omega
  refine ⟨_, by rw [releaseBlock_start h hi hmax, if_neg (not_not.mpr hdetached)], ⟨i :: chain, ?_⟩,
    rfl, fun x ↦ ?_⟩
  · exact
      { itemSize_pos := hpos
        fits := h.fits
        chained := h.chained.push hnot
        nodup := List.nodup_cons.mpr ⟨hnot, h.nodup⟩
        range := fun j hj ↦ (List.mem_cons.mp hj).elim (fun hji ↦ by rw [hji]; exact ⟨hi, hmax⟩)
          (h.range j)
        detached := fun j hj hjmax hjnot ↦ by
          rw [List.mem_cons, not_or] at hjnot
          dsimp only
          rw [Function.update_of_ne hjnot.1]
          exact h.detached j hj hjmax hjnot.2
        size := by
          have hsize := h.size
          simp only [List.length_cons]
          omega }
  · constructor
    · rintro ⟨j, hj, hjmax, rfl, hjdetached⟩
      dsimp only at hjdetached hjmax
      by_cases hji : j = i
      · rw [hji, Function.update_self] at hjdetached
        exact absurd hjdetached hfirst
      · rw [Function.update_of_ne hji] at hjdetached
        exact ⟨fun hsame ↦ hji (blockAddr_inj hpos hsame), j, hj, hjmax, rfl, hjdetached⟩
    · rintro ⟨hne, j, hj, hjmax, rfl, hjdetached⟩
      refine ⟨j, hj, hjmax, rfl, ?_⟩
      dsimp only
      rw [Function.update_of_ne fun hji ↦ hne (by rw [hji]), hjdetached]

/-- Releasing a block that is handed out, for callers that do not look at the result. -/
theorem Ok.release (h : a.Ok) (hblock : a.Allocated block) :
    (a.releaseBlock block).2.Ok ∧ (a.releaseBlock block).2.size = a.size + 1 ∧
      ∀ x, (a.releaseBlock block).2.Allocated x ↔ x ≠ block ∧ a.Allocated x := by
  obtain ⟨a', hrelease, hok, hsize, hallocated⟩ := releaseBlock_allocated h hblock
  rw [hrelease]
  exact ⟨hok, hsize, hallocated⟩

/-- Releasing any other address is refused and changes nothing. -/
theorem releaseBlock_rejected (h : a.Ok) (hblock : ¬ a.Allocated block)
    (hlow : -2147483648 ≤ block - a.buffer) (hhigh : block - a.buffer ≤ 2147483647) :
    (a.releaseBlock block).1 ≠ .success ∧ (a.releaseBlock block).2 = a := by
  obtain ⟨chain, h⟩ := h
  have hpos := h.itemSize_pos
  simp only [releaseBlock, toInt_eq hlow hhigh]
  split_ifs with haligned hrange hdetached
  · exact ⟨by simp, rfl⟩
  · exact ⟨by simp, rfl⟩
  · exact ⟨by simp, rfl⟩
  · refine absurd ?_ hblock
    rw [not_not] at haligned hdetached
    push Not at hrange
    have hexact := Int.tmod_add_mul_tdiv (block - a.buffer) a.itemSize
    refine ⟨_, hrange.1, hrange.2, ?_, hdetached⟩
    rw [haligned, zero_add] at hexact
    rw [mul_comm, hexact]
    ring

/-- Releasing a block that is free is refused. -/
theorem releaseBlock_free (h : a.Ok) (hblock : a.IsBlock block) (hfree : ¬ a.Allocated block) :
    (a.releaseBlock block).2 = a := by
  obtain ⟨i, hi, hmax, rfl⟩ := hblock
  obtain ⟨chain, hsound⟩ := h
  have hdetached : a.freeList i ≠ detachedIdx := fun heq ↦ hfree ⟨i, hi, hmax, rfl, heq⟩
  rw [releaseBlock_start hsound hi hmax, if_pos hdetached]

/-- Afterwards the block is free, and the others are as they were. -/
theorem Ok.releaseBlock_isBlock (h : a.Ok) (hblock : a.IsBlock block) :
    (a.releaseBlock block).2.Ok ∧ ¬ (a.releaseBlock block).2.Allocated block ∧
      ∀ x, x ≠ block → ((a.releaseBlock block).2.Allocated x ↔ a.Allocated x) := by
  by_cases hout : a.Allocated block
  · obtain ⟨hok, -, hallocated⟩ := h.release hout
    refine ⟨hok, fun hblock' ↦ ((hallocated block).mp hblock').1 rfl, fun x hx ↦ ?_⟩
    rw [hallocated, and_iff_right hx]
  · rw [releaseBlock_free h hblock hout]
    exact ⟨h, hout, fun _ _ ↦ Iff.rfl⟩

/-! ### All blocks -/

/-- The addresses of the blocks. -/
def blocks (a : PoolAllocator) : List Addr :=
  (List.range a.sizeMax.toNat).map fun i : ℕ ↦ a.buffer + i * a.itemSize

theorem mem_blocks : block ∈ a.blocks ↔ a.IsBlock block := by
  simp only [blocks, List.mem_map, List.mem_range, IsBlock]
  constructor
  · rintro ⟨i, hmax, rfl⟩
    exact ⟨i, by omega, by omega, rfl⟩
  · rintro ⟨i, hi, hmax, rfl⟩
    lift i to ℕ using hi
    exact ⟨i, by omega, rfl⟩

/-! ### The blocks that are handed out -/

/-- The addresses of the blocks that are handed out. -/
def allocatedBlocks (a : PoolAllocator) : Finset Addr :=
  ((Finset.range a.sizeMax.toNat).filter fun i : ℕ ↦ a.freeList i = detachedIdx).image
    fun i : ℕ ↦ a.buffer + i * a.itemSize

theorem mem_allocatedBlocks : block ∈ a.allocatedBlocks ↔ a.Allocated block := by
  simp only [allocatedBlocks, Finset.mem_image, Finset.mem_filter, Finset.mem_range, Allocated]
  constructor
  · rintro ⟨i, ⟨hmax, hdetached⟩, rfl⟩
    exact ⟨i, by omega, by omega, rfl, hdetached⟩
  · rintro ⟨i, hi, hmax, rfl, hdetached⟩
    lift i to ℕ using hi
    exact ⟨i, ⟨by omega, hdetached⟩, rfl⟩

/-- The free blocks and the blocks that are handed out make up the pool. -/
theorem Ok.card_add_size (h : a.Ok) (hmax : 0 ≤ a.sizeMax) :
    (a.allocatedBlocks.card : ℤ) + a.size = a.sizeMax := by
  obtain ⟨chain, hsound⟩ := h
  -- the free indices are those of the chain
  have hfree : (Finset.range a.sizeMax.toNat).filter (fun i : ℕ ↦ ¬ a.freeList i = detachedIdx) =
      (chain.map Int.toNat).toFinset := by
    ext i
    simp only [Finset.mem_filter, Finset.mem_range, List.mem_toFinset, List.mem_map]
    constructor
    · rintro ⟨hmax, hnot⟩
      exact ⟨i, (hsound.mem_iff (by omega) (by omega)).mpr hnot, Int.toNat_natCast i⟩
    · rintro ⟨j, hj, rfl⟩
      obtain ⟨hlow, hhigh⟩ := hsound.range j hj
      rw [Int.toNat_of_nonneg hlow]
      exact ⟨by omega, (hsound.mem_iff hlow hhigh).mp hj⟩
  have hnodup : (chain.map Int.toNat).Nodup := hsound.nodup.map_on fun i hi j hj hij ↦ by
    have hlow := (hsound.range i hi).1
    have hlow' := (hsound.range j hj).1
    omega
  have hinj : Function.Injective fun i : ℕ ↦ a.buffer + (i : ℤ) * a.itemSize := fun i j hij ↦
    Int.ofNat.inj (blockAddr_inj hsound.itemSize_pos hij)
  have htotal := Finset.card_filter_add_card_filter_not (s := Finset.range a.sizeMax.toNat)
    fun i : ℕ ↦ a.freeList i = detachedIdx
  rw [hfree, List.toFinset_card_of_nodup hnodup, List.length_map, Finset.card_range] at htotal
  rw [allocatedBlocks, Finset.card_image_of_injective _ hinj, hsound.size]
  omega

/-- No block is left exactly when none is free. -/
theorem Ok.getBlock_eq_none_iff (h : a.Ok) : a.getBlock.1 = none ↔ a.size = 0 := by
  obtain ⟨chain, hsound⟩ := h
  have hsize := hsound.size
  rcases hget : a.getBlock with ⟨_ | block, a'⟩
  · obtain ⟨-, rfl⟩ := getBlock_none hsound hget
    exact iff_of_true rfl (by simpa using hsize)
  · obtain ⟨i, rest, rfl, -⟩ := hsound.getBlock_some hget
    refine iff_of_false (by simp) fun hzero ↦ ?_
    simp only [List.length_cons] at hsize
    omega

theorem Ok.size_nonneg (h : a.Ok) : 0 ≤ a.size := by
  obtain ⟨chain, hsound⟩ := h
  rw [hsound.size]
  exact Int.natCast_nonneg _

/-- A call that hands out no block changes nothing. -/
theorem Ok.getBlock_none (h : a.Ok) (hget : a.getBlock = (none, a')) : a' = a ∧ a.size = 0 := by
  have hzero := h.getBlock_eq_none_iff.mp (by rw [hget])
  obtain ⟨chain, hsound⟩ := h
  exact ⟨(PoolAllocator.getBlock_none hsound hget).1, hzero⟩

/-- Handing out a block adds it to the set. -/
theorem Ok.allocatedBlocks_getBlock (h : a.Ok) (hget : a.getBlock = (some block, a')) :
    a'.allocatedBlocks = insert block a.allocatedBlocks := by
  obtain ⟨-, -, -, -, hallocated⟩ := getBlock_some h hget
  ext x
  rw [Finset.mem_insert, mem_allocatedBlocks, mem_allocatedBlocks, hallocated]

/-! ### Initialisation -/

/-- What the loop of `init` has written when it ends. -/
theorem populate_apply (freeList : ℤ → ℤ) (i : ℤ) (steps : ℕ) (j : ℤ) :
    populate freeList i steps j = if i ≤ j ∧ j < i + steps then j + 1 else freeList j := by
  induction steps generalizing freeList i with
  | zero => simp [populate, show ¬ (i ≤ j ∧ j < i) by omega]
  | succ steps ih =>
    rw [populate, ih]
    push_cast
    by_cases hji : j = i
    · rw [hji, Function.update_self]
      split_ifs <;> omega
    · rw [Function.update_of_ne hji]
      split_ifs <;> omega

/-- The indices from `i` on, up to the last one, in order. -/
private theorem chainFrom_populated {next : ℤ → ℤ} {numItems : ℤ}
    (hnext : ∀ j, 0 ≤ j → j < numItems - 1 → next j = j + 1) (hlast : next (numItems - 1) = nullIdx)
    (steps : ℕ) {i : ℤ} (hi : 0 ≤ i) (hsteps : i + steps + 1 = numItems) :
    ChainFrom next nullIdx i ((List.range (steps + 1)).map fun k : ℕ ↦ i + (k : ℤ)) := by
  induction steps generalizing i with
  | zero =>
    have hilast : i = numItems - 1 := by omega
    refine ⟨by simp, ?_⟩
    simpa [hilast, ChainFrom] using hlast
  | succ steps ih =>
    rw [List.range_succ_eq_map, List.map_cons, List.map_map]
    refine ⟨by simp, ?_⟩
    have hcast : ((0 : ℕ) : ℤ) = 0 := rfl
    rw [hcast, add_zero, hnext i hi (by omega)]
    have htail := ih (i := i + 1) (by omega) (by omega)
    refine (congrArg (ChainFrom next nullIdx (i + 1)) (List.map_congr_left fun k _ ↦ ?_)).mp htail
    simp only [Function.comp_apply, Nat.succ_eq_add_one]
    push_cast
    ring

variable {itemSize numItems memorySize : ℤ}

/-- `init` succeeds when the memory holds the blocks and the bookkeeping, and leaves every block
free. -/
theorem init_sound (hitem : 1 ≤ itemSize) (hnum : 1 ≤ numItems)
    (hfits : numItems * (itemSize + sizeofInt) ≤ intMax)
    (hmemory : numItems * (itemSize + sizeofInt) ≤ memorySize) (a : PoolAllocator)
    (memoryBlock : Addr) :
    ∃ a', a.init itemSize numItems memoryBlock memorySize = (.success, a') ∧ a'.Ok ∧
      a'.size = numItems ∧ a'.sizeMax = numItems ∧ a'.itemSize = itemSize ∧
      a'.buffer = memoryBlock ∧ a'.freeListAddr = memoryBlock + itemSize * numItems ∧
      ∀ x, ¬ a'.Allocated x := by
  simp only [intMax, sizeofInt] at hfits hmemory
  have hrequested : toInt (numItems * (itemSize + sizeofInt)) = numItems * (itemSize + 4) :=
    toInt_eq (by simp only [sizeofInt]; nlinarith) (by simp only [sizeofInt]; omega)
  have hsteps : ((numItems - 1).toNat : ℤ) = numItems - 1 := Int.toNat_of_nonneg (by omega)
  have hlist : ∀ j, Function.update (populate a.freeList 0 (numItems - 1).toNat) (numItems - 1)
      nullIdx j = if j = numItems - 1 then nullIdx
        else if 0 ≤ j ∧ j < numItems - 1 then j + 1 else a.freeList j := by
    intro j
    rw [Function.update_apply, populate_apply, hsteps, zero_add]
  have hrange : ∀ i, i ∈ (List.range ((numItems - 1).toNat + 1)).map (fun k : ℕ ↦ (0 : ℤ) + (k : ℤ)) ↔
      0 ≤ i ∧ i < numItems := by
    intro i
    simp only [List.mem_map, List.mem_range, zero_add]
    constructor
    · rintro ⟨k, hk, rfl⟩
      omega
    · rintro ⟨hi, hmax⟩
      exact ⟨i.toNat, by omega, by omega⟩
  refine ⟨_, by simp only [init, hrequested]; rw [if_neg (by omega)],
    ⟨(List.range ((numItems - 1).toNat + 1)).map fun k : ℕ ↦ (0 : ℤ) + (k : ℤ), ?_⟩,
    rfl, rfl, rfl, rfl, rfl, ?_⟩
  · exact
      { itemSize_pos := hitem
        fits := by simpa only [sizeofInt, intMax] using hfits
        chained := chainFrom_populated
          (fun j hj hlt ↦ (hlist j).trans (by rw [if_neg (by omega), if_pos ⟨hj, hlt⟩]))
          ((hlist _).trans (if_pos rfl)) _ le_rfl (by rw [hsteps]; ring)
        nodup := (List.nodup_range).map fun k l hkl ↦ by
          simpa using hkl
        range := fun i hi ↦ (hrange i).mp hi
        detached := fun i hi hmax hnot ↦ absurd ((hrange i).mpr ⟨hi, hmax⟩) hnot
        size := by
          dsimp only
          rw [List.length_map, List.length_range]
          omega }
  · rintro x ⟨i, hi, hmax, -, hdetached⟩
    dsimp only at hmax hdetached
    rw [hlist] at hdetached
    simp only [nullIdx, detachedIdx] at hdetached
    split_ifs at hdetached <;> omega

/-! ### Any sequence of calls -/

/-- A call of one of the two functions. -/
inductive Call
  | getBlock
  | releaseBlock (block : Addr)

/-- A pool with the blocks its callers hold. -/
structure Held where
  allocator : PoolAllocator
  out : List Addr

/-- One call: a block that was handed out is held, a block that was released is not. -/
def Held.call (s : Held) : Call → Held
  | .getBlock =>
    match s.allocator.getBlock with
    | (some block, a) => ⟨a, block :: s.out⟩
    | (none, a) => ⟨a, s.out⟩
  | .releaseBlock block =>
    match s.allocator.releaseBlock block with
    | (.success, a) => ⟨a, s.out.erase block⟩
    | (_, a) => ⟨a, s.out⟩

/-- The released address is at an `int` distance from the buffer. -/
def Call.InReach (buffer : Addr) : Call → Prop
  | .getBlock => True
  | .releaseBlock block => -2147483648 ≤ block - buffer ∧ block - buffer ≤ 2147483647

/-- The callers hold exactly the blocks the pool has handed out. -/
structure Held.Consistent (s : Held) : Prop where
  ok : s.allocator.Ok
  nodup : s.out.Nodup
  mem_iff : ∀ block, block ∈ s.out ↔ s.allocator.Allocated block
  total : s.allocator.size + s.out.length = s.allocator.sizeMax

theorem Held.Consistent.call {s : Held} (h : s.Consistent) {c : Call}
    (hreach : c.InReach s.allocator.buffer) :
    (s.call c).Consistent ∧ SamePool s.allocator (s.call c).allocator := by
  cases c with
  | getBlock =>
    have hsame := getBlock_samePool s.allocator
    obtain ⟨chain, hsound⟩ := h.ok
    rcases hget : s.allocator.getBlock with ⟨_ | block, a⟩
    · rw [hget] at hsame
      obtain ⟨rfl, -⟩ := getBlock_none hsound hget
      simpa only [Held.call, hget] using ⟨h, hsame⟩
    · rw [hget] at hsame
      obtain ⟨hok, -, hfree, hsize, hallocated⟩ := getBlock_some h.ok hget
      simp only [Held.call, hget]
      refine ⟨⟨hok, ?_, fun x ↦ ?_, ?_⟩, hsame⟩
      · exact List.nodup_cons.mpr ⟨fun hmem ↦ hfree ((h.mem_iff block).mp hmem), h.nodup⟩
      · rw [List.mem_cons, hallocated, h.mem_iff]
      · have htotal := h.total
        have hmax : a.sizeMax = s.allocator.sizeMax := hsame.sizeMax
        simp only [List.length_cons]
        push_cast
        omega
  | releaseBlock block =>
    have hsame := releaseBlock_samePool s.allocator block
    by_cases hmem : s.allocator.Allocated block
    · obtain ⟨a, hrelease, hok, hsize, hallocated⟩ := releaseBlock_allocated h.ok hmem
      rw [hrelease] at hsame
      simp only [Held.call, hrelease]
      have hout := (h.mem_iff block).mpr hmem
      refine ⟨⟨hok, h.nodup.erase block, fun x ↦ ?_, ?_⟩, hsame⟩
      · rw [h.nodup.mem_erase_iff, hallocated, h.mem_iff]
      · have htotal := h.total
        have hlength := List.length_pos_of_mem hout
        have hmax : a.sizeMax = s.allocator.sizeMax := hsame.sizeMax
        dsimp only
        rw [List.length_erase_of_mem hout]
        omega
    · obtain ⟨hres, hunchanged⟩ := releaseBlock_rejected h.ok hmem hreach.1 hreach.2
      have hcall : s.call (.releaseBlock block) = s := by
        rcases hrelease : s.allocator.releaseBlock block with ⟨_ | _, a⟩ <;>
          rw [hrelease] at hres hunchanged <;>
          simp_all [Held.call]
      rw [hcall]
      exact ⟨h, SamePool.refl _⟩

/-- Every sequence of calls leaves the callers holding what the pool has handed out. -/
theorem Held.Consistent.calls {s : Held} (h : s.Consistent) (calls : List Call)
    (hreach : ∀ c ∈ calls, c.InReach s.allocator.buffer) :
    (calls.foldl Held.call s).Consistent ∧
      SamePool s.allocator (calls.foldl Held.call s).allocator := by
  induction calls generalizing s with
  | nil => exact ⟨h, SamePool.refl _⟩
  | cons c rest ih =>
    obtain ⟨hstep, hsame⟩ := h.call (hreach c List.mem_cons_self)
    obtain ⟨hrest, hsameRest⟩ := ih hstep fun d hd ↦ by
      rw [hsame.buffer]
      exact hreach d (List.mem_cons_of_mem _ hd)
    exact ⟨hrest, hsame.trans hsameRest⟩

/-- The pool right after `init`, with no block handed out. -/
theorem init_consistent (hitem : 1 ≤ itemSize) (hnum : 1 ≤ numItems)
    (hfits : numItems * (itemSize + sizeofInt) ≤ intMax)
    (hmemory : numItems * (itemSize + sizeofInt) ≤ memorySize) (a : PoolAllocator)
    (memoryBlock : Addr) :
    Held.Consistent ⟨(a.init itemSize numItems memoryBlock memorySize).2, []⟩ := by
  obtain ⟨a', hinit, hok, hsize, hmax, -, -, -, hfree⟩ :=
    init_sound hitem hnum hfits hmemory a memoryBlock
  rw [hinit]
  exact
    { ok := hok
      nodup := List.nodup_nil
      mem_iff := fun x ↦ iff_of_false List.not_mem_nil (hfree x)
      total := by simp [hsize, hmax] }

/-- A pool is used up exactly when its callers hold all blocks. -/
theorem Held.Consistent.getBlock_eq_none_iff {s : Held} (h : s.Consistent) :
    s.allocator.getBlock.1 = none ↔ (s.out.length : ℤ) = s.allocator.sizeMax := by
  obtain ⟨chain, hsound⟩ := h.ok
  have htotal := h.total
  have hsize := hsound.size
  rcases hget : s.allocator.getBlock with ⟨_ | block, a⟩
  · obtain ⟨-, rfl⟩ := getBlock_none hsound hget
    simp only [List.length_nil] at hsize
    exact iff_of_true rfl (by omega)
  · obtain ⟨i, rest, rfl, -⟩ := hsound.getBlock_some hget
    simp only [List.length_cons] at hsize
    exact iff_of_false (by simp) (by omega)

/-- Releasing succeeds exactly on the held blocks, and is without effect on every other address. -/
theorem Held.Consistent.releaseBlock_iff {s : Held} (h : s.Consistent)
    (hreach : Call.InReach s.allocator.buffer (.releaseBlock block)) :
    ((s.allocator.releaseBlock block).1 = .success ↔ block ∈ s.out) ∧
      (block ∉ s.out → (s.allocator.releaseBlock block).2 = s.allocator) := by
  by_cases hmem : s.allocator.Allocated block
  · obtain ⟨a, hrelease, -⟩ := releaseBlock_allocated h.ok hmem
    have hout := (h.mem_iff block).mpr hmem
    exact ⟨iff_of_true (by rw [hrelease]) hout, fun hnot ↦ absurd hout hnot⟩
  · obtain ⟨hres, hunchanged⟩ := releaseBlock_rejected h.ok hmem hreach.1 hreach.2
    exact ⟨iff_of_false hres fun hout ↦ hmem ((h.mem_iff block).mp hout), fun _ ↦ hunchanged⟩

/-- The contract of the allocator. After `init` and any sequence of calls, with every released
address at an `int` distance from the buffer: `init` has succeeded; the chain from `firstIdx`
visits `size` distinct indices, ends in `nullIdx` and leaves every other index marked detached; the
free and the held blocks make up the pool; `getBlock` returns null exactly when all blocks are held
and never a held block; the held blocks are aligned, inside the item area, and disjoint from each
other; and `releaseBlock` succeeds exactly on the held blocks and is without effect elsewhere. -/
theorem poolAllocator_contract (itemSize numItems : ℤ) (memoryBlock : Addr) (memorySize : ℤ)
    (hitem : 1 ≤ itemSize) (hnum : 1 ≤ numItems)
    (hfits : numItems * (itemSize + sizeofInt) ≤ intMax)
    (hmemory : numItems * (itemSize + sizeofInt) ≤ memorySize) (a : PoolAllocator)
    (calls : List Call) (hreach : ∀ c ∈ calls, c.InReach memoryBlock) :
    let s := calls.foldl Held.call ⟨(a.init itemSize numItems memoryBlock memorySize).2, []⟩
    (a.init itemSize numItems memoryBlock memorySize).1 = .success ∧
      (∃ chain, ChainFrom s.allocator.freeList nullIdx s.allocator.firstIdx chain ∧ chain.Nodup ∧
        (chain.length : ℤ) = s.allocator.size ∧ (∀ i ∈ chain, 0 ≤ i ∧ i < numItems) ∧
        ∀ i, 0 ≤ i → i < numItems → i ∉ chain → s.allocator.freeList i = detachedIdx) ∧
      s.allocator.size + s.out.length = numItems ∧ s.out.Nodup ∧
      (s.allocator.getBlock.1 = none ↔ (s.out.length : ℤ) = numItems) ∧
      (∀ block, s.allocator.getBlock.1 = some block → block ∉ s.out ∧
        (s.call .getBlock).out = block :: s.out) ∧
      (∀ block ∈ (s.call .getBlock).out,
        (∃ i, 0 ≤ i ∧ i < numItems ∧ block = memoryBlock + i * itemSize) ∧
        memoryBlock ≤ block ∧ block + itemSize ≤ s.allocator.freeListAddr ∧
        s.allocator.freeListAddr = memoryBlock + itemSize * numItems ∧
        ∀ block' ∈ (s.call .getBlock).out, block ≠ block' →
          block + itemSize ≤ block' ∨ block' + itemSize ≤ block) ∧
      ∀ block, Call.InReach memoryBlock (.releaseBlock block) →
        ((s.allocator.releaseBlock block).1 = .success ↔ block ∈ s.out) ∧
          (block ∉ s.out → (s.allocator.releaseBlock block).2 = s.allocator) := by
  obtain ⟨a', hinit, -, -, hmax, hitemSize, hbuffer, hfreeAddr, -⟩ :=
    init_sound hitem hnum hfits hmemory a memoryBlock
  have hstart := init_consistent hitem hnum hfits hmemory a memoryBlock
  rw [hinit] at hstart ⊢
  obtain ⟨hs, hsame⟩ := hstart.calls calls (hbuffer.symm ▸ hreach)
  generalize calls.foldl Held.call ⟨a', []⟩ = s at hs hsame ⊢
  have hmaxS : s.allocator.sizeMax = numItems := hsame.sizeMax.trans hmax
  have hitemS : s.allocator.itemSize = itemSize := hsame.itemSize.trans hitemSize
  have hbufferS : s.allocator.buffer = memoryBlock := hsame.buffer.trans hbuffer
  have hfreeS : s.allocator.freeListAddr = memoryBlock + itemSize * numItems :=
    hsame.freeListAddr.trans hfreeAddr
  have hposS : 1 ≤ s.allocator.itemSize := hitemS ▸ hitem
  obtain ⟨hnext, hsameNext⟩ := hs.call (c := .getBlock) trivial
  have hblocks : ∀ block ∈ (s.call .getBlock).out, s.allocator.IsBlock block := fun block hmem ↦
    (hsameNext.isBlock block).mp ((hnext.mem_iff block).mp hmem).isBlock
  refine ⟨rfl, ?_, hmaxS ▸ hs.total, hs.nodup, hmaxS ▸ hs.getBlock_eq_none_iff, ?_, ?_, ?_⟩
  · obtain ⟨chain, hsound⟩ := hs.ok
    exact ⟨chain, hsound.chained, hsound.nodup, hsound.size.symm, hmaxS ▸ hsound.range,
      hmaxS ▸ hsound.detached⟩
  · intro block hget
    have hpair : s.allocator.getBlock = (some block, s.allocator.getBlock.2) := Prod.ext hget rfl
    obtain ⟨-, -, hfree, -⟩ := getBlock_some hs.ok hpair
    refine ⟨fun hmem ↦ hfree ((hs.mem_iff block).mp hmem), ?_⟩
    rw [Held.call, hpair]
  · intro block hmem
    have hblock := hblocks block hmem
    obtain ⟨hlow, hhigh⟩ := hblock.inside hposS
    rw [hbufferS] at hlow hhigh
    rw [hitemS, hmaxS] at hhigh
    refine ⟨?_, hlow, hfreeS ▸ hhigh, hfreeS, fun block' hmem' hne ↦ ?_⟩
    · simpa only [IsBlock, hmaxS, hbufferS, hitemS] using hblock
    · simpa only [hitemS] using hblock.disjoint hposS (hblocks block' hmem') hne
  · intro block hblock
    exact hs.releaseBlock_iff (hbufferS.symm ▸ hblock)

/-- The contract at a pool of two blocks of eight bytes, after a block was handed out and an address
inside it was released: one block is held, and it can be released. -/
theorem poolAllocator_contract_twoBlocks :
    let start : PoolAllocator := ⟨0, 0, fun _ ↦ 0, 0, 0, 0, 0, 0⟩
    let s := [Call.getBlock, .releaseBlock 1003].foldl Held.call ⟨(start.init 8 2 1000 24).2, []⟩
    s.out = [1000] ∧ (s.allocator.releaseBlock 1000).1 = .success := by
  have hcontract := poolAllocator_contract 8 2 1000 24 (by decide) (by decide) (by decide)
    (by decide)
    ⟨0, 0, fun _ ↦ 0, 0, 0, 0, 0, 0⟩ [.getBlock, .releaseBlock 1003] (by
      intro c hc
      rcases List.mem_cons.mp hc with rfl | hc
      · trivial
      · rw [List.mem_singleton.mp hc]
        exact ⟨by decide, by decide⟩)
  have hout : ([Call.getBlock, .releaseBlock 1003].foldl Held.call
      ⟨((⟨0, 0, fun _ ↦ 0, 0, 0, 0, 0, 0⟩ : PoolAllocator).init 8 2 1000 24).2, []⟩).out =
        [1000] := by decide
  refine ⟨hout, ((hcontract.2.2.2.2.2.2.2 1000 ⟨by decide, by decide⟩).1).mpr ?_⟩
  rw [hout]
  exact List.mem_singleton_self _

end PoolAllocator

end DisastrOS
