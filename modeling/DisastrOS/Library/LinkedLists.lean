import Mathlib.Data.Int.Notation
import Mathlib.Data.List.Nodup
import Mathlib.Logic.Function.Basic

/-!
# Doubly linked lists threaded through a memory of nodes

A node carries its own two links, a list is a head record that names its first and last node, and
many lists can share one memory of nodes. `Segment` says that a stretch of nodes is chained in both
directions between two given neighbours, and `Represents` that a head record and the memory show a
given sequence of nodes. The two pointer surgeries are `linkBetween`, which places a node between
two neighbours, and `unlinkBetween`, which takes it out and clears its links; `represents_link` and
`represents_unlink` give their effect on the sequence.

`Family` is a collection of lists over one memory, no node in two of them. Its rules
(`Family.link`, `Family.unlink`, `Family.clear`, `Family.congr`) change one list and keep the others, so a
development with many lists states one family per kind of node. `Reaches` is membership as a walk
from the first node sees it, and `Represents.reaches_iff` is what it amounts to on a list that is
well formed. `scan` is the search loop over the links, with a bound on the number of nodes it
visits; a search that ends returns the first node of the sequence that passes the test
(`Represents.scan_eq`). `Head.toList` reads the sequence off a head record.
-/

set_option autoImplicit false
set_option relaxedAutoImplicit false

namespace DisastrOS.LinkedLists

/-! ### Nodes, memories and head records -/

/-- The two links of a node. -/
@[ext]
structure Links (α : Type*) where
  prev : Option α
  next : Option α
deriving DecidableEq, Repr

/-- The links of a node that is in no list. -/
def Links.unlinked {α : Type*} : Links α := ⟨none, none⟩

instance {α : Type*} : Inhabited (Links α) := ⟨Links.unlinked⟩

/-- The links of every node. -/
abbrev Memory (α : Type*) := α → Links α

/-- The record that names the first and the last node of a list and its size. -/
@[ext]
structure Head (α : Type*) where
  first : Option α
  last : Option α
  size : ℤ
deriving DecidableEq, Repr

/-- The head record of an empty list. -/
def Head.empty {α : Type*} : Head α := ⟨none, none, 0⟩

instance {α : Type*} : Inhabited (Head α) := ⟨Head.empty⟩

variable {α : Type*} [DecidableEq α]

/-- Writes the `next` link of a node, if there is a node. -/
def setNext (memory : Memory α) (node next : Option α) : Memory α :=
  match node with
  | none => memory
  | some a => Function.update memory a { memory a with next := next }

/-- Writes the `prev` link of a node, if there is a node. -/
def setPrev (memory : Memory α) (node prev : Option α) : Memory α :=
  match node with
  | none => memory
  | some a => Function.update memory a { memory a with prev := prev }

theorem setNext_of_ne (memory : Memory α) {node : Option α} (next : Option α) {a : α}
    (h : node ≠ some a) : setNext memory node next a = memory a := by
  cases node with
  | none => rfl
  | some b => exact Function.update_of_ne (fun hab ↦ h (by rw [hab])) _ _

theorem setPrev_of_ne (memory : Memory α) {node : Option α} (prev : Option α) {a : α}
    (h : node ≠ some a) : setPrev memory node prev a = memory a := by
  cases node with
  | none => rfl
  | some b => exact Function.update_of_ne (fun hab ↦ h (by rw [hab])) _ _

theorem setNext_self (memory : Memory α) (a : α) (next : Option α) :
    setNext memory (some a) next a = { memory a with next := next } :=
  Function.update_self ..

theorem setPrev_self (memory : Memory α) (a : α) (prev : Option α) :
    setPrev memory (some a) prev a = { memory a with prev := prev } :=
  Function.update_self ..

/-! ### Segments -/

/-- The nodes are chained in both directions, the first after `before` and the last before
`after`. -/
def Segment (memory : Memory α) : Option α → List α → Option α → Prop
  | _, [], _ => True
  | before, node :: rest, after =>
    memory node = ⟨before, rest.head?.or after⟩ ∧ Segment memory (some node) rest after

instance Segment.decidable (memory : Memory α) :
    ∀ before nodes after, Decidable (Segment memory before nodes after)
  | _, [], _ => isTrue trivial
  | before, node :: rest, after =>
    have := Segment.decidable memory (some node) rest after
    inferInstanceAs (Decidable (memory node = ⟨before, rest.head?.or after⟩ ∧ _))

omit [DecidableEq α] in
theorem Segment.congr {memory memory' : Memory α} {before after : Option α} {nodes : List α}
    (h : Segment memory before nodes after) (hsame : ∀ a ∈ nodes, memory' a = memory a) :
    Segment memory' before nodes after := by
  induction nodes generalizing before with
  | nil => trivial
  | cons node rest ih =>
    refine ⟨?_, ih h.2 fun a ha ↦ hsame a (List.mem_cons_of_mem _ ha)⟩
    rw [hsame node List.mem_cons_self, h.1]

omit [DecidableEq α] in
/-- A segment splits at any point, the two halves being each other's neighbours. -/
theorem segment_append {memory : Memory α} {before after : Option α} {front back : List α} :
    Segment memory before (front ++ back) after ↔
      Segment memory before front (back.head?.or after) ∧
        Segment memory (front.getLast?.or before) back after := by
  induction front generalizing before with
  | nil => simp [Segment]
  | cons node rest ih =>
    have hneighbour : (node :: rest).getLast?.or before = rest.getLast?.or (some node) := by
      cases rest with
      | nil => rfl
      | cons _ _ => simp [List.getLast?_cons]
    rw [List.cons_append, Segment, Segment, ih, hneighbour, List.head?_append, Option.or_assoc,
      and_assoc]

/-- Changing what comes after a segment is one write to its last node. -/
theorem Segment.setAfter {memory : Memory α} {before after : Option α} {nodes : List α}
    (h : Segment memory before nodes after) (hnodup : nodes.Nodup) (after' : Option α) :
    Segment (setNext memory nodes.getLast? after') before nodes after' := by
  rcases List.eq_nil_or_concat' nodes with rfl | ⟨front, last, rfl⟩
  · trivial
  · have hfresh : ∀ a ∈ front, last ≠ a := fun a ha hsame ↦
      (List.nodup_append.mp hnodup).2.2 a ha last (List.mem_singleton_self last) hsame.symm
    rw [segment_append] at h ⊢
    have hlast : (front ++ [last]).getLast? = some last := by simp
    rw [hlast]
    refine ⟨h.1.congr fun a ha ↦ setNext_of_ne _ _ fun hsome ↦ ?_, ?_, trivial⟩
    · exact hfresh a ha (Option.some.inj hsome)
    · rw [setNext_self, h.2.1]
      simp

/-- Changing what comes before a segment is one write to its first node. -/
theorem Segment.setBefore {memory : Memory α} {before after : Option α} {nodes : List α}
    (h : Segment memory before nodes after) (hnodup : nodes.Nodup) (before' : Option α) :
    Segment (setPrev memory nodes.head? before') before' nodes after := by
  cases nodes with
  | nil => trivial
  | cons node rest =>
    refine ⟨?_, h.2.congr fun a ha ↦ setPrev_of_ne _ _ fun hsome ↦ ?_⟩
    · rw [List.head?_cons, setPrev_self, h.1]
    · obtain rfl : node = a := Option.some.inj hsome
      exact (List.nodup_cons.mp hnodup).1 ha

/-! ### Lists -/

/-- The head record and the memory show the sequence `nodes`. -/
structure Represents (memory : Memory α) (head : Head α) (nodes : List α) : Prop where
  nodup : nodes.Nodup
  segment : Segment memory none nodes none
  first : head.first = nodes.head?
  last : head.last = nodes.getLast?
  size : head.size = nodes.length

instance (memory : Memory α) (head : Head α) (nodes : List α) :
    Decidable (Represents memory head nodes) :=
  decidable_of_iff (nodes.Nodup ∧ Segment memory none nodes none ∧ head.first = nodes.head? ∧
      head.last = nodes.getLast? ∧ head.size = nodes.length)
    ⟨fun h ↦ ⟨h.1, h.2.1, h.2.2.1, h.2.2.2.1, h.2.2.2.2⟩,
      fun h ↦ ⟨h.nodup, h.segment, h.first, h.last, h.size⟩⟩

omit [DecidableEq α] in
theorem represents_empty (memory : Memory α) : Represents memory Head.empty [] :=
  ⟨List.nodup_nil, trivial, rfl, rfl, rfl⟩

omit [DecidableEq α] in
theorem Represents.congr {memory memory' : Memory α} {head : Head α} {nodes : List α}
    (h : Represents memory head nodes) (hsame : ∀ a ∈ nodes, memory' a = memory a) :
    Represents memory' head nodes :=
  ⟨h.nodup, h.segment.congr hsame, h.first, h.last, h.size⟩

omit [DecidableEq α] in
/-- The first node has no node before it, and its `next` link is the second node. -/
theorem Represents.head_links {memory : Memory α} {head : Head α} {node : α} {rest : List α}
    (h : Represents memory head (node :: rest)) : memory node = ⟨none, rest.head?⟩ := by
  simpa [Segment] using h.segment.1

omit [DecidableEq α] in
/-- The links of a node in the middle of a list. -/
theorem Represents.links {memory : Memory α} {head : Head α} {front back : List α} {node : α}
    (h : Represents memory head (front ++ node :: back)) :
    memory node = ⟨front.getLast?, back.head?⟩ := by
  have hsegment := (segment_append.mp h.segment).2
  simpa [Segment] using hsegment.1

omit [DecidableEq α] in
/-- A node of a list is without links exactly when it is the only node of the list. -/
theorem Represents.unlinked_iff {memory : Memory α} {head : Head α} {nodes : List α} {node : α}
    (h : Represents memory head nodes) (hmem : node ∈ nodes) :
    memory node = Links.unlinked ↔ nodes = [node] := by
  obtain ⟨front, back, rfl⟩ := List.append_of_mem hmem
  rw [h.links, Links.unlinked, Links.mk.injEq, List.getLast?_eq_none_iff, List.head?_eq_none_iff]
  constructor
  · rintro ⟨rfl, rfl⟩
    rfl
  · intro heq
    have hlength := congrArg List.length heq
    simp only [List.length_append, List.length_cons, List.length_nil] at hlength
    exact ⟨List.length_eq_zero_iff.mp (by omega), List.length_eq_zero_iff.mp (by omega)⟩

/-! ### Placing and removing a node -/

/-- The memory with `node` placed between `prev` and `next`. -/
def linkBetween (memory : Memory α) (prev : Option α) (node : α) (next : Option α) : Memory α :=
  setPrev (setNext (Function.update memory node ⟨prev, next⟩) prev (some node)) next (some node)

/-- The memory with `node`, which stood between `prev` and `next`, taken out. -/
def unlinkBetween (memory : Memory α) (prev : Option α) (node : α) (next : Option α) :
    Memory α :=
  Function.update (setPrev (setNext memory prev next) next prev) node Links.unlinked

/-- The head record after `node` was placed between `prev` and `next`. -/
def Head.link (head : Head α) (prev : Option α) (node : α) (next : Option α) : Head α where
  first := if prev.isNone then some node else head.first
  last := if next.isNone then some node else head.last
  size := head.size + 1

/-- The head record after the node between `prev` and `next` was taken out. -/
def Head.unlink (head : Head α) (prev : Option α) (node : α) (next : Option α) : Head α where
  first := if head.first = some node then next else head.first
  last := if head.last = some node then prev else head.last
  size := head.size - 1

theorem linkBetween_of_ne (memory : Memory α) {prev next : Option α} {node a : α} (hnode : a ≠ node)
    (hprev : prev ≠ some a) (hnext : next ≠ some a) :
    linkBetween memory prev node next a = memory a := by
  rw [linkBetween, setPrev_of_ne _ _ hnext, setNext_of_ne _ _ hprev, Function.update_of_ne hnode]

theorem unlinkBetween_of_ne (memory : Memory α) {prev next : Option α} {node a : α}
    (hnode : a ≠ node) (hprev : prev ≠ some a) (hnext : next ≠ some a) :
    unlinkBetween memory prev node next a = memory a := by
  rw [unlinkBetween, Function.update_of_ne hnode, setPrev_of_ne _ _ hnext, setNext_of_ne _ _ hprev]

theorem unlinkBetween_self (memory : Memory α) (prev next : Option α) (node : α) :
    unlinkBetween memory prev node next node = Links.unlinked :=
  Function.update_self ..

/-- Placing a new node between the two halves of a list. -/
theorem represents_link {memory : Memory α} {head : Head α} {front back : List α} {node : α}
    (h : Represents memory head (front ++ back)) (hnew : node ∉ front ++ back) :
    Represents (linkBetween memory front.getLast? node back.head?)
      (head.link front.getLast? node back.head?) (front ++ node :: back) := by
  obtain ⟨hfront, hback, hdisjoint⟩ := List.nodup_append.mp h.nodup
  obtain ⟨hsegFront, hsegBack⟩ := segment_append.mp h.segment
  rw [List.mem_append, not_or] at hnew
  simp only [Option.or_none] at hsegFront hsegBack
  have hprevNe : front.getLast? ≠ some node := fun hlast ↦
    hnew.1 (List.mem_of_getLast? hlast)
  have hnextNe : back.head? ≠ some node := fun hhead ↦ hnew.2 (List.mem_of_head? hhead)
  have hnext : ∀ a ∈ front, back.head? ≠ some a := fun a ha hhead ↦
    hdisjoint a ha a (List.mem_of_head? hhead) rfl
  have hprev : ∀ a ∈ back, front.getLast? ≠ some a := fun a ha hlast ↦
    hdisjoint a (List.mem_of_getLast? hlast) a ha rfl
  refine ⟨?_, ?_, ?_, ?_, ?_⟩
  · rw [List.nodup_append, List.nodup_cons]
    refine ⟨hfront, ⟨hnew.2, hback⟩, fun a ha b hb ↦ ?_⟩
    rcases List.mem_cons.mp hb with rfl | hb
    · exact fun hsame ↦ hnew.1 (hsame ▸ ha)
    · exact hdisjoint a ha b hb
  · rw [segment_append]
    refine ⟨?_, ?_, ?_⟩
    · have hbase : Segment (Function.update memory node ⟨front.getLast?, back.head?⟩) none front
          back.head? :=
        hsegFront.congr fun a ha ↦ Function.update_of_ne (ne_of_mem_of_not_mem ha hnew.1) _ _
      exact (hbase.setAfter hfront _).congr fun a ha ↦ setPrev_of_ne _ _ (hnext a ha)
    · rw [linkBetween, setPrev_of_ne _ _ hnextNe, setNext_of_ne _ _ hprevNe, Function.update_self]
      simp
    · have hbase : Segment (setNext (Function.update memory node ⟨front.getLast?, back.head?⟩)
          front.getLast? (some node)) front.getLast? back none :=
        hsegBack.congr fun a ha ↦ by
          rw [setNext_of_ne _ _ (hprev a ha),
            Function.update_of_ne (ne_of_mem_of_not_mem ha hnew.2)]
      exact hbase.setBefore hback _
  · cases front with
    | nil => rfl
    | cons first rest => simpa [Head.link] using h.first
  · cases back with
    | nil => simp [Head.link]
    | cons first rest => simpa [Head.link, List.getLast?_append] using h.last
  · have hsize := h.size
    simp only [Head.link, List.length_append, List.length_cons] at hsize ⊢
    omega

/-- Taking a node out of a list. -/
theorem represents_unlink {memory : Memory α} {head : Head α} {front back : List α} {node : α}
    (h : Represents memory head (front ++ node :: back)) :
    Represents (unlinkBetween memory front.getLast? node back.head?)
      (head.unlink front.getLast? node back.head?) (front ++ back) := by
  obtain ⟨hfront, hrest, hdisjoint⟩ := List.nodup_append.mp h.nodup
  obtain ⟨hnode, hback⟩ := List.nodup_cons.mp hrest
  obtain ⟨hsegFront, -, hsegBack⟩ := segment_append.mp h.segment
  simp only [List.head?_cons, Option.some_or] at hsegFront
  have hnotFront : node ∉ front := fun hmem ↦ hdisjoint node hmem node List.mem_cons_self rfl
  have hnext : ∀ a ∈ front, back.head? ≠ some a := fun a ha hhead ↦
    hdisjoint a ha a (List.mem_cons_of_mem _ (List.mem_of_head? hhead)) rfl
  have hprev : ∀ a ∈ back, front.getLast? ≠ some a := fun a ha hlast ↦
    hdisjoint a (List.mem_of_getLast? hlast) a (List.mem_cons_of_mem _ ha) rfl
  refine ⟨?_, ?_, ?_, ?_, ?_⟩
  · exact List.nodup_append.mpr ⟨hfront, hback, fun a ha b hb ↦
      hdisjoint a ha b (List.mem_cons_of_mem _ hb)⟩
  · rw [segment_append]
    constructor
    · rw [Option.or_none]
      exact (hsegFront.setAfter hfront _).congr fun a ha ↦ by
        rw [unlinkBetween, Function.update_of_ne (ne_of_mem_of_not_mem ha hnotFront),
          setPrev_of_ne _ _ (hnext a ha)]
    · rw [Option.or_none]
      have hbase : Segment (setNext memory front.getLast? back.head?) (some node) back none :=
        hsegBack.congr fun a ha ↦ setNext_of_ne _ _ (hprev a ha)
      exact (hbase.setBefore hback _).congr fun a ha ↦
        Function.update_of_ne (ne_of_mem_of_not_mem ha hnode) _ _
  · cases front with
    | nil => simp [Head.unlink, h.first]
    | cons first rest =>
      have hne : first ≠ node := fun hsame ↦ hnotFront (hsame ▸ List.mem_cons_self)
      simp [Head.unlink, h.first, hne]
  · rcases List.eq_nil_or_concat' back with rfl | ⟨init, last, rfl⟩
    · simp [Head.unlink, h.last]
    · have hne : last ≠ node := fun hsame ↦ hnode (hsame ▸ by simp)
      have hlast : head.last = some last := by
        rw [h.last]
        simp [List.getLast?_append, List.getLast?_cons]
      simp [Head.unlink, hlast, hne, List.getLast?_append]
  · have hsize := h.size
    simp only [Head.unlink, List.length_append, List.length_cons] at hsize ⊢
    omega

/-! ### Membership and search -/

/-- The nodes a walk along the `next` links meets, the given node first. -/
inductive Reaches (memory : Memory α) : Option α → α → Prop
  | here (a : α) : Reaches memory (some a) a
  | further {a b : α} (h : Reaches memory (memory a).next b) : Reaches memory (some a) b

omit [DecidableEq α] in
theorem Segment.reaches_iff {memory : Memory α} {before : Option α} {nodes : List α}
    (h : Segment memory before nodes none) (a : α) :
    Reaches memory nodes.head? a ↔ a ∈ nodes := by
  induction nodes generalizing before with
  | nil =>
    refine ⟨fun hreach ↦ ?_, fun hmem ↦ absurd hmem List.not_mem_nil⟩
    cases hreach
  | cons node rest ih =>
    have hnext : (memory node).next = rest.head? := by rw [h.1, Option.or_none]
    rw [List.head?_cons, List.mem_cons, ← ih h.2]
    constructor
    · rintro (_ | hfurther)
      · exact Or.inl rfl
      · exact Or.inr (hnext ▸ hfurther)
    · rintro (rfl | hfurther)
      · exact Reaches.here a
      · exact Reaches.further (hnext ▸ hfurther)

omit [DecidableEq α] in
/-- On a well-formed list a walk meets exactly the nodes of the sequence. -/
theorem Represents.reaches_iff {memory : Memory α} {head : Head α} {nodes : List α}
    (h : Represents memory head nodes) (a : α) : Reaches memory head.first a ↔ a ∈ nodes := by
  rw [h.first]
  exact h.segment.reaches_iff a

/-- The nodes that a walk meets, `bound` of them at most. -/
def collect (memory : Memory α) : ℕ → Option α → List α
  | 0, _ => []
  | _, none => []
  | bound + 1, some a => a :: collect memory bound (memory a).next

/-- The sequence that a head record shows: as many nodes of a walk as its size says. -/
def Head.toList (memory : Memory α) (head : Head α) : List α :=
  collect memory head.size.toNat head.first

omit [DecidableEq α] in
theorem Segment.collect_eq {memory : Memory α} {before : Option α} {nodes : List α}
    (h : Segment memory before nodes none) :
    collect memory nodes.length nodes.head? = nodes := by
  induction nodes generalizing before with
  | nil => rfl
  | cons node rest ih =>
    have hnext : (memory node).next = rest.head? := by rw [h.1, Option.or_none]
    rw [List.head?_cons, List.length_cons, collect, hnext, ih h.2]

omit [DecidableEq α] in
/-- A well-formed list shows its sequence. -/
theorem Represents.toList_eq {memory : Memory α} {head : Head α} {nodes : List α}
    (h : Represents memory head nodes) : head.toList memory = nodes := by
  rw [Head.toList, h.size, Int.toNat_natCast, h.first]
  exact h.segment.collect_eq

/-- The search loop: the first node that passes the test, or nothing at the end of the list. It
gives up after `bound` nodes. -/
def scan (memory : Memory α) (test : α → Bool) : ℕ → Option α → Option (Option α)
  | _, none => some none
  | 0, some _ => none
  | bound + 1, some a =>
    if test a then some (some a) else scan memory test bound (memory a).next

omit [DecidableEq α] in
theorem Segment.scan_eq {memory : Memory α} {before : Option α} {nodes : List α}
    (h : Segment memory before nodes none) {test : α → Bool} {bound : ℕ} {found : Option α}
    (hscan : scan memory test bound nodes.head? = some found) : found = nodes.find? test := by
  induction nodes generalizing before bound with
  | nil => cases bound <;> simpa [scan, eq_comm] using hscan
  | cons node rest ih =>
    cases bound with
    | zero => simp [scan] at hscan
    | succ bound =>
      have hnext : (memory node).next = rest.head? := by rw [h.1, Option.or_none]
      rw [List.head?_cons, scan, hnext] at hscan
      rw [List.find?_cons]
      cases htest : test node with
      | true => simpa [htest, eq_comm] using hscan
      | false => exact ih h.2 (by simpa [htest] using hscan)

omit [DecidableEq α] in
theorem Segment.scan_terminates {memory : Memory α} {before : Option α} {nodes : List α}
    (h : Segment memory before nodes none) (test : α → Bool) {bound : ℕ}
    (hbound : nodes.length ≤ bound) :
    scan memory test bound nodes.head? = some (nodes.find? test) := by
  induction nodes generalizing before bound with
  | nil => cases bound <;> rfl
  | cons node rest ih =>
    obtain ⟨bound, rfl⟩ : ∃ n, bound = n + 1 :=
      Nat.exists_eq_succ_of_ne_zero (by simp only [List.length_cons] at hbound; omega)
    have hnext : (memory node).next = rest.head? := by rw [h.1, Option.or_none]
    rw [List.head?_cons, scan, hnext, List.find?_cons]
    cases htest : test node with
    | true => rfl
    | false => exact ih h.2 (by simpa using hbound)

omit [DecidableEq α] in
/-- A search that ends on a well-formed list returns the first node that passes the test. -/
theorem Represents.scan_eq {memory : Memory α} {head : Head α} {nodes : List α}
    (h : Represents memory head nodes) {test : α → Bool} {bound : ℕ} {found : Option α}
    (hscan : scan memory test bound head.first = some found) : found = nodes.find? test :=
  h.segment.scan_eq (h.first ▸ hscan)

omit [DecidableEq α] in
/-- A search of a well-formed list ends within as many nodes as the list has. -/
theorem Represents.scan_terminates {memory : Memory α} {head : Head α} {nodes : List α}
    (h : Represents memory head nodes) (test : α → Bool) {bound : ℕ}
    (hbound : nodes.length ≤ bound) :
    scan memory test bound head.first = some (nodes.find? test) := by
  rw [h.first]
  exact h.segment.scan_terminates test hbound

/-! ### Families of lists over one memory -/

variable {ι : Type*}

/-- Many lists over one memory, no node in two of them. -/
structure Family (memory : Memory α) (head : ι → Head α) (nodes : ι → List α) : Prop where
  represents : ∀ i, Represents memory (head i) (nodes i)
  disjoint : ∀ i j a, a ∈ nodes i → a ∈ nodes j → i = j

/-- The nodes that are in no list of the family carry no links. -/
def Tidy (memory : Memory α) (nodes : ι → List α) : Prop :=
  ∀ a, (∀ i, a ∉ nodes i) → memory a = Links.unlinked

/-- A family over a tidy memory: a node is in a list of the family or carries no links. -/
structure Threads (memory : Memory α) (head : ι → Head α) (nodes : ι → List α) : Prop
    extends Family memory head nodes where
  tidy : Tidy memory nodes

omit [DecidableEq α] in
theorem threads_empty : Threads (fun _ : α ↦ Links.unlinked) (fun _ : ι ↦ Head.empty)
    (fun _ ↦ []) where
  represents _ := represents_empty _
  disjoint _ _ _ h := absurd h List.not_mem_nil
  tidy _ _ := rfl

omit [DecidableEq α] in
theorem Family.congr {memory memory' : Memory α} {head : ι → Head α} {nodes : ι → List α}
    (h : Family memory head nodes) (hsame : ∀ i, ∀ a ∈ nodes i, memory' a = memory a) :
    Family memory' head nodes :=
  ⟨fun i ↦ (h.represents i).congr (hsame i), h.disjoint⟩

omit [DecidableEq α] in
/-- A neighbour of a place in one list is in no other list. -/
private theorem Family.getLast_ne {memory : Memory α} {head : ι → Head α} {nodes : ι → List α}
    (h : Family memory head nodes) {i j : ι} {front : List α} (hsub : front ⊆ nodes i)
    (hij : i ≠ j) {a : α} (ha : a ∈ nodes j) : front.getLast? ≠ some a := fun hlast ↦
  hij (h.disjoint i j a (hsub (List.mem_of_getLast? hlast)) ha)

omit [DecidableEq α] in
private theorem Family.head_ne {memory : Memory α} {head : ι → Head α} {nodes : ι → List α}
    (h : Family memory head nodes) {i j : ι} {back : List α} (hsub : back ⊆ nodes i)
    (hij : i ≠ j) {a : α} (ha : a ∈ nodes j) : back.head? ≠ some a := fun hhead ↦
  hij (h.disjoint i j a (hsub (List.mem_of_head? hhead)) ha)

variable [DecidableEq ι]

omit [DecidableEq α] in
/-- What is in the lists after one node was added to one of them. -/
theorem mem_update_append {nodes : ι → List α} {i j : ι} {a b : α} :
    b ∈ Function.update nodes i (nodes i ++ [a]) j ↔ b ∈ nodes j ∨ b = a ∧ j = i := by
  by_cases hij : j = i
  · subst hij
    rw [Function.update_self, List.mem_append, List.mem_singleton, and_iff_left rfl]
  · rw [Function.update_of_ne hij, or_iff_left fun hnew ↦ hij hnew.2]

/-- What is in the lists after one node was taken out of its list. -/
theorem Family.mem_update_erase {memory : Memory α} {head : ι → Head α} {nodes : ι → List α}
    (h : Family memory head nodes) {i j : ι} {a b : α} (ha : a ∈ nodes i) :
    b ∈ Function.update nodes i ((nodes i).erase a) j ↔ b ∈ nodes j ∧ b ≠ a := by
  by_cases hij : j = i
  · subst hij
    rw [Function.update_self, (h.represents j).nodup.mem_erase_iff, and_comm]
  · rw [Function.update_of_ne hij, iff_self_and]
    exact fun hb hsame ↦ hij (h.disjoint j i a (hsame ▸ hb) ha)

omit [DecidableEq α] in
/-- One list is emptied by a new head record, and its nodes are in no list any more. -/
theorem Family.clear {memory : Memory α} {head : ι → Head α} {nodes : ι → List α}
    (h : Family memory head nodes) (i : ι) :
    Family memory (Function.update head i Head.empty) (Function.update nodes i []) := by
  have hsub : ∀ j a, a ∈ Function.update nodes i [] j → a ∈ nodes j := by
    intro j a ha
    by_cases hij : j = i
    · subst hij
      rw [Function.update_self] at ha
      exact absurd ha List.not_mem_nil
    · rwa [Function.update_of_ne hij] at ha
  constructor
  · intro j
    by_cases hij : j = i
    · subst hij
      rw [Function.update_self, Function.update_self]
      exact represents_empty memory
    · rw [Function.update_of_ne hij, Function.update_of_ne hij]
      exact h.represents j
  · exact fun j l a hj hl ↦ h.disjoint j l a (hsub j a hj) (hsub l a hl)

/-- Placing a node that is in no list changes one list of the family. -/
theorem Family.link {memory : Memory α} {head : ι → Head α} {nodes : ι → List α}
    (h : Family memory head nodes) {i : ι} {front back : List α} (hi : nodes i = front ++ back)
    {node : α} (hnew : ∀ j, node ∉ nodes j) :
    Family (linkBetween memory front.getLast? node back.head?)
      (Function.update head i ((head i).link front.getLast? node back.head?))
      (Function.update nodes i (front ++ node :: back)) := by
  have hfront : front ⊆ nodes i := hi ▸ List.subset_append_left front back
  have hback : back ⊆ nodes i := hi ▸ List.subset_append_right front back
  constructor
  · intro j
    by_cases hij : j = i
    · subst hij
      rw [Function.update_self, Function.update_self]
      exact represents_link (hi ▸ h.represents j) (hi ▸ hnew j)
    · rw [Function.update_of_ne hij, Function.update_of_ne hij]
      exact (h.represents j).congr fun a ha ↦
        linkBetween_of_ne _ (ne_of_mem_of_not_mem ha (hnew j))
          (h.getLast_ne hfront (Ne.symm hij) ha) (h.head_ne hback (Ne.symm hij) ha)
  · have hcases : ∀ j a, a ∈ Function.update nodes i (front ++ node :: back) j →
        a ∈ nodes j ∨ (a = node ∧ j = i) := by
      intro j a ha
      by_cases hij : j = i
      · subst hij
        rw [Function.update_self, List.mem_append, List.mem_cons] at ha
        rw [hi, List.mem_append]
        tauto
      · rw [Function.update_of_ne hij] at ha
        exact Or.inl ha
    intro j l a hj hl
    rcases hcases j a hj with hj | ⟨hnode, hji⟩ <;> rcases hcases l a hl with hl | ⟨hnode', hli⟩
    · exact h.disjoint j l a hj hl
    · exact absurd (hnode' ▸ hj) (hnew j)
    · exact absurd (hnode ▸ hl) (hnew l)
    · rw [hji, hli]

/-- Taking a node out changes one list of the family. -/
theorem Family.unlink {memory : Memory α} {head : ι → Head α} {nodes : ι → List α}
    (h : Family memory head nodes) {i : ι} {front back : List α} {node : α}
    (hi : nodes i = front ++ node :: back) :
    Family (unlinkBetween memory front.getLast? node back.head?)
      (Function.update head i ((head i).unlink front.getLast? node back.head?))
      (Function.update nodes i (front ++ back)) := by
  have hfront : front ⊆ nodes i := hi ▸ List.subset_append_left front _
  have hback : back ⊆ nodes i := fun a ha ↦ by
    rw [hi]
    exact List.mem_append_right _ (List.mem_cons_of_mem _ ha)
  have hnode : node ∈ nodes i := by
    rw [hi]
    exact List.mem_append_right _ List.mem_cons_self
  constructor
  · intro j
    by_cases hij : j = i
    · subst hij
      rw [Function.update_self, Function.update_self]
      exact represents_unlink (hi ▸ h.represents j)
    · rw [Function.update_of_ne hij, Function.update_of_ne hij]
      exact (h.represents j).congr fun a ha ↦
        unlinkBetween_of_ne _ (fun hsame ↦ hij (h.disjoint j i a ha (hsame ▸ hnode)))
          (h.getLast_ne hfront (Ne.symm hij) ha) (h.head_ne hback (Ne.symm hij) ha)
  · have hsub : ∀ j a, a ∈ Function.update nodes i (front ++ back) j → a ∈ nodes j := by
      intro j a ha
      by_cases hij : j = i
      · subst hij
        rw [Function.update_self] at ha
        rw [hi]
        exact (List.append_subset.mpr ⟨List.subset_append_left _ _,
          fun b hb ↦ List.mem_append_right _ (List.mem_cons_of_mem _ hb)⟩) ha
      · rwa [Function.update_of_ne hij] at ha
    intro j l a hj hl
    exact h.disjoint j l a (hsub j a hj) (hsub l a hl)

theorem Tidy.link {memory : Memory α} {nodes : ι → List α} (h : Tidy memory nodes) {i : ι}
    {front back : List α} (hi : nodes i = front ++ back) (node : α) :
    Tidy (linkBetween memory front.getLast? node back.head?)
      (Function.update nodes i (front ++ node :: back)) := by
  intro a ha
  have hai := ha i
  rw [Function.update_self, List.mem_append, List.mem_cons] at hai
  push Not at hai
  rw [linkBetween_of_ne _ hai.2.1 (fun hlast ↦ hai.1 (List.mem_of_getLast? hlast))
    fun hhead ↦ hai.2.2 (List.mem_of_head? hhead)]
  refine h a fun j ↦ ?_
  by_cases hij : j = i
  · subst hij
    rw [hi, List.mem_append]
    tauto
  · simpa [Function.update_of_ne hij] using ha j

theorem Tidy.unlink {memory : Memory α} {nodes : ι → List α} (h : Tidy memory nodes) {i : ι}
    {front back : List α} {node : α} (hi : nodes i = front ++ node :: back) :
    Tidy (unlinkBetween memory front.getLast? node back.head?)
      (Function.update nodes i (front ++ back)) := by
  intro a ha
  by_cases hnode : a = node
  · rw [hnode, unlinkBetween_self]
  · have hai := ha i
    rw [Function.update_self, List.mem_append] at hai
    push Not at hai
    rw [unlinkBetween_of_ne _ hnode (fun hlast ↦ hai.1 (List.mem_of_getLast? hlast))
      fun hhead ↦ hai.2 (List.mem_of_head? hhead)]
    refine h a fun j ↦ ?_
    by_cases hij : j = i
    · subst hij
      rw [hi, List.mem_append, List.mem_cons]
      tauto
    · simpa [Function.update_of_ne hij] using ha j

end DisastrOS.LinkedLists
