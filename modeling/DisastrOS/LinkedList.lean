import DisastrOS.Library.LinkedLists

/-!
# The intrusive list (`linked_list.c`)

Every kernel object starts with a `ListItem`, so a list is threaded through the objects themselves
and a node can be in one list at most. `listInsert` refuses a node whose links are not both null,
which is its only test that the node is in no list: the only node of a list passes it.

A function that changes a list returns the links of all nodes, the head record and its own result
(`ListResult`). `Threads.listInsert` and `Threads.listDetach` are the effect of the functions on a
family of well-formed lists, `Represents.listInsert_last` and `Represents.listDetach` on a single one,
and `listInsert_refused` is the case in which nothing happens.
-/

set_option autoImplicit false
set_option relaxedAutoImplicit false

namespace DisastrOS

open LinkedLists

abbrev ListHead (α : Type*) := Head α

/-- What a list function leaves behind: the links of the nodes, the head record it was given, and
the pointer it returns. -/
structure ListResult (α : Type*) where
  list : Memory α
  head : ListHead α
  ret : Option α

section Functions

variable {α : Type*} [DecidableEq α]

/-- `List_init`. -/
def listInit : ListHead α := Head.empty

/-- `List_find`: the item itself if a walk from the first node meets it, null otherwise. -/
def listFind (bound : ℕ) (list : Memory α) (head : ListHead α) (item : Option α) :
    Option (Option α) :=
  scan list (fun aux ↦ some aux = item) bound head.first

/-- `List_insert`. -/
def listInsert (list : Memory α) (head : ListHead α) (prev item : Option α) : ListResult α :=
  match item with
  | none => ⟨list, head, none⟩
  | some node =>
    if (list node).next.isSome || (list node).prev.isSome then ⟨list, head, none⟩
    else
      let next := match prev with
        | some p => (list p).next
        | none => head.first
      let list := if prev.isSome then setNext (setPrev list item prev) prev item else list
      let list := if next.isSome then setPrev (setNext list item next) next item else list
      ⟨list, ⟨if prev.isNone then item else head.first, if next.isNone then item else head.last,
        head.size + 1⟩, item⟩

/-- `List_detach`. It does not look whether the item is in the list. -/
def listDetach (list : Memory α) (head : ListHead α) (item : Option α) : ListResult α :=
  match item with
  | none => ⟨list, head, none⟩
  | some node =>
    let prev := (list node).prev
    let next := (list node).next
    let list := setPrev (setNext list prev next) next prev
    ⟨Function.update list node Links.unlinked,
      ⟨if head.first = item then next else head.first, if head.last = item then prev else head.last,
        head.size - 1⟩, item⟩

/-- `List_pop`. -/
def listPop (list : Memory α) (head : ListHead α) : ListResult α :=
  if head.first.isSome then listDetach list head head.first else ⟨list, head, none⟩

end Functions

/-! ### Effect on well-formed lists -/

section Effects

variable {α : Type*} [DecidableEq α] {list : Memory α} {head : ListHead α}

@[simp] theorem listInsert_null (prev : Option α) :
    listInsert list head prev none = ⟨list, head, none⟩ := rfl

@[simp] theorem listDetach_null : listDetach list head none = ⟨list, head, none⟩ := rfl

/-- A node that carries a link is refused. -/
theorem listInsert_refused {node : α} (h : list node ≠ Links.unlinked) (prev : Option α) :
    listInsert list head prev (some node) = ⟨list, head, none⟩ := by
  have hlinked : ((list node).next.isSome || (list node).prev.isSome) = true := by
    by_contra hnone
    simp only [Bool.or_eq_true, Option.isSome_iff_ne_none, not_or, not_not] at hnone
    exact h (Links.ext hnone.2 hnone.1)
  simp [listInsert, hlinked]

/-- A node without links is placed after `prev`, or in front. -/
theorem listInsert_eq_link {front back : List α} {node : α}
    (h : Represents list head (front ++ back)) (hnode : list node = Links.unlinked)
    (hnew : node ∉ front ++ back) :
    listInsert list head front.getLast? (some node) =
      ⟨linkBetween list front.getLast? node back.head?,
        head.link front.getLast? node back.head?, some node⟩ := by
  have hnext : (match front.getLast? with
      | some p => (list p).next
      | none => head.first) = back.head? := by
    rcases List.eq_nil_or_concat' front with rfl | ⟨init, last, rfl⟩
    · simpa using h.first
    · rw [List.append_assoc, List.singleton_append] at h
      simp [h.links]
  have hunlinked : ((list node).next.isSome || (list node).prev.isSome) = false := by
    simp [hnode, Links.unlinked]
  rw [List.mem_append, not_or] at hnew
  have hprevNe : front.getLast? ≠ some node := fun hlast ↦ hnew.1 (List.mem_of_getLast? hlast)
  have hnextNe : back.head? ≠ some node := fun hhead ↦ hnew.2 (List.mem_of_head? hhead)
  simp only [listInsert, hunlinked, hnext, Bool.false_eq_true, if_false, ListResult.mk.injEq,
    and_true]
  refine ⟨?_, rfl⟩
  -- the four writes of the source touch the node and its two neighbours, all different
  funext a
  cases hp : front.getLast? with
  | none =>
    cases hn : back.head? with
    | none =>
      by_cases ha : a = node
      · simp [linkBetween, setNext, setPrev, ha, hnode, Links.unlinked]
      · simp [linkBetween, setNext, setPrev, ha]
    | some next =>
      have hne : next ≠ node := fun hsame ↦ hnextNe (hn ▸ hsame ▸ rfl)
      by_cases ha : a = node
      · simp [linkBetween, setNext, setPrev, ha, hne.symm, hnode, Links.unlinked]
      · simp [linkBetween, setNext, setPrev, ha, Function.update_apply, hne]
  | some prev =>
    have hpne : prev ≠ node := fun hsame ↦ hprevNe (hp ▸ hsame ▸ rfl)
    cases hn : back.head? with
    | none =>
      by_cases ha : a = node
      · simp [linkBetween, setNext, setPrev, ha, hpne.symm, hnode, Links.unlinked]
      · simp [linkBetween, setNext, setPrev, ha, Function.update_apply, hpne]
    | some next =>
      have hne : next ≠ node := fun hsame ↦ hnextNe (hn ▸ hsame ▸ rfl)
      by_cases ha : a = node
      · simp [linkBetween, setNext, setPrev, ha, hne.symm, hpne.symm, hnode, Links.unlinked]
      · simp [linkBetween, setNext, setPrev, ha, Function.update_apply, hne, hpne]

/-- A node of the list is taken out from between its neighbours. -/
theorem listDetach_eq_unlink {front back : List α} {node : α}
    (h : Represents list head (front ++ node :: back)) :
    listDetach list head (some node) =
      ⟨unlinkBetween list front.getLast? node back.head?,
        head.unlink front.getLast? node back.head?, some node⟩ := by
  simp [listDetach, h.links, unlinkBetween, Head.unlink]

theorem listPop_nil (h : Represents list head []) : listPop list head = ⟨list, head, none⟩ := by
  simp [listPop, h.first]

/-- Popping takes the first node out. -/
theorem listPop_cons {node : α} {rest : List α} (h : Represents list head (node :: rest)) :
    listPop list head = listDetach list head (some node) := by
  simp [listPop, h.first]

/-- The same on a list in which the node stands somewhere. -/
theorem listDetach_list_of_notMem {nodes : List α} {node a : α} (h : Represents list head nodes)
    (hnode : node ∈ nodes) (ha : a ∉ nodes) : (listDetach list head (some node)).list a = list a := by
  obtain ⟨front, back, rfl⟩ := List.append_of_mem hnode
  rw [listDetach_eq_unlink h]
  rw [List.mem_append, List.mem_cons] at ha
  push Not at ha
  exact unlinkBetween_of_ne _ ha.2.1 (fun hlast ↦ ha.1 (List.mem_of_getLast? hlast))
    fun hhead ↦ ha.2.2 (List.mem_of_head? hhead)

/-- Placing a node at the end writes to the node and to the list only. -/
theorem listInsert_list_of_notMem {nodes : List α} {node a : α} (h : Represents list head nodes)
    (hunlinked : list node = Links.unlinked) (hnode : node ∉ nodes) (ha : a ∉ nodes)
    (hne : a ≠ node) : (listInsert list head head.last (some node)).list a = list a := by
  have happend : Represents list head (nodes ++ []) := by rwa [List.append_nil]
  rw [h.last, listInsert_eq_link happend hunlinked (by simpa using hnode)]
  exact linkBetween_of_ne _ hne (fun hlast ↦ ha (List.mem_of_getLast? hlast))
    (Option.some_ne_none a).symm

theorem listDetach_list_self (list : Memory α) (head : ListHead α) (node : α) :
    (listDetach list head (some node)).list node = Links.unlinked := by
  simp [listDetach]

end Effects

/-! ### Effect on one list and on a family of lists -/

namespace LinkedLists

variable {α : Type*} [DecidableEq α] {list : Memory α}

section OneList

variable {head : ListHead α} {nodes : List α} {node : α}

/-- A node without links goes to the end of a list it is not in. -/
theorem Represents.listInsert_last (h : Represents list head nodes)
    (hunlinked : list node = Links.unlinked) (hnode : node ∉ nodes) :
    Represents (listInsert list head head.last (some node)).list
        (listInsert list head head.last (some node)).head (nodes ++ [node]) ∧
      (listInsert list head head.last (some node)).ret = some node := by
  have happend : Represents list head (nodes ++ []) := by rwa [List.append_nil]
  rw [h.last, listInsert_eq_link happend hunlinked (by simpa using hnode)]
  exact ⟨represents_link happend (by simpa using hnode), rfl⟩

/-- A node of the list is taken out. -/
theorem Represents.listDetach (h : Represents list head nodes) (hnode : node ∈ nodes) :
    Represents (DisastrOS.listDetach list head (some node)).list
      (DisastrOS.listDetach list head (some node)).head (nodes.erase node) := by
  obtain ⟨front, back, rfl⟩ := List.append_of_mem hnode
  have hfront : node ∉ front := fun hmem ↦
    (List.nodup_append.mp h.nodup).2.2 node hmem node List.mem_cons_self rfl
  rw [List.erase_append_right _ hfront, List.erase_cons_head, listDetach_eq_unlink h]
  exact represents_unlink h

/-- A node that has neighbours is refused by every list. -/
theorem Represents.listInsert_refused (h : Represents list head nodes) (hnode : node ∈ nodes)
    (hothers : nodes ≠ [node]) (target : ListHead α) (prev : Option α) :
    DisastrOS.listInsert list target prev (some node) = ⟨list, target, none⟩ :=
  DisastrOS.listInsert_refused (fun hunlinked ↦ hothers ((h.unlinked_iff hnode).mp hunlinked)) prev

end OneList

section Lists

variable {ι : Type*} [DecidableEq ι] {head : ι → ListHead α} {nodes : ι → List α} {i : ι} {node : α}

/-- A node without links that is in no list is placed into one, right after the last node of
`front`. -/
theorem Family.listInsert (h : Family list head nodes) {front back : List α}
    (hi : nodes i = front ++ back) (hunlinked : list node = Links.unlinked)
    (hnode : ∀ j, node ∉ nodes j) :
    Family (DisastrOS.listInsert list (head i) front.getLast? (some node)).list
      (Function.update head i
        (DisastrOS.listInsert list (head i) front.getLast? (some node)).head)
      (Function.update nodes i (front ++ node :: back)) := by
  have hrep : Represents list (head i) (front ++ back) := hi ▸ h.represents i
  rw [listInsert_eq_link hrep hunlinked (hi ▸ hnode i)]
  exact h.link hi hnode

/-- A node without links goes to the end of a list of a family. -/
theorem Family.listInsert_last (h : Family list head nodes) (i : ι)
    (hunlinked : list node = Links.unlinked) (hnode : ∀ j, node ∉ nodes j) :
    Family (DisastrOS.listInsert list (head i) (head i).last (some node)).list
      (Function.update head i
        (DisastrOS.listInsert list (head i) (head i).last (some node)).head)
      (Function.update nodes i (nodes i ++ [node])) := by
  rw [(h.represents i).last]
  exact h.listInsert (List.append_nil _).symm hunlinked hnode

/-- A node of a list of a family is taken out of it. -/
theorem Family.listDetach (h : Family list head nodes) (hnode : node ∈ nodes i) :
    Family (DisastrOS.listDetach list (head i) (some node)).list
      (Function.update head i (DisastrOS.listDetach list (head i) (some node)).head)
      (Function.update nodes i ((nodes i).erase node)) := by
  obtain ⟨front, back, hi⟩ := List.append_of_mem hnode
  have hrep : Represents list (head i) (front ++ node :: back) := hi ▸ h.represents i
  have hfront : node ∉ front := fun hmem ↦
    (List.nodup_append.mp hrep.nodup).2.2 node hmem node List.mem_cons_self rfl
  rw [hi, List.erase_append_right _ hfront, List.erase_cons_head, listDetach_eq_unlink hrep]
  exact h.unlink hi

/-- A node that is in no list is placed into one, right after the last node of `front`. -/
theorem Threads.listInsert (h : Threads list head nodes) {front back : List α}
    (hi : nodes i = front ++ back) (hnode : ∀ j, node ∉ nodes j) :
    Threads (DisastrOS.listInsert list (head i) front.getLast? (some node)).list
      (Function.update head i
        (DisastrOS.listInsert list (head i) front.getLast? (some node)).head)
      (Function.update nodes i (front ++ node :: back)) := by
  have hrep : Represents list (head i) (front ++ back) := hi ▸ h.represents i
  have hunlinked := h.tidy node hnode
  refine { toFamily := h.toFamily.listInsert hi hunlinked hnode, tidy := ?_ }
  rw [listInsert_eq_link hrep hunlinked (hi ▸ hnode i)]
  exact h.tidy.link hi node

/-- A node that is in no list goes to the end of one. -/
theorem Threads.listInsert_last (h : Threads list head nodes) (i : ι)
    (hnode : ∀ j, node ∉ nodes j) :
    Threads (DisastrOS.listInsert list (head i) (head i).last (some node)).list
      (Function.update head i
        (DisastrOS.listInsert list (head i) (head i).last (some node)).head)
      (Function.update nodes i (nodes i ++ [node])) := by
  rw [(h.represents i).last]
  exact h.listInsert (List.append_nil _).symm hnode

/-- A node of a list is taken out of it. -/
theorem Threads.listDetach (h : Threads list head nodes) (hnode : node ∈ nodes i) :
    Threads (DisastrOS.listDetach list (head i) (some node)).list
      (Function.update head i (DisastrOS.listDetach list (head i) (some node)).head)
      (Function.update nodes i ((nodes i).erase node)) := by
  obtain ⟨front, back, hi⟩ := List.append_of_mem hnode
  have hrep : Represents list (head i) (front ++ node :: back) := hi ▸ h.represents i
  have hfront : node ∉ front := fun hmem ↦
    (List.nodup_append.mp hrep.nodup).2.2 node hmem node List.mem_cons_self rfl
  refine { toFamily := h.toFamily.listDetach hnode, tidy := ?_ }
  rw [hi, List.erase_append_right _ hfront, List.erase_cons_head, listDetach_eq_unlink hrep]
  exact h.tidy.unlink hi

/-- A node that was taken out of a list is in none. -/
theorem Family.notMem_erase (h : Family list head nodes) (hnode : node ∈ nodes i) (j : ι) :
    node ∉ Function.update nodes i ((nodes i).erase node) j := by
  by_cases hij : j = i
  · subst hij
    rw [Function.update_self]
    exact (h.represents j).nodup.not_mem_erase
  · rw [Function.update_of_ne hij]
    exact fun hmem ↦ hij (h.disjoint j i node hmem hnode)

end Lists

end LinkedLists

end DisastrOS
