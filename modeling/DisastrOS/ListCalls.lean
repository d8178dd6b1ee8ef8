import DisastrOS.Constants
import DisastrOS.Library.Runs
import DisastrOS.LinkedList
import Mathlib.Data.Fintype.Defs

/-!
# Calls of the list functions on many lists

`ListHeap` is a heap of nodes with any number of heads over it, and `ListHeap.call` is one call of
`List_init`, `List_insert`, `List_detach` or `List_pop`. What a call is for is said on the sequences
of nodes alone (`ListCall.sequences`, `ListCall.returned`): a node goes right after the one before it
or in front, one node goes away, the first node goes away, and the other sequences stay.

A run whose calls are `Allowed` follows the sequences and keeps the heads well formed
(`listCalls_refine_sequences`). `Allowed` asks that a node that is inserted is without links and in
no list. `List_insert` looks at the links only, and a node of a list has links unless it is the only
one there (`listInsert_refuses_iff`), so a run that never inserts the only node of a list stays well
formed whatever else it inserts. `soleNode_not_refused` is the run that does.
-/

set_option autoImplicit false
set_option relaxedAutoImplicit false

namespace DisastrOS

open LinkedLists
open Function (update)

/-! ### Heaps of nodes and calls -/

/-- The links of the nodes, and the heads. A head is nothing before its `List_init`. -/
structure ListHeap (ι α : Type*) where
  list : Memory α
  head : ι → Option (ListHead α)

inductive ListCall (ι α : Type*)
  | init (i : ι)
  | insert (i : ι) (prev item : Option α)
  | detach (i : ι) (item : Option α)
  | pop (i : ι)

section Calls

variable {ι α : Type*} [DecidableEq ι] [DecidableEq α]

namespace ListHeap

/-- The heap after a list function was called on head `i`, with the result. -/
def put (s : ListHeap ι α) (i : ι) (r : ListResult α) : ListHeap ι α × Option α :=
  (⟨r.list, update s.head i (some r.head)⟩, r.ret)

/-- One call, with its result. The functions other than `List_init` read the head. -/
def call (s : ListHeap ι α) : ListCall ι α → Option (ListHeap ι α × Option α)
  | .init i => some (s.put i ⟨s.list, listInit, none⟩)
  | .insert i prev item => (s.head i).map fun head ↦ s.put i (listInsert s.list head prev item)
  | .detach i item => (s.head i).map fun head ↦ s.put i (listDetach s.list head item)
  | .pop i => (s.head i).map fun head ↦ s.put i (listPop s.list head)

def step (s : ListHeap ι α) (c : ListCall ι α) : Option (ListHeap ι α) := (s.call c).map Prod.fst

/-- The head record `i`, or that of an empty list before its `List_init`. -/
def headAt (s : ListHeap ι α) (i : ι) : ListHead α := (s.head i).getD listInit

/-- The sequence that head `i` shows. -/
def nodes (s : ListHeap ι α) (i : ι) : List α := (s.headAt i).toList s.list

/-- Every head shows its sequence in both directions, with its length, and no node is in two of
them. -/
def WellFormed (s : ListHeap ι α) : Prop := Family s.list s.headAt s.nodes

/-- An insert gets a node without links that is in no list, and a place in the list it goes to; a
detach gets a node of the list. -/
def Allowed (s : ListHeap ι α) : ListCall ι α → Prop
  | .init _ => True
  | .insert i prev (some node) =>
    (s.head i).isSome ∧ (∀ p ∈ prev, p ∈ s.nodes i) ∧ s.list node = Links.unlinked ∧
      ∀ j, node ∉ s.nodes j
  | .detach i (some node) => node ∈ s.nodes i
  | .pop i => (s.head i).isSome
  | .insert _ _ none | .detach _ none => False

instance [Fintype ι] (s : ListHeap ι α) : ∀ c, Decidable (s.Allowed c)
  | .init _ => isTrue trivial
  | .insert _ _ (some _) => inferInstanceAs (Decidable (_ ∧ (∀ p ∈ _, p ∈ _) ∧ _ ∧ ∀ _, _))
  | .detach _ (some _) => inferInstanceAs (Decidable (_ ∈ _))
  | .pop _ => inferInstanceAs (Decidable (_ = true))
  | .insert _ _ none | .detach _ none => isFalse id

/-- An insert gets a place in the list it goes to, and not the only node of a list; a detach gets a
node of the list. -/
def SparesSole (s : ListHeap ι α) : ListCall ι α → Prop
  | .insert i prev item => (∀ p ∈ prev, p ∈ s.nodes i) ∧ ∀ node ∈ item, ∀ j, s.nodes j ≠ [node]
  | .detach i item => ∀ node ∈ item, node ∈ s.nodes i
  | .init _ | .pop _ => True

instance [Fintype ι] (s : ListHeap ι α) : ∀ c, Decidable (s.SparesSole c)
  | .insert .. => inferInstanceAs (Decidable ((∀ p ∈ _, p ∈ _) ∧ ∀ node ∈ _, ∀ _, _ ≠ [node]))
  | .detach .. => inferInstanceAs (Decidable (∀ node ∈ _, node ∈ _))
  | .init _ | .pop _ => isTrue trivial

end ListHeap

/-! ### The sequences -/

/-- The sequence with a node placed right after another one. -/
def insertAfter (prev node : α) : List α → List α
  | [] => []
  | a :: rest => if a = prev then a :: node :: rest else a :: insertAfter prev node rest

/-- The sequence with a node placed right after `prev`, or in front. -/
def placeAfter (prev : Option α) (node : α) (nodes : List α) : List α :=
  match prev with
  | none => node :: nodes
  | some p => insertAfter p node nodes

/-- What a call is for: the sequences after it. -/
def ListCall.sequences (nodes : ι → List α) : ListCall ι α → ι → List α
  | .init i => update nodes i []
  | .insert i prev (some node) => update nodes i (placeAfter prev node (nodes i))
  | .detach i (some node) => update nodes i ((nodes i).erase node)
  | .pop i => update nodes i (nodes i).tail
  | .insert _ _ none | .detach _ none => nodes

/-- The node that a call returns. -/
def ListCall.returned (nodes : ι → List α) : ListCall ι α → Option α
  | .init _ => none
  | .insert _ _ item | .detach _ item => item
  | .pop i => (nodes i).head?

/-- The node that a call takes out of its list. -/
def ListCall.removed (nodes : ι → List α) : ListCall ι α → Option α
  | .init _ | .insert .. => none
  | .detach _ item => item
  | .pop i => (nodes i).head?

theorem insertAfter_append {prev : α} {front : List α} (hfront : prev ∉ front) (node : α)
    (back : List α) : insertAfter prev node (front ++ prev :: back) =
      front ++ prev :: node :: back := by
  induction front with
  | nil => exact if_pos rfl
  | cons a rest ih =>
    rw [List.mem_cons, not_or] at hfront
    rw [List.cons_append, insertAfter, if_neg (Ne.symm hfront.1), ih hfront.2]
    rfl

/-- A place in a sequence without repetitions cuts it in two. -/
theorem exists_place {prev : Option α} {nodes : List α} (hnodup : nodes.Nodup)
    (hprev : ∀ p ∈ prev, p ∈ nodes) (node : α) :
    ∃ front back, nodes = front ++ back ∧ prev = front.getLast? ∧
      placeAfter prev node nodes = front ++ node :: back := by
  cases prev with
  | none => exact ⟨[], nodes, rfl, rfl, rfl⟩
  | some p =>
    obtain ⟨front, back, rfl⟩ := List.append_of_mem (hprev p rfl)
    have hfront : p ∉ front := fun hmem ↦
      (List.nodup_append.mp hnodup).2.2 p hmem p List.mem_cons_self rfl
    refine ⟨front ++ [p], back, by simp, by simp, ?_⟩
    rw [placeAfter, insertAfter_append hfront, List.append_assoc, List.singleton_append]

/-! ### One call after the other -/

namespace ListHeap

variable {s t u : ListHeap ι α} {heads : ι → ListHead α} {sequences : ι → List α} {i j : ι}
  {node : α} {c : ListCall ι α}

omit [DecidableEq ι] [DecidableEq α] in
/-- A family that the heads show is the family of the sequences that are read off them. -/
theorem wellFormed_of_family (h : Family s.list s.headAt sequences) :
    s.WellFormed ∧ s.nodes = sequences := by
  have hnodes : s.nodes = sequences := funext fun i ↦ (h.represents i).toList_eq
  refine ⟨?_, hnodes⟩
  rw [WellFormed, hnodes]
  exact h

omit [DecidableEq ι] [DecidableEq α] in
/-- A heap whose heads were not initialised yet, the links of its nodes being what they are. -/
theorem wellFormed_uninitialised (list : Memory α) :
    (⟨list, fun _ ↦ none⟩ : ListHeap ι α).WellFormed ∧
      (⟨list, fun _ ↦ none⟩ : ListHeap ι α).nodes = fun _ ↦ [] :=
  wellFormed_of_family ⟨fun _ ↦ represents_empty list, fun _ _ _ h ↦ absurd h List.not_mem_nil⟩

omit [DecidableEq α] in
theorem headAt_put (s : ListHeap ι α) (i : ι) (r : ListResult α) :
    (s.put i r).1.headAt = update s.headAt i r.head := by
  funext j
  by_cases hij : j = i
  · subst hij
    simp [headAt, put]
  · simp [headAt, put, hij]

omit [DecidableEq α] in
/-- A call on head `i` that makes a family of the heads with the new one in place of the old one. -/
theorem put_wellFormed {r : ListResult α}
    (h : Family r.list (update s.headAt i r.head) sequences) :
    (s.put i r).1.WellFormed ∧ (s.put i r).1.nodes = sequences := by
  apply wellFormed_of_family
  rw [headAt_put]
  exact h

omit [DecidableEq ι] [DecidableEq α] in
theorem headAt_of_eq_some {head : ListHead α} (hhead : s.head i = some head) :
    s.headAt i = head := by
  rw [headAt, hhead]
  rfl

omit [DecidableEq ι] [DecidableEq α] in
/-- A head that was not initialised has no nodes. -/
theorem isSome_head_of_mem (hnode : node ∈ s.nodes i) : (s.head i).isSome := by
  by_contra hnone
  rw [Option.not_isSome_iff_eq_none] at hnone
  have hempty : s.nodes i = [] := by
    rw [nodes, headAt, hnone]
    exact (represents_empty s.list).toList_eq
  rw [hempty] at hnode
  exact List.not_mem_nil hnode

/-- A call that leaves the sequences as they have to be, takes a node out with null links and returns
what it has to. -/
structure Follows (s : ListHeap ι α) (c : ListCall ι α) (r : ListHeap ι α × Option α) : Prop where
  wellFormed : r.1.WellFormed
  nodes : r.1.nodes = c.sequences s.nodes
  returned : r.2 = c.returned s.nodes
  removed : ∀ node ∈ c.removed s.nodes, r.1.list node = Links.unlinked

theorem WellFormed.init (h : s.WellFormed) (i : ι) :
    ∃ r, s.call (.init i) = some r ∧ s.Follows (.init i) r := by
  have hclear : Family s.list (update s.headAt i listInit) (update s.nodes i []) :=
    Family.clear h i
  obtain ⟨hwellFormed, hnodes⟩ :=
    put_wellFormed (show Family (ListResult.mk s.list listInit none).list _ _ from hclear)
  refine ⟨_, rfl, hwellFormed, hnodes, rfl, ?_⟩
  exact fun _ hremoved ↦ absurd hremoved (Option.not_mem_none _)

/-- A node without links that is in no list is inserted. -/
theorem WellFormed.insert (h : s.WellFormed) (hhead : (s.head i).isSome) {prev : Option α}
    (hprev : ∀ p ∈ prev, p ∈ s.nodes i) (hunlinked : s.list node = Links.unlinked)
    (hnode : ∀ j, node ∉ s.nodes j) :
    ∃ r, s.call (.insert i prev (some node)) = some r ∧
      s.Follows (.insert i prev (some node)) r := by
  obtain ⟨head, hhead⟩ := Option.isSome_iff_exists.mp hhead
  obtain ⟨front, back, hi, rfl, hplace⟩ := exists_place (h.represents i).nodup hprev node
  have hfamily := Family.listInsert h hi hunlinked hnode
  have hrep := h.represents i
  rw [headAt_of_eq_some hhead] at hfamily hrep
  rw [hi] at hrep
  obtain ⟨hwellFormed, hnodes⟩ := put_wellFormed hfamily
  refine ⟨s.put i (listInsert s.list head front.getLast? (some node)), ?_, hwellFormed, ?_, ?_, ?_⟩
  · rw [call, hhead]
    rfl
  · rw [hnodes, ListCall.sequences, hplace]
  · rw [listInsert_eq_link hrep hunlinked (hi ▸ hnode i)]
    rfl
  · exact fun _ hremoved ↦ absurd hremoved (Option.not_mem_none _)

/-- A node of a list is detached. -/
theorem WellFormed.detach (h : s.WellFormed) (hnode : node ∈ s.nodes i) :
    ∃ r, s.call (.detach i (some node)) = some r ∧ s.Follows (.detach i (some node)) r := by
  obtain ⟨head, hhead⟩ := Option.isSome_iff_exists.mp (isSome_head_of_mem hnode)
  have hfamily := Family.listDetach h hnode
  rw [headAt_of_eq_some hhead] at hfamily
  obtain ⟨hwellFormed, hnodes⟩ := put_wellFormed hfamily
  refine ⟨s.put i (listDetach s.list head (some node)), ?_, hwellFormed, hnodes, rfl, ?_⟩
  · rw [call, hhead]
    rfl
  · intro a hremoved
    obtain rfl : node = a := Option.some.inj hremoved
    exact listDetach_list_self s.list head node

/-- The first node of a list is popped, if there is one. -/
theorem WellFormed.pop (h : s.WellFormed) (hhead : (s.head i).isSome) :
    ∃ r, s.call (.pop i) = some r ∧ s.Follows (.pop i) r := by
  obtain ⟨head, hhead⟩ := Option.isSome_iff_exists.mp hhead
  have hrep := h.represents i
  rw [headAt_of_eq_some hhead] at hrep
  cases hi : s.nodes i with
  | nil =>
    rw [hi] at hrep
    have hcall : s.call (.pop i) = some (s.put i ⟨s.list, head, none⟩) := by
      rw [call, hhead, Option.map_some, listPop_nil hrep]
    have hsame : Family s.list (update s.headAt i head) s.nodes := by
      rw [← headAt_of_eq_some hhead, Function.update_eq_self]
      exact h
    obtain ⟨hwellFormed, hnodes⟩ :=
      put_wellFormed (show Family (ListResult.mk s.list head none).list _ _ from hsame)
    refine ⟨_, hcall, hwellFormed, ?_, ?_, ?_⟩
    · rw [hnodes, ListCall.sequences, hi, List.tail_nil, ← hi, Function.update_eq_self]
    · rw [ListCall.returned, hi]
      rfl
    · rw [ListCall.removed, hi]
      exact fun _ hremoved ↦ absurd hremoved (Option.not_mem_none _)
  | cons first rest =>
    have hfirst : first ∈ s.nodes i := by
      rw [hi]
      exact List.mem_cons_self
    obtain ⟨r, hcall, hfollows⟩ := h.detach hfirst
    rw [hi] at hrep
    have hpop : s.call (.pop i) = s.call (.detach i (some first)) := by
      rw [call, call, hhead, Option.map_some, Option.map_some, listPop_cons hrep]
    refine ⟨r, hpop.trans hcall, hfollows.wellFormed, ?_, ?_, ?_⟩
    · rw [hfollows.nodes, ListCall.sequences, ListCall.sequences, hi, List.erase_cons_head,
        List.tail_cons]
    · rw [hfollows.returned, ListCall.returned, ListCall.returned, hi, List.head?_cons]
    · rw [ListCall.removed, hi, List.head?_cons]
      exact hfollows.removed

/-- Every allowed call follows the sequences. -/
theorem WellFormed.follows (h : s.WellFormed) (hallowed : s.Allowed c) :
    ∃ r, s.call c = some r ∧ s.Follows c r := by
  cases c with
  | init i => exact h.init i
  | insert i prev item =>
    cases item with
    | none => exact hallowed.elim
    | some node => exact h.insert hallowed.1 hallowed.2.1 hallowed.2.2.1 hallowed.2.2.2
  | detach i item =>
    cases item with
    | none => exact hallowed.elim
    | some node => exact h.detach hallowed
  | pop i => exact h.pop hallowed

omit [DecidableEq ι] in
/-- A search finds the nodes of its list and no others. -/
theorem WellFormed.listFind_eq (h : s.WellFormed) {head : ListHead α} (hhead : s.head i = some head)
    (a : α) {bound : ℕ} (hbound : (s.nodes i).length ≤ bound) :
    listFind bound s.list head (some a) = some (if a ∈ s.nodes i then some a else none) := by
  have hrep := h.represents i
  rw [headAt_of_eq_some hhead] at hrep
  rw [listFind, hrep.scan_terminates _ hbound]
  congr 1
  by_cases ha : a ∈ s.nodes i
  · rw [if_pos ha, List.find?_eq_some_iff_append]
    obtain ⟨front, back, hi⟩ := List.append_of_mem ha
    refine ⟨by simp, front, back, hi, fun b hb ↦ ?_⟩
    have hne : b ≠ a := by
      rintro rfl
      rw [hi] at hrep
      exact (List.nodup_append.mp hrep.nodup).2.2 b hb b List.mem_cons_self rfl
    simpa using hne
  · rw [if_neg ha, List.find?_eq_none]
    intro b hb
    have hne : b ≠ a := ne_of_mem_of_not_mem hb ha
    simpa using hne

/-- A run whose calls are allowed ends, and has followed the sequences. -/
theorem WellFormed.calls (h : s.WellFormed) {calls : List (ListCall ι α)}
    (hallowed : Runs.Meets step Allowed s calls) :
    ∃ t, Runs.run step s calls = some t ∧ t.WellFormed ∧
      t.nodes = calls.foldl ListCall.sequences s.nodes := by
  have hstep : ∀ sequences s (c : ListCall ι α), (WellFormed s ∧ s.nodes = sequences) →
      s.Allowed c → ∃ t, s.step c = some t ∧ t.WellFormed ∧ t.nodes = c.sequences sequences := by
    rintro _ s c ⟨h, rfl⟩ hallowed
    obtain ⟨r, hcall, hfollows⟩ := h.follows hallowed
    exact ⟨r.1, congrArg (Option.map Prod.fst) hcall, hfollows.wellFormed, hfollows.nodes⟩
  obtain ⟨t, hrun, hend⟩ := Runs.run_total hstep ⟨h, rfl⟩ hallowed
  rw [Runs.monitor_eq_foldl hrun] at hend
  exact ⟨t, hrun, hend⟩

/-! ### Nodes that are in a list already -/

omit [DecidableEq ι] [DecidableEq α] in
/-- A node of a list has no links exactly when it is alone there. -/
theorem WellFormed.unlinked_iff (h : s.WellFormed) (hnode : node ∈ s.nodes j) :
    s.list node = Links.unlinked ↔ s.nodes j = [node] :=
  (h.represents j).unlinked_iff hnode

/-- A node with a link is refused, and nothing changes. -/
theorem call_insert_refused (hhead : (s.head i).isSome) (prev : Option α)
    (hlinked : s.list node ≠ Links.unlinked) :
    s.call (.insert i prev (some node)) = some (s, none) := by
  obtain ⟨head, hhead⟩ := Option.isSome_iff_exists.mp hhead
  rw [call, hhead, Option.map_some, listInsert_refused hlinked, put, ← hhead,
    Function.update_eq_self]

/-- A node without links is accepted, wherever it is. -/
theorem call_insert_accepted (prev : Option α) (hunlinked : s.list node = Links.unlinked) :
    s.call (.insert i prev (some node)) ≠ some (s, none) := by
  intro hcall
  obtain ⟨head, -, hput⟩ := Option.map_eq_some_iff.mp hcall
  have hret : (listInsert s.list head prev (some node)).ret = none := congrArg Prod.snd hput
  simp [listInsert, hunlinked, Links.unlinked] at hret

/-- A call that inserts no node which is the only one of its list keeps the heads well formed. -/
theorem WellFormed.step (h : s.WellFormed) (hspares : s.SparesSole c) (hstep : s.step c = some t) :
    t.WellFormed := by
  obtain ⟨r, hcall, rfl⟩ := Option.map_eq_some_iff.mp hstep
  have hfollows : s.Allowed c → r.1.WellFormed := by
    intro hallowed
    obtain ⟨r', hcall', hfollows⟩ := h.follows hallowed
    obtain rfl : r' = r := Option.some.inj (hcall'.symm.trans hcall)
    exact hfollows.wellFormed
  cases c with
  | init i => exact hfollows trivial
  | insert i prev item =>
    have hhead : (s.head i).isSome := by
      obtain ⟨head, hhead, -⟩ := Option.map_eq_some_iff.mp hcall
      rw [hhead]
      rfl
    cases item with
    | none =>
      obtain ⟨head, hhead, rfl⟩ := Option.map_eq_some_iff.mp hcall
      rw [listInsert_null, put, ← hhead, Function.update_eq_self]
      exact h
    | some node =>
      by_cases hunlinked : s.list node = Links.unlinked
      · -- a node of a list would be alone in it
        refine hfollows ⟨hhead, hspares.1, hunlinked, fun j hmem ↦ ?_⟩
        exact hspares.2 node rfl j ((h.unlinked_iff hmem).mp hunlinked)
      · have hrefused := call_insert_refused hhead prev hunlinked
        obtain rfl : r = (s, none) := Option.some.inj (hcall.symm.trans hrefused)
        exact h
  | detach i item =>
    cases item with
    | none =>
      obtain ⟨head, hhead, rfl⟩ := Option.map_eq_some_iff.mp hcall
      rw [listDetach_null, put, ← hhead, Function.update_eq_self]
      exact h
    | some node => exact hfollows (hspares node rfl)
  | pop i =>
    apply hfollows
    obtain ⟨head, hhead, -⟩ := Option.map_eq_some_iff.mp hcall
    change (s.head i).isSome
    rw [hhead]
    rfl

end ListHeap

/-! ### Whole runs -/

/-- From well-formed heads, some of them perhaps not initialised yet, every run whose calls are
allowed ends, keeps the heads well formed and has done to the sequences what the calls are for. So
does the next allowed call, which also returns what it has to and clears the links of a node that it
takes out; and a search in a list finds its nodes and no others. -/
theorem listCalls_refine_sequences {s : ListHeap ι α} (h : s.WellFormed)
    {calls : List (ListCall ι α)}
    (hallowed : Runs.Meets ListHeap.step ListHeap.Allowed s calls) :
    ∃ t, Runs.run ListHeap.step s calls = some t ∧ t.WellFormed ∧
      t.nodes = calls.foldl ListCall.sequences s.nodes ∧
      (∀ c, t.Allowed c → ∃ r, t.call c = some r ∧ t.Follows c r) ∧
      ∀ i head, t.head i = some head → ∀ a bound, (t.nodes i).length ≤ bound →
        listFind bound t.list head (some a) = some (if a ∈ t.nodes i then some a else none) := by
  obtain ⟨t, hrun, hwellFormed, hnodes⟩ := h.calls hallowed
  refine ⟨t, hrun, hwellFormed, hnodes, ?_, ?_⟩
  · intro c hc
    exact hwellFormed.follows hc
  · intro i head hhead a bound hbound
    exact hwellFormed.listFind_eq hhead a hbound

/-- A node of a list is refused, with nothing changed, unless it is the only node of the list; and a
run that inserts no such node keeps the heads well formed, no node in two lists or in one twice. -/
theorem listInsert_refuses_iff {s : ListHeap ι α} (h : s.WellFormed) :
    (∀ i j node prev, (s.head i).isSome → node ∈ s.nodes j →
      (s.call (.insert i prev (some node)) = some (s, none) ↔ s.nodes j ≠ [node])) ∧
    ∀ calls t, Runs.Meets ListHeap.step ListHeap.SparesSole s calls →
      Runs.run ListHeap.step s calls = some t → t.WellFormed := by
  constructor
  · intro i j node prev hhead hnode
    rw [Ne, ← h.unlinked_iff hnode]
    constructor
    · intro hcall hunlinked
      exact ListHeap.call_insert_accepted prev hunlinked hcall
    · exact ListHeap.call_insert_refused hhead prev
  · intro calls t hspares hrun
    have hstep : ∀ (s : ListHeap ι α) c t, s.WellFormed → s.SparesSole c → s.step c = some t →
        t.WellFormed := fun _ _ _ h ↦ h.step
    exact Runs.run_invariant hstep h hspares hrun

end Calls

/-! ### Two lists -/

/-- Nodes without links, and two heads that were not initialised. -/
def freshNodes : ListHeap Bool Addr := ⟨fun _ ↦ Links.unlinked, fun _ ↦ none⟩

theorem freshNodes_wellFormed : freshNodes.WellFormed :=
  (ListHeap.wellFormed_uninitialised fun _ ↦ Links.unlinked).1

/-- Three nodes go into one list, two of them leave it again, one of these for the other list. -/
def moveNode : List (ListCall Bool Addr) :=
  [.init false, .insert false none (some 16), .insert false (some 16) (some 32),
    .insert false (some 16) (some 48), .detach false (some 48), .pop false, .init true,
    .insert true none (some 16)]

theorem listCalls_refine_sequences_moveNode :
    ∃ t, Runs.run ListHeap.step freshNodes moveNode = some t ∧ t.WellFormed ∧
      t.nodes false = [32] ∧ t.nodes true = [16] := by
  obtain ⟨t, hrun, hwellFormed, hnodes, -, -⟩ :=
    listCalls_refine_sequences freshNodes_wellFormed
      (show Runs.Meets ListHeap.step ListHeap.Allowed freshNodes moveNode by decide)
  refine ⟨t, hrun, hwellFormed, ?_, ?_⟩
  · rw [hnodes]
    decide
  · rw [hnodes]
    decide

/-- Two lists, the first with the nodes given. -/
def fillList (nodes : List Addr) : List (ListCall Bool Addr) :=
  [.init false, .init true] ++ nodes.map fun node ↦ .insert false none (some node)

/-- Of two neighbours neither is accepted by the other list before it has left its own. -/
theorem listInsert_refuses_iff_neighbours :
    ∃ s t, Runs.run ListHeap.step freshNodes (fillList [32, 16]) = some s ∧
      s.nodes false = [16, 32] ∧
      (s.call (.insert true none (some 16)) = some (s, none) ↔ s.nodes false ≠ [16]) ∧
      Runs.run ListHeap.step s
        [.insert true none (some 16), .detach false (some 16), .insert true none (some 16)] =
          some t ∧ t.WellFormed ∧ t.nodes false = [32] ∧ t.nodes true = [16] := by
  obtain ⟨s, hfill, hwellFormed, -⟩ := freshNodes_wellFormed.calls
    (show Runs.Meets ListHeap.step ListHeap.Allowed freshNodes (fillList [32, 16]) by decide)
  obtain rfl := Option.some.inj hfill
  obtain ⟨hrefuses, hkeeps⟩ := listInsert_refuses_iff hwellFormed
  refine ⟨_, _, rfl, ?_, ?_, rfl, ?_, ?_, ?_⟩
  · decide
  · exact hrefuses true false 16 none (by decide) (by decide)
  · exact hkeeps [.insert true none (some 16), .detach false (some 16),
      .insert true none (some 16)] _ (by decide) rfl
  · decide
  · decide

/-- The only node of a list is accepted by the other list, and is in both of them then. -/
theorem soleNode_accepted :
    ∃ s t, Runs.run ListHeap.step freshNodes (fillList [16]) = some s ∧ s.WellFormed ∧
      s.nodes false = [16] ∧ s.call (.insert true none (some 16)) = some (t, some 16) ∧
      t.nodes false = [16] ∧ t.nodes true = [16] := by
  obtain ⟨s, hfill, hwellFormed, -⟩ := freshNodes_wellFormed.calls
    (show Runs.Meets ListHeap.step ListHeap.Allowed freshNodes (fillList [16]) by decide)
  obtain rfl := Option.some.inj hfill
  refine ⟨_, _, rfl, hwellFormed, ?_, rfl, ?_, ?_⟩
  · decide
  · decide
  · decide

end DisastrOS
