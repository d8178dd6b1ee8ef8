import DisastrOS.StorageConservation
import DisastrOS.Termination

/-!
# Destroying a queue

`Queue_free` is meant to take every message and every user out of the lists of the queue and to free
each of them once, before it releases the queue. The three loops over the users do so. The loop over
the messages compares a counter that grows with a size that shrinks, and ends after half of the
messages (`freeMessages_exact`), so a queue is drained exactly when it holds one message at most
(`drains_iff`).
-/

set_option autoImplicit false
set_option relaxedAutoImplicit false

namespace DisastrOS

open LinkedLists
open Function (update)

variable {k k' : Kernel} {q : Addr} {messages : List Addr} {users : Role → List Addr}

namespace Kernel

/-! ### The messages -/

/-- A message is taken out of the queue and handed to `Message_free` once. -/
def releaseMessage (q : Addr) (k : Kernel) (m : Addr) : Kernel :=
  { k with
    messages.list := (listDetach k.messages.list (k.queues.messages q) (some m)).list
    queues.messages := update k.queues.messages q
      (listDetach k.messages.list (k.queues.messages q) (some m)).head }.messageFree (some m)

/-- What releasing a message leaves alone. -/
theorem releaseMessage_eq (q : Addr) (k : Kernel) (m : Addr) : k.releaseMessage q m =
    { k with
      msgStrings.allocator := (k.releaseMessage q m).msgStrings.allocator
      messages := { k.messages with
        allocator := (k.releaseMessage q m).messages.allocator
        list := (listDetach k.messages.list (k.queues.messages q) (some m)).list }
      queues.messages := update k.queues.messages q
        (listDetach k.messages.list (k.queues.messages q) (some m)).head } := by
  unfold releaseMessage
  rw [messageFree_eq]

theorem represents_releaseMessage {m : Addr} {rest : List Addr}
    (h : Represents k.messages.list (k.queues.messages q) (m :: rest)) :
    Represents (k.releaseMessage q m).messages.list ((k.releaseMessage q m).queues.messages q)
      rest := by
  have hdetached := h.listDetach List.mem_cons_self
  rw [List.erase_cons_head] at hdetached
  rw [releaseMessage_eq]
  simpa using hdetached

/-- Releasing the messages at the front of the queue leaves the others. -/
theorem represents_releaseMessages {front back : List Addr}
    (h : Represents k.messages.list (k.queues.messages q) (front ++ back)) :
    Represents (front.foldl (releaseMessage q) k).messages.list
      ((front.foldl (releaseMessage q) k).queues.messages q) back := by
  induction front generalizing k with
  | nil => exact h
  | cons m front ih => exact ih (represents_releaseMessage h)

/-- The first loop of `Queue_free` releases the first half of the messages, rounded up. -/
theorem freeMessages_exact {bound i : ℕ}
    (h : Represents k.messages.list (k.queues.messages q) messages)
    (hbound : messages.length ≤ bound + i) : freeMessages q bound i k =
      some ((messages.take ((messages.length - i + 1) / 2)).foldl (releaseMessage q) k) := by
  induction bound generalizing k messages i with
  | zero =>
    have hnone : (messages.length - i + 1) / 2 = 0 := by omega
    have hsize := h.size
    rw [freeMessages, if_neg (by omega), hnone, List.take_zero, List.foldl_nil]
  | succ bound ih =>
    have hsize := h.size
    by_cases hmore : i < messages.length
    · cases messages with
      | nil => simp at hmore
      | cons m rest =>
        have hpop : k.popMessage q = (some m, { k with
            messages.list := (listDetach k.messages.list (k.queues.messages q) (some m)).list
            queues.messages := update k.queues.messages q
              (listDetach k.messages.list (k.queues.messages q) (some m)).head }) := by
          rw [popMessage, listPop_cons h]
          rfl
        have hcount : ((m :: rest).length - i + 1) / 2 = (rest.length - (i + 1) + 1) / 2 + 1 := by
          simp only [List.length_cons] at hmore ⊢
          omega
        have hrest := ih (i := i + 1) (represents_releaseMessage h)
          (by simp only [List.length_cons] at hbound; omega)
        rw [freeMessages, if_pos (by omega), hpop, hcount, List.take_succ_cons, List.foldl_cons]
        exact_mod_cast hrest
    · have hnone : (messages.length - i + 1) / 2 = 0 := by omega
      rw [freeMessages, if_neg (by omega), hnone, List.take_zero, List.foldl_nil]

theorem releaseMessages_eq (q : Addr) (k : Kernel) (messages : List Addr) :
    messages.foldl (releaseMessage q) k =
      { k with
        msgStrings.allocator := (messages.foldl (releaseMessage q) k).msgStrings.allocator
        messages := { k.messages with
          allocator := (messages.foldl (releaseMessage q) k).messages.allocator
          list := (messages.foldl (releaseMessage q) k).messages.list }
        queues.messages := (messages.foldl (releaseMessage q) k).queues.messages } := by
  induction messages generalizing k with
  | nil => rfl
  | cons m rest ih =>
    have hrest := ih (k.releaseMessage q m)
    rw [List.foldl_cons]
    calc _ = _ := hrest
      _ = _ := by rw [releaseMessage_eq]

/-! ### The users -/

/-- A user is taken out of its list and handed to `QueueUser_free` once. -/
def releaseUser (users : Addr × Role) (k : Kernel) (u : Addr) : Kernel :=
  (k.detachUser users (some u)).queueUserFree (some u)

/-- The lists of the users of the queue `q` show the sequences. -/
def UsersListed (k : Kernel) (q : Addr) (users : Role → List Addr) : Prop :=
  Family k.queueUsers.list (fun role ↦ k.queues.users (q, role)) users

theorem UsersListed.releaseUser {role : Role} {u : Addr} {rest : List Addr}
    (h : k.UsersListed q users) (hcons : users role = u :: rest) :
    (k.releaseUser (q, role) u).UsersListed q (update users role rest) := by
  have hdetached := h.listDetach (hcons ▸ List.mem_cons_self : u ∈ users role)
  rw [hcons, List.erase_cons_head] at hdetached
  have hheads : (fun role' ↦ (k.releaseUser (q, role) u).queues.users (q, role')) =
      update (fun role' ↦ k.queues.users (q, role')) role
        (listDetach k.queueUsers.list (k.queues.users (q, role)) (some u)).head :=
    Function.update_comp_eq_of_injective k.queues.users (Prod.mk_right_injective q) role _
  unfold UsersListed
  rw [hheads]
  exact hdetached

/-- One of the three loops over the users releases all users of its list. -/
theorem freeUsers_exact (role : Role) {bound : ℕ} (h : k.UsersListed q users)
    (hbound : (users role).length ≤ bound) :
    freeUsers (q, role) bound k = some ((users role).foldl (Kernel.releaseUser (q, role)) k) ∧
      ((users role).foldl (Kernel.releaseUser (q, role)) k).UsersListed q
        (update users role []) := by
  have hfirst : (k.queues.users (q, role)).first = (users role).head? :=
    (h.represents role).first
  induction bound generalizing k users with
  | zero =>
    have hnil := List.length_eq_zero_iff.mp (Nat.le_zero.mp hbound)
    rw [freeUsers, hfirst, hnil, List.foldl_nil, ← hnil, Function.update_eq_self]
    exact ⟨by simp [hnil], h⟩
  | succ bound ih =>
    rw [freeUsers, hfirst]
    cases hcons : users role with
    | nil =>
      refine ⟨rfl, ?_⟩
      rw [List.foldl_nil, ← hcons, Function.update_eq_self]
      exact h
    | cons u rest =>
      have hturn := h.releaseUser hcons
      have hself : update users role rest role = rest := Function.update_self ..
      have hlength : rest.length ≤ bound := by
        rw [hcons] at hbound
        exact Nat.le_of_succ_le_succ hbound
      have hrest := ih hturn (by rwa [hself]) (hturn.represents role).first
      rw [hself, Function.update_idem] at hrest
      exact hrest

theorem releaseUsers_eq (i : Addr × Role) (k : Kernel) (us : List Addr) :
    us.foldl (releaseUser i) k =
      { k with
        queueUsers := { k.queueUsers with
          allocator := us.foldl (fun pool u ↦ (pool.releaseBlock u).2) k.queueUsers.allocator
          list := (us.foldl (releaseUser i) k).queueUsers.list }
        queues.users := (us.foldl (releaseUser i) k).queues.users } := by
  induction us generalizing k with
  | nil => rfl
  | cons u rest ih => exact ih (k.releaseUser i u)

theorem releaseUsers_messages (i : Addr × Role) (k : Kernel) (us : List Addr) :
    (us.foldl (releaseUser i) k).messages = k.messages := by
  rw [releaseUsers_eq]

theorem releaseUsers_queueMessages (i : Addr × Role) (k : Kernel) (us : List Addr) :
    (us.foldl (releaseUser i) k).queues.messages = k.queues.messages := by
  rw [releaseUsers_eq]

/-! ### The queue -/

/-- The kernel after every message of the queue was released once, then every reader, every writer
and every non-blocking user, and at last the block of the queue. -/
def drained (k : Kernel) (q : Addr) (messages : List Addr) (users : Role → List Addr) : Kernel :=
  let k := messages.foldl (releaseMessage q) k
  let k := (users .reader).foldl (releaseUser (q, .reader)) k
  let k := (users .writer).foldl (releaseUser (q, .writer)) k
  let k := (users .nonBlock).foldl (releaseUser (q, .nonBlock)) k
  { k with queues.allocator := (k.queues.allocator.releaseBlock q).2 }

/-- `Queue_free` ends, has released every message and every user once, and leaves the four lists
empty. -/
structure Drains (k : Kernel) (q : Addr) (messages : List Addr) (users : Role → List Addr) : Prop
    where
  frees : k.queueFree q = some (k.drained q messages users)
  noMessages : Represents (k.drained q messages users).messages.list
    ((k.drained q messages users).queues.messages q) []
  noUsers : (k.drained q messages users).UsersListed q fun _ ↦ []

/-- `Queue_free` ends; it has released the first half of the messages, and every user. -/
theorem queueFree_exact (h : Represents k.messages.list (k.queues.messages q) messages)
    (hlength : messages.length ≤ walkBound) (husers : k.UsersListed q users)
    (huserLength : ∀ role, (users role).length ≤ walkBound) :
    k.queueFree q = some (k.drained q (messages.take ((messages.length + 1) / 2)) users) ∧
      (k.drained q (messages.take ((messages.length + 1) / 2)) users).UsersListed q fun _ ↦ [] := by
  have hmessages := freeMessages_exact (i := 0) h (by omega : messages.length ≤ walkBound + 0)
  set k₁ := (messages.take ((messages.length + 1) / 2)).foldl (releaseMessage q) k with hk₁
  have husers₁ : k₁.UsersListed q users := by
    rw [hk₁, releaseMessages_eq]
    exact husers
  obtain ⟨hreaders, husers₂⟩ := freeUsers_exact .reader husers₁ (huserLength .reader)
  obtain ⟨hwriters, husers₃⟩ := freeUsers_exact .writer husers₂ (huserLength .writer)
  obtain ⟨hnonBlock, husers₄⟩ := freeUsers_exact .nonBlock husers₃ (huserLength .nonBlock)
  have hnone : update (update (update users .reader []) .writer []) .nonBlock [] = fun _ ↦ [] := by
    funext role
    cases role <;> rfl
  rw [hnone] at husers₄
  constructor
  · unfold queueFree
    refine Option.bind_eq_some_iff.mpr ⟨k₁, hmessages, ?_⟩
    refine Option.bind_eq_some_iff.mpr ⟨_, hreaders, ?_⟩
    refine Option.bind_eq_some_iff.mpr ⟨_, hwriters, ?_⟩
    exact Option.bind_eq_some_iff.mpr ⟨_, hnonBlock, rfl⟩
  · exact husers₄

/-- The messages that the loop has not come to are still in the list of the queue. -/
theorem represents_drained {front back : List Addr} (users : Role → List Addr)
    (h : Represents k.messages.list (k.queues.messages q) (front ++ back)) :
    Represents (k.drained q front users).messages.list
      ((k.drained q front users).queues.messages q) back := by
  have hreleased := represents_releaseMessages h
  simp only [drained, releaseUsers_messages, releaseUsers_queueMessages]
  exact hreleased

end Kernel

/-- `Queue_free` drains the queue exactly when it holds one message at most. -/
theorem drains_iff (h : Represents k.messages.list (k.queues.messages q) messages)
    (hpool : k.messages.allocator.Ok) (hmax : k.messages.allocator.sizeMax = maxNumMessages)
    (hallocated : ∀ m ∈ messages, k.messages.allocator.Allocated m)
    (husers : k.UsersListed q users) (huserPool : k.queueUsers.allocator.Ok)
    (huserMax : k.queueUsers.allocator.sizeMax = maxNumProcesses)
    (huserAllocated : ∀ role, ∀ u ∈ users role, k.queueUsers.allocator.Allocated u) :
    k.Drains q messages users ↔ messages.length ≤ 1 := by
  have hlength : messages.length ≤ walkBound :=
    Kernel.length_le_of_sizeMax hpool (by rw [hmax]; decide) (by rw [hmax]; decide) h.nodup
      hallocated
  have huserLength : ∀ role, (users role).length ≤ walkBound := fun role ↦
    Kernel.length_le_walkBound huserPool huserMax (husers.represents role).nodup
      (huserAllocated role)
  obtain ⟨hfree, hnoUsers⟩ := Kernel.queueFree_exact h hlength husers huserLength
  constructor
  · intro hdrains
    have hsplit : Represents k.messages.list (k.queues.messages q)
        (messages.take ((messages.length + 1) / 2) ++
          messages.drop ((messages.length + 1) / 2)) := by
      rwa [List.take_append_drop]
    have hleft := (Kernel.represents_drained users hsplit).size
    have hnone := hdrains.noMessages.size
    rw [← Option.some.inj (hfree.symm.trans hdrains.frees)] at hnone
    rw [hnone, List.length_nil, List.length_drop] at hleft
    omega
  · intro hone
    have hall : messages.take ((messages.length + 1) / 2) = messages :=
      List.take_of_length_le (by omega)
    rw [hall] at hfree hnoUsers
    exact ⟨hfree, Kernel.represents_drained users (by simpa using h), hnoUsers⟩

/-- A queue that holds one message and has one reader. -/
def oneOfEach : Kernel :=
  { sampleLayout.boot with
    messages.allocator := sampleLayout.boot.messages.allocator.getBlock.2
    queues := { sampleLayout.boot.queues with
      messages := update sampleLayout.boot.queues.messages 0x1900000
        ⟨some 0x2000000, some 0x2000000, 1⟩
      users := update sampleLayout.boot.queues.users (0x1900000, .reader)
        ⟨some 0x1F00000, some 0x1F00000, 1⟩ }
    queueUsers.allocator := sampleLayout.boot.queueUsers.allocator.getBlock.2 }

/-- The users of that queue. -/
def oneReader : Role → List Addr := update (fun _ ↦ []) .reader [0x1F00000]

theorem drains_iff_oneOfEach : oneOfEach.Drains 0x1900000 [0x2000000] oneReader := by
  have hmessages := freshPool_ok (by decide : 1 ≤ sizeofMessage) (by decide : 1 ≤ maxNumMessages)
    (by decide) sampleLayout.messageBuffer
  have husers := freshPool_ok (by decide : 1 ≤ sizeofQueueUser) (by decide : 1 ≤ maxNumProcesses)
    (by decide) sampleLayout.queueUsersBuffer
  have hgetMessage : sampleLayout.boot.messages.allocator.getBlock =
      (some 0x2000000, oneOfEach.messages.allocator) := rfl
  have hgetUser : sampleLayout.boot.queueUsers.allocator.getBlock =
      (some 0x1F00000, oneOfEach.queueUsers.allocator) := rfl
  obtain ⟨hpool, -, -, -, hallocated⟩ := PoolAllocator.getBlock_some hmessages.1 hgetMessage
  obtain ⟨huserPool, -, -, -, huserAllocated⟩ := PoolAllocator.getBlock_some husers.1 hgetUser
  have hlisted : oneOfEach.UsersListed 0x1900000 oneReader := by
    constructor
    · intro role
      cases role <;> decide +kernel
    · intro role role' u hu hu'
      cases role <;> cases role' <;> simp_all [oneReader]
  refine (drains_iff (by decide +kernel) hpool rfl (by simp [hallocated]) hlisted huserPool rfl
    ?_).mpr (by simp)
  intro role u hu
  cases role <;> simp_all [oneReader]

/-- The users of the queue after `twoSends`. -/
def readerAndWriter : Role → List Addr
  | .reader => [0x1F00000]
  | .writer => [0x1F00018]
  | .nonBlock => []

/-- One of the two messages stays in the queue. -/
theorem twoSends_not_drains : ∃ k,
    Runs.run Kernel.step sampleLayout.boot twoSends = some k ∧
      Represents k.messages.list (k.queues.messages 0x1900000) [0x2000000, 0x2000020] ∧
      k.UsersListed 0x1900000 readerAndWriter ∧
      ¬ k.Drains 0x1900000 [0x2000000, 0x2000020] readerAndWriter := by
  have hends : ((Runs.run Kernel.step sampleLayout.boot twoSends).any fun k ↦
      Represents k.messages.list (k.queues.messages 0x1900000) [0x2000000, 0x2000020] ∧
      Represents k.queueUsers.list (k.queues.users (0x1900000, .reader)) [0x1F00000] ∧
      Represents k.queueUsers.list (k.queues.users (0x1900000, .writer)) [0x1F00018] ∧
      Represents k.queueUsers.list (k.queues.users (0x1900000, .nonBlock)) [] ∧
      (k.queueFree 0x1900000).map (fun k' ↦ (k'.queues.messages 0x1900000).size) = some 1) =
        true := by decide +kernel
  obtain ⟨k, hrun, hk⟩ := (Option.any_eq_true _ _).mp hends
  obtain ⟨hmessages, hreaders, hwriters, hnonBlock, hleft⟩ := of_decide_eq_true hk
  refine ⟨k, hrun, hmessages, ?_, ?_⟩
  · constructor
    · intro role
      cases role
      · exact hreaders
      · exact hwriters
      · exact hnonBlock
    · intro role role' u hu hu'
      cases role <;> cases role' <;> simp_all [readerAndWriter]
  · intro hdrains
    rw [hdrains.frees, Option.map_some, hdrains.noMessages.size] at hleft
    exact absurd hleft (by decide)

end DisastrOS
