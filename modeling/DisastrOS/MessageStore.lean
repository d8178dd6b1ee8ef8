import DisastrOS.Boot
import DisastrOS.Steps

/-!
# The store of the messages

`Stored layout k nodes` is the invariant of the message lists of all queues, of the two pools under
them, and of the strings: the lists are well formed and disjoint, their messages are handed out, a
message that is not handed out carries no links, and no two messages share a string. It holds in
every run, and `StoreStep` says once what a step can do to the store: nothing, or accept a message,
hand one over, free the messages of a queue, or set up a queue.

Nothing is ever returned to the two pools: `Message_free` releases the address of the field that
points to the string (`Stored.messageFree`).
-/

set_option autoImplicit false
set_option relaxedAutoImplicit false

namespace DisastrOS

open LinkedLists PoolAllocator
open Function (update)

namespace Kernel

variable {layout : Layout} {k k' : Kernel} {nodes : Addr → List Addr}

/-! ### The invariant -/

/-- The messages, their strings, and the message lists of the queues. -/
def store (k : Kernel) : Messages × MsgStrings × (Addr → ListHead Addr) :=
  (k.messages, k.msgStrings, k.queues.messages)

/-- The queues hold the messages `nodes`. -/
structure Stored (layout : Layout) (k : Kernel) (nodes : Addr → List Addr) : Prop where
  family : Family k.messages.list k.queues.messages nodes
  pool : k.messages.allocator.Ok
  stringPool : k.msgStrings.allocator.Ok
  samePool : SamePool layout.boot.messages.allocator k.messages.allocator
  sameStringPool : SamePool layout.boot.msgStrings.allocator k.msgStrings.allocator
  sameSize : k.messages.allocator.size = k.msgStrings.allocator.size
  allocated : ∀ q m, m ∈ nodes q → k.messages.allocator.Allocated m
  unlinked : ∀ m, ¬ k.messages.allocator.Allocated m → k.messages.list m = Links.unlinked
  string : ∀ m, k.messages.allocator.Allocated m →
    ∃ block, k.messages.message m = some block ∧ k.msgStrings.allocator.Allocated block
  string_inj : ∀ m m', k.messages.allocator.Allocated m → k.messages.allocator.Allocated m' →
    k.messages.message m = k.messages.message m' → m = m'

theorem Stored.congr (h : k.Stored layout nodes) (hstore : k'.store = k.store) :
    k'.Stored layout nodes := by
  obtain ⟨hmessages, hrest⟩ := Prod.mk.inj hstore
  obtain ⟨hstrings, hlists⟩ := Prod.mk.inj hrest
  constructor
  · rw [hmessages, hlists]
    exact h.family
  · rw [hmessages]
    exact h.pool
  · rw [hstrings]
    exact h.stringPool
  · rw [hmessages]
    exact h.samePool
  · rw [hstrings]
    exact h.sameStringPool
  · rw [hmessages, hstrings]
    exact h.sameSize
  · rw [hmessages]
    exact h.allocated
  · rw [hmessages]
    exact h.unlinked
  · rw [hmessages, hstrings]
    exact h.string
  · rw [hmessages]
    exact h.string_inj

/-! ### The parts of the handlers -/

/-- A field of a message and a string block are at different places, at an `int` distance. -/
private theorem field_apart {messages strings i : ℤ} (hi : 0 ≤ i) (hmax : i < 128 * 256)
    (happart : messages + 128 * 256 * (32 + 4) ≤ strings ∨ strings + 32768 * (128 + 4) ≤ messages)
    (hnear : |strings - messages| ≤ 2130706432) :
    (∀ j, 0 ≤ j → j < 32768 → messages + i * 32 + 16 ≠ strings + j * 128) ∧
      -2147483648 ≤ messages + i * 32 + 16 - strings ∧
      messages + i * 32 + 16 - strings ≤ 2147483647 := by
  have hdistance := abs_le.mp hnear
  exact ⟨fun j _ _ ↦ by omega, by omega, by omega⟩

/-- `Message_free` releases nothing. The address it hands to the pool of the strings lies among the
messages. -/
theorem Stored.messageFree (h : k.Stored layout nodes) {m : Addr}
    (hm : k.messages.allocator.Allocated m) : k.messageFree (some m) = k := by
  obtain ⟨i, hi, hmax, rfl⟩ := (h.samePool.isBlock m).mp hm.isBlock
  have hbuffer : k.msgStrings.allocator.buffer = layout.msgStringsBuffer := h.sameStringPool.buffer
  obtain ⟨hne, hlow, hhigh⟩ := field_apart hi hmax layout.messages_apart layout.messages_near
  have hnot : ¬ k.msgStrings.allocator.Allocated
      (layout.messageBuffer + i * sizeofMessage + messageField) := by
    intro hblock
    obtain ⟨j, hj, hjmax, heq⟩ := (h.sameStringPool.isBlock _).mp hblock.isBlock
    exact hne j hj hjmax heq
  obtain ⟨hfail, hsame⟩ := releaseBlock_rejected h.stringPool hnot (hbuffer ▸ hlow)
    (hbuffer ▸ hhigh)
  simp only [Layout.boot, freshPool, Kernel.messageFree, msgStringFree, Option.getD_some, hfail,
    if_false, hsame]

/-- The first message of a queue is taken out. -/
theorem Stored.popMessage (h : k.Stored layout nodes) {q m : Addr} {rest : List Addr}
    (hq : nodes q = m :: rest) :
    (k.popMessage q).1 = some m ∧ (k.popMessage q).2.Stored layout (update nodes q rest) := by
  have hrep : Represents k.messages.list (k.queues.messages q) (m :: rest) :=
    hq ▸ h.family.represents q
  have hmem : m ∈ nodes q := hq ▸ List.mem_cons_self
  have hdetach := h.family.listDetach hmem
  rw [hq, List.erase_cons_head] at hdetach
  simp only [Kernel.popMessage, listPop_cons hrep]
  refine ⟨rfl, ?_⟩
  exact
    { family := hdetach
      pool := h.pool
      stringPool := h.stringPool
      samePool := h.samePool
      sameStringPool := h.sameStringPool
      sameSize := h.sameSize
      allocated := fun q' m' hm' ↦ by
        by_cases hqq : q' = q
        · subst hqq
          rw [Function.update_self] at hm'
          exact h.allocated q' m' (hq ▸ List.mem_cons_of_mem _ hm')
        · rw [Function.update_of_ne hqq] at hm'
          exact h.allocated q' m' hm'
      unlinked := fun m' hm' ↦ by
        have hnot : m' ∉ nodes q := fun hin ↦ hm' (h.allocated q m' hin)
        exact (listDetach_list_of_notMem (h.family.represents q) hmem hnot).trans (h.unlinked m' hm')
      string := h.string
      string_inj := h.string_inj }

/-- The first loop of `Queue_free` takes messages out from the front. -/
theorem Stored.freeMessages (h : k.Stored layout nodes) {q : Addr} {bound : ℕ} {i : ℤ} (hi : 0 ≤ i)
    (hfree : freeMessages q bound i k = some k') :
    ∃ rest, rest <:+ nodes q ∧ k'.Stored layout (update nodes q rest) ∧
      k'.messages.allocator = k.messages.allocator ∧
      k'.msgStrings.allocator = k.msgStrings.allocator := by
  induction bound generalizing k nodes i with
  | zero =>
    rw [Kernel.freeMessages] at hfree
    split_ifs at hfree
    obtain rfl := Option.some.inj hfree
    exact ⟨nodes q, List.suffix_refl _, by rwa [Function.update_eq_self], rfl, rfl⟩
  | succ bound ih =>
    rw [Kernel.freeMessages] at hfree
    split_ifs at hfree with hsize
    · have hlength := (h.family.represents q).size
      cases hq : nodes q with
      | nil =>
        rw [hq, List.length_nil] at hlength
        omega
      | cons m rest =>
        obtain ⟨hm, h₁⟩ := h.popMessage hq
        have hallocated := h.allocated q m (hq ▸ List.mem_cons_self)
        have hfreed : (k.popMessage q).2.messageFree (k.popMessage q).1 = (k.popMessage q).2 := by
          rw [hm]
          exact h₁.messageFree hallocated
        simp only [hfreed] at hfree
        obtain ⟨rest', hsuffix, h', hpool, hstrings⟩ := ih h₁ (by omega) hfree
        rw [Function.update_self] at hsuffix
        rw [Function.update_idem] at h'
        exact ⟨rest', hsuffix.trans (List.suffix_cons m rest), h', hpool, hstrings⟩
    · obtain rfl := Option.some.inj hfree
      exact ⟨nodes q, List.suffix_refl _, by rwa [Function.update_eq_self], rfl, rfl⟩

/-- A queue is set up: its messages, if there are any, are in no list any more. -/
theorem Stored.clear (h : k.Stored layout nodes) (q : Addr)
    (hstore : k'.store = (k.messages, k.msgStrings, update k.queues.messages q listInit)) :
    k'.Stored layout (update nodes q []) := by
  have hcleared : { k with
      queues.messages := update k.queues.messages q listInit }.Stored layout (update nodes q []) :=
    { family := h.family.clear q
      pool := h.pool
      stringPool := h.stringPool
      samePool := h.samePool
      sameStringPool := h.sameStringPool
      sameSize := h.sameSize
      allocated := fun q' m hm ↦ by
        by_cases hqq : q' = q
        · subst hqq
          rw [Function.update_self] at hm
          exact absurd hm List.not_mem_nil
        · rw [Function.update_of_ne hqq] at hm
          exact h.allocated q' m hm
      unlinked := h.unlinked
      string := h.string
      string_inj := h.string_inj }
  exact hcleared.congr hstore

/-- A message for queue `q` is stored: a fresh message `m` with a fresh string `block`, to which the
bytes of the sender's buffer are copied. -/
structure Accepts (k : Kernel) (q : Addr) (msg : Option Addr) (m block : Addr) (k' : Kernel) :
    Prop where
  message_fresh : ¬ k.messages.allocator.Allocated m
  string_fresh : ¬ k.msgStrings.allocator.Allocated block
  string_isBlock : k.msgStrings.allocator.IsBlock block
  message : k'.messages.message = update k.messages.message m (some block)
  len : k'.messages.len = update k.messages.len m (k.queues.msgSize q)
  allocated : ∀ x, k'.messages.allocator.Allocated x ↔ x = m ∨ k.messages.allocator.Allocated x
  strings : ∀ x, k'.msgStrings.allocator.Allocated x ↔
    x = block ∨ k.msgStrings.allocator.Allocated x
  byte : k'.msgStrings.byte = copyBytes k.userBytes (msg.getD 0) k.msgStrings.byte block
    (k.queues.msgSize q).toNat
  buffer : msg = none → (k.queues.msgSize q).toNat = 0

theorem storeMessage_spec {msg : Option Addr} {m block : Addr}
    (hblock : k.messages.message m = some block) (hstore : k.storeMessage msg m = some k') :
    k'.msgStrings.byte = copyBytes k.userBytes (msg.getD 0) k.msgStrings.byte block
        (k.messages.len m).toNat ∧
      (msg = none → (k.messages.len m).toNat = 0) := by
  simp only [storeMessage, hblock] at hstore
  cases hturns : (k.messages.len m).toNat with
  | zero =>
    simp only [hturns, Option.some.injEq] at hstore
    rw [← hstore]
    exact ⟨rfl, fun _ ↦ rfl⟩
  | succ turns =>
    cases msg with
    | none => simp [hturns] at hstore
    | some a =>
      simp only [hturns] at hstore
      split_ifs at hstore
      rw [← Option.some.inj hstore]
      exact ⟨rfl, fun hnone ↦ absurd hnone (by simp)⟩

/-- A message is stored and goes to the end of the queue; or both pools are used up, and nothing is
stored. -/
theorem Stored.acceptMessage (h : k.Stored layout nodes) {p q : Addr} {msg : Option Addr}
    (haccept : k.acceptMessage p q msg = some k') :
    (∃ m block, k.Accepts q msg m block k' ∧ k'.Stored layout (update nodes q (nodes q ++ [m])) ∧
        k'.pcbs.syscallRetvalue p = 0) ∨
      k.messages.allocator.size = 0 ∧ k'.store = k.store ∧
        k'.pcbs.syscallRetvalue p = dsosNoMsgSent := by
  unfold Kernel.acceptMessage at haccept
  rcases hget : k.msgStrings.allocator.getBlock with ⟨_ | block, pool⟩ <;>
    rcases hgetMsg : k.messages.allocator.getBlock with ⟨_ | m, msgPool⟩ <;>
    simp only [msgStringAlloc, messageAlloc, hget, hgetMsg] at haccept
  · obtain ⟨-, hempty⟩ := h.pool.getBlock_none hgetMsg
    rw [← Option.some.inj haccept]
    exact Or.inr ⟨hempty, rfl, Function.update_self ..⟩
  · obtain ⟨-, hempty⟩ := h.stringPool.getBlock_none hget
    have hzero := h.pool.getBlock_eq_none_iff.mpr (h.sameSize.trans hempty)
    simp [hgetMsg] at hzero
  · obtain ⟨-, hempty⟩ := h.pool.getBlock_none hgetMsg
    have hzero := h.stringPool.getBlock_eq_none_iff.mpr (h.sameSize.symm.trans hempty)
    simp [hget] at hzero
  · obtain ⟨k₂, hstore, hk'⟩ := Option.bind_eq_some_iff.mp haccept
    have hframe := storeMessage_eq hstore
    obtain ⟨hok, hblock, hfree, hsize, hallocated⟩ := getBlock_some h.stringPool hget
    obtain ⟨hokMsg, -, hfreeMsg, hsizeMsg, hallocatedMsg⟩ := getBlock_some h.pool hgetMsg
    have hsame := getBlock_samePool k.msgStrings.allocator
    have hsameMsg := getBlock_samePool k.messages.allocator
    rw [hget] at hsame
    rw [hgetMsg] at hsameMsg
    have hnotMem : ∀ q', m ∉ nodes q' := fun q' hmem ↦ hfreeMsg (h.allocated q' m hmem)
    have hunlinked := h.unlinked m hfreeMsg
    have hold : ∀ x, k.messages.allocator.Allocated x →
        update k.messages.message m (some block) x = k.messages.message x := fun x hx ↦
      Function.update_of_ne (fun hxm : x = m ↦ hfreeMsg (hxm ▸ hx)) _ _
    -- a string of the store is not the fresh one
    have hne : ∀ x, k.messages.allocator.Allocated x → k.messages.message x ≠ some block := by
      intro x hx hsome
      obtain ⟨block', hblock', hb⟩ := h.string x hx
      exact hfree (Option.some.inj (hsome.symm.trans hblock') ▸ hb)
    refine Or.inl ⟨m, block, ?_, ?_, ?_⟩
    · obtain ⟨hbyte, hbuffer⟩ := storeMessage_spec (Function.update_self ..) hstore
      have hlen : update k.messages.len m (k.queues.msgSize q) m = k.queues.msgSize q :=
        Function.update_self ..
      rw [← Option.some.inj hk', hframe]
      exact
        { message_fresh := hfreeMsg
          string_fresh := hfree
          string_isBlock := hblock
          message := rfl
          len := rfl
          allocated := hallocatedMsg
          strings := hallocated
          byte := by rw [← hlen]; exact hbyte
          buffer := by rw [← hlen]; exact hbuffer }
    · rw [← Option.some.inj hk', hframe]
      exact
        { family := h.family.listInsert_last q hunlinked hnotMem
          pool := hokMsg
          stringPool := hok
          samePool := h.samePool.trans hsameMsg
          sameStringPool := h.sameStringPool.trans hsame
          sameSize := by
            change msgPool.size = pool.size
            rw [hsize, hsizeMsg, h.sameSize]
          allocated := fun q' x hx ↦ by
            refine (hallocatedMsg x).mpr ?_
            by_cases hqq : q' = q
            · subst hqq
              rw [Function.update_self, List.mem_append, List.mem_singleton] at hx
              exact hx.symm.imp_right (h.allocated q' x)
            · rw [Function.update_of_ne hqq] at hx
              exact Or.inr (h.allocated q' x hx)
          unlinked := fun x hx ↦ by
            have hx' : ¬ (x = m ∨ k.messages.allocator.Allocated x) := fun hor ↦
              hx ((hallocatedMsg x).mpr hor)
            rw [not_or] at hx'
            exact (listInsert_list_of_notMem (h.family.represents q) hunlinked (hnotMem q)
              (fun hmem ↦ hx'.2 (h.allocated q x hmem)) hx'.1).trans (h.unlinked x hx'.2)
          string := fun x hx ↦ by
            rcases (hallocatedMsg x).mp hx with rfl | hx
            · exact ⟨block, Function.update_self .., (hallocated block).mpr (Or.inl rfl)⟩
            · obtain ⟨block', hblock', hb⟩ := h.string x hx
              exact ⟨block', (hold x hx).trans hblock', (hallocated block').mpr (Or.inr hb)⟩
          string_inj := fun x y hx hy hxy ↦ by
            have hxy' : update k.messages.message m (some block) x =
                update k.messages.message m (some block) y := hxy
            rcases (hallocatedMsg x).mp hx with rfl | hx₁ <;>
              rcases (hallocatedMsg y).mp hy with rfl | hy₁
            · rfl
            · rw [Function.update_self, hold y hy₁] at hxy'
              exact absurd hxy'.symm (hne y hy₁)
            · rw [Function.update_self, hold x hx₁] at hxy'
              exact absurd hxy' (hne x hx₁)
            · rw [hold x hx₁, hold y hy₁] at hxy'
              exact h.string_inj x y hx₁ hy₁ hxy' }
    · rw [← Option.some.inj hk']
      exact Function.update_self ..

/-- A message is handed over: the first of the queue is copied to the receiver's buffer. It and its
string stay handed out. -/
structure Delivers (k : Kernel) (buffer m : Addr) (k' : Kernel) : Prop where
  messages : k'.messages.allocator = k.messages.allocator
  message : k'.messages.message = k.messages.message
  len : k'.messages.len = k.messages.len
  strings : k'.msgStrings = k.msgStrings
  userBytes : ∃ block, k.messages.message m = some block ∧
    k'.userBytes = copyBytes k.msgStrings.byte block k.userBytes buffer (k.messages.len m).toNat

theorem Stored.deliverMessage (h : k.Stored layout nodes) {p q buffer m : Addr} {k₁ : Kernel}
    (hpop : k.popMessage q = (some m, k₁)) (hdeliver : k₁.deliverMessage p buffer m = some k') :
    ∃ rest, nodes q = m :: rest ∧ k'.Stored layout (update nodes q rest) ∧
      k.Delivers buffer m k' ∧ k'.pcbs.syscallRetvalue p = 0 := by
  have hfirst := popMessage_eq_some hpop
  rw [(h.family.represents q).first] at hfirst
  obtain ⟨rest, hq⟩ : ∃ rest, nodes q = m :: rest := by
    cases hcases : nodes q with
    | nil => simp [hcases] at hfirst
    | cons m' rest => exact ⟨rest, by simpa [hcases] using hfirst⟩
  have hallocated := h.allocated q m (hq ▸ List.mem_cons_self)
  obtain ⟨-, h₁⟩ := h.popMessage hq
  have hk₁ : (k.popMessage q).2 = k₁ := by rw [hpop]
  obtain ⟨k₂, hload, hk'⟩ := Option.bind_eq_some_iff.mp hdeliver
  obtain ⟨block, hblock, -⟩ := h.string m hallocated
  have hloaded : k₂ = { k₁ with
      userBytes :=
        copyBytes k.msgStrings.byte block k.userBytes buffer (k.messages.len m).toNat } := by
    rw [← hk₁] at hload ⊢
    have hblock' : (k.popMessage q).2.messages.message m = some block := hblock
    have hlen : (k.popMessage q).2.messages.len m = k.messages.len m := rfl
    simp only [loadMessage, hblock', hlen] at hload
    cases hturns : (k.messages.len m).toNat with
    | zero =>
      rw [hturns] at hload
      exact (Option.some.inj hload).symm
    | succ turns =>
      rw [hturns] at hload
      exact (Option.some.inj hload).symm
  have h₂ : k₂.Stored layout (update nodes q rest) := by
    rw [hloaded, ← hk₁]
    exact h₁.congr rfl
  have hfreed : k₂.messageFree (some m) = k₂ := by
    refine h₂.messageFree ?_
    rw [hloaded, ← hk₁]
    exact hallocated
  rw [hfreed] at hk'
  refine ⟨rest, hq, ?_, ?_, ?_⟩
  · rw [← Option.some.inj hk']
    exact h₂.congr rfl
  · rw [← Option.some.inj hk', hloaded, ← hk₁]
    exact ⟨rfl, rfl, rfl, rfl, block, hblock, rfl⟩
  · rw [← Option.some.inj hk']
    exact Function.update_self ..

/-! ### What a step does to the store -/

/-- The capacities and the message sizes of the queues. -/
def attributes (k : Kernel) : (Addr → ℤ) × (Addr → ℤ) := (k.queues.maxMessages, k.queues.msgSize)

/-- The steps that touch the store or the attributes: a SEND on a queue that has room, a RECV that gets
a message, the destruction of a resource with its queue, the set-up of a queue for a resource that
has none, and the write of `dmq_setattr`. All others leave both alone. -/
inductive StoreStep (k : Kernel) (a : Action) (k' : Kernel) : Prop
  | same (hstore : k'.store = k.store) (hqueues : k'.queues.allocator = k.queues.allocator)
    (hattributes : k'.attributes = k.attributes) (hvalues : k'.resources.value = k.resources.value)
  | accept (p q fd : ℤ) (msg : Option Addr) (next : Context) (hrunning : k.running = some p)
    (hcalls : k.Calls p a (.sendMsg msg fd) next) (hqueue : k.queueByFd p fd = some (some q))
    (hroom : (k.queues.messages q).size < k.queues.maxMessages q)
    (haccept : (k.trap p next (.sendMsg msg fd)).acceptMessage p q msg = some k')
  | deliver (p q fd buffer m : ℤ) (next : Context) (k₁ : Kernel) (hrunning : k.running = some p)
    (hcalls : k.Calls p a (.recvMsg (some buffer) fd) next)
    (hqueue : k.queueByFd p fd = some (some q))
    (hpop : (k.trap p next (.recvMsg (some buffer) fd)).popMessage q = (some m, k₁))
    (hdeliver : k₁.deliverMessage p buffer m = some k')
  | free (p id res q : ℤ) (next : Context) (k₁ k₂ : Kernel) (hrunning : k.running = some p)
    (hcalls : k.Calls p a (.destroyResource id) next)
    (hfound : k.resourceById id = some (some res))
    (hunused : (k.resources.descriptorsPtrs res).size = 0) (hfreed : k.freedQueue res = some q)
    (hstore₁ : k₁.store = k.store) (hfree : freeMessages q walkBound 0 k₁ = some k₂)
    (hstore : k'.store = k₂.store)
    (hqueues : k'.queues.allocator = (k.queues.allocator.releaseBlock q).2)
    (hattributes : k'.attributes = k.attributes) (hvalues : k'.resources.value = k.resources.value)
  | init (p id fd res q : ℤ) (mode : BitVec 32) (next : Context) (pool : PoolAllocator)
    (hrunning : k.running = some p) (hcalls : k.Calls p a (.openQueue id fd mode) next)
    (hfound : k.resourceById id = some (some res)) (hvalue : k.resources.value res = none)
    (hget : k.queues.allocator.getBlock = (some q, pool)) (hqueues : k'.queues.allocator = pool)
    (hstore : k'.store = (k.messages, k.msgStrings, update k.queues.messages q listInit))
    (hattributes : k'.attributes = (update k.queues.maxMessages q maxNumMessagesPerQueue,
      update k.queues.msgSize q maxMessageSize))
    (hvalues : k'.resources.value = update k.resources.value res (some q))
  | write (p q attr newVal : ℤ) (haction : a = .statement) (hrunning : k.running = some p)
    (hcontext : k.pcbs.cpuState p = .setattrWrite q attr newVal) (hstore : k'.store = k.store)
    (hqueues : k'.queues.allocator = k.queues.allocator)
    (hattributes : k'.attributes = (k.writeAttribute q attr newVal).attributes)
    (hvalues : k'.resources.value = k.resources.value)

/-- A frame that shows the store, the pool of the queues and the attributes unchanged. -/
private theorem StoreStep.of_frame {a : Action} {k₁ : Kernel} (hframe : k' = k₁)
    (hstore : k₁.store = k.store) (hqueues : k₁.queues.allocator = k.queues.allocator)
    (hattributes : k₁.attributes = k.attributes)
    (hvalues : k₁.resources.value = k.resources.value) : k.StoreStep a k' :=
  .same ((congrArg store hframe).trans hstore) ((congrArg (·.queues.allocator) hframe).trans hqueues)
    ((congrArg attributes hframe).trans hattributes)
    ((congrArg (·.resources.value) hframe).trans hvalues)

theorem step_store {a : Action} (hshutdown : k.request a ≠ some .shutdown)
    (hstep : k.step a = some k') : k.StoreStep a k' := by
  obtain ⟨rfl, hstart⟩ | ⟨rfl, htimer⟩ | ⟨x, byte, rfl, -, rfl⟩ | ⟨c, p, ret, rfl, -, -, rfl⟩ |
    ⟨c, p, next, hp, hcalls, hcall⟩ | ⟨p, rfl, hp, -, hrun⟩ := step_cases hstep
  · obtain ⟨-, p, pool, -, rfl⟩ := startProcess_cases hstart
    exact .same rfl rfl rfl rfl
  · obtain ⟨p, hp, hschedule⟩ := Option.bind_eq_some_iff.mp htimer
    exact .of_frame (internalSchedule_eq hschedule) rfl rfl rfl rfl
  · exact .same rfl rfl rfl rfl
  · exact .same rfl rfl rfl rfl
  · have hrequest := hcalls.request hp
    cases c with
    | preempt => exact .of_frame (internalSchedule_eq hcall) rfl rfl rfl rfl
    | fork =>
      obtain ⟨⟨child, k₁⟩, hnew, hk'⟩ := Option.bind_eq_some_iff.mp hcall
      obtain ⟨_, _, _, _, -, -, -, -, rfl⟩ := newProcess_cases hnew
      rw [← Option.some.inj hk']
      exact .same rfl rfl rfl rfl
    | spawn =>
      obtain ⟨⟨child, k₁⟩, hnew, hk'⟩ := Option.bind_eq_some_iff.mp hcall
      obtain ⟨_, _, _, _, -, -, -, -, rfl⟩ := newProcess_cases hnew
      rw [← Option.some.inj hk']
      exact .same rfl rfl rfl rfl
    | wait pid result =>
      obtain ⟨p', -, ⟨-, rfl⟩ | ⟨_, -, -, ⟨x, -, -, rfl⟩ | ⟨-, ⟨-, rfl⟩ | ⟨-, -, rfl⟩⟩⟩⟩ :=
        internalWait_cases hcall <;> exact .same rfl rfl rfl rfl
    | exit value =>
      obtain ⟨p', k₁, parent, -, hzombie, -, ⟨-, hexit⟩ | ⟨-, hexit⟩⟩ := internalExit_cases hcall
      · have hframe := exitToParent_eq hexit
        rw [becomeZombie_eq hzombie] at hframe
        exact .of_frame hframe rfl rfl rfl rfl
      · have hframe := exitToReady_eq hexit
        rw [becomeZombie_eq hzombie] at hframe
        exact .of_frame hframe rfl rfl rfl rfl
    | sleep cycles =>
      obtain ⟨p', -, rfl | ⟨t, k₁, hadd, rfl⟩⟩ := internalSleep_cases hcall
      · exact .same rfl rfl rfl rfl
      · rw [timerListAdd_eq hadd]
        exact .same rfl rfl rfl rfl
    | openResource id type mode => exact .of_frame (internalOpenResource_eq hcall) rfl rfl rfl rfl
    | closeResource fd => exact .of_frame (internalCloseResource_eq hcall) rfl rfl rfl rfl
    | destroyResource id =>
      have hattributes : k'.attributes = k.attributes := by
        rw [attributes, internalDestroyResource_eq hcall]
        rfl
      have hvalues : k'.resources.value = k.resources.value := by
        rw [internalDestroyResource_eq hcall]
        rfl
      obtain ⟨p', found, -, hfound, ⟨err, -, rfl⟩ | ⟨res, k₁, rfl, hsize, hfree, -, -, rfl⟩⟩ :=
        internalDestroyResource_cases hcall
      · exact .same rfl rfl hattributes hvalues
      · obtain ⟨q, hq, hqueue⟩ | ⟨-, rfl⟩ := freeValue_cases hfree
        · obtain ⟨k₂, hmessages, h₁, h₂, h₃, h₄⟩ := queueFree_cases hqueue
          refine .free p id res q next
            ((k.trap p next (.destroyResource id)).detachResource (some res)) k₂ hp hcalls hfound hsize
            hq rfl hmessages ?_ h₄ hattributes hvalues
          change (k₁.messages, k₁.msgStrings, k₁.queues.messages) = _
          rw [h₁, h₂, h₃]
          rfl
        · exact .same rfl rfl hattributes hvalues
    | shutdown => exact absurd hrequest hshutdown
    | sendMsg msg fd =>
      obtain ⟨p', q, entries, hp', hqueue, -, ⟨hroom, haccept⟩ | ⟨-, hwait⟩⟩ :=
        internalSendMessage_cases hcall
      · obtain rfl : p = p' := Option.some.inj (hp.symm.trans hp')
        exact .accept p q fd msg next hp hcalls hqueue hroom haccept
      · obtain ⟨_, _, -, -, rfl⟩ := waitForQueue_eq hwait
        exact .same rfl rfl rfl rfl
    | recvMsg msg fd =>
      obtain ⟨p', entries, hp', -, ⟨-, rfl⟩ | ⟨buffer, q, rfl, hqueue,
        ⟨m, k₁, hpop, hdeliver⟩ | ⟨k₁, hpop, hwait⟩⟩⟩ := internalRecvMessage_cases hcall
      · exact .same rfl rfl rfl rfl
      · obtain rfl : p = p' := Option.some.inj (hp.symm.trans hp')
        exact .deliver p q fd buffer m next k₁ hp hcalls hqueue hpop hdeliver
      · obtain ⟨_, _, -, -, rfl⟩ := waitForQueue_eq hwait
        obtain ⟨-, rfl⟩ := popMessage_eq_none hpop
        exact .same rfl rfl rfl rfl
    | wakeupQueue check q users =>
      obtain ⟨p', -, ⟨_, _, -, -, rfl⟩ | ⟨-, rfl⟩⟩ := internalWakeUpQueue_cases hcall <;>
        exact .same rfl rfl rfl rfl
    | openQueue id fd mode =>
      obtain ⟨p', res, -, hfound, ⟨q, -, hjoin⟩ | ⟨hvalue, ⟨q, k₁, halloc, hjoin⟩ | ⟨-, hgive⟩⟩⟩ :=
        internalOpenQueue_cases hcall
      · exact .of_frame (joinQueue_eq hjoin) rfl rfl rfl rfl
      · rcases hget : k.queues.allocator.getBlock with ⟨_ | q', pool⟩
        · have hget' : (k.trap p next (.openQueue id fd mode)).queues.allocator.getBlock =
              (none, pool) := hget
          simp [queueAlloc, hget'] at halloc
        · have hget' : (k.trap p next (.openQueue id fd mode)).queues.allocator.getBlock =
              (some q', pool) := hget
          simp only [queueAlloc, hget', Prod.mk.injEq, Option.some.injEq] at halloc
          obtain ⟨rfl, rfl⟩ := halloc
          have hframe := joinQueue_eq hjoin
          exact .init p id fd res q' mode next pool hp hcalls hfound hvalue hget
            (congrArg (·.queues.allocator) hframe) (congrArg store hframe)
            (congrArg attributes hframe) (congrArg (·.resources.value) hframe)
      · obtain ⟨h₁, h₂, h₃, -⟩ := giveUpResource_store hfound hvalue hgive
        refine .same ?_ (by rw [h₃]; rfl) (by rw [attributes, h₃]; rfl)
          (by rw [giveUpResource_eq hgive]; rfl)
        rw [store, h₁, h₂, h₃]
        rfl
  · have hframe := runStatement_eq hrun
    have hstore : k'.store = k.store := (congrArg store hframe).trans rfl
    have hqueues : k'.queues.allocator = k.queues.allocator :=
      (congrArg (·.queues.allocator) hframe).trans rfl
    have hvalues : k'.resources.value = k.resources.value :=
      (congrArg (·.resources.value) hframe).trans rfl
    by_cases hwrite : ∃ q attr newVal, k.pcbs.cpuState p = .setattrWrite q attr newVal
    · obtain ⟨q, attr, newVal, hcontext⟩ := hwrite
      rw [hcontext] at hrun
      exact .write p q attr newVal rfl hp hcontext hstore hqueues
        (by rw [← Option.some.inj hrun]; rfl) hvalues
    · push Not at hwrite
      obtain ⟨hmax, hsize⟩ := runStatement_attributes hwrite hrun
      exact .same hstore hqueues (by rw [attributes, hmax, hsize, attributes]) hvalues

/-- Every step keeps the store in order. -/
theorem Stored.step {a : Action} (h : k.Stored layout nodes) (hshutdown : k.request a ≠ some .shutdown)
    (hstep : k.step a = some k') : ∃ nodes', k'.Stored layout nodes' := by
  cases step_store hshutdown hstep with
  | same hstore => exact ⟨nodes, h.congr hstore⟩
  | accept p q fd msg next _ _ _ _ haccept =>
    have htrap : (k.trap p next (.sendMsg msg fd)).Stored layout nodes := h.congr rfl
    obtain ⟨m, block, -, h', -⟩ | ⟨-, hstore, -⟩ := htrap.acceptMessage haccept
    · exact ⟨_, h'⟩
    · exact ⟨nodes, htrap.congr hstore⟩
  | deliver p q fd buffer m next k₁ _ _ _ hpop hdeliver =>
    have htrap : (k.trap p next (.recvMsg (some buffer) fd)).Stored layout nodes := h.congr rfl
    obtain ⟨rest, -, h', -⟩ := htrap.deliverMessage hpop hdeliver
    exact ⟨_, h'⟩
  | free p id res q next k₁ k₂ _ _ _ _ _ hstore₁ hfree hstore =>
    obtain ⟨rest, -, h', -⟩ := (h.congr hstore₁).freeMessages le_rfl hfree
    exact ⟨_, h'.congr hstore⟩
  | init p id fd res q mode next pool _ _ _ _ _ _ hstore => exact ⟨_, h.clear q hstore⟩
  | write p q attr newVal _ _ _ hstore => exact ⟨nodes, h.congr hstore⟩

/-! ### Capacities -/

/-- No capacity is above the limit, nor about to be set above it. -/
structure Capacities (k : Kernel) : Prop where
  max : ∀ q, k.queues.maxMessages q ≤ maxNumMessagesPerQueue
  pending : ∀ p q newVal, k.pcbs.cpuState p = .setattrWrite q attQueueMaxMessages newVal →
    newVal ≤ maxNumMessagesPerQueue
  noShutdown : k.NoShutdown

theorem Capacities.step {a : Action} (h : k.Capacities) (hshutdown : k.request a ≠ some .shutdown)
    (hstep : k.step a = some k') : k'.Capacities where
  noShutdown := h.noShutdown.step hshutdown hstep
  pending p := by
    refine (step_contexts h.noShutdown hshutdown hstep).forall_context
      (P := fun _ context ↦ ∀ q newVal, context = .setattrWrite q attQueueMaxMessages newVal →
        newVal ≤ maxNumMessagesPerQueue) h.pending (fun _ _ _ _ heq ↦ by simp at heq)
      (fun _ c _ _ heq ↦ by cases c <;> simp [DmqCall.entry] at heq)
      (fun p c next hrequest q newVal heq ↦ ?_) (fun p next hnext q newVal heq ↦ ?_) p
    · cases hcontext : k.pcbs.cpuState p <;> rw [hcontext] at hrequest <;>
        simp only [Context.request, Option.some.injEq, Prod.mk.injEq, reduceCtorEq] at hrequest <;>
        simp [← hrequest.2] at heq
    · -- the value has passed the check
      generalize k.pcbs.cpuState p = context at hnext
      cases hnext with
      | setattrCheck q' attr newVal' hvalid =>
        simp only [Context.setattrWrite.injEq] at heq
        obtain ⟨rfl, rfl, rfl⟩ := heq
        by_contra hbig
        have herror : k.setattrError q' attQueueMaxMessages newVal' = some invalidValue := by
          rw [setattrError, if_neg (by decide), if_pos rfl, if_pos (not_le.mp hbig)]
        exact absurd (herror.symm.trans hvalid) (by simp)
      | _ => simp at heq
  max q := by
    have hsame : k'.attributes = k.attributes →
        k'.queues.maxMessages q ≤ maxNumMessagesPerQueue := by
      intro hattributes
      rw [(Prod.mk.inj hattributes).1]
      exact h.max q
    cases step_store hshutdown hstep with
    | same _ _ hattributes _ => exact hsame hattributes
    | accept p q' fd msg next _ _ _ _ haccept =>
      exact hsame ((congrArg attributes (acceptMessage_eq haccept)).trans rfl)
    | deliver p q' fd buffer m next k₁ _ _ _ hpop hdeliver =>
      have hframe := deliverMessage_eq hdeliver
      rw [← (Prod.mk.inj hpop).2] at hframe
      exact hsame ((congrArg attributes hframe).trans rfl)
    | free p id res q' next k₁ k₂ _ _ _ _ _ _ _ _ _ hattributes _ => exact hsame hattributes
    | init p id fd res q' mode next pool _ _ _ _ _ _ _ hattributes _ =>
      rw [(Prod.mk.inj hattributes).1, Function.update_apply]
      split_ifs
      · exact le_rfl
      · exact h.max q
    | write p q' attr newVal _ _ hcontext _ _ hattributes _ =>
      rw [(Prod.mk.inj hattributes).1, writeAttribute]
      split_ifs with hattr
      · change update k.queues.maxMessages q' newVal q ≤ _
        rw [Function.update_apply]
        split_ifs
        · exact h.pending p q' newVal (hattr ▸ hcontext)
        · exact h.max q
      · exact h.max q

end Kernel

/-- At the start no queue holds a message. -/
theorem Layout.boot_stored (layout : Layout) : layout.boot.Stored layout fun _ ↦ [] := by
  have hmessages := freshPool_ok (by decide : 1 ≤ sizeofMessage) (by decide : 1 ≤ maxNumMessages)
    (by decide) layout.messageBuffer
  have hstrings := freshPool_ok (by decide : 1 ≤ maxMessageSize) (by decide : 1 ≤ maxNumStrings)
    (by decide) layout.msgStringsBuffer
  exact
    { family := ⟨fun _ ↦ represents_empty _, fun _ _ _ hm ↦ absurd hm List.not_mem_nil⟩
      pool := hmessages.1
      stringPool := hstrings.1
      samePool := SamePool.refl _
      sameStringPool := SamePool.refl _
      sameSize := rfl
      allocated := fun _ _ hm ↦ absurd hm List.not_mem_nil
      unlinked := fun _ _ ↦ rfl
      string := fun m hm ↦ absurd hm (hmessages.2 m)
      string_inj := fun m _ hm ↦ absurd hm (hmessages.2 m) }

theorem Layout.boot_capacities (layout : Layout) : layout.boot.Capacities where
  max _ := by simp [Layout.boot, maxNumMessagesPerQueue]
  pending _ _ _ hcontext := by simp [Layout.boot] at hcontext
  noShutdown _ := by simp [Layout.boot]

end DisastrOS
