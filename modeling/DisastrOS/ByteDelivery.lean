import DisastrOS.AttributeRange

/-!
# What a message delivers

A SEND does not look at the length that its caller gave: its copy loop goes on to the message size of
the queue, and stops after the first NUL. `byteExact_iff` says when this is the same: the `n` bytes of a
`dmq_send` are read, no others, and arrive in the buffer of the receiver, if and only if there is no NUL
among them before the last, and the last is a NUL or the message fills the whole size.
-/

set_option autoImplicit false
set_option relaxedAutoImplicit false

namespace DisastrOS

open LinkedLists PoolAllocator
open Function (update)

/-! ### The copy loops -/

variable {source source' memory : Addr → UInt8} {src dst : Addr} {turns : ℕ}

/-- Two memories have the same bytes from `src` on, `n` of them. -/
def AgreeOn (source' source : Addr → UInt8) (src n : ℤ) : Prop :=
  ∀ i, 0 ≤ i → i < n → source' (src + i) = source (src + i)

theorem AgreeOn.next {n : ℤ} (h : AgreeOn source' source src n) :
    AgreeOn source' source (src + 1) (n - 1) := by
  intro i hi hlt
  have hbyte := h (1 + i) (by omega) (by omega)
  rwa [← add_assoc] at hbyte

/-- The copy loop depends on the bytes that it takes. -/
theorem copyBytes_congr {n : ℤ} (h : AgreeOn source' source src n)
    (hlength : copyLength source src turns ≤ n) :
    copyLength source' src turns = copyLength source src turns ∧
      copyBytes source' src memory dst turns = copyBytes source src memory dst turns := by
  induction turns generalizing src dst memory n with
  | zero => exact ⟨rfl, rfl⟩
  | succ turns ih =>
    have hpos : 0 < n := by
      rw [copyLength] at hlength
      split_ifs at hlength <;> omega
    have hfirst : source' src = source src := by
      have hzero := h 0 le_rfl hpos
      rwa [add_zero] at hzero
    rw [copyLength, copyLength, copyBytes, copyBytes, hfirst]
    rw [copyLength] at hlength
    split_ifs at hlength ⊢ with hnul
    · exact ⟨rfl, rfl⟩
    · obtain ⟨hsame, hbytes⟩ := ih h.next (by omega)
      exact ⟨by rw [hsame], hbytes⟩

/-- The bytes that the copy loop has taken, in their places. -/
theorem copyBytes_apply {i : ℤ} (hi : 0 ≤ i) (hlt : i < copyLength source src turns) :
    copyBytes source src memory dst turns (dst + i) = source (src + i) := by
  induction turns generalizing src dst memory i with
  | zero =>
    rw [copyLength] at hlt
    omega
  | succ turns ih =>
    rw [copyLength] at hlt
    rw [copyBytes]
    split_ifs at hlt ⊢ with hnul
    · obtain rfl : i = 0 := by omega
      rw [add_zero, add_zero, Function.update_self]
    · rcases hi.eq_or_lt with rfl | hpos
      · rw [add_zero, add_zero, copyBytes_of_outside (Or.inl (by lia)), Function.update_self]
      · have hrest : copyBytes source (src + 1) (update memory dst (source src)) (dst + 1) turns
            (dst + 1 + (i - 1)) = source (src + 1 + (i - 1)) := ih (by omega) (by omega)
        rwa [add_assoc, add_assoc, add_sub_cancel] at hrest

/-- There is no NUL before the last of the bytes that are taken. -/
theorem ne_zero_of_lt_copyLength {i : ℤ} (hi : 0 ≤ i) (hlt : i + 1 < copyLength source src turns) :
    source (src + i) ≠ 0 := by
  induction turns generalizing src i with
  | zero =>
    rw [copyLength] at hlt
    omega
  | succ turns ih =>
    rw [copyLength] at hlt
    split_ifs at hlt with hnul
    · omega
    · rcases hi.eq_or_lt with rfl | hpos
      · rwa [add_zero]
      · have hrest : source (src + 1 + (i - 1)) ≠ 0 := ih (by omega) (by omega)
        rwa [add_assoc, add_sub_cancel] at hrest

/-- The last byte that is taken is a NUL, or the loop has made all its turns. -/
theorem eq_zero_of_copyLength (hlt : copyLength source src turns < turns) :
    0 < copyLength source src turns ∧
      source (src + (copyLength source src turns - 1 : ℤ)) = 0 := by
  induction turns generalizing src with
  | zero => exact absurd hlt (Nat.not_lt_zero _)
  | succ turns ih =>
    rw [copyLength] at hlt ⊢
    split_ifs at hlt ⊢ with hnul
    · refine ⟨Nat.one_pos, ?_⟩
      simpa using hnul
    · have hturns : copyLength source (src + 1) turns < turns := by omega
      obtain ⟨hpos, hlast⟩ := ih hturns
      refine ⟨Nat.succ_pos _, ?_⟩
      push_cast
      rw [add_assoc] at hlast
      rwa [show (1 : ℤ) + (copyLength source (src + 1) turns - 1) =
        copyLength source (src + 1) turns + 1 - 1 by ring] at hlast

/-- The loop takes the `n` bytes of a message, no more and no fewer: none of them but the last is a
NUL, and the last is one unless the message fills the whole size. -/
def FillsMessage (source : Addr → UInt8) (src n size : ℤ) : Prop :=
  (∀ i, 0 ≤ i → i < n - 1 → source (src + i) ≠ 0) ∧
    (n = size ∨ 0 < n ∧ source (src + (n - 1)) = 0)

theorem copyLength_eq_iff {n size : ℤ} (hn : 0 ≤ n) (hsize : n ≤ size) :
    (copyLength source src size.toNat : ℤ) = n ↔ FillsMessage source src n size := by
  have hle := copyLength_le source src size.toNat
  constructor
  · intro heq
    constructor
    · intro i hi hlt
      exact ne_zero_of_lt_copyLength hi (by rw [heq]; omega)
    · by_cases hfull : n = size
      · exact Or.inl hfull
      · have hstops : copyLength source src size.toNat < size.toNat := by omega
        obtain ⟨hpos, hlast⟩ := eq_zero_of_copyLength hstops
        rw [heq] at hlast
        exact Or.inr ⟨by omega, hlast⟩
  · rintro ⟨hinner, hend⟩
    rcases lt_trichotomy (copyLength source src size.toNat : ℤ) n with hlt | heq | hgt
    · -- the loop has stopped early, at a NUL among the bytes
      have hstops : copyLength source src size.toNat < size.toNat := by omega
      obtain ⟨hpos, hlast⟩ := eq_zero_of_copyLength hstops
      exact absurd hlast (hinner _ (by omega) (by omega))
    · exact heq
    · obtain rfl | ⟨hpos, hlast⟩ := hend
      · omega
      · have hbefore : n - 1 + 1 < copyLength source src size.toNat := by omega
        exact absurd hlast (ne_zero_of_lt_copyLength (by omega) hbefore)

theorem copied_length (source : Addr → UInt8) (src : Addr) (turns : ℕ) :
    (copied source src turns).length = copyLength source src turns := by
  induction turns generalizing src with
  | zero => rfl
  | succ turns ih =>
    rw [copied, copyLength]
    split_ifs
    · rfl
    · rw [List.length_cons, ih]

theorem copied_getElem? {i : ℕ} (hi : i < copyLength source src turns) :
    (copied source src turns)[i]? = some (source (src + i)) := by
  induction turns generalizing src i with
  | zero => exact absurd hi (Nat.not_lt_zero i)
  | succ turns ih =>
    rw [copyLength] at hi
    rw [copied]
    split_ifs at hi ⊢ with hnul
    · obtain rfl : i = 0 := by omega
      simp
    · cases i with
      | zero => simp
      | succ i =>
        rw [List.getElem?_cons_succ, ih (by omega)]
        push_cast
        rw [add_assoc, add_comm 1]

namespace Kernel

variable {layout : Layout} {k k' : Kernel} {nodes : Addr → List Addr} {a : Action}
  {p q m fd n : ℤ}

/-! ### Sending a message -/

/-- The `dmq_send` of process `p` is at its SEND, which stores the message as `m` in queue `q`. -/
structure Sends (k : Kernel) (p fd src n q m : ℤ) (k' : Kernel) : Prop where
  running : k.running = some p
  context : ∃ qd, k.pcbs.cpuState p = .transferCall ⟨.send, fd, some src, n⟩ qd
  queue : k.queueByFd p fd = some (some q)
  step : k.step .statement = some k'
  success : k'.pcbs.syscallRetvalue p = 0
  stored : (k'.queues.messages q).last = some m

/-- The `dmq_receive` of process `p` is at its RECV, which takes message `m` from queue `q`. -/
structure Receives (k : Kernel) (p fd buffer q m : ℤ) (k' : Kernel) : Prop where
  running : k.running = some p
  context : ∃ len qd, k.pcbs.cpuState p = .transferCall ⟨.receive, fd, some buffer, len⟩ qd
  queue : k.queueByFd p fd = some (some q)
  first : (k.queues.messages q).first = some m
  step : k.step .statement = some k'

/-- The action does the same whatever user memory holds elsewhere than in the `n` bytes from `src`
on. -/
def ReadsOnly (k : Kernel) (a : Action) (src n : ℤ) : Prop :=
  ∀ bytes, AgreeOn bytes k.userBytes src n →
    { k with userBytes := bytes }.step a = (k.step a).map fun k' ↦ { k' with userBytes := bytes }

/-- Whatever user memory holds before, the action leaves the bytes `b` in the first `n` bytes of the
buffer. -/
def StoresExactly (k : Kernel) (a : Action) (buffer n : ℤ) (b : ℤ → UInt8) : Prop :=
  ∀ bytes, ∃ k', { k with userBytes := bytes }.step a = some k' ∧
    ∀ i, 0 ≤ i → i < n → k'.userBytes (buffer + i) = b i

/-- The system call of `dmq_send` or `dmq_receive`. -/
theorem step_transferCall {c : TransferCall} (hrunning : k.running = some p)
    (hcontext : k.pcbs.cpuState p = .transferCall c q) :
    k.step .statement = syscallVector c.syscall (k.trap p (.transferResult c q) c.syscall) := by
  simp only [step, hrunning, hcontext, Context.request, disastrOSSyscall, Option.bind_eq_bind,
    Option.bind_some, trap, setContext]

/-- A SEND on a queue that has room. -/
theorem internalSendMessage_eq {msg : Option Addr} {entries : Option Addr}
    (hrunning : k.running = some p) (hqueue : k.queueByFd p fd = some (some q))
    (hentries : k.queueEntries p fd = some entries)
    (hroom : (k.queues.messages q).size < k.queues.maxMessages q) :
    internalSendMessage msg fd k = k.acceptMessage p q msg := by
  simp only [internalSendMessage, hrunning, hqueue, hentries, Option.bind_eq_bind, Option.bind_some,
    if_pos hroom]

/-- A RECV on a queue that holds a message. -/
theorem internalRecvMessage_eq {buffer : Addr} {entries : Option Addr} {k₁ : Kernel}
    (hrunning : k.running = some p) (hqueue : k.queueByFd p fd = some (some q))
    (hentries : k.queueEntries p fd = some entries) (hpop : k.popMessage q = (some m, k₁)) :
    internalRecvMessage (some buffer) fd k = k₁.deliverMessage p buffer m := by
  simp only [internalRecvMessage, hrunning, hqueue, hentries, hpop, Option.bind_eq_bind,
    Option.bind_some]

/-- What is stored, for any contents of user memory. -/
theorem Stored.acceptMessage_userBytes (h : k.Stored layout nodes)
    (hsize : k.queues.msgSize q ≤ maxMessageSize) {src : Addr}
    (haccept : k.acceptMessage p q (some src) = some k')
    (hsuccess : k'.pcbs.syscallRetvalue p = 0) :
    ∃ (block : Addr) (K : Kernel), ∀ bytes,
      { k with userBytes := bytes }.acceptMessage p q (some src) = some { K with
        userBytes := bytes
        msgStrings.byte :=
          copyBytes bytes src k.msgStrings.byte block (k.queues.msgSize q).toNat } := by
  rcases hget : k.msgStrings.allocator.getBlock with ⟨_ | block, pool⟩ <;>
    rcases hgetMsg : k.messages.allocator.getBlock with ⟨_ | m, msgPool⟩
  case some.some =>
    refine ⟨block, ((({ k with msgStrings.allocator := pool }.resetMessage m msgPool (some block)
      (k.queues.msgSize q)).insertMessage q m).setRetvalue p 0), fun bytes ↦ ?_⟩
    have hstored : { k with userBytes := bytes }.Stored layout nodes := h.congr rfl
    rw [hstored.acceptMessage_eq_some hsize hget hgetMsg]
    rfl
  -- without a block the SEND fails
  all_goals
    simp only [Kernel.acceptMessage, msgStringAlloc, messageAlloc, hget, hgetMsg] at haccept
    rw [← Option.some.inj haccept] at hsuccess
    have hret : update k.pcbs.syscallRetvalue p dsosNoMsgSent p = 0 := hsuccess
    rw [Function.update_self] at hret
    exact absurd hret (by decide)

/-- What the SEND does, for any contents of user memory. -/
theorem Sends.step_userBytes {src : Addr} (h : k.Sends p fd src n q m k')
    (hstored : k.Stored layout nodes) (hsize : k.queues.msgSize q ≤ maxMessageSize) :
    ∃ (block : Addr) (K : Kernel), ∀ bytes,
      { k with userBytes := bytes }.step .statement = some { K with
        userBytes := bytes
        msgStrings.byte :=
          copyBytes bytes src k.msgStrings.byte block (k.queues.msgSize q).toNat } := by
  obtain ⟨qd, hcontext⟩ := h.context
  have hstep := h.step
  rw [step_transferCall h.running hcontext] at hstep
  obtain ⟨p', q', entries, hp', hqueue, hentries, hcase⟩ := internalSendMessage_cases hstep
  obtain rfl : p = p' := Option.some.inj (h.running.symm.trans hp')
  obtain rfl : q = q' := Option.some.inj (Option.some.inj (h.queue.symm.trans hqueue))
  obtain ⟨hroom, haccept⟩ | ⟨-, hwait⟩ := hcase
  · have htrap : (k.trap p (.transferResult ⟨.send, fd, some src, n⟩ qd)
        (.sendMsg (some src) fd)).Stored layout nodes := hstored.congr rfl
    obtain ⟨block, K, hK⟩ := htrap.acceptMessage_userBytes hsize haccept h.success
    refine ⟨block, K, fun bytes ↦ ?_⟩
    rw [step_transferCall (k := { k with userBytes := bytes }) h.running hcontext]
    refine Eq.trans ?_ (hK bytes)
    exact internalSendMessage_eq (k := { k with userBytes := bytes }.trap p
      (.transferResult ⟨.send, fd, some src, n⟩ qd) (.sendMsg (some src) fd)) hp' hqueue hentries hroom
  · obtain ⟨_, _, -, -, rfl⟩ := waitForQueue_eq hwait
    have hret : update k.pcbs.syscallRetvalue p dsosNoMsgSent p = 0 := h.success
    rw [Function.update_self] at hret
    exact absurd hret (by decide)

/-- The SEND reads no byte after the first `n` if its copy loop takes no more than `n`. If it takes more,
the byte after them is stored as it is. -/
theorem Sends.readsOnly_iff {src : Addr} (h : k.Sends p fd src n q m k')
    (hstored : k.Stored layout nodes) (hsize : k.queues.msgSize q ≤ maxMessageSize) (hn : 0 ≤ n) :
    k.ReadsOnly .statement src n ↔
      copyLength k.userBytes src (k.queues.msgSize q).toNat ≤ n := by
  obtain ⟨block, K, hK⟩ := h.step_userBytes hstored hsize
  unfold ReadsOnly
  simp only [hK, Option.map_some, Option.some.injEq]
  constructor
  · intro hreads
    by_contra hmore
    rw [not_le] at hmore
    lift n to ℕ using hn
    -- the byte after the first `n` is changed
    set bytes := update k.userBytes (src + n) (k.userBytes (src + n) + 1) with hbytes
    have hagree : AgreeOn bytes k.userBytes src n := fun i _ hlt ↦
      Function.update_of_ne (by lia) _ _
    have hsame := congrArg (·.msgStrings.byte) (hreads bytes hagree)
    have hlonger : (n : ℤ) < copyLength bytes src (k.queues.msgSize q).toNat := by
      by_contra hshort
      rw [not_lt] at hshort
      have hback : AgreeOn k.userBytes bytes src n := fun i hi hlt ↦ (hagree i hi hlt).symm
      have hcopied : _ ∧ copyBytes k.userBytes src bytes 0 _ = copyBytes bytes src bytes 0 _ :=
        copyBytes_congr hback hshort
      rw [hcopied.1] at hmore
      exact absurd hshort (not_le.mpr hmore)
    have hbyte := congrFun hsame (block + n)
    change copyBytes bytes src _ block _ (block + n) = copyBytes k.userBytes src _ block _ _ at hbyte
    rw [copyBytes_apply (by omega) hlonger, copyBytes_apply (by omega) hmore, hbytes,
      Function.update_self] at hbyte
    simp at hbyte
  · intro hlength bytes hagree
    rw [(copyBytes_congr hagree hlength).2]

/-- The message holds what the copy loop has taken. -/
theorem Sends.content {src : Addr} (h : k.Sends p fd src n q m k')
    (hstored : k.Stored layout nodes) : k'.messages.allocator.Allocated m ∧
      k'.content m = copied k.userBytes src (k.queues.msgSize q).toNat := by
  obtain ⟨qd, hcontext⟩ := h.context
  have hrequest : k.request .statement = some (.sendMsg (some src) fd) := by
    simp [Kernel.request, Kernel.context, h.running, hcontext, Context.request, TransferCall.syscall]
  obtain ⟨-, q', hqueue, ⟨-, -, x, block, haccepts, hstored'⟩ | ⟨-, hret⟩⟩ :=
    hstored.sendMsg h.running hrequest h.step
  · obtain rfl : q = q' := Option.some.inj (Option.some.inj (h.queue.symm.trans hqueue))
    have hlast := (hstored'.family.represents q).last
    rw [h.stored, Function.update_self, List.getLast?_append, List.getLast?_singleton] at hlast
    obtain rfl : m = x := Option.some.inj hlast
    exact ⟨(haccepts.allocated m).mpr (Or.inl rfl), haccepts.content_new⟩
  · exact absurd (hret.symm.trans h.success) (by decide)

/-! ### Until it is received -/

/-- A message keeps its contents. -/
theorem Prepared.keeps_content (h : k.Prepared layout nodes) (hsizes : k.SizesFit a)
    (hstep : k.step a = some k') (hm : k.messages.allocator.Allocated m) :
    k'.messages.allocator.Allocated m ∧ k'.content m = k.content m := by
  have hsame : k'.messages.allocator = k.messages.allocator →
      k'.messages.message = k.messages.message → k'.messages.len = k.messages.len →
        k'.msgStrings.byte = k.msgStrings.byte →
          k'.messages.allocator.Allocated m ∧ k'.content m = k.content m := by
    intro hpool hmessage hlen hbyte
    exact ⟨hpool ▸ hm, congrFun (content_congr hmessage hlen hbyte) m⟩
  have hstore : k'.messages = k.messages → k'.msgStrings = k.msgStrings →
      k'.messages.allocator.Allocated m ∧ k'.content m = k.content m := by
    intro hmessages hstrings
    exact hsame (by rw [hmessages]) (by rw [hmessages]) (by rw [hmessages]) (by rw [hstrings])
  cases step_store hsizes.1 hstep with
  | same hsame _ _ _ =>
    exact hstore (Prod.mk.inj hsame).1 (Prod.mk.inj (Prod.mk.inj hsame).2).1
  | accept p q fd msg next _ _ _ _ haccept =>
    have htrap : (k.trap p next (.sendMsg msg fd)).Stored layout nodes := h.stored.congr rfl
    obtain ⟨x, block, haccepts, -⟩ | ⟨-, hsame, -⟩ := htrap.acceptMessage haccept
    · exact ⟨(haccepts.allocated m).mpr (Or.inr hm),
        haccepts.content_old htrap (h.sizes.size q) hm (h.len m hm)⟩
    · exact hstore (Prod.mk.inj hsame).1 (Prod.mk.inj (Prod.mk.inj hsame).2).1
  | deliver p q fd buffer m' next k₁ _ _ _ hpop hdeliver =>
    have htrap : (k.trap p next (.recvMsg (some buffer) fd)).Stored layout nodes :=
      h.stored.congr rfl
    obtain ⟨-, -, -, hdelivers, -⟩ := htrap.deliverMessage hpop hdeliver
    exact hsame hdelivers.messages hdelivers.message hdelivers.len
      (congrArg (·.byte) hdelivers.strings)
  | free p id res q next k₁ k₂ _ _ _ _ _ hstore₁ hfree hstore _ _ _ =>
    obtain ⟨hmessages₁, hrest₁⟩ := Prod.mk.inj hstore₁
    obtain ⟨hmessages, hrest⟩ := Prod.mk.inj hstore
    obtain ⟨-, -, -, hpool, -⟩ := (h.stored.congr hstore₁).freeMessages le_rfl hfree
    have hframe := freeMessages_eq hfree
    apply hsame
    · rw [hmessages, hpool, hmessages₁]
    · rw [hmessages, hframe, ← hmessages₁]
    · rw [hmessages, hframe, ← hmessages₁]
    · rw [(Prod.mk.inj hrest).1, hframe, ← (Prod.mk.inj hrest₁).1]
  | init p id fd res q mode next pool _ _ _ _ _ _ hsame _ _ =>
    exact hstore (Prod.mk.inj hsame).1 (Prod.mk.inj (Prod.mk.inj hsame).2).1
  | write p q attr newVal _ _ _ hsame _ _ _ =>
    exact hstore (Prod.mk.inj hsame).1 (Prod.mk.inj (Prod.mk.inj hsame).2).1

/-! ### Receiving it -/

/-- The copy to the receiver's buffer is never cut short. -/
theorem loadMessage_eq_some (buffer : Addr) {block : Addr}
    (hblock : k.messages.message m = some block) :
    k.loadMessage buffer m = some { k with
      userBytes :=
        copyBytes k.msgStrings.byte block k.userBytes buffer (k.messages.len m).toNat } := by
  simp only [loadMessage, hblock]
  cases (k.messages.len m).toNat with
  | zero => rfl
  | succ turns => rfl

/-- What is handed over, for any contents of user memory. -/
theorem Stored.deliverMessage_userBytes (h : k.Stored layout nodes) {rest : List Addr}
    (hq : nodes q = m :: rest) {block : Addr} (hblock : k.messages.message m = some block)
    (p buffer : Addr) (bytes : Addr → UInt8) :
    { (k.popMessage q).2 with userBytes := bytes }.deliverMessage p buffer m = some
      { (k.popMessage q).2.setRetvalue p 0 with
        userBytes :=
          copyBytes k.msgStrings.byte block bytes buffer (k.messages.len m).toNat } := by
  obtain ⟨-, hpopped⟩ := h.popMessage hq
  have hallocated := h.allocated q m (hq ▸ List.mem_cons_self)
  have hload := loadMessage_eq_some (k := { (k.popMessage q).2 with userBytes := bytes }) buffer
    hblock
  have hloaded : ({ (k.popMessage q).2 with
      userBytes := copyBytes k.msgStrings.byte block bytes buffer (k.messages.len m).toNat } :
        Kernel).Stored layout (update nodes q rest) := hpopped.congr rfl
  refine (congrArg (Option.bind · _) hload).trans ?_
  exact congrArg (fun x ↦ some (Kernel.setRetvalue x p 0)) (hloaded.messageFree hallocated)

/-- What the RECV does, for any contents of user memory. -/
theorem Receives.step_userBytes {buffer : Addr} (h : k.Receives p fd buffer q m k')
    (hstored : k.Stored layout nodes) :
    ∃ (block : Addr) (K : Kernel), k.messages.message m = some block ∧ ∀ bytes,
      { k with userBytes := bytes }.step .statement = some { K with
        userBytes := copyBytes k.msgStrings.byte block bytes buffer (k.messages.len m).toNat } := by
  obtain ⟨len, qd, hcontext⟩ := h.context
  have hstep := h.step
  rw [step_transferCall h.running hcontext] at hstep
  have hrecv : internalRecvMessage (some buffer) fd (k.trap p
      (.transferResult ⟨.receive, fd, some buffer, len⟩ qd) (.recvMsg (some buffer) fd)) = some k' :=
    hstep
  obtain ⟨p', entries, hp', hentries, -⟩ := internalRecvMessage_cases hrecv
  obtain rfl : p = p' := Option.some.inj (h.running.symm.trans hp')
  have htrap : (k.trap p (.transferResult ⟨.receive, fd, some buffer, len⟩ qd)
      (.recvMsg (some buffer) fd)).Stored layout nodes := hstored.congr rfl
  obtain ⟨rest, hq⟩ : ∃ rest, nodes q = m :: rest := by
    have hfirst := h.first
    rw [(hstored.family.represents q).first] at hfirst
    exact List.head?_eq_some_iff.mp hfirst
  obtain ⟨block, hblock, -⟩ := hstored.string m (hstored.allocated q m (hq ▸ List.mem_cons_self))
  obtain ⟨hm, -⟩ := htrap.popMessage hq
  refine ⟨block, ((k.trap p (.transferResult ⟨.receive, fd, some buffer, len⟩ qd)
    (.recvMsg (some buffer) fd)).popMessage q).2.setRetvalue p 0, hblock, fun bytes ↦ ?_⟩
  rw [step_transferCall (k := { k with userBytes := bytes }) h.running hcontext]
  refine Eq.trans ?_ (htrap.deliverMessage_userBytes hq hblock p buffer bytes)
  exact internalRecvMessage_eq (k := { k with userBytes := bytes }.trap p
    (.transferResult ⟨.receive, fd, some buffer, len⟩ qd) (.recvMsg (some buffer) fd)) h.running
    h.queue hentries (Prod.ext hm rfl)

/-- The RECV stores the bytes that the SEND has taken, and no others: the buffer of the receiver keeps
what it held behind them. -/
theorem Receives.storesExactly_iff {src buffer : Addr} (h : k.Receives p fd buffer q m k')
    (hstored : k.Stored layout nodes) (hcontent : k.content m = copied source src turns) :
    k.StoresExactly .statement buffer n (fun i ↦ source (src + i)) ↔
      n ≤ copyLength source src turns := by
  obtain ⟨block, K, hblock, hK⟩ := h.step_userBytes hstored
  rw [content, hblock, Option.getD_some] at hcontent
  have hlength := congrArg List.length hcontent
  rw [copied_length, copied_length] at hlength
  have hbyte : ∀ i : ℕ, i < copyLength source src turns →
      k.msgStrings.byte (block + i) = source (src + i) := by
    intro i hi
    have hget := congrArg (·[i]?) hcontent
    simp only [copied_getElem? hi, copied_getElem? (hlength.symm ▸ hi)] at hget
    exact Option.some.inj hget
  unfold StoresExactly
  simp only [hK, Option.some.injEq, exists_eq_left']
  constructor
  · intro hstores
    by_contra hshort
    rw [not_le] at hshort
    -- a buffer that holds something else in the first place behind the bytes
    have hkept := hstores (fun _ ↦ source (src + copyLength source src turns) + 1)
      (copyLength source src turns) (by omega) hshort
    rw [copyBytes_of_outside (Or.inr (by rw [hlength]))] at hkept
    simp at hkept
  · intro hle bytes i hi hlt
    lift i to ℕ using hi
    rw [copyBytes_apply (by omega) (by omega), hbyte i (by omega)]

theorem Sends.sizesFit {src : Addr} (h : k.Sends p fd src n q m k') : k.SizesFit .statement := by
  obtain ⟨qd, hcontext⟩ := h.context
  constructor
  · simp [Kernel.request, Kernel.context, h.running, hcontext, Context.request,
      TransferCall.syscall]
  · simp [attributeWrite, Kernel.context, h.running, hcontext]

end Kernel

/-! ### From a SEND to the RECV -/

/-- A `dmq_send` of `n` bytes and the `dmq_receive` that takes its message, with anything in between. The
SEND reads the `n` bytes and no others, and the RECV stores just these in its buffer, if and only if they
fill the message. -/
theorem byteExact_iff (layout : Layout) {setup actions : List Action} {k k₁ k₂ k₃ : Kernel}
    {p fd src n q m p' fd' buffer q' : ℤ}
    (hsetup : Runs.Meets Kernel.step Kernel.SizesFit layout.boot setup)
    (hk : Runs.run Kernel.step layout.boot setup = some k) (hsend : k.Sends p fd src n q m k₁)
    (hn : 0 ≤ n) (hfits : n ≤ k.queues.msgSize q)
    (hactions : Runs.Meets Kernel.step Kernel.SizesFit k₁ actions)
    (hk₂ : Runs.run Kernel.step k₁ actions = some k₂)
    (hreceive : k₂.Receives p' fd' buffer q' m k₃) :
    k.ReadsOnly .statement src n ∧
        k₂.StoresExactly .statement buffer n (fun i ↦ k.userBytes (src + i)) ↔
      FillsMessage k.userBytes src n (k.queues.msgSize q) := by
  have hprepares : ∀ k a k', (∃ nodes, Kernel.Prepared layout k nodes) → k.SizesFit a →
      k.step a = some k' → ∃ nodes, k'.Prepared layout nodes := by
    rintro k a k' ⟨nodes, hinv⟩ hfit hstep
    exact hinv.step hfit hstep
  obtain ⟨nodes, hprepared⟩ := Runs.run_invariant hprepares ⟨_, layout.boot_prepared⟩ hsetup hk
  obtain ⟨nodes₁, hprepared₁⟩ := hprepared.step hsend.sizesFit hsend.step
  obtain ⟨hallocated, hcontent⟩ := hsend.content hprepared.stored
  -- until the RECV, the message keeps the bytes that the SEND has taken
  have hkeeps : ∀ s a t, ((∃ nodes, Kernel.Prepared layout s nodes) ∧
      s.messages.allocator.Allocated m ∧ s.content m = k₁.content m) → s.SizesFit a →
      s.step a = some t → (∃ nodes, t.Prepared layout nodes) ∧
        t.messages.allocator.Allocated m ∧ t.content m = k₁.content m := by
    rintro s a t ⟨⟨nodes, hinv⟩, hm, hsame⟩ hfit hstep
    obtain ⟨hm', hsame'⟩ := hinv.keeps_content hfit hstep hm
    exact ⟨hinv.step hfit hstep, hm', hsame'.trans hsame⟩
  obtain ⟨⟨nodes₂, hprepared₂⟩, -, hcontent₂⟩ :=
    Runs.run_invariant hkeeps ⟨⟨nodes₁, hprepared₁⟩, hallocated, rfl⟩ hactions hk₂
  rw [hsend.readsOnly_iff hprepared.stored (hprepared.sizes.size q) hn,
    hreceive.storesExactly_iff hprepared₂.stored (hcontent₂.trans hcontent),
    ← copyLength_eq_iff hn hfits]
  omega

/-- The first process opens queue 0 and gets to the SEND of two bytes. -/
def twoByteSend (first second : UInt8) : List Action :=
  openSetup ++ [.write 0x800000 first, .write 0x800001 second,
    .call (.send 0 (some 0x800000) 2), .statement, .statement, .statement, .statement]

/-- It ends its `dmq_send` and gets to the RECV of a `dmq_receive`. -/
def thenReceive : List Action :=
  [.statement, .statement, .call (.receive 0 (some 0x800100) 128), .statement, .statement, .statement,
    .statement]

/-- The facts that make a run of `twoByteSend` and `thenReceive` a SEND and the RECV of its message. -/
theorem exists_sends_receives (first second : UInt8)
    (hsend : ∀ k ∈ Runs.run Kernel.step sampleLayout.boot (twoByteSend first second),
      k.running = some 0x400000 ∧ k.pcbs.cpuState 0x400000 =
          .transferCall ⟨.send, 0, some 0x800000, 2⟩ 0x1900000 ∧
        k.queueByFd 0x400000 0 = some (some 0x1900000))
    (hsent : ∀ k ∈ Runs.run Kernel.step sampleLayout.boot (twoByteSend first second ++ [.statement]),
      k.pcbs.syscallRetvalue 0x400000 = 0 ∧ (k.queues.messages 0x1900000).last = some 0x2000000)
    (hreceive : ∀ k ∈ Runs.run Kernel.step sampleLayout.boot
        ((twoByteSend first second ++ [.statement]) ++ thenReceive),
      k.running = some 0x400000 ∧ k.pcbs.cpuState 0x400000 =
          .transferCall ⟨.receive, 0, some 0x800100, 128⟩ 0x1900000 ∧
        k.queueByFd 0x400000 0 = some (some 0x1900000) ∧
        (k.queues.messages 0x1900000).first = some 0x2000000)
    (hruns : (Runs.run Kernel.step sampleLayout.boot
      (((twoByteSend first second ++ [.statement]) ++ thenReceive) ++ [.statement])).isSome) :
    ∃ k k₁ k₂ k₃, Runs.run Kernel.step sampleLayout.boot (twoByteSend first second) = some k ∧
      k.Sends 0x400000 0 0x800000 2 0x1900000 0x2000000 k₁ ∧
        Runs.run Kernel.step k₁ thenReceive = some k₂ ∧
          k₂.Receives 0x400000 0 0x800100 0x1900000 0x2000000 k₃ := by
  obtain ⟨k₃, hk₃⟩ := Option.isSome_iff_exists.mp hruns
  obtain ⟨k₂, hk₂, hstep₂⟩ := Runs.run_append.mp hk₃
  obtain ⟨k₁, hk₁, hrun⟩ := Runs.run_append.mp hk₂
  obtain ⟨k, hk, hstep⟩ := Runs.run_append.mp hk₁
  obtain ⟨u, hu, hlast⟩ := Runs.run_cons_eq_some.mp hstep
  obtain rfl := Option.some.inj hlast
  obtain ⟨v, hv, hlast⟩ := Runs.run_cons_eq_some.mp hstep₂
  obtain rfl := Option.some.inj hlast
  obtain ⟨hrunning, hcontext, hqueue⟩ := hsend k hk
  obtain ⟨hret, hstored⟩ := hsent _ hk₁
  obtain ⟨hrunning₂, hcontext₂, hqueue₂, hfirst⟩ := hreceive k₂ hk₂
  refine ⟨k, u, k₂, v, hk, ?_, hrun, ?_⟩
  · exact ⟨hrunning, ⟨_, hcontext⟩, hqueue, hu, hret, hstored⟩
  · exact ⟨hrunning₂, ⟨_, _, hcontext₂⟩, hqueue₂, hfirst, hv⟩

theorem byteExact_iff_terminated : ∃ k k₁ k₂ k₃,
    Runs.run Kernel.step sampleLayout.boot (twoByteSend 105 0) = some k ∧
      k.Sends 0x400000 0 0x800000 2 0x1900000 0x2000000 k₁ ∧
        Runs.run Kernel.step k₁ thenReceive = some k₂ ∧
          k₂.Receives 0x400000 0 0x800100 0x1900000 0x2000000 k₃ ∧
            k.ReadsOnly .statement 0x800000 2 ∧
              k₂.StoresExactly .statement 0x800100 2 (fun i ↦ k.userBytes (0x800000 + i)) := by
  obtain ⟨k, k₁, k₂, k₃, hk, hsend, hrun, hreceive⟩ :=
    exists_sends_receives 105 0 (by decide +kernel) (by decide +kernel)
      (by decide +kernel) (by decide +kernel)
  have hfacts : ∀ k ∈ Runs.run Kernel.step sampleLayout.boot (twoByteSend 105 0),
      k.queues.msgSize 0x1900000 = 128 ∧ k.userBytes (0x800000 + 0) = 105 ∧
        k.userBytes (0x800000 + (2 - 1)) = 0 ∧
          ∀ k₁ ∈ k.step .statement, Runs.Meets Kernel.step Kernel.SizesFit k₁ thenReceive := by
    decide +kernel
  obtain ⟨hsize, hfirst, hsecond, hmeets⟩ := hfacts k hk
  have hiff := byteExact_iff sampleLayout (by decide +kernel) hk hsend (by decide)
    (by rw [hsize]; decide) (hmeets k₁ hsend.step) hrun hreceive
  refine ⟨k, k₁, k₂, k₃, hk, hsend, hrun, hreceive, hiff.mpr ⟨?_, Or.inr ⟨by decide, hsecond⟩⟩⟩
  intro i hi hlt
  obtain rfl : i = 0 := by omega
  rw [hfirst]
  decide

/-- A message that begins with a NUL: the receiver gets this one byte only. -/
theorem embeddedNul_not_byteExact : ∃ k k₁ k₂ k₃,
    Runs.run Kernel.step sampleLayout.boot (twoByteSend 0 105) = some k ∧
      k.Sends 0x400000 0 0x800000 2 0x1900000 0x2000000 k₁ ∧
        2 ≤ k.queues.msgSize 0x1900000 ∧ k.queues.msgSize 0x1900000 ≤ maxMessageSize ∧
          Runs.run Kernel.step k₁ thenReceive = some k₂ ∧
            k₂.Receives 0x400000 0 0x800100 0x1900000 0x2000000 k₃ ∧
              ¬ k₂.StoresExactly .statement 0x800100 2 (fun i ↦ k.userBytes (0x800000 + i)) := by
  obtain ⟨k, k₁, k₂, k₃, hk, hsend, hrun, hreceive⟩ :=
    exists_sends_receives 0 105 (by decide +kernel) (by decide +kernel)
      (by decide +kernel) (by decide +kernel)
  have hfacts : ∀ k ∈ Runs.run Kernel.step sampleLayout.boot (twoByteSend 0 105),
      k.queues.msgSize 0x1900000 = 128 ∧ k.userBytes (0x800000 + 1) = 105 ∧
        ∀ k₁ ∈ k.step .statement, ∀ k₂ ∈ Runs.run Kernel.step k₁ thenReceive,
          ∀ k₃ ∈ k₂.step .statement, k₃.userBytes (0x800100 + 1) = 0 := by
    decide +kernel
  obtain ⟨hsize, hsent, hreceived⟩ := hfacts k hk
  refine ⟨k, k₁, k₂, k₃, hk, hsend, by rw [hsize]; decide, by rw [hsize]; decide, hrun, hreceive,
    fun hstores ↦ ?_⟩
  obtain ⟨k', hk', hbytes⟩ := hstores k₂.userBytes
  have hbyte : k'.userBytes (0x800100 + 1) = k.userBytes (0x800000 + 1) :=
    hbytes 1 (by decide) (by decide)
  rw [hreceived k₁ hsend.step k₂ hrun k' hk', hsent] at hbyte
  exact absurd hbyte (by decide)

end DisastrOS
