import DisastrOS.Descriptors
import DisastrOS.MessageOrder
import DisastrOS.Returns

/-!
# Non-blocking descriptors

`dmq_send` and `dmq_receive` test whether the queue is full, or empty, in user code, and the SEND or RECV
that follows does not look at the entry for `DSOS_NONBLOCK`. So a non-blocking call waits when the queue
changes in between, and when `dmq_setattr` has set the capacity below the number of the messages: the test
compares the two with `==` (`loweredCapacity_blocks`). Where neither happens no such call waits
(`neverBlocks_of_safe`).
-/

set_option autoImplicit false
set_option relaxedAutoImplicit false

namespace DisastrOS

open LinkedLists
open Function (update)

/-- What a call needs of a queue with this number of messages and this capacity. -/
def Transfer.Possible : Transfer → ℤ → ℤ → Prop
  | .receive, size, _ => 0 < size
  | .send, size, maxMessages => size < maxMessages

/-- The result for which a call tries again is no success. -/
theorem Transfer.failure_ne_zero (op : Transfer) : op.failure ≠ 0 := by
  cases op <;> decide

theorem TransferCall.touchesFiles_syscall (c : TransferCall) : c.syscall.touchesFiles = false := by
  unfold TransferCall.syscall
  cases c.op <;> rfl

/-- The call of `dmq_send` or `dmq_receive` that a point belongs to. -/
def Context.transferOf : Context → Option TransferCall
  | .transfer c | .transferSize c _ | .transferFind c _ | .transferRoom c _ _ | .transferCall c _
  | .transferResult c _ | .transferRetry c _ | .transferWake c _ => some c
  | _ => none

namespace Kernel

variable {layout : Layout} {nodes : Addr → List Addr} {k k' : Kernel} {a : Action} {p p' q d : Addr}
  {fd : ℤ}

/-! ### Calls that do not block -/

/-- Process `p` has a descriptor `fd` with an entry for `DSOS_NONBLOCK`. -/
def NonBlocking (k : Kernel) (p : Addr) (fd : ℤ) : Prop :=
  ∃ d ∈ k.files.descriptorNodes p, k.descriptors.fd d = fd ∧ (k.descriptors.rwn d .nonBlock).isSome

/-- Queue `q` has room for a message to send, or a message to receive. -/
def HasRoom (k : Kernel) (q : Addr) (op : Transfer) : Prop :=
  op.Possible (k.queues.messages q).size (k.queues.maxMessages q)

/-- Process `p` is in a call that has found queue `q` with room, or with a message, and its SEND or RECV
is still to come. -/
def Checked (k : Kernel) (p : Addr) (c : TransferCall) (q : Addr) : Prop :=
  k.pcbs.cpuState p = .transferCall c q ∨ k.pcbs.cpuState p = .transferRetry c q ∨
    k.pcbs.cpuState p = .transferResult c q ∧ k.pcbs.syscallRetvalue p = c.op.failure

/-- The call of process `p` is on a non-blocking descriptor. -/
def Pending (k : Kernel) (op : Transfer) (q p : Addr) : Prop :=
  ∃ c, c.op = op ∧ k.Checked p c q ∧ k.NonBlocking p c.fd

/-- The system call of process `p` takes the last room of queue `q`, or its last message. -/
def TakesLast (k : Kernel) (p q : Addr) (op : Transfer) : Syscall → Prop
  | .sendMsg _ fd => op = .send ∧ k.queueByFd p fd = some (some q) ∧
    (k.queues.messages q).size + 1 = k.queues.maxMessages q
  | .recvMsg _ fd => op = .receive ∧ k.queueByFd p fd = some (some q) ∧ (k.queues.messages q).size = 1
  | _ => False

/-- The action is no shutdown, sets no capacity below the number of the messages, and does not take away
the room, the message or the queue that a non-blocking call of another process has found. -/
def NonBlockSafe (k : Kernel) (a : Action) : Prop :=
  k.request a ≠ some .shutdown ∧
    (∀ w ∈ k.attributeWrite a, w.2.1 = attQueueMaxMessages →
      (k.queues.messages w.1).size ≤ w.2.2 ∧
        ((∃ p, k.Pending .send w.1 p) → (k.queues.messages w.1).size < w.2.2)) ∧
    ∀ c ∈ k.request a, ∀ op q p', k.Pending op q p' → k.KeepsQueueCall q c ∧
      ∀ p ∈ k.running, p ≠ p' → ¬ k.TakesLast p q op c

/-! ### The room in a queue -/

theorem Stored.size (h : k.Stored layout nodes) (q : Addr) :
    (k.queues.messages q).size = (nodes q).length := (h.family.represents q).size

/-- What a step does to the number of the messages of the queues, and to their capacities. -/
inductive RoomStep (k : Kernel) (a : Action) (k' : Kernel) : Prop
  | same (hsizes : ∀ x, (k'.queues.messages x).size = (k.queues.messages x).size)
    (hmax : k'.queues.maxMessages = k.queues.maxMessages)
  | accept (p q fd : ℤ) (msg : Option Addr) (hrunning : k.running = some p)
    (hrequest : k.request a = some (.sendMsg msg fd)) (hqueue : k.queueByFd p fd = some (some q))
    (hroom : (k.queues.messages q).size < k.queues.maxMessages q)
    (hsizes : ∀ x, (k'.queues.messages x).size =
      if x = q then (k.queues.messages q).size + 1 else (k.queues.messages x).size)
    (hmax : k'.queues.maxMessages = k.queues.maxMessages) (hret : k'.pcbs.syscallRetvalue p = 0)
  | deliver (p q fd buffer : ℤ) (hrunning : k.running = some p)
    (hrequest : k.request a = some (.recvMsg (some buffer) fd))
    (hqueue : k.queueByFd p fd = some (some q))
    (hsizes : ∀ x, (k'.queues.messages x).size =
      if x = q then (k.queues.messages q).size - 1 else (k.queues.messages x).size)
    (hmax : k'.queues.maxMessages = k.queues.maxMessages) (hret : k'.pcbs.syscallRetvalue p = 0)
  | clear (q : Addr) (c : Syscall) (hrequest : k.request a = some c) (hclears : ¬ k.KeepsQueueCall q c)
    (hothers : ∀ x, x ≠ q → (k'.queues.messages x).size = (k.queues.messages x).size ∧
      k'.queues.maxMessages x = k.queues.maxMessages x)
    (hfits : (k.queues.messages q).size ≤ k.queues.maxMessages q →
      (k'.queues.messages q).size ≤ k'.queues.maxMessages q)
  | write (q newVal : ℤ) (hwrite : k.attributeWrite a = some (q, attQueueMaxMessages, newVal))
    (hsizes : ∀ x, (k'.queues.messages x).size = (k.queues.messages x).size)
    (hmax : k'.queues.maxMessages = update k.queues.maxMessages q newVal)

theorem Stored.roomStep (h : k.Stored layout nodes) (hshutdown : k.request a ≠ some .shutdown)
    (hstep : k.step a = some k') : k.RoomStep a k' := by
  have hsame (hstore : k'.store = k.store) (x : Addr) :
      (k'.queues.messages x).size = (k.queues.messages x).size := by
    rw [(Prod.mk.inj (Prod.mk.inj hstore).2).2]
  -- the sizes are the lengths of the lists before and after
  have hlength {nodes' : Addr → List Addr} {q : Addr} {l : List Addr} (h' : k'.Stored layout nodes')
      (hnodes : nodes' = update nodes q l) (x : Addr) : (k'.queues.messages x).size =
        if x = q then (l.length : ℤ) else (k.queues.messages x).size := by
    rw [h'.size, h.size, hnodes, Function.update_apply]
    split_ifs <;> rfl
  cases step_store hshutdown hstep with
  | same hstore _ hattributes _ => exact .same (hsame hstore) (Prod.mk.inj hattributes).1
  | accept p q fd msg next hrunning hcalls hqueue hroom haccept =>
    have hmax : k'.queues.maxMessages = k.queues.maxMessages := by
      rw [acceptMessage_eq haccept]
      rfl
    have htrap : (k.trap p next (.sendMsg msg fd)).Stored layout nodes := h.congr rfl
    obtain ⟨m, block, -, h', hret⟩ | ⟨-, hstore, -⟩ := htrap.acceptMessage haccept
    · refine .accept p q fd msg hrunning (hcalls.request hrunning) hqueue hroom (fun x ↦ ?_) hmax hret
      rw [hlength h' rfl x, h.size q]
      simp
    · exact .same (hsame hstore) hmax
  | deliver p q fd buffer m next k₁ hrunning hcalls hqueue hpop hdeliver =>
    have htrap : (k.trap p next (.recvMsg (some buffer) fd)).Stored layout nodes := h.congr rfl
    obtain ⟨rest, hnodes, h', -, hret⟩ := htrap.deliverMessage hpop hdeliver
    refine .deliver p q fd buffer hrunning (hcalls.request hrunning) hqueue (fun x ↦ ?_) ?_ hret
    · rw [hlength h' rfl x, h.size q, hnodes]
      simp
    · rw [deliverMessage_eq hdeliver, ← (Prod.mk.inj hpop).2]
      rfl
  | free p id res q next k₁ k₂ hrunning hcalls hfound hunused hfreed hstore₁ hfree hstore _
      hattributes _ =>
    obtain ⟨rest, hsuffix, h₂, -⟩ := (h.congr hstore₁).freeMessages le_rfl hfree
    have hsizes := hlength (h₂.congr hstore) rfl
    have hmax := (Prod.mk.inj hattributes).1
    refine .clear q (.destroyResource id) (hcalls.request hrunning) ?_ (fun x hx ↦ ?_) ?_
    · exact fun hkeeps ↦ hkeeps res (by rw [hfound]; rfl) hunused hfreed
    · exact ⟨(hsizes x).trans (if_neg hx), congrFun hmax x⟩
    · rw [hsizes q, if_pos rfl, hmax, h.size q]
      have hle := hsuffix.length_le
      omega
  | init p id fd res q mode next pool hrunning hcalls hfound hvalue hget _ hstore hattributes _ =>
    have hsizes := hlength (h.clear q hstore) rfl
    have hmax := (Prod.mk.inj hattributes).1
    refine .clear q (.openQueue id fd mode) (hcalls.request hrunning) ?_ (fun x hx ↦ ?_) fun _ ↦ ?_
    · exact fun hkeeps ↦ hkeeps res (by rw [hfound]; rfl) hvalue (by rw [hget])
    · exact ⟨(hsizes x).trans (if_neg hx), (congrFun hmax x).trans (Function.update_of_ne hx ..)⟩
    · rw [hsizes q, if_pos rfl, hmax, Function.update_self]
      decide
  | write p q attr newVal ha hrunning hcontext hstore _ hattributes _ =>
    subst ha
    have hmax := (Prod.mk.inj hattributes).1
    by_cases hattr : attr = attQueueMaxMessages
    · subst hattr
      refine .write q newVal (attributeWrite_eq_some hrunning hcontext) (hsame hstore) ?_
      rw [hmax, writeAttribute, if_pos rfl]
    · refine .same (hsame hstore) ?_
      rw [hmax, writeAttribute, if_neg hattr]

/-- A safe step leaves the room, or the message, that a non-blocking call has found, unless it is its own
SEND or RECV and takes it. -/
theorem RoomStep.hasRoom (hroom : k.RoomStep a k') (hsafe : k.NonBlockSafe a) {op : Transfer}
    (hpending : k.Pending op q p) (hhas : k.HasRoom q op)
    (hown : ∀ msg fd, k.request a = some (.sendMsg msg fd) ∨ k.request a = some (.recvMsg msg fd) →
      k.running = some p → k'.pcbs.syscallRetvalue p ≠ 0) : k'.HasRoom q op := by
  obtain ⟨-, hwrites, hcalls⟩ := hsafe
  unfold HasRoom
  cases hroom with
  | same hsizes hmax =>
    rw [hsizes, hmax]
    exact hhas
  | accept p' q' fd msg hrunning hrequest hqueue hroom hsizes hmax hret =>
    have hne : p' ≠ p := by
      rintro rfl
      exact hown msg fd (.inl hrequest) hrunning hret
    have hlast := (hcalls _ hrequest op q p hpending).2 p' hrunning hne
    rw [hsizes, hmax]
    split_ifs with hq
    · subst hq
      cases op with
      | receive =>
        have hsome : 0 < (k.queues.messages q).size := hhas
        change 0 < (k.queues.messages q).size + 1
        omega
      | send =>
        change (k.queues.messages q).size + 1 < k.queues.maxMessages q
        have hnotLast : (k.queues.messages q).size + 1 ≠ k.queues.maxMessages q :=
          fun heq ↦ hlast ⟨rfl, hqueue, heq⟩
        omega
    · exact hhas
  | deliver p' q' fd buffer hrunning hrequest hqueue hsizes hmax hret =>
    have hne : p' ≠ p := by
      rintro rfl
      exact hown (some buffer) fd (.inr hrequest) hrunning hret
    have hlast := (hcalls _ hrequest op q p hpending).2 p' hrunning hne
    rw [hsizes, hmax]
    split_ifs with hq
    · subst hq
      cases op with
      | receive =>
        have hsome : 0 < (k.queues.messages q).size := hhas
        have hnotLast : (k.queues.messages q).size ≠ 1 := fun heq ↦ hlast ⟨rfl, hqueue, heq⟩
        change 0 < (k.queues.messages q).size - 1
        omega
      | send =>
        have hfree : (k.queues.messages q).size < k.queues.maxMessages q := hhas
        change (k.queues.messages q).size - 1 < k.queues.maxMessages q
        omega
    · exact hhas
  | clear q' c hrequest hclears hothers =>
    have hne : q ≠ q' := by
      rintro rfl
      exact hclears (hcalls c hrequest op q p hpending).1
    obtain ⟨hsize, hmax⟩ := hothers q hne
    rw [hsize, hmax]
    exact hhas
  | write q' newVal hwrite hsizes hmax =>
    rw [hsizes, hmax, Function.update_apply]
    split_ifs with hq
    · subst hq
      cases op with
      | receive => exact hhas
      | send => exact (hwrites _ hwrite rfl).2 ⟨p, hpending⟩
    · exact hhas

/-- A safe step sets no capacity below the number of the messages. -/
theorem RoomStep.fits (hroom : k.RoomStep a k') (hsafe : k.NonBlockSafe a)
    (h : ∀ q, (k.queues.messages q).size ≤ k.queues.maxMessages q) (q : Addr) :
    (k'.queues.messages q).size ≤ k'.queues.maxMessages q := by
  have hq := h q
  cases hroom with
  | same hsizes hmax =>
    rw [hsizes, hmax]
    exact hq
  | accept p' q' fd msg _ _ _ hroom hsizes hmax =>
    rw [hsizes, hmax]
    split_ifs with hsame
    · subst hsame
      omega
    · exact hq
  | deliver p' q' fd buffer _ _ _ hsizes hmax =>
    rw [hsizes, hmax]
    split_ifs with hsame
    · subst hsame
      omega
    · exact hq
  | clear q' c _ _ hothers hfits =>
    by_cases hsame : q = q'
    · subst hsame
      exact hfits hq
    · obtain ⟨hsize, hmax⟩ := hothers q hsame
      rw [hsize, hmax]
      exact hq
  | write q' newVal hwrite hsizes hmax =>
    rw [hsizes, hmax, Function.update_apply]
    split_ifs with hsame
    · subst hsame
      exact (hsafe.2.1 _ hwrite rfl).1
    · exact hq

/-! ### The descriptor of a call -/

/-- The descriptor `fd` of process `p` refers to queue `q`. -/
def RefersTo (k : Kernel) (p : Addr) (fd : ℤ) (q : Addr) : Prop :=
  ∃ d ∈ k.files.descriptorNodes p, k.descriptors.fd d = fd ∧
    k.resources.value (k.descriptors.resource d) = some q

theorem refersTo_of_queueByFd (hok : k.files.Ok) (hqueue : k.queueByFd p fd = some (some q)) :
    k.RefersTo p fd q := by
  obtain ⟨_ | d, hfound, hvalue⟩ := Option.bind_eq_some_iff.mp hqueue
  · simp at hvalue
  · obtain ⟨hd, hfd⟩ := descriptorByFd_some hok hfound
    exact ⟨d, hd, hfd, Option.some.inj hvalue⟩

/-- Only one queue goes with a descriptor. -/
theorem RefersTo.queue_eq (h : k.RefersTo p fd q) (hok : k.files.Ok) {found : Option Addr}
    (hqueue : k.queueByFd p fd = some found) : found = some q := by
  obtain ⟨d, hd, rfl, hvalue⟩ := h
  obtain ⟨found', hfound, hrest⟩ := Option.bind_eq_some_iff.mp hqueue
  obtain rfl := descriptorByFd_unique hok hd hfound
  exact (Option.some.inj hrest).symm.trans hvalue

/-- A process that makes no call on the table of resources keeps the descriptors of its calls. -/
theorem sameFor_of_nonBlocking (hok : k.files.Ok) (hshutdown : k.request a ≠ some .shutdown)
    (hstep : k.step a = some k')
    (hquiet : ∀ c, k.request a = some c → c.touchesFiles = true → k.running ≠ some p)
    (h : k'.NonBlocking p fd) : k.files.SameFor k'.files p := by
  obtain hsame | ⟨hreset, -⟩ := step_descriptors hok hshutdown hstep hquiet
  · exact hsame
  · obtain ⟨d, hd, -⟩ := h
    rw [hreset, (Files.Holds.reset hok p).descriptorNodes_eq, Function.update_self] at hd
    exact absurd hd List.not_mem_nil

theorem NonBlocking.of_sameFor (h : k'.NonBlocking p fd) (hsame : k.files.SameFor k'.files p) :
    k.NonBlocking p fd := by
  obtain ⟨d, hd, hfd, hentry⟩ := h
  rw [hsame.nodes] at hd
  refine ⟨d, hd, (hsame.kept d hd).fd.symm.trans hfd, ?_⟩
  have hrwn : k'.descriptors.rwn d = k.descriptors.rwn d := hsame.rwn d hd
  rw [← hrwn]
  exact hentry

theorem NonBlocking.entry (h : k.NonBlocking p fd) (hok : k.files.Ok)
    (hd : d ∈ k.files.descriptorNodes p) (hfd : k.descriptors.fd d = fd) :
    (k.descriptors.rwn d .nonBlock).isSome := by
  obtain ⟨d', hd', hfd', hentry⟩ := h
  obtain rfl := hok.fd_inj p d' hd' d hd (hfd'.trans hfd.symm)
  exact hentry

theorem RefersTo.of_sameFor (h : k.RefersTo p fd q) (hsame : k.files.SameFor k'.files p) :
    k'.RefersTo p fd q := by
  obtain ⟨d, hd, hfd, hvalue⟩ := h
  have hkept := hsame.kept d hd
  refine ⟨d, ?_, hkept.fd.trans hfd, ?_⟩
  · rw [hsame.nodes]
    exact hd
  · have hresource : k'.descriptors.resource d = k.descriptors.resource d := hkept.resource
    rw [hresource]
    exact hkept.value q hvalue

/-! ### The points of a call -/

/-- What holds at the points of a call on a non-blocking descriptor. -/
def TransferPoint (k : Kernel) (p : Addr) : Context → Prop
  | .transferSize c q | .transferFind c q => k.RefersTo p c.fd q
  | .transferRoom c q ds =>
    k.RefersTo p c.fd q ∧ ds ∈ k.files.descriptorNodes p ∧ k.descriptors.fd ds = c.fd
  | .transferCall c q | .transferRetry c q => k.RefersTo p c.fd q ∧ k.HasRoom q c.op
  | .transferResult c q => k.RefersTo p c.fd q ∧
    (k.pcbs.syscallRetvalue p = c.op.failure → k.HasRoom q c.op)
  | _ => True

/-- The files and the messages are in order, no queue holds more than its capacity, and the non-blocking
calls stand where they can. -/
structure NonBlockInv (layout : Layout) (k : Kernel) : Prop where
  files : k.files.Ok
  noShutdown : k.NoShutdown
  stored : ∃ nodes, k.Stored layout nodes
  fits : ∀ q, (k.queues.messages q).size ≤ k.queues.maxMessages q
  called : ∀ p c q, k.pcbs.cpuState p = .transferResult c q → k.pcbs.syscall p = some c.syscall
  points : ∀ p c, (k.pcbs.cpuState p).transferOf = some c → k.NonBlocking p c.fd →
    k.TransferPoint p (k.pcbs.cpuState p)

/-- The test of a call finds the queue full, or empty, where there is no room. -/
theorem NonBlockInv.transferBlocked_iff (h : k.NonBlockInv layout) {op : Transfer} :
    k.transferBlocked op q = true ↔ ¬ k.HasRoom q op := by
  obtain ⟨nodes, hstored⟩ := h.stored
  have hsize := hstored.size q
  have hfits := h.fits q
  cases op with
  | receive =>
    change decide ((k.queues.messages q).size = 0) = true ↔ ¬ 0 < (k.queues.messages q).size
    rw [decide_eq_true_eq]
    omega
  | send =>
    change decide ((k.queues.messages q).size = k.queues.maxMessages q) = true ↔
      ¬ (k.queues.messages q).size < k.queues.maxMessages q
    rw [decide_eq_true_eq]
    omega

/-- A call stands where it can after a step in which its process does not move. -/
theorem NonBlockInv.point_of_same (h : k.NonBlockInv layout) (hsafe : k.NonBlockSafe a)
    (hstep : k.step a = some k') (hsame : k'.pcbs.cpuState p = k.pcbs.cpuState p)
    (hquiet : ¬ (k.running = some p ∧ ∃ c next, k.Calls p a c next)) {c : TransferCall}
    (hc : (k'.pcbs.cpuState p).transferOf = some c) (hnonBlock : k'.NonBlocking p c.fd) :
    k'.TransferPoint p (k'.pcbs.cpuState p) := by
  have hnoCall : ∀ call, k.request a = some call → k.running ≠ some p := by
    intro call hrequest hp
    obtain ⟨next, hcalls, -⟩ := step_syscall hp hrequest hstep
    exact hquiet ⟨hp, call, next, hcalls⟩
  have hfiles := sameFor_of_nonBlocking h.files hsafe.1 hstep (fun c hc _ ↦ hnoCall c hc) hnonBlock
  have hbefore := hnonBlock.of_sameFor hfiles
  obtain ⟨nodes, hstored⟩ := h.stored
  have hroom {q : Addr} (hchecked : k.Checked p c q) (hhas : k.HasRoom q c.op) : k'.HasRoom q c.op :=
    (hstored.roomStep hsafe.1 hstep).hasRoom hsafe ⟨c, rfl, hchecked, hbefore⟩ hhas
      fun msg fd hrequest hp ↦ absurd hp (hrequest.elim (hnoCall _) (hnoCall _))
  rw [hsame] at hc ⊢
  have hpoint := h.points p c hc hbefore
  cases hcontext : k.pcbs.cpuState p with
  | transferSize c' q =>
    rw [hcontext] at hpoint hc
    obtain rfl := Option.some.inj hc
    exact hpoint.of_sameFor hfiles
  | transferFind c' q =>
    rw [hcontext] at hpoint hc
    obtain rfl := Option.some.inj hc
    exact hpoint.of_sameFor hfiles
  | transferRoom c' q ds =>
    rw [hcontext] at hpoint hc
    obtain rfl := Option.some.inj hc
    obtain ⟨hrefers, hds, hfd⟩ := hpoint
    refine ⟨hrefers.of_sameFor hfiles, ?_, (hfiles.kept ds hds).fd.trans hfd⟩
    rw [hfiles.nodes]
    exact hds
  | transferCall c' q =>
    rw [hcontext] at hpoint hc
    obtain rfl := Option.some.inj hc
    exact ⟨hpoint.1.of_sameFor hfiles, hroom (.inl hcontext) hpoint.2⟩
  | transferRetry c' q =>
    rw [hcontext] at hpoint hc
    obtain rfl := Option.some.inj hc
    exact ⟨hpoint.1.of_sameFor hfiles, hroom (.inr (.inl hcontext)) hpoint.2⟩
  | transferResult c' q =>
    rw [hcontext] at hpoint hc
    obtain rfl := Option.some.inj hc
    refine ⟨hpoint.1.of_sameFor hfiles, fun hfailed ↦ ?_⟩
    have hcalled := h.called p c' q hcontext
    obtain ⟨-, hret⟩ | ⟨_, _, -, hwait⟩ | hcalls := step_retvalue hsafe.1 hstep p
    · rw [hret] at hfailed
      exact hroom (.inr (.inr ⟨hcontext, hfailed⟩)) (hpoint.2 hfailed)
    · rw [hcalled] at hwait
      cases hop : c'.op <;> simp [TransferCall.syscall, hop] at hwait
    · exact absurd hcalls hquiet
  | _ => trivial

/-- A call stands where it can after its own system call. -/
theorem NonBlockInv.point_of_call (h : k.NonBlockInv layout) (hsafe : k.NonBlockSafe a)
    (hstep : k.step a = some k') (hp : k.running = some p) {call : Syscall} {next : Context}
    (hcalls : k.Calls p a call next) {c : TransferCall} (hc : next.transferOf = some c)
    (hnonBlock : k'.NonBlocking p c.fd) : k'.TransferPoint p next := by
  have hrequest := hcalls.request hp
  have hsameFor (hkind : call.touchesFiles = false) : k.files.SameFor k'.files p := by
    refine sameFor_of_nonBlocking h.files hsafe.1 hstep (fun call' hcall' hkind' ↦ ?_) hnonBlock
    obtain rfl := Option.some.inj (hrequest.symm.trans hcall')
    exact absurd (hkind'.symm.trans hkind) Bool.noConfusion
  obtain ⟨nodes, hstored⟩ := h.stored
  have hroom {q : Addr} (hkind : call.touchesFiles = false) (hchecked : k.Checked p c q)
      (hhas : k.HasRoom q c.op)
      (hown : ∀ msg fd, call = .sendMsg msg fd ∨ call = .recvMsg msg fd →
        k'.pcbs.syscallRetvalue p ≠ 0) : k'.HasRoom q c.op := by
    have hbefore := hnonBlock.of_sameFor (hsameFor hkind)
    refine (hstored.roomStep hsafe.1 hstep).hasRoom hsafe ⟨c, rfl, hchecked, hbefore⟩ hhas ?_
    rintro msg fd hkinds -
    refine hown msg fd (hkinds.imp ?_ ?_) <;>
      exact fun hrequest' ↦ Option.some.inj (hrequest.symm.trans hrequest')
  cases hcalls with
  | user _ _ _ => cases hc
  | statement _ _ hpoint =>
    cases hcontext : k.pcbs.cpuState p with
    | transferCall c' q =>
      rw [hcontext] at hpoint
      obtain ⟨rfl, rfl⟩ := Prod.mk.inj (Option.some.inj hpoint)
      obtain rfl := Option.some.inj hc
      have hkind := c'.touchesFiles_syscall
      have hbefore := h.points p c' (by rw [hcontext]; rfl) (hnonBlock.of_sameFor (hsameFor hkind))
      rw [hcontext] at hbefore
      refine ⟨hbefore.1.of_sameFor (hsameFor hkind), fun hfailed ↦ ?_⟩
      exact hroom hkind (.inl hcontext) hbefore.2 fun _ _ _ ↦ hfailed ▸ c'.op.failure_ne_zero
    | transferRetry c' q =>
      rw [hcontext] at hpoint
      obtain ⟨rfl, rfl⟩ := Prod.mk.inj (Option.some.inj hpoint)
      obtain rfl := Option.some.inj hc
      have hbefore := h.points p c' (by rw [hcontext]; rfl) (hnonBlock.of_sameFor (hsameFor rfl))
      rw [hcontext] at hbefore
      refine ⟨hbefore.1.of_sameFor (hsameFor rfl), hroom rfl (.inr (.inl hcontext)) hbefore.2 ?_⟩
      simp
    | _ =>
      rw [hcontext] at hpoint
      simp only [Context.request, Option.some.injEq, Prod.mk.injEq, reduceCtorEq] at hpoint <;>
        obtain ⟨-, rfl⟩ := hpoint <;> cases hc

/-- A call stands where it can after one of its own statements. -/
theorem NonBlockInv.point_of_statement (h : k.NonBlockInv layout) (hsafe : k.NonBlockSafe .statement)
    (hstep : k.step .statement = some k') (hp : k.running = some p) {next : Context}
    (hnext : k'.pcbs.cpuState p = next) (hstatement : k.StatementNext p (k.pcbs.cpuState p) next)
    {c : TransferCall} (hc : next.transferOf = some c) (hnonBlock : k'.NonBlocking p c.fd) :
    k'.TransferPoint p next := by
  have hsameFor (hquiet : (k.pcbs.cpuState p).request = none) : k.files.SameFor k'.files p := by
    refine sameFor_of_nonBlocking h.files hsafe.1 hstep (fun call hcall _ ↦ ?_) hnonBlock
    simp [request, context, hp, hquiet] at hcall
  generalize hcontext : k.pcbs.cpuState p = context at hstatement hsameFor
  cases hstatement with
  | transfer c' q hqueue =>
    obtain rfl := Option.some.inj hc
    exact (refersTo_of_queueByFd h.files hqueue).of_sameFor (hsameFor rfl)
  | transferSize c' q =>
    obtain rfl := Option.some.inj hc
    have hbefore := h.points p c' (by rw [hcontext]; rfl) (hnonBlock.of_sameFor (hsameFor rfl))
    rw [hcontext] at hbefore
    exact hbefore.of_sameFor (hsameFor rfl)
  | transferFind c' q ds found hentries =>
    obtain rfl := Option.some.inj hc
    have hbefore := h.points p c' (by rw [hcontext]; rfl) (hnonBlock.of_sameFor (hsameFor rfl))
    rw [hcontext] at hbefore
    obtain ⟨hds, hfd⟩ := descriptorByFd_some h.files hentries
    refine ⟨hbefore.of_sameFor (hsameFor rfl), ?_, ((hsameFor rfl).kept ds hds).fd.trans hfd⟩
    rw [(hsameFor rfl).nodes]
    exact hds
  | transferRoom c' q ds =>
    obtain rfl := Option.some.inj hc
    have hbefore := h.points p c' (by rw [hcontext]; rfl) (hnonBlock.of_sameFor (hsameFor rfl))
    rw [hcontext] at hbefore
    obtain ⟨hrefers, hds, hfd⟩ := hbefore
    refine ⟨hrefers.of_sameFor (hsameFor rfl), ?_⟩
    -- the test has found room, since the descriptor has the entry
    have hentry := (hnonBlock.of_sameFor (hsameFor rfl)).entry h.files hds hfd
    rw [step_statement hp hcontext rfl, runStatement, hentry, Bool.and_true] at hstep
    split_ifs at hstep with hblocked
    · obtain rfl := Option.some.inj hstep
      simp [setContext] at hnext
    · obtain rfl := Option.some.inj hstep
      exact not_not.mp fun hfull ↦ hblocked (h.transferBlocked_iff.mpr hfull)
  | transferRetry c' q hfailed =>
    obtain rfl := Option.some.inj hc
    have hbefore := hnonBlock.of_sameFor (hsameFor rfl)
    have hpoint := h.points p c' (by rw [hcontext]; rfl) hbefore
    rw [hcontext] at hpoint
    obtain ⟨nodes, hstored⟩ := h.stored
    refine ⟨hpoint.1.of_sameFor (hsameFor rfl), ?_⟩
    refine (hstored.roomStep hsafe.1 hstep).hasRoom hsafe
      ⟨c', rfl, .inr (.inr ⟨hcontext, hfailed⟩), hbefore⟩ (hpoint.2 hfailed) fun msg fd hrequest ↦ ?_
    simp [request, Kernel.context, hp, hcontext, Context.request] at hrequest
  | transferWake c' q => trivial
  | _ => cases hc

/-- Where a call looks at its result, its SEND or RECV was the last system call of its process. -/
theorem called_step (hnoShutdown : k.NoShutdown)
    (hbefore : ∀ p c q, k.pcbs.cpuState p = .transferResult c q → k.pcbs.syscall p = some c.syscall)
    (hshutdown : k.request a ≠ some .shutdown) (hstep : k.step a = some k') (p : Addr)
    (c : TransferCall) (q : Addr) (hcontext : k'.pcbs.cpuState p = .transferResult c q) :
    k'.pcbs.syscall p = some c.syscall := by
  have hrequest (context : Context) (call : Syscall)
      (h : context.request = some (call, .transferResult c q)) : call = c.syscall := by
    cases context <;> simp only [Context.request, Option.some.injEq, Prod.mk.injEq, reduceCtorEq,
      and_false, Context.transferResult.injEq] at h
    obtain ⟨rfl, rfl, rfl⟩ := h
    rfl
  obtain ⟨call, hcall, rfl⟩ := lastCall_step (P := (· = c.syscall)) hnoShutdown hrequest (fun _ ↦ by simp)
    (fun call ↦ by cases call <;> simp [DmqCall.entry]) (fun p context hleads ↦ by cases hleads) hshutdown
    hstep (fun h ↦ ⟨_, hbefore p c q h, rfl⟩) hcontext
  exact hcall

/-- A safe step keeps the non-blocking calls where they can stand. -/
theorem NonBlockInv.step (h : k.NonBlockInv layout) (hsafe : k.NonBlockSafe a)
    (hstep : k.step a = some k') : k'.NonBlockInv layout where
  files := filesOk_step h.files hsafe.1 hstep
  noShutdown := h.noShutdown.step hsafe.1 hstep
  stored := by
    obtain ⟨nodes, hstored⟩ := h.stored
    exact hstored.step hsafe.1 hstep
  fits := by
    obtain ⟨nodes, hstored⟩ := h.stored
    exact (hstored.roomStep hsafe.1 hstep).fits hsafe h.fits
  called := called_step h.noShutdown h.called hsafe.1 hstep
  points p c hc hnonBlock := by
    obtain ⟨hsame, hquiet⟩ | ⟨ret, hret⟩ | ⟨call, hentry⟩ | ⟨call, next, hnext, hp, hcalls, -⟩ |
      ⟨next, hnext, hp, rfl, hstatement⟩ := (step_contexts h.noShutdown hsafe.1 hstep).at p
    · exact h.point_of_same hsafe hstep hsame hquiet hc hnonBlock
    · rw [hret] at hc
      cases hc
    · rw [hentry]
      cases call <;> trivial
    · rw [hnext] at hc ⊢
      exact h.point_of_call hsafe hstep hp hcalls hc hnonBlock
    · rw [hnext] at hc ⊢
      exact h.point_of_statement hsafe hstep hp hnext hstatement hc hnonBlock

/-! ### Descriptors opened without blocking -/

/-- Keeps note of the descriptors that a process has opened with `DSOS_NONBLOCK` and still has. -/
def noteOpen (m : Addr → ℤ → Bool) (k : Kernel) (a : Action) (k' : Kernel) (p : Addr) (fd : ℤ) :
    Bool :=
  (k'.files.descriptorNodes p).any (k'.descriptors.fd · = fd) &&
    match k.request a with
    | some (.openQueue _ fd' mode) =>
      if k.running = some p ∧ fd' = fd then
        hasBit mode dsosNonblock && decide (0 ≤ k'.pcbs.syscallRetvalue p)
      else m p fd
    | _ => m p fd

/-- A descriptor opened with `DSOS_NONBLOCK` has the entry for it. -/
theorem nonBlocking_of_noteOpen {m : Addr → ℤ → Bool} (hok : k.files.Ok)
    (h : ∀ p fd, m p fd = true → k.NonBlocking p fd) (hshutdown : k.request a ≠ some .shutdown)
    (hstep : k.step a = some k') (p : Addr) (fd : ℤ) (hnote : noteOpen m k a k' p fd = true) :
    k'.NonBlocking p fd := by
  unfold noteOpen at hnote
  rw [Bool.and_eq_true, List.any_eq_true] at hnote
  obtain ⟨⟨d', hd', hfd'⟩, hnote⟩ := hnote
  have hfd'' : k'.descriptors.fd d' = fd := by simpa using hfd'
  -- a descriptor that has been opened before keeps its entry
  have hkeeps (hold : m p fd = true)
      (hother : ∀ id mode, k.running = some p → k.request a ≠ some (.openQueue id fd mode)) :
      k'.NonBlocking p fd := by
    obtain ⟨d, hd, rfl, hentry⟩ := h p fd hold
    cases step_descriptor hok hshutdown hstep hd with
    | kept hmem hkept hrwn => exact ⟨d, hmem, hkept.fd, hrwn ▸ hentry⟩
    | entered id mode next hp hcalls => exact absurd (hcalls.request hp) (hother id mode hp)
    | gone hgone => exact absurd hfd'' (hgone d' hd')
  split at hnote
  · rename_i id fd₁ mode hrequest
    split_ifs at hnote with hcase
    · obtain ⟨hp, rfl⟩ := hcase
      rw [Bool.and_eq_true, decide_eq_true_eq] at hnote
      obtain ⟨hbit, hret⟩ := hnote
      obtain ⟨next, hcalls, hcall⟩ := step_syscall hp hrequest hstep
      obtain ⟨d, hfound, hentry⟩ : ∃ d, k.descriptorByFd p fd₁ = some (some d) ∧
          (k'.descriptors.rwn d .nonBlock).isSome :=
        internalOpenQueue_entry (k := k.trap p next (.openQueue id fd₁ mode)) hp hcall hret hbit
      obtain ⟨hd, hfd⟩ := descriptorByFd_some hok hfound
      have hd₀ : d ∈ k.files.descriptorNodes p := hd
      cases step_descriptor hok hshutdown hstep hd₀ with
      | kept hmem hkept => exact ⟨d, hmem, hkept.fd.trans hfd, hentry⟩
      | entered _ _ _ _ _ hmem hkept => exact ⟨d, hmem, hkept.fd.trans hfd, hentry⟩
      | gone hgone => exact absurd (hfd''.trans hfd.symm) (hgone d' hd')
    · refine hkeeps hnote fun id' mode' hp hrequest' ↦ hcase ⟨hp, ?_⟩
      rw [hrequest] at hrequest'
      simp only [Option.some.injEq, Syscall.openQueue.injEq] at hrequest'
      exact hrequest'.2.1
  · rename_i hnone
    exact hkeeps hnote fun id mode _ hrequest ↦ hnone id fd mode hrequest

/-! ### What a call does to its process -/

/-- The processes, their lists and the users of the queues are the same. -/
structure SameProcesses (k k' : Kernel) : Prop where
  lists : k'.lists = k.lists
  list : k'.pcbs.list = k.pcbs.list
  status : k'.pcbs.status = k.pcbs.status
  queueUsers : k'.queueUsers.status = k.queueUsers.status

/-- A SEND with room, or a RECV with a message, only moves a message. -/
theorem Stored.sameProcesses (h : k.Stored layout nodes) (hok : k.files.Ok) {c : TransferCall}
    (hrefers : k.RefersTo p c.fd q) (hroom : k.HasRoom q c.op) (hp : k.running = some p)
    (hcall : syscallVector c.syscall k = some k') : k.SameProcesses k' := by
  unfold TransferCall.syscall at hcall
  unfold HasRoom at hroom
  cases hop : c.op with
  | send =>
    rw [hop] at hcall hroom
    obtain ⟨p', q', entries, hp', hqueue, -, ⟨-, haccept⟩ | ⟨hfull, -⟩⟩ :=
      internalSendMessage_cases hcall
    · have hframe := acceptMessage_eq haccept
      constructor <;> rw [hframe]
    · obtain rfl := Option.some.inj (hp.symm.trans hp')
      obtain rfl := Option.some.inj (hrefers.queue_eq hok hqueue)
      exact absurd hroom (not_lt.mpr hfull)
  | receive =>
    rw [hop] at hcall hroom
    obtain ⟨p', entries, hp', -, ⟨-, rfl⟩ | ⟨buffer, q', -, hqueue,
      ⟨m, k₁, hpop, hdeliver⟩ | ⟨k₁, hpop, -⟩⟩⟩ := internalRecvMessage_cases hcall
    · exact ⟨rfl, rfl, rfl, rfl⟩
    · have hframe := deliverMessage_eq hdeliver
      rw [← (Prod.mk.inj hpop).2] at hframe
      constructor <;> rw [hframe]
    · obtain rfl := Option.some.inj (hp.symm.trans hp')
      obtain rfl := Option.some.inj (hrefers.queue_eq hok hqueue)
      have hnone : nodes q' = [] := by
        rw [← List.head?_eq_none_iff, ← (h.family.represents q').first]
        exact (popMessage_eq_none hpop).1
      have hsize := h.size q'
      rw [hnone] at hsize
      have hsome : 0 < (k.queues.messages q').size := hroom
      rw [hsize] at hsome
      exact absurd hsome (by simp)

/-- Waking the processes whose timers have elapsed marks none as waiting. -/
theorem wakeElapsed_unmarked {bound : ℕ} {previousPcb : Option Addr}
    (hwake : wakeElapsed bound previousPcb k = some k') (x : Addr)
    (hx : k'.pcbs.status x = .waiting) : k.pcbs.status x = .waiting := by
  induction bound generalizing k previousPcb with
  | zero =>
    rw [wakeElapsed] at hwake
    split_ifs at hwake
    rw [Option.some.inj hwake]
    exact hx
  | succ bound ih =>
    rw [wakeElapsed] at hwake
    split at hwake
    · rw [Option.some.inj hwake]
      exact hx
    · rename_i t _
      have hbefore := ih hwake
      rw [wakeProcess_eq] at hbefore
      change update k.pcbs.status (k.timerItems.pcb t) .ready x = .waiting at hbefore
      rw [Function.update_apply] at hbefore
      split_ifs at hbefore
      exact hbefore

theorem internalSchedule_unmarked (hschedule : k.internalSchedule = some k') (x : Addr)
    (hx : k'.pcbs.status x = .waiting) : k.pcbs.status x = .waiting := by
  obtain ⟨k₁, hwake, hswitch⟩ := Option.bind_eq_some_iff.mp hschedule
  refine wakeElapsed_unmarked hwake x ?_
  unfold switchToReady at hswitch
  split at hswitch
  · rw [Option.some.inj hswitch]
    exact hx
  · rename_i next _
    obtain ⟨p, -, hk'⟩ := Option.bind_eq_some_iff.mp hswitch
    rw [← Option.some.inj hk'] at hx
    change update (update k₁.pcbs.status p .ready) next .running x = .waiting at hx
    rw [Function.update_apply, Function.update_apply] at hx
    split_ifs at hx
    exact hx

/-- The calls of process `p` on its descriptor `fd` do not wait. Their SEND or RECV finds room or a
message, and leaves the process in the lists that it is in; no statement of theirs marks a process or an
entry as waiting; and where the test finds the queue full, or empty, they return `EAGAIN`. -/
structure NeverBlocks (p : Addr) (fd : ℤ) (k : Kernel) : Prop where
  room : ∀ c q, k.running = some p → k.pcbs.cpuState p = .transferCall c q → c.fd = fd →
    k.HasRoom q c.op
  transfer : ∀ c q k', k.running = some p → k.pcbs.cpuState p = .transferCall c q → c.fd = fd →
    k.step .statement = some k' → k.SameProcesses k'
  unmarked : ∀ c k', k.running = some p → (k.pcbs.cpuState p).transferOf = some c → c.fd = fd →
    k.step .statement = some k' →
      (∀ x, k'.pcbs.status x = .waiting → k.pcbs.status x = .waiting) ∧
        ∀ u, k'.queueUsers.status u = .waiting → k.queueUsers.status u = .waiting
  refuses : ∀ c q ds, k.running = some p → k.pcbs.cpuState p = .transferRoom c q ds → c.fd = fd →
    ¬ k.HasRoom q c.op → ∃ k', k.step .statement = some k' ∧ k'.pcbs.cpuState p = .user DisastrOS.eagain

theorem NonBlockInv.neverBlocks (h : k.NonBlockInv layout) (hnonBlock : k.NonBlocking p fd) :
    NeverBlocks p fd k := by
  obtain ⟨nodes, hstored⟩ := h.stored
  have htransfer : ∀ c q k', k.running = some p → k.pcbs.cpuState p = .transferCall c q → c.fd = fd →
      k.step .statement = some k' → k.SameProcesses k' := by
    rintro c q k' hp hcontext rfl hstep
    have hpoint := h.points p c (by rw [hcontext]; rfl) hnonBlock
    rw [hcontext] at hpoint
    have hrequest : k.request .statement = some c.syscall := by
      simp [request, context, hp, hcontext, Context.request]
    obtain ⟨next, -, hcall⟩ := step_syscall hp hrequest hstep
    have htrap : (k.trap p next c.syscall).Stored layout nodes := hstored.congr rfl
    have hsame := htrap.sameProcesses (p := p) (q := q) h.files hpoint.1 hpoint.2 hp hcall
    exact ⟨hsame.lists, hsame.list, hsame.status, hsame.queueUsers⟩
  constructor
  · rintro c q - hcontext rfl
    have hpoint := h.points p c (by rw [hcontext]; rfl) hnonBlock
    rw [hcontext] at hpoint
    exact hpoint.2
  · exact htransfer
  · rintro c k' hp hc rfl hstep
    have hquiet (hrequest : (k.pcbs.cpuState p).request = none) :
        (∀ x, k'.pcbs.status x = .waiting → k.pcbs.status x = .waiting) ∧
          ∀ u, k'.queueUsers.status u = .waiting → k.queueUsers.status u = .waiting := by
      rw [step_statement hp rfl hrequest] at hstep
      have hframe := runStatement_eq hstep
      constructor
      · intro x hx
        rwa [hframe] at hx
      · intro u hu
        rwa [hframe] at hu
    cases hcontext : k.pcbs.cpuState p with
    | transfer | transferSize | transferFind | transferRoom | transferResult =>
      exact hquiet (by rw [hcontext]; rfl)
    | transferCall c' q =>
      rw [hcontext] at hc
      obtain rfl := Option.some.inj hc
      have hsame := htransfer c' q k' hp hcontext rfl hstep
      exact ⟨fun x hx ↦ hsame.status ▸ hx, fun u hu ↦ hsame.queueUsers ▸ hu⟩
    | transferRetry c' q =>
      have hrequest : k.request .statement = some .preempt := by
        simp [request, context, hp, hcontext, Context.request]
      obtain ⟨next, -, hcall⟩ := step_syscall hp hrequest hstep
      refine ⟨internalSchedule_unmarked (k := k.trap p next .preempt) hcall, fun u hu ↦ ?_⟩
      rwa [internalSchedule_eq hcall] at hu
    | transferWake c' q =>
      have hrequest : k.request .statement =
          some (.wakeupQueue c'.op.wakeupCheck q (q, c'.op.otherRole)) := by
        simp [request, context, hp, hcontext, Context.request]
      obtain ⟨next, -, hcall⟩ := step_syscall hp hrequest hstep
      obtain ⟨p', -, ⟨entry, x, -, -, rfl⟩ | ⟨-, rfl⟩⟩ := internalWakeUpQueue_cases hcall
      · refine ⟨fun _ hx ↦ hx, fun u hu ↦ ?_⟩
        change update k.queueUsers.status entry .running u = .waiting at hu
        rw [Function.update_apply] at hu
        split_ifs at hu
        exact hu
      · exact ⟨fun _ hx ↦ hx, fun _ hu ↦ hu⟩
    | _ =>
      rw [hcontext] at hc
      cases hc
  · rintro c q ds hp hcontext rfl hfull
    have hpoint := h.points p c (by rw [hcontext]; rfl) hnonBlock
    rw [hcontext] at hpoint
    have hentry := hnonBlock.entry h.files hpoint.2.1 hpoint.2.2
    refine ⟨k.setContext p (.user DisastrOS.eagain), ?_, Function.update_self ..⟩
    rw [step_statement hp hcontext rfl, runStatement, hentry, h.transferBlocked_iff.mpr hfull]
    rfl

/-! ### One process -/

/-- Only process `p` runs, and the action is no shutdown and sets no capacity below the number of the
messages. -/
def Solo (p : Addr) (k : Kernel) (a : Action) : Prop :=
  (∀ p' ∈ k.running, p' = p) ∧ k.request a ≠ some .shutdown ∧
    ∀ w ∈ k.attributeWrite a, w.2.1 = attQueueMaxMessages → (k.queues.messages w.1).size ≤ w.2.2

instance (p : Addr) (k : Kernel) (a : Action) : Decidable (k.Solo p a) :=
  inferInstanceAs (Decidable ((∀ p' ∈ k.running, _) ∧ _ ∧ ∀ w ∈ k.attributeWrite a, _ → _))

/-- The processes other than `p` are outside the queue functions. -/
def OthersOutside (p : Addr) (k : Kernel) : Prop :=
  k.NoShutdown ∧ ∀ p', p' ≠ p → ∃ ret, k.pcbs.cpuState p' = .user ret

theorem OthersOutside.step (h : k.OthersOutside p) (hsolo : k.Solo p a) (hstep : k.step a = some k') :
    k'.OthersOutside p := by
  refine ⟨h.1.step hsolo.2.1 hstep, fun p' hp' ↦ ?_⟩
  have hbefore := h.2 p' hp'
  have hother {p₁ : Addr} (hp₁ : k.running = some p₁) : p' ≠ p₁ := by
    rintro rfl
    exact hp' (hsolo.1 p' hp₁)
  have hnew {contexts : Addr → Context} {child : Addr} (hcontexts : ∃ ret, contexts p' = .user ret) :
      ∃ ret, update contexts child (.user 0) p' = .user ret := by
    rw [Function.update_apply]
    split_ifs
    · exact ⟨0, rfl⟩
    · exact hcontexts
  cases step_contexts h.1 hsolo.2.1 hstep with
  | same hcontexts =>
    rw [hcontexts]
    exact hbefore
  | start child _ _ hcontexts =>
    rw [hcontexts]
    exact hnew hbefore
  | call p₁ c ret _ hp₁ _ hsame =>
    have hcontext : k'.pcbs.cpuState p' = k.pcbs.cpuState p' := by
      rw [hsame]
      exact Function.update_of_ne (hother hp₁) ..
    rw [hcontext]
    exact hbefore
  | syscall p₁ c next hp₁ _ _ hcontexts =>
    rw [hcontexts, Function.update_of_ne (hother hp₁)]
    exact hbefore
  | spawn p₁ child next hp₁ _ _ _ hcontexts =>
    rw [hcontexts]
    refine hnew ?_
    rw [Function.update_of_ne (hother hp₁)]
    exact hbefore
  | statement p₁ next _ hp₁ _ _ _ hcontexts =>
    rw [hcontexts, Function.update_of_ne (hother hp₁)]
    exact hbefore

theorem Checked.transferOf {c : TransferCall} (h : k.Checked p c q) :
    (k.pcbs.cpuState p).transferOf = some c := by
  obtain hcontext | hcontext | ⟨hcontext, -⟩ := h <;> rw [hcontext] <;> rfl

theorem OthersOutside.eq_of_transferOf (h : k.OthersOutside p) {c : TransferCall}
    (hc : (k.pcbs.cpuState p').transferOf = some c) : p' = p := by
  by_contra hne
  obtain ⟨ret, hret⟩ := h.2 p' hne
  rw [hret] at hc
  cases hc

theorem context_of_attributeWrite {w : Addr × ℤ × ℤ} (hw : k.attributeWrite a = some w) :
    ∃ p, k.running = some p ∧ k.pcbs.cpuState p = .setattrWrite w.1 w.2.1 w.2.2 := by
  unfold attributeWrite at hw
  split at hw
  · rename_i hcontext
    obtain ⟨p, hp, hcontext⟩ := Option.map_eq_some_iff.mp hcontext
    obtain rfl := Option.some.inj hw
    exact ⟨p, hp, hcontext⟩
  · cases hw

/-- A process in `dmq_send` or `dmq_receive` frees no queue, and sets none up. -/
theorem keepsQueueCall_of_transferOf {c : TransferCall} {call : Syscall} (hp : k.running = some p)
    (hc : (k.pcbs.cpuState p).transferOf = some c) (hrequest : k.request a = some call) :
    k.KeepsQueueCall q call := by
  cases a with
  | statement =>
    have hcall : ((k.pcbs.cpuState p).request).map Prod.fst = some call := by
      simpa [request, context, hp] using hrequest
    cases hcontext : k.pcbs.cpuState p with
    | transferCall c' q' =>
      rw [hcontext] at hcall
      obtain rfl := Option.some.inj hcall
      unfold TransferCall.syscall
      cases c'.op <;> trivial
    | transferRetry c' q' | transferWake c' q' =>
      rw [hcontext] at hcall
      obtain rfl := Option.some.inj hcall
      trivial
    | transfer | transferSize | transferFind | transferRoom | transferResult =>
      rw [hcontext] at hcall
      cases hcall
    | _ =>
      rw [hcontext] at hc
      cases hc
  | syscall call' =>
    have huser : k.atUser = true := by
      by_contra hnot
      simp [request, hnot] at hrequest
    obtain ⟨p', ret, hp', hcontext⟩ := atUser_iff.mp huser
    obtain rfl := Option.some.inj (hp.symm.trans hp')
    rw [hcontext] at hc
    cases hc
  | start | timer | write | call => cases hrequest

/-- Where one process runs, nothing comes between the test and the SEND or RECV. -/
theorem OthersOutside.nonBlockSafe (h : k.OthersOutside p) (hsolo : k.Solo p a) : k.NonBlockSafe a := by
  have hpending {op : Transfer} {q p' : Addr} (hp' : k.Pending op q p') :
      p' = p ∧ ∃ c, (k.pcbs.cpuState p').transferOf = some c := by
    obtain ⟨c, -, hchecked, -⟩ := hp'
    exact ⟨h.eq_of_transferOf hchecked.transferOf, c, hchecked.transferOf⟩
  refine ⟨hsolo.2.1, fun w hw hattr ↦ ⟨hsolo.2.2 w hw hattr, ?_⟩, fun c hc op q p' hp' ↦ ⟨?_, ?_⟩⟩
  · rintro ⟨p', hp'⟩
    obtain ⟨rfl, c, hc⟩ := hpending hp'
    obtain ⟨p₁, hp₁, hcontext⟩ := context_of_attributeWrite hw
    obtain rfl := hsolo.1 p₁ hp₁
    rw [hcontext] at hc
    cases hc
  · obtain ⟨rfl, c', hc'⟩ := hpending hp'
    obtain ⟨p₁, hp₁⟩ := running_of_request hc
    obtain rfl := hsolo.1 p₁ hp₁
    exact keepsQueueCall_of_transferOf hp₁ hc' hc
  · intro p₁ hp₁ hne
    exact absurd ((hsolo.1 p₁ hp₁).trans (hpending hp').1.symm) hne

end Kernel

/-! ### Runs -/

theorem Layout.boot_nonBlockInv (layout : Layout) : layout.boot.NonBlockInv layout where
  files := layout.boot_filesOk
  noShutdown := layout.boot_capacities.noShutdown
  stored := ⟨_, layout.boot_stored⟩
  fits _ := le_rfl
  called _ _ _ hcontext := by cases hcontext
  points _ _ hc _ := by cases hc

/-- The calls on a descriptor opened with `DSOS_NONBLOCK` do not wait, if no step of the run sets the
capacity of a queue below the number of its messages, or takes away the last room, the last message or
the queue that such a call has found. -/
theorem neverBlocks_of_safe (layout : Layout) {actions : List Action} {k : Kernel} {p : Addr} {fd : ℤ}
    (hsafe : Runs.Meets Kernel.step Kernel.NonBlockSafe layout.boot actions)
    (hrun : Runs.run Kernel.step layout.boot actions = some k)
    (hopened : Runs.monitor Kernel.step Kernel.noteOpen (fun _ _ ↦ false) layout.boot actions p fd =
      true) : Kernel.NeverBlocks p fd k := by
  have hstep : ∀ m k a k', (Kernel.NonBlockInv layout k ∧ ∀ p fd, m p fd = true → k.NonBlocking p fd) →
      k.NonBlockSafe a → k.step a = some k' → Kernel.NonBlockInv layout k' ∧
        ∀ p fd, Kernel.noteOpen m k a k' p fd = true → k'.NonBlocking p fd := by
    rintro m k a k' ⟨hinv, hopen⟩ hsafe hstep
    exact ⟨hinv.step hsafe hstep, Kernel.nonBlocking_of_noteOpen hinv.files hopen hsafe.1 hstep⟩
  have hstart : ∀ p fd, (fun _ _ ↦ false : Addr → ℤ → Bool) p fd = true →
      layout.boot.NonBlocking p fd := fun _ _ hfalse ↦ by cases hfalse
  obtain ⟨hinv, hopen⟩ := Runs.monitor_invariant hstep ⟨layout.boot_nonBlockInv, hstart⟩ hsafe hrun
  exact hinv.neverBlocks (hopen p fd hopened)

/-- The first process opens a queue with `DSOS_NONBLOCK`. -/
def openNonBlocking : List Action :=
  [.start, .call (.openQueue 0 0o53), .statement, .statement, .statement, .statement]

/-- It sets the capacity of the queue to one. -/
def capacityOne : List Action := [.call (.setattr 0 1 1), .statement, .statement, .statement]

/-- It sends a message. -/
def sendOne : List Action := .call (.send 0 (some 0x800000) 2) :: List.replicate 7 .statement

/-- The queue is full with one message, and the second send is before its test. -/
theorem neverBlocks_of_safe_fullQueue : ∃ k,
    Runs.run Kernel.step sampleLayout.boot
        (openNonBlocking ++ capacityOne ++ sendOne ++ sendOne.take 4) = some k ∧
      k.running = some 0x400000 ∧ (∃ c q ds, k.pcbs.cpuState 0x400000 = .transferRoom c q ds ∧
        ¬ k.HasRoom q c.op) ∧ Kernel.NeverBlocks 0x400000 0 k := by
  have hruns : ∃ k ∈ Runs.run Kernel.step sampleLayout.boot
      (openNonBlocking ++ capacityOne ++ sendOne ++ sendOne.take 4),
      k.running = some 0x400000 ∧
        k.pcbs.cpuState 0x400000 = .transferRoom ⟨.send, 0, some 0x800000, 2⟩ 0x1900000 0x2200000 ∧
        ¬ (k.queues.messages 0x1900000).size < k.queues.maxMessages 0x1900000 := by
    decide +kernel
  have hsolo : Runs.Meets Kernel.step (Kernel.Solo 0x400000) sampleLayout.boot
      (openNonBlocking ++ capacityOne ++ sendOne ++ sendOne.take 4) := by
    decide +kernel
  have hopened : Runs.monitor Kernel.step Kernel.noteOpen (fun _ _ ↦ false) sampleLayout.boot
      (openNonBlocking ++ capacityOne ++ sendOne ++ sendOne.take 4) 0x400000 0 = true := by
    decide +kernel
  have hstart : sampleLayout.boot.OthersOutside 0x400000 :=
    ⟨sampleLayout.boot_capacities.noShutdown, fun _ _ ↦ ⟨0, rfl⟩⟩
  have hsafe := Runs.Meets.of_invariant (fun _ _ _ h hsolo hstep ↦ Kernel.OthersOutside.step h hsolo hstep)
    (fun _ _ h hsolo ↦ Kernel.OthersOutside.nonBlockSafe h hsolo) hstart hsolo
  obtain ⟨k, hrun, hrunning, hcontext, hfull⟩ := hruns
  exact ⟨k, hrun, hrunning, ⟨_, _, _, hcontext, hfull⟩, neverBlocks_of_safe _ hsafe hrun hopened⟩

/-- With two messages in the queue and a capacity of one, a send without blocking puts its process in
`waiting_list`: the test compares the two numbers for equality. -/
theorem loweredCapacity_blocks : ∃ k k',
    Runs.run Kernel.step sampleLayout.boot
        (openNonBlocking ++ sendOne ++ sendOne ++ capacityOne ++ sendOne.take 5) = some k ∧
      Runs.monitor Kernel.step Kernel.noteOpen (fun _ _ ↦ false) sampleLayout.boot
        (openNonBlocking ++ sendOne ++ sendOne ++ capacityOne ++ sendOne.take 5) 0x400000 0 = true ∧
      k.running = some 0x400000 ∧ k.step .statement = some k' ∧
        (k'.lists .waiting).first = some 0x400000 ∧ k'.pcbs.status 0x400000 = .waiting ∧
          ¬ Kernel.NeverBlocks 0x400000 0 k := by
  have hruns : ∃ k ∈ Runs.run Kernel.step sampleLayout.boot
      (openNonBlocking ++ sendOne ++ sendOne ++ capacityOne ++ sendOne.take 5),
      k.running = some 0x400000 ∧
        k.pcbs.cpuState 0x400000 = .transferCall ⟨.send, 0, some 0x800000, 2⟩ 0x1900000 ∧
        ¬ (k.queues.messages 0x1900000).size < k.queues.maxMessages 0x1900000 ∧
          ∃ k' ∈ k.step .statement, (k'.lists .waiting).first = some 0x400000 ∧
            k'.pcbs.status 0x400000 = .waiting := by
    decide +kernel
  have hopened : Runs.monitor Kernel.step Kernel.noteOpen (fun _ _ ↦ false) sampleLayout.boot
      (openNonBlocking ++ sendOne ++ sendOne ++ capacityOne ++ sendOne.take 5) 0x400000 0 = true := by
    decide +kernel
  obtain ⟨k, hrun, hrunning, hcontext, hfull, k', hstep, hlisted, hwaiting⟩ := hruns
  refine ⟨k, k', hrun, hopened, hrunning, hstep, hlisted, hwaiting, fun hnever ↦ ?_⟩
  exact hfull (hnever.room _ _ hrunning hcontext rfl)

end DisastrOS
