import DisastrOS.Library.PendingWakeups
import DisastrOS.ListSteps
import DisastrOS.Wakeups
import DisastrOS.WakeupPoints

/-!
# Steps of the processes that use a queue

A call of `dmq_send` or `dmq_receive` takes a unit of a supply: room in the queue, or a message. `wakeups`
says who is about to take one, who is about to wake somebody, and who is blocked; and `TransferStep` says what
a step does to the supply, to the lists of processes and to the marks of the users (`transferStep`). The
condition on the steps is `MessagingSafe`: the lists of processes stay in order, the queues are used through
`dmq_open`, `dmq_close`, `dmq_send`, `dmq_receive`, `dmq_getattr` and `dmq_setattr`, and nobody exits.
-/

set_option autoImplicit false
set_option relaxedAutoImplicit false

namespace DisastrOS

open LinkedLists PoolAllocator
open Function (update)

theorem Transfer.eq_of_role {op op' : Transfer} (h : op.role = op'.role) : op = op' := by
  cases op <;> cases op' <;> first | rfl | cases h

theorem Transfer.otherRole_of_ne {op op' : Transfer} (h : op' ≠ op) : op.otherRole = op'.role := by
  cases op <;> cases op' <;> first | rfl | exact absurd rfl h

namespace Kernel

variable {layout : Layout} {nodes : Addr → List Addr} {k k' : Kernel} {a : Action}
  {m : Addr → Option Opening} {p q x d u : Addr} {c : TransferCall} {op : Transfer}

/-! ### Who takes, who wakes and who is blocked -/

/-- What a call takes of queue `q`: a message, or room for one. -/
def supply (k : Kernel) (op : Transfer) (q : Addr) : ℤ :=
  match op with
  | .receive => (k.queues.messages q).size
  | .send => k.queues.maxMessages q - (k.queues.messages q).size

/-- The process runs or is ready, and does not wait. -/
def Awake (k : Kernel) (p : Addr) : Prop :=
  (k.running = some p ∨ p ∈ k.pcbNodes .ready) ∧ p ∉ k.pcbNodes .waiting

/-- Process `p` has moved a message, and its WAKEUP is still to come. -/
def Moved (k : Kernel) (p : Addr) (c : TransferCall) (q : Addr) : Prop :=
  k.pcbs.cpuState p = .transferWake c q ∨
    k.pcbs.cpuState p = .transferResult c q ∧ k.pcbs.syscallRetvalue p ≠ c.op.failure

/-- Process `p` is in `waiting_list`, and its entry in the queue is marked `Waiting`. -/
def Blocked (k : Kernel) (op : Transfer) (q p : Addr) : Prop :=
  p ∈ k.pcbNodes .waiting ∧
    ∃ u ∈ k.userNodes (q, op.role), k.queueUsers.status u = .waiting ∧ k.queueUsers.pid u = k.pcbs.pid p

instance (k : Kernel) (op : Transfer) (q p : Addr) : Decidable (k.Blocked op q p) :=
  inferInstanceAs (Decidable (_ ∧ ∃ u ∈ _, _))

/-- The messages of a queue and its receivers, or the room in it and its senders. -/
def wakeups (k : Kernel) (op : Transfer) (q : Addr) : PendingWakeups.State Addr where
  supply := k.supply op q
  trying := {p | k.Awake p ∧ ∃ c, c.op = op ∧ k.Checked p c q}
  waking := {p | k.Awake p ∧ ∃ c, c.op ≠ op ∧ k.Moved p c q}
  blocked := {p | k.Blocked op q p}

/-! ### The condition -/

/-- The system call belongs to the runs: no process exits, and messages are moved by `dmq_send` and
`dmq_receive` only. -/
def MessagingCall (a : Action) : Syscall → Prop
  | .exit _ => False
  | .sendMsg .. | .recvMsg .. | .wakeupQueue .. => a = .statement
  | _ => True

instance (a : Action) : ∀ c, Decidable (MessagingCall a c)
  | .exit _ => isFalse not_false
  | .sendMsg .. | .recvMsg .. | .wakeupQueue .. => inferInstanceAs (Decidable (a = .statement))
  | .preempt | .fork | .wait .. | .spawn | .sleep _ | .openResource .. | .closeResource _
  | .destroyResource _ | .shutdown | .openQueue .. => isTrue trivial

/-- The step keeps the lists of processes in order, and belongs to the runs. -/
def MessagingSafe (k : Kernel) (a : Action) : Prop :=
  k.ListsSafe a ∧ k.MembersSafe a ∧ ∀ c ∈ k.request a, MessagingCall a c

instance (k : Kernel) (a : Action) : Decidable (k.MessagingSafe a) :=
  inferInstanceAs (Decidable (_ ∧ _ ∧ ∀ c ∈ k.request a, MessagingCall a c))

theorem MessagingSafe.noExit (h : k.MessagingSafe a) (value : ℤ) : k.request a ≠ some (.exit value) :=
  fun hrequest ↦ h.2.2 _ hrequest

/-- A call that marks or unmarks a user is the one of a `dmq_send` or `dmq_receive`. -/
theorem MessagingSafe.marks (h : k.MessagingSafe a) {call : Syscall} (hrequest : k.request a = some call)
    (hmarks : call.marksUsers = true) : a = .statement ∧ ∃ p, k.running = some p ∧ ∃ c q,
      k.pcbs.cpuState p = .transferCall c q ∨ k.pcbs.cpuState p = .transferWake c q := by
  have hstatement : a = .statement := by
    have hcall := h.2.2 call hrequest
    cases call <;> first | exact hcall | cases hmarks
  subst hstatement
  obtain ⟨p, hp⟩ := running_of_request hrequest
  refine ⟨rfl, p, hp, ?_⟩
  rw [request, context, hp, Option.map_some, Option.bind_some] at hrequest
  generalize k.pcbs.cpuState p = point at hrequest
  cases point with
  | transferCall c q => exact ⟨c, q, .inl rfl⟩
  | transferWake c q => exact ⟨c, q, .inr rfl⟩
  | _ =>
    simp only [Context.request, Option.map_some, Option.map_none, Option.some.injEq, reduceCtorEq]
      at hrequest <;> subst hrequest <;> cases hmarks

/-! ### What a step does -/

/-- The step leaves the lists of processes, the sleepers and the users of the queues alone. -/
structure SameWaits (k k' : Kernel) : Prop where
  nodes : k'.pcbNodes = k.pcbNodes
  running : k'.running = k.running
  sleepers : k'.sleepers = k.sleepers
  status : k'.queueUsers.status = k.queueUsers.status
  users : k'.userNodes = k.userNodes

/-- What a step does to the supply, to the lists of processes and to the marks. -/
inductive TransferStep (k : Kernel) (a : Action) (k' : Kernel) : Prop
  | moved (p q : Addr) (c : TransferCall) (haction : a = .statement) (hrunning : k.running = some p)
    (hcontext : k.pcbs.cpuState p = .transferCall c q)
    (hret : k'.pcbs.syscallRetvalue p ≠ c.op.failure) (hroom : 0 < k.supply c.op q)
    (hsupply : ∀ op x, k'.supply op x = if x = q then
      if op = c.op then k.supply op x - 1 else k.supply op x + 1 else k.supply op x)
    (hsame : k.SameWaits k')
  | refused (p q : Addr) (c : TransferCall) (haction : a = .statement) (hrunning : k.running = some p)
    (hcontext : k.pcbs.cpuState p = .transferCall c q)
    (hret : k'.pcbs.syscallRetvalue p = c.op.failure) (hsupply : k'.supply = k.supply)
    (hsame : k.SameWaits k')
  | waits (p q d u : Addr) (c : TransferCall) (haction : a = .statement) (hrunning : k.running = some p)
    (hcontext : k.pcbs.cpuState p = .transferCall c q)
    (hret : k'.pcbs.syscallRetvalue p = c.op.failure) (hsupply : k'.supply = k.supply)
    (hempty : k.supply c.op q ≤ 0) (hentries : k.queueEntries p c.fd = some (some d))
    (hentry : k.descriptors.rwn d c.op.role = some u)
    (hnodes : k'.pcbNodes = parkedNodes k.pcbNodes .waiting p) (hsame : k'.running = k.running)
    (hsleepers : k'.sleepers = k.sleepers)
    (hstatus : k'.queueUsers.status = update k.queueUsers.status u .waiting)
    (husers : k'.userNodes = k.userNodes)
  | wakes (p q x u : Addr) (c : TransferCall) (haction : a = .statement) (hrunning : k.running = some p)
    (hcontext : k.pcbs.cpuState p = .transferWake c q) (hsupply : k'.supply = k.supply)
    (hwaiting : x ∈ k.pcbNodes .waiting) (hmember : u ∈ k.userNodes (q, c.op.otherRole))
    (hmarked : k.queueUsers.status u = .waiting) (hpid : k.pcbs.pid x = k.queueUsers.pid u)
    (hnodes : k'.pcbNodes = wokenNodes k.pcbNodes (k.pcbNodes .ready) [x] [])
    (hsame : k'.running = k.running) (hsleepers : k'.sleepers = k.sleepers)
    (hstatus : k'.queueUsers.status = update k.queueUsers.status u .running)
    (husers : k'.userNodes = k.userNodes)
  | passes (p q : Addr) (c : TransferCall) (haction : a = .statement) (hrunning : k.running = some p)
    (hcontext : k.pcbs.cpuState p = .transferWake c q) (hsupply : k'.supply = k.supply)
    (hnone : ∀ op, op ≠ c.op → k.supply op q ≤ 0 ∨ ∀ x, ¬ k.Blocked op q x) (hsame : k.SameWaits k')
  | other (hquiet : ∀ call, k.request a = some call → call.marksUsers = false)
    (hlists : k.ListStep a k') (hmarks : k.KeepsMarks k')
    (hsupply : ∀ op q, k'.supply op q ≤ k.supply op q ∨ ¬ k.queues.allocator.Allocated q ∨
      op = .send ∧ ∃ newVal, k.attributeWrite a = some (q, attQueueMaxMessages, newVal) ∧
        k.queues.maxMessages q < newVal)

theorem supply_congr (hsizes : ∀ x, (k'.queues.messages x).size = (k.queues.messages x).size)
    (hmax : k'.queues.maxMessages = k.queues.maxMessages) : k'.supply = k.supply := by
  funext op x
  cases op <;> simp only [supply, hsizes, hmax]

theorem SameWaits.of_frame (hlist : k'.pcbs.list = k.pcbs.list) (hlists : k'.lists = k.lists)
    (hrunning : k'.running = k.running) (hitems : k'.timerItems = k.timerItems)
    (htimers : k'.timerList = k.timerList) (husers : k'.queueUsers = k.queueUsers)
    (hheads : k'.queues.users = k.queues.users) : k.SameWaits k' where
  nodes := by
    funext i
    rw [pcbNodes, pcbNodes, hlist, hlists]
  running := hrunning
  sleepers := sleepers_congr hitems htimers
  status := by rw [husers]
  users := userNodes_congr husers hheads

/-- A step that makes one message come or go. -/
theorem supply_moved {δ : ℤ} (hsizes : ∀ x, (k'.queues.messages x).size =
      if x = q then (k.queues.messages q).size + δ else (k.queues.messages x).size)
    (hmax : k'.queues.maxMessages = k.queues.maxMessages) (hδ : δ = 1 ∧ op = .send ∨ δ = -1 ∧ op = .receive)
    (op' : Transfer) (x : Addr) : k'.supply op' x = if x = q then
      if op' = op then k.supply op' x - 1 else k.supply op' x + 1 else k.supply op' x := by
  obtain ⟨rfl, rfl⟩ | ⟨rfl, rfl⟩ := hδ <;> cases op' <;> simp only [supply, hsizes, hmax] <;>
    split_ifs with hx <;> subst_vars <;> first | rfl | omega | contradiction

/-- A SEND or RECV that waits. -/
theorem transferStep_wait (hordered : k.Ordered) (hrunning : k.running = some p)
    (hcontext : k.pcbs.cpuState p = .transferCall c q) (halone : k.pcbNodes .waiting ≠ [p])
    (hempty : k.supply c.op q ≤ 0) {entries : Option Addr} {next : Context} {call : Syscall}
    (hentries : k.queueEntries p c.fd = some entries)
    (hwait : (k.trap p next call).waitForQueue p entries c.op.role c.op.failure = some k') :
    k.TransferStep .statement k' := by
  have hnodes := pcbNodes_waitForQueue (t := k.trap p next call) hordered hrunning halone rfl rfl hwait
  obtain ⟨d, u, rfl, hentry, rfl⟩ := waitForQueue_eq hwait
  exact .waits p q d u c rfl hrunning hcontext (Function.update_self ..) rfl hempty hentries hentry hnodes rfl
    (sleepers_congr rfl rfl) rfl rfl

theorem transferStep_send (hordered : k.Ordered) (hstored : k.Stored layout nodes) (hok : k.files.Ok)
    (hrunning : k.running = some p) (hcontext : k.pcbs.cpuState p = .transferCall c q)
    (hrefers : k.RefersTo p c.fd q) (hop : c.op = .send) (hsafe : k.SyscallSafe p (.sendMsg c.msg c.fd))
    {next : Context} (hcall : internalSendMessage c.msg c.fd (k.trap p next (.sendMsg c.msg c.fd)) = some k') :
    k.TransferStep .statement k' := by
  have htrap : (k.trap p next (.sendMsg c.msg c.fd)).Stored layout nodes := hstored.congr rfl
  obtain ⟨p', q', entries, hp', hqueue, hentries, ⟨hroom, haccept⟩ | ⟨hfull, hwait⟩⟩ :=
    internalSendMessage_cases hcall <;>
    obtain rfl := Option.some.inj (hrunning.symm.trans hp') <;>
    obtain rfl : q' = q := Option.some.inj (hrefers.queue_eq hok hqueue)
  · have hframe := acceptMessage_eq haccept
    have hsame : k.SameWaits k' := by
      rw [hframe]
      exact .of_frame rfl rfl rfl rfl rfl rfl rfl
    have hmax : k'.queues.maxMessages = k.queues.maxMessages := by
      rw [hframe]
      rfl
    obtain ⟨msg, block, -, h', hret⟩ | ⟨-, hstore, hret⟩ := htrap.acceptMessage haccept
    · refine .moved p q' c rfl hrunning hcontext (hret ▸ (c.op.failure_ne_zero).symm) ?_ ?_ hsame
      · rw [hop]
        change 0 < k.queues.maxMessages q' - (k.queues.messages q').size
        have hroom' : (k.queues.messages q').size < k.queues.maxMessages q' := hroom
        omega
      · refine supply_moved (fun y ↦ ?_) hmax (.inl ⟨rfl, hop⟩)
        rw [h'.size, hstored.size, hstored.size, Function.update_apply]
        split_ifs with hy
        · simp
        · rfl
    · refine .refused p q' c rfl hrunning hcontext ?_ (supply_congr (fun y ↦ ?_) hmax) hsame
      · rw [hret, hop]
        rfl
      · rw [(Prod.mk.inj (Prod.mk.inj hstore).2).2]
        rfl
  · have halone : k.pcbNodes .waiting ≠ [p] := by
      have hqueue' : k.queueByFd p c.fd = some (some q') := hqueue
      have hfull' : k.queues.maxMessages q' ≤ (k.queues.messages q').size := hfull
      exact hsafe (by simp [sendBlocks, hqueue', hfull'])
    refine transferStep_wait hordered hrunning hcontext halone ?_ hentries (by rw [hop]; exact hwait)
    rw [hop]
    change k.queues.maxMessages q' - (k.queues.messages q').size ≤ 0
    have hfull' : k.queues.maxMessages q' ≤ (k.queues.messages q').size := hfull
    omega

theorem transferStep_recv (hordered : k.Ordered) (hstored : k.Stored layout nodes) (hok : k.files.Ok)
    (hrunning : k.running = some p) (hcontext : k.pcbs.cpuState p = .transferCall c q)
    (hrefers : k.RefersTo p c.fd q) (hop : c.op = .receive) (hsafe : k.SyscallSafe p (.recvMsg c.msg c.fd))
    {next : Context} (hcall : internalRecvMessage c.msg c.fd (k.trap p next (.recvMsg c.msg c.fd)) = some k') :
    k.TransferStep .statement k' := by
  have htrap : (k.trap p next (.recvMsg c.msg c.fd)).Stored layout nodes := hstored.congr rfl
  obtain ⟨p', entries, hp', hentries, ⟨-, rfl⟩ | ⟨buffer, q', hmsg, hqueue,
    ⟨msg, k₁, hpop, hdeliver⟩ | ⟨k₁, hpop, hwait⟩⟩⟩ := internalRecvMessage_cases hcall <;>
    obtain rfl := Option.some.inj (hrunning.symm.trans hp')
  · refine .refused p q c rfl hrunning hcontext ?_ rfl (.of_frame rfl rfl rfl rfl rfl rfl rfl)
    rw [hop]
    exact Function.update_self ..
  · obtain rfl : q' = q := Option.some.inj (hrefers.queue_eq hok hqueue)
    obtain ⟨rest, hnodes, h', -, hret⟩ := htrap.deliverMessage hpop hdeliver
    have hframe := deliverMessage_eq hdeliver
    rw [← (Prod.mk.inj hpop).2] at hframe
    refine .moved p q' c rfl hrunning hcontext (hret ▸ (c.op.failure_ne_zero).symm) ?_ ?_ ?_
    · rw [hop]
      change 0 < (k.queues.messages q').size
      rw [hstored.size, hnodes]
      simp
    · refine supply_moved (δ := -1) (fun y ↦ ?_) (by rw [hframe]; rfl) (.inr ⟨rfl, hop⟩)
      rw [h'.size, hstored.size, hstored.size, Function.update_apply]
      split_ifs with hy
      · rw [hnodes]
        simp
      · rfl
    · rw [hframe]
      exact .of_frame rfl rfl rfl rfl rfl rfl rfl
  · obtain rfl : q' = q := Option.some.inj (hrefers.queue_eq hok hqueue)
    obtain ⟨hempty, rfl⟩ := popMessage_eq_none hpop
    have hempty' : (k.queues.messages q').first = none := hempty
    have halone : k.pcbNodes .waiting ≠ [p] := by
      have hqueue' : k.queueByFd p c.fd = some (some q') := hqueue
      exact hsafe (by simp [recvBlocks, hmsg, hqueue', hempty'])
    refine transferStep_wait hordered hrunning hcontext halone ?_ hentries (by rw [hop]; exact hwait)
    rw [hop]
    change (k.queues.messages q').size ≤ 0
    rw [(hstored.family.represents q').first, List.head?_eq_none_iff] at hempty'
    rw [hstored.size, hempty']
    rfl

/-- The search for a user to wake ends without one only if there is none. -/
theorem waitingUser_none {waiting entries : List Addr} {before : Option Addr} {bound : ℕ}
    (h : Represents k.pcbs.list (k.lists .waiting) waiting)
    (husers : Segment k.queueUsers.list before entries none)
    (hnone : k.waitingUser bound entries.head? = some none) : ∀ u ∈ entries, ¬ k.Wakeable waiting u := by
  induction entries generalizing before bound with
  | nil => exact fun u hu ↦ absurd hu List.not_mem_nil
  | cons first rest ih =>
    cases bound with
    | zero => cases hnone
    | succ bound =>
      have hnext : (k.queueUsers.list first).next = rest.head? := by rw [husers.1, Option.or_none]
      rw [List.head?_cons, waitingUser, hnext] at hnone
      split_ifs at hnone with hmarked
      · obtain ⟨found, hscan, hrest⟩ := Option.bind_eq_some_iff.mp hnone
        have hfind := h.scan_eq hscan
        cases found with
        | some aux => cases hrest
        | none =>
          intro u hu
          obtain rfl | hu := List.mem_cons.mp hu
          · rintro ⟨-, aux, haux, hpid⟩
            simpa using List.find?_eq_none.mp hfind.symm aux haux (decide_eq_true hpid)
          · exact ih husers.2 hrest u hu
      · intro u hu
        obtain rfl | hu := List.mem_cons.mp hu
        · exact fun hwakeable ↦ hmarked hwakeable.1
        · exact ih husers.2 hnone u hu

/-- A user that the search finds is marked, and its process waits. -/
theorem waitingUser_some {waiting entries : List Addr} {before : Option Addr} {bound : ℕ}
    (h : Represents k.pcbs.list (k.lists .waiting) waiting)
    (husers : Segment k.queueUsers.list before entries none)
    (hfound : k.waitingUser bound entries.head? = some (some (u, x))) :
    u ∈ entries ∧ k.queueUsers.status u = .waiting ∧ x ∈ waiting ∧ k.pcbs.pid x = k.queueUsers.pid u := by
  induction entries generalizing before bound with
  | nil => cases bound <;> cases hfound
  | cons first rest ih =>
    cases bound with
    | zero => cases hfound
    | succ bound =>
      have hnext : (k.queueUsers.list first).next = rest.head? := by rw [husers.1, Option.or_none]
      have hskip (hrest : k.waitingUser bound rest.head? = some (some (u, x))) :
          u ∈ first :: rest ∧ k.queueUsers.status u = .waiting ∧ x ∈ waiting ∧
            k.pcbs.pid x = k.queueUsers.pid u := by
        obtain ⟨hu, hothers⟩ := ih husers.2 hrest
        exact ⟨List.mem_cons_of_mem _ hu, hothers⟩
      rw [List.head?_cons, waitingUser, hnext] at hfound
      split_ifs at hfound with hmarked
      · obtain ⟨found, hscan, hrest⟩ := Option.bind_eq_some_iff.mp hfound
        have hfind := h.scan_eq hscan
        cases found with
        | none => exact hskip hrest
        | some aux =>
          obtain ⟨rfl, rfl⟩ : first = u ∧ aux = x := by simpa using hrest
          exact ⟨List.mem_cons_self, hmarked, List.mem_of_find?_eq_some hfind.symm,
            by simpa using List.find?_some hfind.symm⟩
      · exact hskip hfound

/-- The check of a WAKEUP: there is something to take, and the queue has users who take it. -/
theorem wakeupCheck_iff {op' : Transfer} (hne : op ≠ op') : k.wakeupCheck q op'.wakeupCheck = true ↔
    0 < k.supply op q ∧ 0 < (k.queues.users (q, op.role)).size := by
  cases op <;> cases op' <;> first | exact absurd rfl hne |
    simp [wakeupCheck, Transfer.wakeupCheck, supply, Transfer.role]

/-- A WAKEUP that wakes nobody finds nothing to take, or nobody who waits for it. -/
theorem passes_of_none (husers : k.UsersOrdered k.userNodes)
    (hwaiting : Represents k.pcbs.list (k.lists .waiting) (k.pcbNodes .waiting))
    (hnone : k.wakeupCheck q c.op.wakeupCheck = true →
      k.waitingUser walkBound (k.queues.users (q, c.op.otherRole)).first = some none)
    (hne : op ≠ c.op) : k.supply op q ≤ 0 ∨ ∀ x, ¬ k.Blocked op q x := by
  have hlist := husers.lists.represents (q, op.role)
  by_cases hchecked : k.wakeupCheck q c.op.wakeupCheck = true
  · have hsearch := hnone hchecked
    rw [Transfer.otherRole_of_ne hne, hlist.first] at hsearch
    right
    rintro x ⟨hx, u, hu, hmarked, hpid⟩
    exact waitingUser_none hwaiting hlist.segment hsearch u hu ⟨hmarked, x, hx, hpid.symm⟩
  · rw [wakeupCheck_iff hne, not_and_or, not_lt, not_lt] at hchecked
    refine hchecked.imp_right fun hsize ↦ ?_
    rintro x ⟨-, u, hu, -⟩
    rw [hlist.size] at hsize
    have hpos := List.length_pos_of_mem hu
    omega

theorem transferStep_wake (hordered : k.Ordered) (husers : k.UsersOrdered k.userNodes)
    (hrunning : k.running = some p) (hcontext : k.pcbs.cpuState p = .transferWake c q) {next : Context}
    (hcall : internalWakeUpQueue c.op.wakeupCheck q (q, c.op.otherRole)
      (k.trap p next (.wakeupQueue c.op.wakeupCheck q (q, c.op.otherRole))) = some k') :
    k.TransferStep .statement k' := by
  have hsearch : ∀ bound start, (k.trap p next (.wakeupQueue c.op.wakeupCheck q
      (q, c.op.otherRole))).waitingUser bound start = k.waitingUser bound start :=
    waitingUser_congr rfl rfl rfl rfl
  have hwaiting := hordered.scheduled.threads.represents .waiting
  have hlist := husers.lists.represents (q, c.op.otherRole)
  obtain ⟨p', hp', ⟨u, x, -, hfound, rfl⟩ | ⟨hnone, rfl⟩⟩ := internalWakeUpQueue_cases hcall
  · rw [hsearch] at hfound
    have hfirst : (k.trap p next (.wakeupQueue c.op.wakeupCheck q (q, c.op.otherRole))).queues.users
        (q, c.op.otherRole) = k.queues.users (q, c.op.otherRole) := rfl
    rw [hfirst, hlist.first] at hfound
    obtain ⟨hmember, hmarked, hx, hpid⟩ := waitingUser_some hwaiting hlist.segment hfound
    have hnodes := pcbNodes_wakeUser (t := k.trap p next
      (.wakeupQueue c.op.wakeupCheck q (q, c.op.otherRole))) (u := u) hordered hx rfl rfl
    exact .wakes p q x u c rfl hrunning hcontext rfl hx hmember hmarked hpid hnodes rfl
      (sleepers_congr rfl rfl) rfl rfl
  · refine .passes p q c rfl hrunning hcontext rfl (fun op hne ↦ ?_) (.of_frame rfl rfl rfl rfl rfl rfl rfl)
    refine passes_of_none husers hwaiting (fun hcheck ↦ ?_) hne
    rw [← hsearch]
    exact hnone hcheck

/-- A step that moves no message adds to the supply of a queue only where the queue is a new one, or its
capacity is raised. -/
theorem supply_other (hpool : k.queues.allocator.Ok) (hstored : k.Stored layout nodes)
    (hsafe : k.MembersSafe a) (hquiet : ∀ call, k.request a = some call → call.marksUsers = false)
    (hstep : k.step a = some k') (op : Transfer) (q : Addr) :
    k'.supply op q ≤ k.supply op q ∨ ¬ k.queues.allocator.Allocated q ∨
      op = .send ∧ ∃ newVal, k.attributeWrite a = some (q, attQueueMaxMessages, newVal) ∧
        k.queues.maxMessages q < newVal := by
  cases hstored.roomStep hsafe.notShutdown hstep with
  | same hsizes hmax => exact .inl (by rw [supply_congr hsizes hmax])
  | accept _ _ _ _ _ hrequest | deliver _ _ _ _ _ hrequest => cases hquiet _ hrequest
  | clear y call hrequest hclears hothers =>
    by_cases hy : q = y
    · subst hy
      have hcall := hsafe call hrequest
      cases call with
      | openQueue id fd mode =>
        rw [KeepsQueueCall] at hclears
        push Not at hclears
        obtain ⟨-, -, -, hnew⟩ := hclears
        rcases hget : k.queues.allocator.getBlock with ⟨q', pool⟩
        rw [hget] at hnew
        obtain rfl : q' = some q := hnew
        exact .inr (.inl (getBlock_some hpool hget).2.2.1)
      | destroyResource id => exact hcall.elim
      | _ => exact absurd trivial hclears
    · obtain ⟨hsize, hmax⟩ := hothers q hy
      refine .inl (le_of_eq ?_)
      cases op <;> simp only [supply, hsize, hmax]
  | write y newVal hwrite hsizes hmax =>
    cases op with
    | receive => exact .inl (le_of_eq (hsizes q))
    | send =>
      by_cases hy : q = y
      · subst hy
        by_cases hraised : k.queues.maxMessages q < newVal
        · exact .inr (.inr ⟨rfl, newVal, hwrite, hraised⟩)
        · refine .inl ?_
          simp only [supply, hsizes, hmax, Function.update_self]
          omega
      · refine .inl (le_of_eq ?_)
        simp only [supply, hsizes, hmax, Function.update_of_ne hy]

/-- What a step that belongs to the runs does to the supply, to the lists of processes and to the marks. -/
theorem transferStep (hordered : k.Ordered) (hinv : k.MembersInv layout m) (hstored : k.Stored layout nodes)
    (hrefers : ∀ p c q, (k.pcbs.cpuState p).transferAt = some (c, q) → k.RefersTo p c.fd q)
    (hsafe : k.MessagingSafe a) (hstep : k.step a = some k') : k.TransferStep a k' := by
  have hnoShutdown := hinv.owns.noShutdown
  have hok : k.files.Ok := hinv.owns.owned.ok
  by_cases hquiet : ∀ call, k.request a = some call → call.marksUsers = false
  · exact .other hquiet (hordered.listStep hnoShutdown hsafe.1 hstep)
      (hinv.keepsMarks hsafe.2.1 hsafe.noExit hquiet hstep)
      (supply_other hinv.owns.owned.pool hstored hsafe.2.1 hquiet hstep)
  · push Not at hquiet
    obtain ⟨call, hrequest, hmarks⟩ := hquiet
    obtain ⟨rfl, p, hp, c, q, hcontext | hcontext⟩ := hsafe.marks hrequest (by simpa using hmarks)
    · have hcalled := hstep
      rw [step_request hp hcontext rfl] at hcalled
      have hrequest' : k.request .statement = some c.syscall := by
        rw [request, context, hp, Option.map_some, hcontext]
        rfl
      have hcall : k.SyscallSafe p c.syscall := hsafe.1 p hp _ hrequest'
      have hat := hrefers p c q (by rw [hcontext]; rfl)
      cases hop : c.op with
      | send =>
        have hsyscall : c.syscall = .sendMsg c.msg c.fd := by rw [TransferCall.syscall, hop]
        rw [hsyscall] at hcalled hcall
        exact transferStep_send hordered hstored hok hp hcontext hat hop hcall hcalled
      | receive =>
        have hsyscall : c.syscall = .recvMsg c.msg c.fd := by rw [TransferCall.syscall, hop]
        rw [hsyscall] at hcalled hcall
        exact transferStep_recv hordered hstored hok hp hcontext hat hop hcall hcalled
    · rw [step_request hp hcontext rfl] at hstep
      obtain ⟨users, henrolled, -⟩ := hinv.enrolled
      exact transferStep_wake hordered (henrolled.toUsersOrdered.userNodes_eq ▸ henrolled.toUsersOrdered)
        hp hcontext hstep

end Kernel

end DisastrOS
