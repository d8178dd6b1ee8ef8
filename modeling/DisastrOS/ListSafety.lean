import DisastrOS.Boot
import DisastrOS.Library.Runs
import DisastrOS.Steps

/-!
# The lists of processes over whole runs

`ready_list`, `waiting_list` and `zombie_list` stay in order in every run whose steps meet
`Kernel.ListsSafe` (`listsConsistent_of_safe`). The condition is on the state before a step and
says that the step does not run into one of two habits of the code.

`List_insert` refuses a node that carries links, and only then. SEND and RECV put the running process
on `waiting_list` and leave it running; the next handler that files it somewhere else relies on the
refusal, and does not get it when the process is the only one on the list. And `List_detach` takes a
node out of whatever list it is in, with the counter and the ends of the list that it was told, so a
timer, an exit, a wait or a wake-up for a process that has been moved on meanwhile breaks both lists.

`soleReader_not_listsConsistent` is the first of these on the smallest run: one process receives from
an empty queue, and tries again.
-/

set_option autoImplicit false
set_option relaxedAutoImplicit false

namespace DisastrOS

open LinkedLists
open Function (update)

namespace Kernel

variable {k k' : Kernel} {nodes : PcbList → List Addr} {timers : List Addr}

/-! ### When a step keeps the lists in order -/

/-- A `wait` of process `p` would block. -/
def waitBlocks (k : Kernel) (p : Addr) (pid : ℤ) : Bool :=
  (k.pcbs.children p).first.isSome &&
    match k.awaitedPcbPtr pid walkBound none (k.pcbs.children p).first with
    | some (some x) => k.pcbs.status (k.pcbPtrs.pcb x) ≠ .zombie
    | some none => pid ≤ 0
    | none => false

/-- The zombie that a `wait` of process `p` would take away. -/
def awaitedZombie (k : Kernel) (p : Addr) (pid : ℤ) : Option Addr :=
  match k.awaitedPcbPtr pid walkBound none (k.pcbs.children p).first with
  | some (some x) =>
    if k.pcbs.status (k.pcbPtrs.pcb x) = .zombie then some (k.pcbPtrs.pcb x) else none
  | _ => none

/-- The parent to which an `exit` of process `p` would give its value. -/
def awaitingParent (k : Kernel) (p : Addr) : Option Addr :=
  match k.pcbs.parent p with
  | some parent => if parent ≠ p ∧ k.awaits parent p then some parent else none
  | none => none

/-- A call of the process itself does not make it awaited. -/
theorem awaitingParent_trap (k : Kernel) (p : Addr) (next : Context) (c : Syscall) :
    (k.trap p next c).awaitingParent p = k.awaitingParent p := by
  simp only [awaitingParent, Kernel.trap, setContext]
  cases hparent : k.pcbs.parent p with
  | none => rfl
  | some parent =>
    by_cases hself : parent = p
    · simp [hself]
    · simp [hself, awaits]

/-- A SEND_MSG of process `p` would find the queue full. -/
def sendBlocks (k : Kernel) (p : Addr) (fd : ℤ) : Bool :=
  match k.queueByFd p fd with
  | some (some q) => k.queues.maxMessages q ≤ (k.queues.messages q).size
  | _ => false

/-- A RECV_MSG of process `p` would find the queue empty. -/
def recvBlocks (k : Kernel) (p : Addr) (msg : Option Addr) (fd : ℤ) : Bool :=
  msg.isSome &&
    match k.queueByFd p fd with
    | some (some q) => (k.queues.messages q).first.isNone
    | _ => false

/-- The process that a WAKEUP_QUEUE would wake. -/
def wakeTarget (k : Kernel) (check : WakeupCheck) (q : Addr) (users : Addr × Role) : Option Addr :=
  if k.wakeupCheck q check then
    match k.waitingUser walkBound (k.queues.users users).first with
    | some (some (_, aux)) => some aux
    | _ => none
  else none

/-- A schedule while `p` runs. The processes of the elapsed timers wait, each for one timer, and `p`
is not one of them; and if another process gets to run, `p` is not the only one left waiting. -/
def ScheduleSafe (k : Kernel) (p : Addr) : Prop :=
  (k.duePcbs k.timerNodes).Nodup ∧
    (∀ q ∈ k.duePcbs k.timerNodes, q ∈ k.pcbNodes .waiting ∧ q ≠ p) ∧
      (k.duePcbs k.timerNodes ++ k.pcbNodes .ready ≠ [] →
        (k.pcbNodes .waiting).filter (· ∉ k.duePcbs k.timerNodes) ≠ [p])

/-- A system call of process `p`. A call that blocks finds `p` not alone in `waiting_list`; a `wait`
finds its zombie in `zombie_list`; an `exit` that goes to the parent finds the parent in
`waiting_list` and `p` not; and a wake-up does not find `p` itself. -/
def SyscallSafe (k : Kernel) (p : Addr) : Syscall → Prop
  | .preempt => k.ScheduleSafe p
  | .sleep _ => k.timerItems.allocator.getBlock.1 ≠ none → k.pcbNodes .waiting ≠ [p]
  | .wait pid _ =>
    (k.waitBlocks p pid = true → k.pcbNodes .waiting ≠ [p]) ∧
      ∀ c ∈ k.awaitedZombie p pid, c ∈ k.pcbNodes .zombie
  | .exit _ =>
    (k.awaitingParent p = none → k.pcbNodes .waiting ≠ [p]) ∧
      ∀ parent ∈ k.awaitingParent p, p ∉ k.pcbNodes .waiting ∧ parent ∈ k.pcbNodes .waiting
  | .sendMsg _ fd => k.sendBlocks p fd = true → k.pcbNodes .waiting ≠ [p]
  | .recvMsg msg fd => k.recvBlocks p msg fd = true → k.pcbNodes .waiting ≠ [p]
  | .wakeupQueue check q users => k.wakeTarget check q users ≠ some p
  | .shutdown => False
  | .fork | .spawn | .openResource .. | .closeResource .. | .destroyResource .. | .openQueue .. => True

/-- An action of the running process, or a timer interrupt while it runs. -/
def ActionSafe (k : Kernel) (p : Addr) : Action → Prop
  | .timer => { k with disastrOSTime := toInt (k.disastrOSTime + 1) }.ScheduleSafe p
  | a => ∀ c ∈ k.request a, k.SyscallSafe p c

/-- The step keeps the lists of processes in order. -/
def ListsSafe (k : Kernel) (a : Action) : Prop := ∀ p ∈ k.running, k.ActionSafe p a

instance (k : Kernel) (p : Addr) : Decidable (k.ScheduleSafe p) :=
  inferInstanceAs (Decidable (_ ∧ _ ∧ _))

instance (k : Kernel) (p : Addr) : ∀ c, Decidable (k.SyscallSafe p c)
  | .preempt => inferInstanceAs (Decidable (k.ScheduleSafe p))
  | .sleep _ => inferInstanceAs (Decidable (_ → _))
  | .wait .. | .exit _ => inferInstanceAs (Decidable (_ ∧ _))
  | .sendMsg .. | .recvMsg .. => inferInstanceAs (Decidable (_ → _))
  | .wakeupQueue .. => inferInstanceAs (Decidable (_ ≠ _))
  | .shutdown => isFalse id
  | .fork | .spawn | .openResource .. | .closeResource .. | .destroyResource .. | .openQueue .. =>
    isTrue trivial

instance (k : Kernel) (p : Addr) : ∀ a, Decidable (k.ActionSafe p a)
  | .timer => inferInstanceAs (Decidable (ScheduleSafe _ p))
  | .start | .write .. | .syscall _ | .call _ | .statement =>
    inferInstanceAs (Decidable (∀ c ∈ k.request _, k.SyscallSafe p c))

instance (k : Kernel) (a : Action) : Decidable (k.ListsSafe a) :=
  inferInstanceAs (Decidable (∀ p ∈ k.running, k.ActionSafe p a))

/-! ### One handler after the other -/

/-- The lists stay in order, and a process that runs afterwards is in `waiting_list` only if it ran
before and was there already. -/
structure KeepsOrder (k k' : Kernel) : Prop where
  ordered : k'.Ordered
  waiting : ∀ p, k'.running = some p → p ∈ k'.pcbNodes .waiting →
    k.running = some p ∧ p ∈ k.pcbNodes .waiting

theorem Scheduled.keepsOrder (h : k'.Scheduled nodes) (htimers : k'.TimersListed timers)
    (hwaiting : ∀ p, k'.running = some p → p ∈ nodes .waiting →
      k.running = some p ∧ p ∈ k.pcbNodes .waiting) : k.KeepsOrder k' :=
  ⟨h.ordered htimers, by rw [h.pcbNodes_eq]; exact hwaiting⟩

/-- A step that leaves the lists alone. -/
theorem Ordered.congr (h : k.Ordered) (hlist : k'.pcbs.list = k.pcbs.list)
    (hlists : k'.lists = k.lists) (hpool : k'.pcbs.allocator = k.pcbs.allocator)
    (hrunning : k'.running = k.running) (hitems : k'.timerItems = k.timerItems)
    (htimerList : k'.timerList = k.timerList) : k.KeepsOrder k' :=
  (h.scheduled.congr hlist hlists hpool hrunning).keepsOrder (h.timers.congr hitems htimerList)
    fun _ hp hmem ↦ ⟨hrunning ▸ hp, hmem⟩

theorem Ordered.internalSchedule (h : k.Ordered) {p : Addr} (hrunning : k.running = some p)
    (hsafe : k.ScheduleSafe p) (hschedule : k.internalSchedule = some k') : k.KeepsOrder k' := by
  obtain ⟨hnodup, hdue, halone⟩ := hsafe
  obtain ⟨htimers, ⟨-, hsched, hsame, -⟩ | ⟨p', next, rest, hp', hnext, hnextRuns, hsched, -⟩⟩ :=
    internalSchedule_spec h.scheduled h.timers hnodup (fun q hq ↦ (hdue q hq).1)
      (fun q hq hq' ↦ (hdue q hq).2 (Option.some.inj (hq'.symm.trans hrunning)))
      (fun q hq hne ↦ Option.some.inj (hrunning.symm.trans hq) ▸ halone hne) hschedule
  · exact hsched.keepsOrder htimers fun q hq hmem ↦ ⟨hsame ▸ hq, hmem⟩
  · refine hsched.keepsOrder htimers fun q hq hmem ↦ ?_
    -- the process that runs now was due or ready, and so it is not waiting any more
    obtain rfl : next = q := Option.some.inj (hnextRuns.symm.trans hq)
    rw [switchedNodes_of_ne (by decide), mem_wokenNodes_waiting] at hmem
    have hready : next ∈ k.duePcbs k.timerNodes ++ k.pcbNodes .ready := hnext ▸ List.mem_cons_self
    rcases List.mem_append.mp hready with hwoken | hready
    · exact absurd hwoken hmem.2
    · exact absurd (h.scheduled.list_unique hready hmem.1) (by decide)

/-- The running process blocks in list `i`. -/
theorem Ordered.park (h : k.Ordered) (k' : Kernel) {i : PcbList} (hi : i ≠ .ready) {p : Addr}
    (hrunning : k.running = some p) (halone : k.pcbNodes .waiting ≠ [p])
    (hlist : k'.pcbs.list = k.pcbs.list) (hlists : k'.lists = k.lists)
    (hpool : k'.pcbs.allocator = k.pcbs.allocator) (htimers : k'.TimersListed timers) :
    k.KeepsOrder (k'.insertPcb i (k'.lists i).last (some p)).dispatchReady := by
  obtain ⟨hsched, hnext⟩ := h.scheduled.park k' hi hrunning halone hlist hlists hpool
  refine hsched.keepsOrder (htimers.congr rfl rfl) fun q hq hmem ↦ ?_
  rw [Function.update_of_ne (by decide), mem_parkedNodes] at hmem
  have hready : q ∈ k.pcbNodes .ready := List.mem_of_head? (hnext.symm.trans hq)
  rcases hmem with hmem | ⟨rfl, -⟩
  · exact absurd (h.scheduled.list_unique hready hmem) (by decide)
  · exact absurd hready (h.scheduled.running_notReady q hrunning)

theorem Ordered.internalSleep (h : k.Ordered) {cycles : ℤ} {p : Addr} (hrunning : k.running = some p)
    (hsafe : k.SyscallSafe p (.sleep cycles)) (hsleep : internalSleep cycles k = some k') :
    k.KeepsOrder k' := by
  obtain ⟨p', hp', rfl | ⟨t, k₁, hadd, rfl⟩⟩ := internalSleep_cases hsleep
  · exact h.congr rfl rfl rfl rfl rfl rfl
  · obtain rfl : p = p' := Option.some.inj (hrunning.symm.trans hp')
    obtain ⟨hnone, -⟩ | ⟨t', front, back, -, -, -, htimers, -, hframe⟩ :=
      timerListAdd_spec h.timers hadd
    · exact absurd hnone (by simp)
    · have hblock : k.timerItems.allocator.getBlock.1 ≠ none := by
        intro hnone
        obtain ⟨previous, -, halloc⟩ := Option.bind_eq_some_iff.mp hadd
        rcases hget : k.timerItems.allocator.getBlock with ⟨_ | b, pool⟩
        · simp [timerItemAlloc, hget] at halloc
        · simp [hget] at hnone
      refine h.park (k₁.setStatus p .waiting) (by decide) hrunning (hsafe hblock) ?_ ?_ ?_
        (htimers.congr rfl rfl)
      · rw [hframe]
        rfl
      · rw [hframe]
        rfl
      · rw [hframe]
        rfl

theorem Ordered.newProcess (h : k.Ordered) {p : Addr} (hnew : k.newProcess = some (p, k')) :
    k.KeepsOrder k' := by
  obtain ⟨hsched, hfresh⟩ := h.scheduled.newProcess hnew
  obtain ⟨running, pool, x, ptrPool, -, -, -, -, hk'⟩ := newProcess_cases hnew
  have hsame : k'.running = k.running := by rw [hk']; rfl
  have htimers : k'.TimersListed k.timerNodes :=
    h.timers.congr (by rw [hk']; rfl) (by rw [hk']; rfl)
  refine hsched.keepsOrder htimers fun q hq hmem ↦ ⟨hsame ▸ hq, ?_⟩
  rwa [Function.update_of_ne (by decide)] at hmem

theorem Ordered.internalWait (h : k.Ordered) {pid : ℤ} {result : Option Addr} {p : Addr}
    (hrunning : k.running = some p) (hsafe : k.SyscallSafe p (.wait pid result))
    (hwait : internalWait pid result k = some k') : k.KeepsOrder k' := by
  obtain ⟨p', hp', ⟨-, rfl⟩ | ⟨awaited, hchildren, hawaited, hcases⟩⟩ := internalWait_cases hwait
  · exact h.congr rfl rfl rfl rfl rfl rfl
  · obtain rfl : p = p' := Option.some.inj (hrunning.symm.trans hp')
    obtain ⟨x, rfl, hzombie, rfl⟩ | ⟨hnotZombie, ⟨hnone, rfl⟩ | ⟨-, -, rfl⟩⟩ := hcases
    · have hmem := hsafe.2 (k.pcbPtrs.pcb x) (by simp [awaitedZombie, hawaited, hzombie])
      refine (h.scheduled.reapZombie hmem p result).keepsOrder (h.timers.congr rfl rfl)
        fun q hq hmem ↦ ⟨hq, ?_⟩
      rwa [Function.update_of_ne (by decide)] at hmem
    · have hblocks : k.waitBlocks p pid = true := by
        rw [← Option.isSome_iff_ne_none] at hchildren
        cases awaited with
        | none => simp [waitBlocks, hawaited, hchildren, hnone rfl]
        | some x => simp [waitBlocks, hawaited, hchildren, hnotZombie x rfl]
      exact h.park (k.setStatus p .waiting) (by decide) hrunning (hsafe.1 hblocks) rfl rfl rfl
        (h.timers.congr rfl rfl)
    · exact h.congr rfl rfl rfl rfl rfl rfl

theorem Ordered.internalExit (h : k.Ordered) {value : ℤ} {p : Addr} (hrunning : k.running = some p)
    (hsafe : k.SyscallSafe p (.exit value)) (hexit : internalExit value k = some k') :
    k.KeepsOrder k' := by
  obtain ⟨p', k₁, parent, hp', hzombie, hparent, hbranch⟩ := internalExit_cases hexit
  obtain rfl : p = p' := Option.some.inj (hrunning.symm.trans hp')
  have hframe := becomeZombie_eq hzombie
  have hparent' : k.pcbs.parent p = some parent := by rw [← hparent, hframe]
  rw [becomeZombie_awaits hzombie] at hbranch
  obtain ⟨hawaits, hexit⟩ | ⟨hawaits, hexit⟩ := hbranch
  · have hgiven : k.awaitingParent p = some parent := by
      simpa [awaitingParent, hparent'] using hawaits
    obtain ⟨hnotWaiting, hwaits⟩ := hsafe.2 parent hgiven
    have h₁ : (k₁.sendSignal parent dsosSigchld).TimersListed k.timerNodes :=
      h.timers.congr (by rw [hframe]; rfl) (by rw [hframe]; rfl)
    refine (h.scheduled.exitToParent hrunning hnotWaiting hzombie hwaits hexit).keepsOrder
      (h₁.exitToParent hexit) fun q hq hmem ↦ ?_
    have hruns : k'.running = some parent := by rw [exitToParent_eq hexit]
    obtain rfl : parent = q := Option.some.inj (hruns.symm.trans hq)
    rw [Function.update_self, (h.scheduled.threads.represents .waiting).nodup.mem_erase_iff] at hmem
    exact absurd rfl hmem.1
  · have halone := hsafe.1 (by
      simpa [awaitingParent, hparent'] using hawaits)
    obtain ⟨next, rest, hready, hnext, hsched⟩ := h.scheduled.exitToReady hrunning halone hzombie
      parent hexit
    have htimers : k'.TimersListed k.timerNodes :=
      h.timers.congr (by rw [exitToReady_eq hexit, hframe]; rfl)
        (by rw [exitToReady_eq hexit, hframe]; rfl)
    refine hsched.keepsOrder htimers fun q hq hmem ↦ ?_
    obtain rfl : next = q := Option.some.inj (hnext.symm.trans hq)
    have hnextReady : next ∈ k.pcbNodes .ready := hready ▸ List.mem_cons_self
    rw [Function.update_of_ne (by decide), parkedNodes_of_ne p (by decide)] at hmem
    exact absurd (h.scheduled.list_unique hnextReady hmem) (by decide)

/-- SEND and RECV when they have to wait: the process stays the running one. -/
theorem Ordered.waitForQueue (h : k.Ordered) {p : Addr} (hrunning : k.running = some p)
    (halone : k.pcbNodes .waiting ≠ [p]) {entries : Option Addr} {role : Role} {retvalue : ℤ}
    (hwait : k.waitForQueue p entries role retvalue = some k') :
    k'.Ordered ∧ k'.running = k.running ∧ k'.pcbs.syscallRetvalue p = retvalue := by
  obtain ⟨ds, entry, -, -, rfl⟩ := waitForQueue_eq hwait
  have hthreads := threads_park h.scheduled.threads .waiting
    (h.scheduled.running_notReady p hrunning) (h.scheduled.running_notZombie p hrunning) halone
  have hsched : (k.insertPcb .waiting (k.lists .waiting).last (some p)).Scheduled
      (parkedNodes k.pcbNodes .waiting p) := by
    refine h.scheduled.rearrange hthreads rfl (fun q ↦ ?_) (fun q hq ↦ ?_) fun q hq ↦ ?_
    · have hsame : (∃ i, q ∈ parkedNodes k.pcbNodes .waiting p i) ↔
          (∃ i, q ∈ k.pcbNodes i) ∨ q = p ∧ p ∉ k.pcbNodes .waiting := by
        simp only [mem_parkedNodes, exists_or, exists_and_left, exists_eq, and_true]
      rw [hsame]
      change k.running = some q ∨ _ ↔ _
      rw [hrunning, Option.some.injEq, eq_comm (a := p)]
      tauto
    · rw [parkedNodes_of_ne p (by decide)]
      exact h.scheduled.running_notReady q hq
    · rw [parkedNodes_of_ne p (by decide)]
      exact h.scheduled.running_notZombie q hq
  exact ⟨Scheduled.ordered (hsched.congr rfl rfl rfl rfl) (h.timers.congr rfl rfl), rfl,
    Function.update_self ..⟩

theorem Ordered.internalSendMessage (h : k.Ordered) {msg : Option Addr} {fd : ℤ} {p : Addr}
    (hrunning : k.running = some p) (hsafe : k.SyscallSafe p (.sendMsg msg fd))
    (hsend : internalSendMessage msg fd k = some k') :
    k.KeepsOrder k' ∨
      k'.Ordered ∧ k'.running = k.running ∧ k'.pcbs.syscallRetvalue p = dsosNoMsgSent := by
  obtain ⟨p', q, entries, hp', hqueue, -, ⟨-, haccept⟩ | ⟨hfull, hwait⟩⟩ :=
    internalSendMessage_cases hsend
  · have hframe := acceptMessage_eq haccept
    exact Or.inl (h.congr (by rw [hframe]) (by rw [hframe]) (by rw [hframe]) (by rw [hframe])
      (by rw [hframe]) (by rw [hframe]))
  · obtain rfl : p = p' := Option.some.inj (hrunning.symm.trans hp')
    exact Or.inr (h.waitForQueue hrunning (hsafe (by simp [sendBlocks, hqueue, hfull])) hwait)

theorem Ordered.internalRecvMessage (h : k.Ordered) {msg : Option Addr} {fd : ℤ} {p : Addr}
    (hrunning : k.running = some p) (hsafe : k.SyscallSafe p (.recvMsg msg fd))
    (hrecv : internalRecvMessage msg fd k = some k') :
    k.KeepsOrder k' ∨
      k'.Ordered ∧ k'.running = k.running ∧ k'.pcbs.syscallRetvalue p = dsosNoMsgReceived := by
  obtain ⟨p', entries, hp', -, ⟨-, rfl⟩ | ⟨buffer, q, rfl, hqueue,
    ⟨m, k₁, hpop, hdeliver⟩ | ⟨k₁, hpop, hwait⟩⟩⟩ := internalRecvMessage_cases hrecv
  · exact Or.inl (h.congr rfl rfl rfl rfl rfl rfl)
  · have hframe := deliverMessage_eq hdeliver
    obtain rfl := (Prod.mk.inj hpop).2
    exact Or.inl (h.congr (by rw [hframe]) (by rw [hframe]) (by rw [hframe]) (by rw [hframe])
      (by rw [hframe]) (by rw [hframe]))
  · obtain rfl : p = p' := Option.some.inj (hrunning.symm.trans hp')
    obtain ⟨hempty, rfl⟩ := popMessage_eq_none hpop
    exact Or.inr (h.waitForQueue hrunning (hsafe (by simp [recvBlocks, hqueue, hempty])) hwait)

/-- The user that a wake-up finds is a process of `waiting_list`. -/
theorem waitingUser_mem {start : Option Addr} {bound : ℕ} {queueUsr aux : Addr}
    (h : Represents k.pcbs.list (k.lists .waiting) (nodes .waiting))
    (hfound : k.waitingUser bound start = some (some (queueUsr, aux))) :
    aux ∈ nodes .waiting := by
  induction bound generalizing start with
  | zero => cases start <;> simp [waitingUser] at hfound
  | succ bound ih =>
    cases start with
    | none => simp [waitingUser] at hfound
    | some user =>
      rw [waitingUser] at hfound
      split_ifs at hfound
      · obtain ⟨found, hscan, hrest⟩ := Option.bind_eq_some_iff.mp hfound
        cases found with
        | none => exact ih hrest
        | some aux' =>
          simp only [Option.some.injEq, Prod.mk.injEq] at hrest
          obtain ⟨-, rfl⟩ := hrest
          exact List.mem_of_find?_eq_some (h.scan_eq hscan).symm
      · exact ih hfound

theorem Ordered.internalWakeUpQueue (h : k.Ordered) {check : WakeupCheck} {q : Addr}
    {users : Addr × Role} {p : Addr} (hrunning : k.running = some p)
    (hsafe : k.SyscallSafe p (.wakeupQueue check q users))
    (hwake : internalWakeUpQueue check q users k = some k') : k.KeepsOrder k' := by
  obtain ⟨p', hp', ⟨queueUsr, aux, hcheck, hfound, rfl⟩ | ⟨-, rfl⟩⟩ := internalWakeUpQueue_cases hwake
  · have hne : aux ≠ p := by
      simpa [SyscallSafe, wakeTarget, hcheck, hfound] using hsafe
    have hmem := waitingUser_mem (h.scheduled.threads.represents .waiting) hfound
    have hdetach := h.scheduled.threads.listDetach hmem
    have hthreads := hdetach.listInsert_last .ready (h.scheduled.threads.notMem_erase hmem)
    have hnodes : update (update k.pcbNodes .waiting ((k.pcbNodes .waiting).erase aux)) .ready
        (update k.pcbNodes .waiting ((k.pcbNodes .waiting).erase aux) .ready ++ [aux]) =
        wokenNodes k.pcbNodes (k.pcbNodes .ready) [aux] [] := by
      rw [Function.update_of_ne (by decide), wokenNodes, List.append_nil,
        (h.scheduled.threads.represents .waiting).nodup.erase_eq_filter]
      simp only [List.mem_singleton, decide_not]
      rfl
    rw [hnodes] at hthreads
    have hwoken : ∀ q ∈ [aux], k.running ≠ some q := by
      intro q hq hrun
      rw [List.mem_singleton.mp hq] at hrun
      exact hne (Option.some.inj (hrun.symm.trans hrunning))
    have hsched : ((k.wakeUser queueUsr aux).setRetvalue p' 0).Scheduled
        (wokenNodes k.pcbNodes (k.pcbNodes .ready) [aux] []) :=
      h.scheduled.wake (List.append_nil _).symm (by simpa using hmem) hwoken hthreads rfl rfl
    refine hsched.keepsOrder (h.timers.congr rfl rfl) fun q hq hmem ↦ ⟨hq, ?_⟩
    exact (mem_wokenNodes_waiting.mp hmem).1
  · exact h.congr rfl rfl rfl rfl rfl rfl

/-- The first process, when nothing runs. -/
theorem Ordered.startProcess (h : k.Ordered) (hstart : k.startProcess = some k') :
    k.KeepsOrder k' := by
  have hsched := h.scheduled.startProcess hstart
  obtain ⟨-, p, pool, hget, rfl⟩ := startProcess_cases hstart
  obtain ⟨-, -, hfree, -, -⟩ := PoolAllocator.getBlock_some h.scheduled.pool hget
  refine hsched.keepsOrder (h.timers.congr rfl rfl) fun q hq hmem ↦ ?_
  obtain rfl : p = q := Option.some.inj hq
  exact absurd (h.scheduled.allocated .waiting p hmem) hfree

/-! ### One step -/

theorem SyscallSafe.trap {p : Addr} {c : Syscall} (h : k.SyscallSafe p c) (next : Context) :
    (k.trap p next c).SyscallSafe p c := by
  cases c with
  | wait pid result =>
    have hsearch : ∀ bound awaited start,
        (k.trap p next (.wait pid result)).awaitedPcbPtr pid bound awaited start =
          k.awaitedPcbPtr pid bound awaited start := by
      intros
      apply awaitedPcbPtr_congr <;> rfl
    simp only [SyscallSafe, waitBlocks, awaitedZombie, hsearch]
    exact h
  | exit value =>
    rw [SyscallSafe, awaitingParent_trap]
    exact h
  | wakeupQueue check q users =>
    have hsearch : ∀ bound start, (k.trap p next (.wakeupQueue check q users)).waitingUser bound
        start = k.waitingUser bound start := waitingUser_congr rfl rfl rfl rfl
    simp only [SyscallSafe, wakeTarget, hsearch]
    exact h
  | preempt | fork | spawn | sleep | openResource | closeResource | destroyResource | shutdown
  | sendMsg | recvMsg | openQueue => exact h

/-- A system call keeps the lists in order. Only a SEND or RECV that fails adds the running process
to `waiting_list`. -/
theorem Ordered.syscall (h : k.Ordered) {p : Addr} {c : Syscall} (hrunning : k.running = some p)
    (hsafe : k.SyscallSafe p c) (hcall : syscallVector c k = some k') :
    k.KeepsOrder k' ∨
      k'.Ordered ∧ k'.running = k.running ∧ k'.pcbs.syscallRetvalue p ≠ 0 ∧
        ((∃ msg fd, c = .sendMsg msg fd) ∨ ∃ msg fd, c = .recvMsg msg fd) := by
  cases c with
  | preempt => exact Or.inl (h.internalSchedule hrunning hsafe hcall)
  | fork =>
    obtain ⟨⟨child, k₁⟩, hnew, hk'⟩ := Option.bind_eq_some_iff.mp hcall
    obtain rfl := Option.some.inj hk'
    exact Or.inl (h.newProcess hnew)
  | spawn =>
    obtain ⟨⟨child, k₁⟩, hnew, hk'⟩ := Option.bind_eq_some_iff.mp hcall
    have hkeeps := h.newProcess hnew
    have hstart : k₁.KeepsOrder (k₁.setContext child (.user 0)) :=
      hkeeps.ordered.congr rfl rfl rfl rfl rfl rfl
    rw [← Option.some.inj hk']
    exact Or.inl ⟨hstart.ordered, hkeeps.waiting⟩
  | wait pid result => exact Or.inl (h.internalWait hrunning hsafe hcall)
  | exit value => exact Or.inl (h.internalExit hrunning hsafe hcall)
  | sleep cycles => exact Or.inl (h.internalSleep hrunning hsafe hcall)
  | openResource id type mode =>
    have hframe := internalOpenResource_eq hcall
    exact Or.inl (h.congr (by rw [hframe]) (by rw [hframe]) (by rw [hframe]) (by rw [hframe])
      (by rw [hframe]) (by rw [hframe]))
  | closeResource fd =>
    have hframe := internalCloseResource_eq hcall
    exact Or.inl (h.congr (by rw [hframe]) (by rw [hframe]) (by rw [hframe]) (by rw [hframe])
      (by rw [hframe]) (by rw [hframe]))
  | destroyResource id =>
    have hframe := internalDestroyResource_eq hcall
    exact Or.inl (h.congr (by rw [hframe]) (by rw [hframe]) (by rw [hframe]) (by rw [hframe])
      (by rw [hframe]) (by rw [hframe]))
  | shutdown => exact absurd hsafe id
  | sendMsg msg fd =>
    obtain hkeeps | ⟨hordered, hsame, hret⟩ := h.internalSendMessage hrunning hsafe hcall
    · exact Or.inl hkeeps
    · exact Or.inr ⟨hordered, hsame, by rw [hret]; decide, Or.inl ⟨msg, fd, rfl⟩⟩
  | recvMsg msg fd =>
    obtain hkeeps | ⟨hordered, hsame, hret⟩ := h.internalRecvMessage hrunning hsafe hcall
    · exact Or.inl hkeeps
    · exact Or.inr ⟨hordered, hsame, by rw [hret]; decide, Or.inr ⟨msg, fd, rfl⟩⟩
  | wakeupQueue check q users => exact Or.inl (h.internalWakeUpQueue hrunning hsafe hcall)
  | openQueue id fd mode =>
    have hframe := internalOpenQueue_eq hcall
    exact Or.inl (h.congr (by rw [hframe]) (by rw [hframe]) (by rw [hframe]) (by rw [hframe])
      (by rw [hframe]) (by rw [hframe]))

/-- Whether the running process has had a SEND or RECV fail since it began to run. -/
def noteFailure (failed : Bool) (k : Kernel) (a : Action) (k' : Kernel) : Bool :=
  k'.running = k.running &&
    (failed ||
      match k.running, k.request a with
      | some p, some (.sendMsg ..) | some p, some (.recvMsg ..) => k'.pcbs.syscallRetvalue p ≠ 0
      | _, _ => false)

/-- The running process is in `waiting_list` only after a SEND or RECV of its own that failed. -/
def WaitsOnlyIf (failed : Bool) (k : Kernel) : Prop :=
  ∀ p, k.running = some p → p ∈ k.pcbNodes .waiting → failed = true

theorem KeepsOrder.waitsOnlyIf (h : k.KeepsOrder k') {failed : Bool} (hfailed : k.WaitsOnlyIf failed)
    (a : Action) : k'.WaitsOnlyIf (noteFailure failed k a k') := by
  intro p hp hmem
  obtain ⟨hruns, hmem'⟩ := h.waiting p hp hmem
  simp [noteFailure, hp, hruns, hfailed p hruns hmem']

/-- The invariant of the runs. -/
structure ListsInv (failed : Bool) (k : Kernel) : Prop where
  ordered : k.Ordered
  noShutdown : k.NoShutdown
  waits : k.WaitsOnlyIf failed

theorem ListsSafe.no_shutdown {a : Action} (h : k.ListsSafe a) : k.request a ≠ some .shutdown := by
  intro hrequest
  obtain ⟨p, hp⟩ := running_of_request hrequest
  have hall := h p hp
  cases a with
  | timer => simp [Kernel.request] at hrequest
  | start | write | syscall | call | statement => exact hall _ hrequest

theorem ListsInv.step {failed : Bool} (h : k.ListsInv failed) {a : Action} (hsafe : k.ListsSafe a)
    (hstep : k.step a = some k') : k'.ListsInv (noteFailure failed k a k') := by
  have hcontexts := h.noShutdown.step hsafe.no_shutdown hstep
  obtain ⟨rfl, hstart⟩ | ⟨rfl, htimer⟩ | ⟨x, byte, rfl, -, rfl⟩ | ⟨c, p, ret, rfl, hp, -, rfl⟩ |
    ⟨c, p, next, hp, hcalls, hcall⟩ | ⟨p, rfl, hp, -, hrun⟩ := step_cases hstep
  · have hkeeps := h.ordered.startProcess hstart
    exact ⟨hkeeps.ordered, hcontexts, hkeeps.waitsOnlyIf h.waits _⟩
  · obtain ⟨p, hp, hschedule⟩ := Option.bind_eq_some_iff.mp htimer
    have htick : k.KeepsOrder { k with disastrOSTime := toInt (k.disastrOSTime + 1) } :=
      h.ordered.congr rfl rfl rfl rfl rfl rfl
    have hschedules := htick.ordered.internalSchedule hp (hsafe p hp) hschedule
    have hkeeps : k.KeepsOrder k' := ⟨hschedules.ordered, hschedules.waiting⟩
    exact ⟨hkeeps.ordered, hcontexts, hkeeps.waitsOnlyIf h.waits _⟩
  · have hkeeps : k.KeepsOrder { k with userBytes := update k.userBytes x byte } :=
      h.ordered.congr rfl rfl rfl rfl rfl rfl
    exact ⟨hkeeps.ordered, hcontexts, hkeeps.waitsOnlyIf h.waits _⟩
  · have hkeeps : k.KeepsOrder (k.setContext p c.entry) := h.ordered.congr rfl rfl rfl rfl rfl rfl
    exact ⟨hkeeps.ordered, hcontexts, hkeeps.waitsOnlyIf h.waits _⟩
  · have hrequest := hcalls.request hp
    have hsafe' : k.SyscallSafe p c := by
      have hall := hsafe p hp
      cases hcalls <;> exact hall c hrequest
    have htrap : k.KeepsOrder (k.trap p next c) := h.ordered.congr rfl rfl rfl rfl rfl rfl
    obtain hcalled | ⟨hordered, hsame, hret, hkind⟩ :=
      htrap.ordered.syscall hp (hsafe'.trap next) hcall
    · have hkeeps : k.KeepsOrder k' := ⟨hcalled.ordered, hcalled.waiting⟩
      exact ⟨hkeeps.ordered, hcontexts, hkeeps.waitsOnlyIf h.waits _⟩
    · refine ⟨hordered, hcontexts, fun q _ _ ↦ ?_⟩
      have hsame' : k'.running = k.running := hsame
      obtain ⟨msg, fd, rfl⟩ | ⟨msg, fd, rfl⟩ := hkind
      · simp [noteFailure, hsame', hp, hrequest, hret]
      · simp [noteFailure, hsame', hp, hrequest, hret]
  · obtain ⟨hsame, -⟩ := runStatement_context (h.noShutdown p) hrun
    have hframe := runStatement_eq hrun
    have hkeeps : k.KeepsOrder k' := h.ordered.congr (by rw [hframe]) (by rw [hframe])
      (by rw [hframe]) hsame (by rw [hframe]) (by rw [hframe])
    exact ⟨hkeeps.ordered, hcontexts, hkeeps.waitsOnlyIf h.waits _⟩

end Kernel

/-! ### Whole runs -/

/-- The lists are well-formed doubly linked lists, no process is in two of them, the running process is
not in `ready_list` or `zombie_list` and in `waiting_list` only after a SEND or RECV that failed, and
every other process is in exactly one list. -/
def Kernel.ListsConsistent (failed : Bool) (k : Kernel) : Prop :=
  ∃ nodes : PcbList → List Addr,
    (∀ i, Represents k.pcbs.list (k.lists i) (nodes i)) ∧
      (∀ i j p, p ∈ nodes i → p ∈ nodes j → i = j) ∧
      (∀ p, k.running = some p →
        p ∉ nodes .ready ∧ p ∉ nodes .zombie ∧ (p ∈ nodes .waiting → failed = true)) ∧
      ∀ p, k.pcbs.allocator.Allocated p → k.running ≠ some p → ∃! i, p ∈ nodes i

theorem Kernel.ListsInv.listsConsistent {failed : Bool} {k : Kernel} (h : k.ListsInv failed) :
    k.ListsConsistent failed := by
  refine ⟨k.pcbNodes, h.ordered.scheduled.threads.represents, h.ordered.scheduled.threads.disjoint,
    fun p hp ↦ ⟨h.ordered.scheduled.running_notReady p hp,
      h.ordered.scheduled.running_notZombie p hp, h.waits p hp⟩, fun p hp hne ↦ ?_⟩
  obtain ⟨i, hi⟩ := (h.ordered.scheduled.covered p hp).resolve_left hne
  exact ⟨i, hi, fun j hj ↦ h.ordered.scheduled.list_unique hj hi⟩

/-- At the start the lists are empty. -/
theorem Layout.boot_ordered (layout : Layout) : layout.boot.Ordered :=
  layout.boot_scheduled.ordered layout.boot_timersListed

theorem Layout.boot_listsInv (layout : Layout) : layout.boot.ListsInv false where
  ordered := layout.boot_ordered
  noShutdown _ := by simp [Layout.boot]
  waits p hp := absurd hp (Option.some_ne_none p).symm

/-- In every run whose steps meet the condition, the lists of processes are consistent. -/
theorem listsConsistent_of_safe (layout : Layout) {actions : List Action} {k : Kernel}
    (hsafe : Runs.Meets Kernel.step Kernel.ListsSafe layout.boot actions)
    (hrun : Runs.run Kernel.step layout.boot actions = some k) :
    k.ListsConsistent (Runs.monitor Kernel.step Kernel.noteFailure false layout.boot actions) :=
  (Runs.monitor_invariant (fun _ _ _ _ hinv hok hstep ↦ hinv.step hok hstep) layout.boot_listsInv
    hsafe hrun).listsConsistent

/-- A process spawns a child, is interrupted by the timer, and later takes the child away, which has
exited with 7. -/
theorem listsConsistent_of_safe_reapedChild : ∃ k,
    Runs.run Kernel.step sampleLayout.boot
      [.start, .syscall .spawn, .timer, .syscall (.exit 7), .syscall (.wait 0 (some 0x900000))] =
        some k ∧ k.ListsConsistent false := by
  have hruns : (Runs.run Kernel.step sampleLayout.boot [.start, .syscall .spawn, .timer,
      .syscall (.exit 7), .syscall (.wait 0 (some 0x900000))]).isSome := by decide +kernel
  obtain ⟨k, hk⟩ := Option.isSome_iff_exists.mp hruns
  refine ⟨k, hk, ?_⟩
  have hconsistent := listsConsistent_of_safe sampleLayout (by decide +kernel) hk
  have hnone : Runs.monitor Kernel.step Kernel.noteFailure false sampleLayout.boot [.start,
      .syscall .spawn, .timer, .syscall (.exit 7), .syscall (.wait 0 (some 0x900000))] = false := by
    decide +kernel
  rwa [hnone] at hconsistent

/-- One process opens a queue and receives from it, with nobody else in the system. -/
def soleReader : List Action :=
  [.start, .call (.openQueue 0 0o13), .statement, .statement, .statement, .statement,
    .call (.receive 0 (some 0x800000) 128), .statement, .statement, .statement, .statement,
    .statement, .statement, .statement, .statement]

/-- The second RECV of the sole reader links it to itself. -/
theorem soleReader_not_listsConsistent : ∃ k,
    Runs.run Kernel.step sampleLayout.boot soleReader = some k ∧
      ∀ failed, ¬ k.ListsConsistent failed := by
  have hends : (Runs.run Kernel.step sampleLayout.boot soleReader).map (fun k ↦
      ((k.lists .waiting).first, (k.pcbs.list 0x400000).prev)) =
        some (some 0x400000, some 0x400000) := by decide +kernel
  obtain ⟨k, hk, hpair⟩ := Option.map_eq_some_iff.mp hends
  obtain ⟨hfirst, hprev⟩ := Prod.mk.inj hpair
  refine ⟨k, hk, ?_⟩
  rintro failed ⟨nodes, hrep, -⟩
  have hwaiting := hrep .waiting
  cases hnodes : nodes .waiting with
  | nil =>
    have hhead := hwaiting.first
    rw [hnodes, hfirst] at hhead
    simp at hhead
  | cons p rest =>
    have hhead := hwaiting.first
    rw [hnodes, hfirst, List.head?_cons] at hhead
    obtain rfl := Option.some.inj hhead
    rw [hnodes] at hwaiting
    rw [hwaiting.head_links] at hprev
    exact absurd hprev (by simp)

end DisastrOS
