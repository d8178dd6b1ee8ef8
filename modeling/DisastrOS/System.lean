import DisastrOS.Messages
import DisastrOS.Process
import DisastrOS.Resources

/-!
# The system

The table of system calls and the timer interrupt of `disastrOS.c`, `internal_shutdown`, the queue
functions of `disastrOS_queue.c`, and the steps of the whole system (`Kernel.step`).

A system call and a timer interrupt are one step each: the code blocks the timer signal while a
system call runs. The queue functions run in user mode, so a timer interrupt can fall between any two
of their statements, and each statement that reads or writes shared data is one step: `Context` says
which one is next, and `Kernel.runStatement` executes it. Outside these functions a process may do
anything: any system call, any call of a queue function, and any write to its memory (`Action`).

The first process is started once. When no process is left to run, the trap ends and so does the
program: `makecontext` puts `uc_link` at the top of the stack, the three contexts of `disastrOS_start`
share `system_stack`, and the last of them, `graveyard_context`, has no link to `main_context`.
-/

set_option autoImplicit false
set_option relaxedAutoImplicit false

namespace DisastrOS

open LinkedLists
open Function (update)

namespace Kernel

/-! ### Shutdown (`disastrOS_shutdown.c`) -/

/-- The inner loop over the descriptor pointers of a resource. -/
def releasePointers (res : Addr) : ℕ → Kernel → Option Kernel
  | 0, k => some k
  | turns + 1, k => do
    let desptr ← (k.resources.descriptorsPtrs res).first
    let k := k.detachDescriptorPtr res (some desptr)
    let k := k.descriptorFree (k.descriptorPtrs.descriptor desptr)
    releasePointers res turns (k.descriptorPtrFree desptr)

/-- The loop over the resources. -/
def releaseResources : ℕ → Kernel → Option Kernel
  | 0, k => some k
  | turns + 1, k => do
    let res ← k.resourcesList.first
    let k := k.detachResource (some res)
    let k ← releasePointers res (k.resources.descriptorsPtrs res).size.toNat k
    let k ← k.resourceFree res
    releaseResources turns k

/-- The loops over `ready_list` and `waiting_list`. Processes 0 and 1 go back to the end of the list
they are taken from. A waiting process goes to `ready_list`, a ready one to no list. -/
def buryProcesses (i : PcbList) : ℕ → Kernel → Option Kernel
  | 0, k => some k
  | turns + 1, k => do
    let p ← (k.lists i).first
    let k := k.detachPcb i (some p)
    if k.pcbs.pid p = 0 ∨ k.pcbs.pid p = 1 then
      buryProcesses i turns (k.insertPcb i (k.lists i).last (some p))
    else
      let k := k.setContext p .graveyard
      buryProcesses i turns
        (if i = .waiting then k.insertPcb .ready (k.lists .ready).last (some p) else k)

/-- `internal_shutdown`. The process that waits for the others goes on at `halting`. -/
def internalShutdown (k : Kernel) : Option Kernel := do
  let running ← k.running
  if k.shutdownNow then some (k.setRetvalue running dsosShutting)
  else
    let k := { k with shutdownNow := true }
    let k ← releaseResources k.resourcesList.size.toNat k
    let processesR := (k.lists .ready).size
    let k ← buryProcesses .ready processesR.toNat k
    let processesW := (k.lists .waiting).size
    let k ← buryProcesses .waiting processesW.toNat k
    if 0 < processesR + processesW - 2 then do
      let k ← k.internalSleep shutdownWaitingCycles
      let _ ← k.running
      some (k.setContext running .halting)
    else some { k with running := none }

/-! ### System calls and interrupts (`disastrOS.c`) -/

/-- The entry of `syscall_vector` for a system call, applied to its arguments. -/
def syscallVector : Syscall → Kernel → Option Kernel
  | .preempt => internalPreempt
  | .fork => internalFork
  | .wait pid result => internalWait pid result
  | .exit value => internalExit value
  | .spawn => internalSpawn
  | .sleep cycles => internalSleep cycles
  | .openResource id type mode => internalOpenResource id type mode
  | .closeResource fd => internalCloseResource fd
  | .destroyResource id => internalDestroyResource id
  | .shutdown => internalShutdown
  | .sendMsg msg fd => internalSendMessage msg fd
  | .recvMsg msg fd => internalRecvMessage msg fd
  | .wakeupQueue check q queueUsers => internalWakeUpQueue check q queueUsers
  | .openQueue id fd mode => internalOpenQueue id fd mode

/-- `disastrOS_syscall` and `disastrOS_trap`: the call is noted in the PCB and executed. -/
def disastrOSSyscall (c : Syscall) (k : Kernel) : Option Kernel := do
  let running ← k.running
  syscallVector c { k with pcbs.syscall := update k.pcbs.syscall running (some c) }

/-- `timerInterrupt`. -/
def timerInterrupt (k : Kernel) : Option Kernel := do
  let _ ← k.running
  internalSchedule { k with disastrOSTime := toInt (k.disastrOSTime + 1) }

/-- The end of `disastrOS_start`, which is reached once: the first process. -/
def startProcess (k : Kernel) : Option Kernel :=
  if k.running.isSome ∨ k.initPcb.isSome ∨ k.shutdownNow then none
  else do
    let (running, k) ← k.pcbAlloc
    let k := { k.setStatus running .running with running := some running, initPcb := some running }
    some (k.setContext running (.user 0))

end Kernel

/-! ### The queue functions (`disastrOS_queue.c`) -/

/-- A call of one of the queue functions. -/
inductive DmqCall
  | close (fd : ℤ)
  | getattr (fd attributeConstant : ℤ)
  | openQueue (id : ℤ) (mode : BitVec 32)
  | receive (fd : ℤ) (buffer : Option Addr) (bufferSize : ℤ)
  | send (fd : ℤ) (msg : Option Addr) (msgLen : ℤ)
  | setattr (fd attributeConstant newVal : ℤ)
  | unlink (id : ℤ)
deriving DecidableEq, Repr

/-- The first statement of a queue function. -/
def DmqCall.entry : DmqCall → Context
  | .close fd => .close fd
  | .getattr fd attr => .getattr fd attr
  | .openQueue id mode => .openResource id mode
  | .receive fd buffer bufferSize => .transfer ⟨.receive, fd, buffer, bufferSize⟩
  | .send fd msg msgLen => .transfer ⟨.send, fd, msg, msgLen⟩
  | .setattr fd attr newVal => .setattr fd attr newVal
  | .unlink id => .unlink id

/-- The flags that `dmq_open` passes to `disastrOS_openResource`. -/
def resourceFlags (mode : BitVec 32) : BitVec 32 :=
  if hasBit mode dsosCreat then
    if hasBit mode dsosQExcl then dsosCreate ||| dsosExcl else dsosCreate
  else 0

/-- The list a process has to be in to use the function: readers receive, writers send. -/
def Transfer.role : Transfer → Role
  | .receive => .reader
  | .send => .writer

/-- The list whose users the function wakes up. -/
def Transfer.otherRole : Transfer → Role
  | .receive => .writer
  | .send => .reader

/-- The condition the function passes to the wake-up. -/
def Transfer.wakeupCheck : Transfer → WakeupCheck
  | .receive => .recv
  | .send => .send

/-- The system call of the function. -/
def TransferCall.syscall (c : TransferCall) : Syscall :=
  match c.op with
  | .receive => .recvMsg c.msg c.fd
  | .send => .sendMsg c.msg c.fd

/-- The result of the system call for which the function tries again. -/
def Transfer.failure : Transfer → ℤ
  | .receive => dsosNoMsgReceived
  | .send => dsosNoMsgSent

/-- The system call a process makes at its point of the user code, and where it goes on afterwards. -/
def Context.request : Context → Option (Syscall × Context)
  | .closeResource fd q => some (.closeResource fd, .closeResult q)
  | .openResource id mode => some (.openResource id 2 (resourceFlags mode), .openResult id mode)
  | .openQueue id fd mode => some (.openQueue id fd mode, .openReturn)
  | .transferCall c q => some (c.syscall, .transferResult c q)
  | .transferRetry c q => some (.preempt, .transferCall c q)
  | .transferWake c q =>
    some (.wakeupQueue c.op.wakeupCheck q (q, c.op.otherRole), .user 0)
  | .unlink id => some (.destroyResource id, .unlinkReturn)
  | .graveyard => some (.exit dsosShutdownExit, .user 0)
  | _ => none

/-- The next of the three lists `dmq_close` goes through. -/
def Role.next : Role → Option Role
  | .reader => some .writer
  | .writer => some .nonBlock
  | .nonBlock => none

namespace Kernel

/-- `dmq_getattr` for a queue. -/
def attributeValue (k : Kernel) (q : Addr) (attr : ℤ) : ℤ :=
  if attr = attQueueCurrentMessages then (k.queues.messages q).size
  else if attr = attQueueMaxMessages then k.queues.maxMessages q
  else if attr = attQueueOpenings then k.queues.openings q
  else if attr = attQueueMessageSize then k.queues.msgSize q
  else invalidAttribute

/-- What the functions do first: the queue of the descriptor, or `INVALID_FD`. -/
def enterQueue (k : Kernel) (p : Addr) (fd : ℤ) (next : Addr → Context) : Option Kernel := do
  match ← k.queueByFd p fd with
  | none => some (k.setContext p (.user invalidFd))
  | some q => some (k.setContext p (next q))

/-- The size check of `dmq_receive` and of `dmq_send`. -/
def transferSizeError (k : Kernel) (c : TransferCall) (q : Addr) : Option ℤ :=
  match c.op with
  | .receive => if c.len < k.queues.msgSize q then some bufferTooSmall else none
  | .send => if k.queues.msgSize q < c.len then some msgTooBig else none

/-- The function would have to wait: the queue is empty, or full. -/
def transferBlocked (k : Kernel) (op : Transfer) (q : Addr) : Bool :=
  match op with
  | .receive => (k.queues.messages q).size = 0
  | .send => (k.queues.messages q).size = k.queues.maxMessages q

/-- The first check of `dmq_setattr`: the error with which it returns, if any. -/
def setattrError (k : Kernel) (q : Addr) (attr newVal : ℤ) : Option ℤ :=
  if attr = attQueueCurrentMessages ∨ attr = attQueueOpenings then some attNotSet
  else if attr = attQueueMaxMessages then
    if maxNumMessagesPerQueue < newVal then some invalidValue else none
  else if attr = attQueueMessageSize then
    if 0 < (k.queues.messages q).size then some operationNotAvailable else none
  else some invalidAttribute

/-- The write of `dmq_setattr`. -/
def writeAttribute (k : Kernel) (q : Addr) (attr newVal : ℤ) : Kernel :=
  if attr = attQueueMaxMessages then
    { k with queues.maxMessages := update k.queues.maxMessages q newVal }
  else { k with queues.msgSize := update k.queues.msgSize q newVal }

/-- One statement of the queue functions that is not a system call, executed by process `p`. -/
def runStatement (k : Kernel) (p : Addr) : Context → Option Kernel
  -- dmq_close
  | .close fd => do
    match ← k.queueByFd p fd with
    | none => some (k.setContext p (.user invalidFd))
    | some q => do
      let entries ← k.queueEntries p fd
      let ds ← entries
      some (k.setContext p (.closeDetach fd q ds .reader))
  | .closeDetach fd q ds role =>
    let entry := k.descriptors.rwn ds role
    some ((k.detachUser (q, role) entry).setContext p (.closeFree fd q ds role entry))
  | .closeFree fd q ds role entry =>
    let k := k.queueUserFree entry
    match role.next with
    | some next => some (k.setContext p (.closeDetach fd q ds next))
    | none => some (k.setContext p (.closeResource fd q))
  | .closeResult q =>
    let retval := k.pcbs.syscallRetvalue p
    if retval ≠ 0 then some (k.setContext p (.user retval))
    else
      let k := { k with queues.openings := update k.queues.openings q (k.queues.openings q - 1) }
      some (k.setContext p (.user 0))
  -- dmq_getattr
  | .getattr fd attr => k.enterQueue p fd fun q ↦ .getattrRead q attr
  | .getattrRead q attr => some (k.setContext p (.user (k.attributeValue q attr)))
  -- dmq_open
  | .openResult id mode =>
    let fd := k.pcbs.syscallRetvalue p
    if fd < 0 then some (k.setContext p (.user fd))
    else some (k.setContext p (.openQueue id fd mode))
  | .openReturn => some (k.setContext p (.user (k.pcbs.syscallRetvalue p)))
  -- dmq_receive and dmq_send
  | .transfer c => k.enterQueue p c.fd fun q ↦ .transferSize c q
  | .transferSize c q =>
    match k.transferSizeError c q with
    | some err => some (k.setContext p (.user err))
    | none => some (k.setContext p (.transferFind c q))
  | .transferFind c q => do
    let entries ← k.queueEntries p c.fd
    let ds ← entries
    match ← listFind walkBound k.queueUsers.list (k.queues.users (q, c.op.role))
        (k.descriptors.rwn ds c.op.role) with
    | none => some (k.setContext p (.user actionNotAllowed))
    | some _ => some (k.setContext p (.transferRoom c q ds))
  | .transferRoom c q ds =>
    if k.transferBlocked c.op q && (k.descriptors.rwn ds .nonBlock).isSome then
      some (k.setContext p (.user eagain))
    else some (k.setContext p (.transferCall c q))
  | .transferResult c q =>
    if k.pcbs.syscallRetvalue p = c.op.failure then some (k.setContext p (.transferRetry c q))
    else some (k.setContext p (.transferWake c q))
  -- dmq_setattr
  | .setattr fd attr newVal => k.enterQueue p fd fun q ↦ .setattrCheck q attr newVal
  | .setattrCheck q attr newVal =>
    match k.setattrError q attr newVal with
    | some err => some (k.setContext p (.user err))
    | none => some (k.setContext p (.setattrWrite q attr newVal))
  | .setattrWrite q attr newVal => some ((k.writeAttribute q attr newVal).setContext p (.user 0))
  -- dmq_unlink
  | .unlinkReturn => some (k.setContext p (.user (k.pcbs.syscallRetvalue p)))
  -- the end of internal_shutdown
  | .halting => some { k with running := none }
  | _ => none

end Kernel

/-! ### Steps -/

/-- What can happen next: the start of the first process, a timer interrupt, or something the running process
does: a write to its memory, a system call, a call of a queue function, or the next statement of the
queue function it is in. -/
inductive Action
  | start
  | timer
  | write (a : Addr) (byte : UInt8)
  | syscall (c : Syscall)
  | call (c : DmqCall)
  | statement
deriving DecidableEq, Repr

namespace Kernel

/-- Where the running process stands. -/
def context (k : Kernel) : Option Context := k.running.map k.pcbs.cpuState

/-- The running process is outside the queue functions. -/
def atUser (k : Kernel) : Bool :=
  match k.context with
  | some (.user _) => true
  | _ => false

/-- The system call that an action makes in a state, if it makes one. -/
def request (k : Kernel) : Action → Option Syscall
  | .syscall c => if k.atUser then some c else none
  | .statement => (k.context.bind Context.request).map Prod.fst
  | _ => none

/-- One step of the system. -/
def step (k : Kernel) : Action → Option Kernel
  | .start => k.startProcess
  | .timer => k.timerInterrupt
  | .write a byte => if k.atUser then some { k with userBytes := update k.userBytes a byte } else none
  | .syscall c => if k.atUser then k.disastrOSSyscall c else none
  | .call c =>
    if k.atUser then do
      let p ← k.running
      some (k.setContext p c.entry)
    else none
  | .statement => do
    let p ← k.running
    match (k.pcbs.cpuState p).request with
    | some (c, next) => (k.setContext p next).disastrOSSyscall c
    | none => k.runStatement p (k.pcbs.cpuState p)

end Kernel

end DisastrOS
