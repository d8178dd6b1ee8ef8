import DisastrOS.Objects

/-!
# Processes

`internal_schedule`, `internal_preempt`, `internal_sleep`, `internal_spawn`, `internal_fork`,
`internal_wait` and `internal_exit`. Each is a function of the kernel state, with `none` for a run
that goes no further. `running` is null when no process is left to run.
-/

set_option autoImplicit false
set_option relaxedAutoImplicit false

namespace DisastrOS

open LinkedLists
open Function (update)

namespace Kernel

/-! ### Scheduling (`disastrOS_schedule.c`, `disastrOS_preempt.c`) -/

/-- One turn of the loop over the elapsed timers: the process goes from `waiting_list` to
`ready_list`, right after the one that was woken before it. -/
def wakeProcess (k : Kernel) (previousPcb : Option Addr) (elapsedTimer : Addr) : Kernel :=
  let pcbToWake := k.timerItems.pcb elapsedTimer
  let k := k.detachPcb .waiting (some pcbToWake)
  let k := k.setStatus pcbToWake .ready
  let k := { k with pcbs.timer := update k.pcbs.timer pcbToWake none }
  let k := k.insertPcb .ready previousPcb (some pcbToWake)
  k.timerListRemoveCurrent

/-- The loop of `internal_schedule` over the elapsed timers. -/
def wakeElapsed : ℕ → Option Addr → Kernel → Option Kernel
  | 0, _, k => if k.timerListCurrent.isSome then none else some k
  | bound + 1, previousPcb, k =>
    match k.timerListCurrent with
    | none => some k
    | some elapsedTimer =>
      wakeElapsed bound (some (k.timerItems.pcb elapsedTimer))
        (k.wakeProcess previousPcb elapsedTimer)

/-- The second half of `internal_schedule`: the first ready process takes the place of the running
one, which goes to the end of `ready_list`. -/
def switchToReady (k : Kernel) : Option Kernel :=
  match (k.lists .ready).first with
  | none => some k
  | some nextProcess => do
    let k := k.detachPcb .ready (some nextProcess)
    let running ← k.running
    let k := k.setStatus running .ready
    let k := k.insertPcb .ready (k.lists .ready).last (some running)
    let k := k.setStatus nextProcess .running
    some { k with running := some nextProcess }

/-- `internal_schedule`. -/
def internalSchedule (k : Kernel) : Option Kernel := do
  let k ← wakeElapsed walkBound none k
  k.switchToReady

/-- `internal_preempt`. -/
def internalPreempt (k : Kernel) : Option Kernel := k.internalSchedule

/-! ### Sleeping (`disastrOS_sleep.c`) -/

/-- The running process gives way to the first ready process, whose status is not changed. -/
def dispatchReady (k : Kernel) : Kernel :=
  let nextRunning := (k.lists .ready).first
  { k.detachPcb .ready nextRunning with running := nextRunning }

/-- `internal_sleep`. -/
def internalSleep (cycles : ℤ) (k : Kernel) : Option Kernel := do
  let running ← k.running
  if (k.pcbs.timer running).isSome then some (k.setRetvalue running dsosEsleep)
  else
    let wakeTime := toInt (k.disastrOSTime + cycles)
    match ← k.timerListAdd wakeTime running with
    | (none, k) => some (k.setRetvalue running dsosEsleep)
    | (some _, k) =>
      let k := k.setStatus running .waiting
      let k := k.insertPcb .waiting (k.lists .waiting).last (some running)
      some k.dispatchReady

/-! ### Creating processes (`disastrOS_spawn.c`, `disastrOS_fork.c`) -/

/-- The new process is a child of the running one. -/
def setParent (k : Kernel) (pcb parent : Addr) : Kernel :=
  { k with pcbs.parent := update k.pcbs.parent pcb (some parent) }

/-- The new process goes to the ends of the parent's children and of `ready_list`, and the parent
gets its pid. -/
def adopt (k : Kernel) (running newPcb newPcbPtr : Addr) : Kernel :=
  let k := k.insertChild running (k.pcbs.children running).last (some newPcbPtr)
  let k := k.insertPcb .ready (k.lists .ready).last (some newPcb)
  k.setRetvalue running (k.pcbs.pid newPcb)

/-- `internal_fork`, with the new process. -/
def newProcess (k : Kernel) : Option (Addr × Kernel) := do
  let running ← k.running
  let (newPcb, k) ← k.pcbAlloc
  let k := k.setStatus newPcb .ready
  let k := k.setParent newPcb running
  let (newPcbPtr, k) ← k.pcbPtrAlloc newPcb
  some (newPcb, k.adopt running newPcb newPcbPtr)

/-- `internal_fork`. The new process goes on where the machine state left in its block stands. The zeroed
state of a block that was never used cannot be resumed; here such a process is outside the queue functions. -/
def internalFork (k : Kernel) : Option Kernel := do
  let (_, k) ← k.newProcess
  some k

/-- `internal_spawn`: as `internal_fork`, with the new process at the start of its function. -/
def internalSpawn (k : Kernel) : Option Kernel := do
  let (newPcb, k) ← k.newProcess
  some (k.setContext newPcb (.user 0))

/-! ### Waiting for a child (`disastrOS_wait.c`) -/

/-- The loop of `internal_wait` over the children: the first zombie when `pid` is 0, the child of
that pid otherwise. Without such a child it ends with the last one. -/
def awaitedPcbPtr (k : Kernel) (pid : ℤ) : ℕ → Option Addr → Option Addr → Option (Option Addr)
  | _, awaited, none => some awaited
  | 0, _, some _ => none
  | bound + 1, _, some aux =>
    let pcb := k.pcbPtrs.pcb aux
    if pid = 0 ∧ k.pcbs.status pcb = .zombie then some (some aux)
    else if pid ≠ 0 ∧ k.pcbs.pid pcb = pid then some (some aux)
    else awaitedPcbPtr k pid bound (some aux) (k.pcbPtrs.list aux).next

/-- The write through a `result` pointer that may be null. -/
def storeResult (k : Kernel) (result : Option Addr) (value : ℤ) : Kernel :=
  { k with
    userInts := match result with
      | none => k.userInts
      | some a => update k.userInts a value }

/-- The part of `internal_wait` that takes a zombie child away. -/
def reapZombie (k : Kernel) (running pcbPtr : Addr) (result : Option Addr) : Kernel :=
  let pcb := k.pcbPtrs.pcb pcbPtr
  let k := k.detachChild running (some pcbPtr)
  let k := k.pcbPtrFree pcbPtr
  let k := k.detachPcb .zombie (some pcb)
  let k := k.setRetvalue running (k.pcbs.pid pcb)
  let k := k.storeResult result (k.pcbs.returnValue pcb)
  k.pcbFree pcb

/-- The end of `internal_wait`: the process blocks and the first ready one runs. -/
def blockInWait (k : Kernel) (running : Addr) : Kernel :=
  let k := k.setStatus running .waiting
  let k := k.insertPcb .waiting (k.lists .waiting).last (some running)
  k.dispatchReady

/-- `internal_wait`. -/
def internalWait (pid : ℤ) (result : Option Addr) (k : Kernel) : Option Kernel := do
  let running ← k.running
  if (k.pcbs.children running).first.isNone then some (k.setRetvalue running dsosEwait)
  else
    match ← k.awaitedPcbPtr pid walkBound none (k.pcbs.children running).first with
    | none =>
      if 0 < pid then some (k.setRetvalue running dsosEwait) else some (k.blockInWait running)
    | some pcbPtr =>
      if k.pcbs.status (k.pcbPtrs.pcb pcbPtr) = .zombie then
        some (k.reapZombie running pcbPtr result)
      else some (k.blockInWait running)

/-! ### Exit (`disastrOS_exit.c`) -/

/-- `pcb->signals |= (signal & pcb->signals_mask)`. -/
def sendSignal (k : Kernel) (pcb : Addr) (signal : BitVec 32) : Kernel :=
  { k with
    pcbs.signals :=
      update k.pcbs.signals pcb (k.pcbs.signals pcb ||| (signal &&& k.pcbs.signalsMask pcb)) }

/-- One turn of the loop of `internal_exit` that hands the children to the init process. -/
def handToInit (k : Kernel) (running initPcb item : Addr) : Kernel :=
  let k := k.detachChild running (some item)
  let k := k.insertChild initPcb (k.pcbs.children initPcb).last (some item)
  k.sendSignal (k.pcbPtrs.pcb item) dsosSighup

/-- The loop of `internal_exit` over the children. -/
def reparent (running initPcb : Addr) : ℕ → Kernel → Option Kernel
  | 0, k => if (k.pcbs.children running).first.isSome then none else some k
  | bound + 1, k =>
    match (k.pcbs.children running).first with
    | none => some k
    | some item => reparent running initPcb bound (k.handToInit running initPcb item)

/-- The parent waits for this very process. -/
def awaits (k : Kernel) (parent running : Addr) : Bool :=
  k.pcbs.status parent = .waiting &&
    match k.pcbs.syscall parent with
    | some (.wait pid _) => pid = 0 || pid = k.pcbs.pid running
    | _ => false

/-- The result pointer of a process that waits. -/
def waitResult (k : Kernel) (parent : Addr) : Option Addr :=
  match k.pcbs.syscall parent with
  | some (.wait _ result) => result
  | _ => none

/-- The loop of `internal_exit` that releases the timers of the process. The next timer is read before
the current one is taken out. -/
def releaseTimers (running : Addr) : ℕ → Option Addr → Kernel → Option Kernel
  | _, none, k => some k
  | 0, some _, _ => none
  | bound + 1, some timer, k =>
    if k.timerItems.pcb timer = running then
      releaseTimers running bound (k.timerItems.list timer).next
        ((k.detachTimer (some timer)).timerItemFree timer)
    else releaseTimers running bound (k.timerItems.list timer).next k

/-- `List_detach(&q->readers, entry)` and its like, where the queue can be null. -/
def detachEntry (k : Kernel) (q : Option Addr) (role : Role) (entry : Option Addr) :
    Option Kernel :=
  match entry, q with
  | none, _ => some k
  | some _, none => none
  | some qu, some q => some (k.detachUser (q, role) (some qu))

/-- The part of `internal_exit` that takes the process out of a queue it has open. -/
def leaveQueue (k : Kernel) (running des : Addr) : Option Kernel :=
  if k.resources.type (k.descriptors.resource des) = 2 then do
    let q := k.resources.value (k.descriptors.resource des)
    let entries ← k.queueEntries running (k.descriptors.fd des)
    let ds ← entries
    let k ← k.detachEntry q .reader (k.descriptors.rwn ds .reader)
    let k ← k.detachEntry q .writer (k.descriptors.rwn ds .writer)
    k.detachEntry q .nonBlock (k.descriptors.rwn ds .nonBlock)
  else some k

/-- The part of `internal_exit` that closes a descriptor. -/
def dropDescriptor (k : Kernel) (running des : Addr) : Kernel :=
  let res := k.descriptors.resource des
  let k := k.detachDescriptor running (some des)
  let k := k.detachDescriptorPtr res (k.descriptors.ptr des)
  let k := k.descriptorPtrFree ((k.descriptors.ptr des).getD 0)
  k.descriptorFree des

/-- The loop of `internal_exit` that releases the descriptors of the process. -/
def releaseDescriptors (running : Addr) : ℕ → Kernel → Option Kernel
  | 0, k => if (k.pcbs.descriptors running).first.isSome then none else some k
  | bound + 1, k =>
    match (k.pcbs.descriptors running).first with
    | none => some k
    | some des => do
      let k ← k.leaveQueue running des
      releaseDescriptors running bound (k.dropDescriptor running des)

/-- The branch of `internal_exit` in which the parent waits: the parent gets the exit value and
runs, and the process is released at once. -/
def exitToParent (k : Kernel) (running parent : Addr) : Option Kernel := do
  let k := k.detachPcb .waiting (some parent)
  let k := k.setStatus parent .running
  let selfInParent ← k.pcbPtrByPID (k.pcbs.children parent) (k.pcbs.pid running)
  let k := k.detachChild parent selfInParent
  let k := k.setRetvalue parent (k.pcbs.pid running)
  let k := k.storeResult (k.waitResult parent) (k.pcbs.returnValue running)
  let k ← releaseTimers running walkBound k.timerList.first k
  let k ← releaseDescriptors running walkBound k
  let k := k.detachPcb .zombie (some running)
  let k := k.pcbFree running
  some { k with running := some parent }

/-- The other branch: the process stays a zombie and the first ready process runs. -/
def exitToReady (k : Kernel) : Option Kernel := do
  let nextRunning ← (k.lists .ready).first
  let k := k.detachPcb .ready (some nextRunning)
  let k := k.setStatus nextRunning .running
  some { k with running := some nextRunning }

/-- The part of `internal_exit` before the two branches. -/
def becomeZombie (k : Kernel) (running : Addr) (value : ℤ) : Option Kernel := do
  let k := { k with pcbs.returnValue := update k.pcbs.returnValue running value }
  let initPcb ← k.initPcb
  let k ← reparent running initPcb walkBound k
  let k := k.setStatus running .zombie
  some (k.insertPcb .zombie (k.lists .zombie).last (some running))

/-- `internal_exit`. -/
def internalExit (value : ℤ) (k : Kernel) : Option Kernel := do
  let running ← k.running
  let k ← k.becomeZombie running value
  let parent ← k.pcbs.parent running
  let k := k.sendSignal parent dsosSigchld
  if k.awaits parent running then k.exitToParent running parent else k.exitToReady

end Kernel

end DisastrOS
