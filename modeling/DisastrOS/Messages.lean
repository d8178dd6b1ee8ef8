import DisastrOS.Objects

/-!
# Moving messages

`internal_sendMessage`, `internal_recvMessage` and `internal_wakeUpQueue`. A message is copied byte
by byte up to its length or to the first NUL (`copyLength`). The string blocks are longer than the
messages, so the copy of a message that is too long runs into the next block; a copy that leaves the
blocks of the pool goes no further. There the C loop writes on, into the free list behind the blocks, which
the allocator keeps as numbers here and not as bytes.
-/

set_option autoImplicit false
set_option relaxedAutoImplicit false

namespace DisastrOS

open LinkedLists
open Function (update)

/-! ### The copy loops -/

/-- The number of turns of a copy loop over at most `turns` bytes of `source`: it ends after the
first NUL. -/
def copyLength (source : Addr → UInt8) (src : Addr) : ℕ → ℕ
  | 0 => 0
  | turns + 1 => if source src = 0 then 1 else copyLength source (src + 1) turns + 1

/-- The copy loop: byte by byte from `src` in one memory to `dst` in the other. -/
def copyBytes (source : Addr → UInt8) (src : Addr) (memory : Addr → UInt8) (dst : Addr) :
    ℕ → Addr → UInt8
  | 0 => memory
  | turns + 1 =>
    if source src = 0 then update memory dst (source src)
    else copyBytes source (src + 1) (update memory dst (source src)) (dst + 1) turns

namespace Kernel

/-- The copy of a message from the user buffer into its string block. -/
def storeMessage (k : Kernel) (msg : Option Addr) (m : Addr) : Option Kernel :=
  let turns := (k.messages.len m).toNat
  match turns, msg, k.messages.message m with
  | 0, _, _ => some k
  | _, some msg, some block =>
    let pool := k.msgStrings.allocator
    if block + copyLength k.userBytes msg turns ≤ pool.buffer + pool.itemSize * pool.sizeMax then
      some { k with
        msgStrings.byte := copyBytes k.userBytes msg k.msgStrings.byte block turns }
    else none
  | _, _, _ => none

/-- The copy of a message from its string block into the user buffer. -/
def loadMessage (k : Kernel) (msg : Addr) (m : Addr) : Option Kernel :=
  let turns := (k.messages.len m).toNat
  match turns, k.messages.message m with
  | 0, _ => some k
  | _, some block =>
    some { k with userBytes := copyBytes k.msgStrings.byte block k.userBytes msg turns }
  | _, none => none

/-- The end of SEND and RECV: the entry of the process is marked `Waiting`, and the process goes to
the end of `waiting_list`, still running. -/
def waitForQueue (k : Kernel) (running : Addr) (entries : Option Addr) (role : Role)
    (retvalue : ℤ) : Option Kernel := do
  let ds ← entries
  let entry ← k.descriptors.rwn ds role
  let k := { k with queueUsers.status := update k.queueUsers.status entry .waiting }
  let k := k.setStatus running .waiting
  let k := k.insertPcb .waiting (k.lists .waiting).last (some running)
  some (k.setRetvalue running retvalue)

/-! ### SEND (`disastrOS_send_msg.c`) -/

/-- The part of `internal_sendMessage` that stores the message. -/
def acceptMessage (k : Kernel) (running q : Addr) (msg : Option Addr) : Option Kernel :=
  let (mBuffer, k) := k.msgStringAlloc
  let (m, k) := k.messageAlloc mBuffer (k.queues.msgSize q)
  match m, mBuffer with
  | some m, some _ => do
    let k ← k.storeMessage msg m
    some ((k.insertMessage q m).setRetvalue running 0)
  | _, _ => some (k.setRetvalue running dsosNoMsgSent)

/-- `internal_sendMessage`. -/
def internalSendMessage (msg : Option Addr) (fd : ℤ) (k : Kernel) : Option Kernel := do
  let running ← k.running
  let queue ← k.queueByFd running fd
  let entries ← k.queueEntries running fd
  let q ← queue
  if (k.queues.messages q).size < k.queues.maxMessages q then k.acceptMessage running q msg
  else k.waitForQueue running entries .writer dsosNoMsgSent

/-! ### RECV (`disastrOS_receive_msg.c`) -/

/-- The part of `internal_recvMessage` that hands a message over. -/
def deliverMessage (k : Kernel) (running msg m : Addr) : Option Kernel := do
  let k ← k.loadMessage msg m
  some ((k.messageFree (some m)).setRetvalue running 0)

/-- `internal_recvMessage`. -/
def internalRecvMessage (msg : Option Addr) (fd : ℤ) (k : Kernel) : Option Kernel := do
  let running ← k.running
  let queue ← k.queueByFd running fd
  let entries ← k.queueEntries running fd
  match msg with
  | none => some (k.setRetvalue running dsosNoMsgReceived)
  | some msg => do
    let q ← queue
    match k.popMessage q with
    | (some m, k) => k.deliverMessage running msg m
    | (none, k) => k.waitForQueue running entries .reader dsosNoMsgReceived

/-! ### WAKEUP (`disastrOS_wake_queue.c`) -/

/-- `wakeup_flag_condition_recv` and `wakeup_flag_condition_send`. -/
def wakeupCheck (k : Kernel) (q : Addr) : WakeupCheck → Bool
  | .recv => (k.queues.messages q).size < k.queues.maxMessages q && 0 < (k.queues.users (q, .writer)).size
  | .send => 0 < (k.queues.messages q).size && 0 < (k.queues.users (q, .reader)).size

/-- The two loops of `internal_wakeUpQueue`: the first user that is marked `Waiting` and whose process
is in `waiting_list`, with that process. -/
def waitingUser (k : Kernel) : ℕ → Option Addr → Option (Option (Addr × Addr))
  | _, none => some none
  | 0, some _ => none
  | bound + 1, some queueUsr =>
    if k.queueUsers.status queueUsr = .waiting then do
      match ← scan k.pcbs.list (fun aux ↦ k.pcbs.pid aux = k.queueUsers.pid queueUsr) walkBound
          (k.lists .waiting).first with
      | some aux => some (some (queueUsr, aux))
      | none => waitingUser k bound (k.queueUsers.list queueUsr).next
    else waitingUser k bound (k.queueUsers.list queueUsr).next

/-- What `internal_wakeUpQueue` does to the user and the process it has found. -/
def wakeUser (k : Kernel) (queueUsr aux : Addr) : Kernel :=
  let k := { k with queueUsers.status := update k.queueUsers.status queueUsr .running }
  let k := k.detachPcb .waiting (some aux)
  k.insertPcb .ready (k.lists .ready).last (some aux)

/-- `internal_wakeUpQueue`. -/
def internalWakeUpQueue (check : WakeupCheck) (q : Addr) (queueUsers : Addr × Role)
    (k : Kernel) : Option Kernel := do
  let running ← k.running
  if k.wakeupCheck q check then
    match ← k.waitingUser walkBound (k.queues.users queueUsers).first with
    | some (queueUsr, aux) => some ((k.wakeUser queueUsr aux).setRetvalue running 0)
    | none => some (k.setRetvalue running 0)
  else some (k.setRetvalue running 0)

end Kernel

end DisastrOS
