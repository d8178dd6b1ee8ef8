import DisastrOS.LinkedList
import DisastrOS.PoolAllocator

/-!
# The state of the kernel

The structures of `disastrOS_pcb.h`, `disastrOS_timer.h`, `disastrOS_resource.h` and
`disastrOS_descriptor.h`, and the globals of `disastrOS.c`. Each field of a structure is a function
of the address of the block, and the blocks of one kind are one record with the allocator they come
from; `list` holds the `ListItem` every block starts with. An update of one field of one block
leaves all other fields as they are, and a released block keeps its contents.

A pointer the code checks for null is an `Option Addr`. A process is what its PCB says: `cpuState`
is its point in the user code (`Context`), either outside the queue functions or at one of the
statements of `disastrOS_queue.c`. The last system call of a process is kept with its arguments in
one field (`syscall` for `syscall_num` and `syscall_args`).

User memory is apart from the kernel: bytes for the message buffers, and integers for the results
of `wait`.
-/

set_option autoImplicit false
set_option relaxedAutoImplicit false

namespace DisastrOS

open LinkedLists

/-! ### Processes and system calls -/

/-- `enum ProcessStatus`. -/
inductive ProcessStatus
  | invalid
  | created
  | running
  | ready
  | waiting
  | suspended
  | zombie
deriving DecidableEq, Repr

/-- The lists of PCBs: `ready_list`, `waiting_list` and `zombie_list`. -/
inductive PcbList
  | ready
  | waiting
  | zombie
deriving DecidableEq, Repr

/-- The user lists of a queue, `readers`, `writers` and `non_block`, in the order of the entries
that a descriptor keeps in `rwn`. -/
inductive Role
  | reader
  | writer
  | nonBlock
deriving DecidableEq, Repr

/-- The two conditions that a wake-up is asked for: `wakeup_flag_condition_recv` and
`wakeup_flag_condition_send`. -/
inductive WakeupCheck
  | recv
  | send
deriving DecidableEq, Repr

/-- A system call with its arguments. A list of queue users is named by the queue and the role. -/
inductive Syscall
  | preempt
  | fork
  | wait (pid : ℤ) (result : Option Addr)
  | exit (value : ℤ)
  | spawn
  | sleep (cycles : ℤ)
  | openResource (id type : ℤ) (mode : BitVec 32)
  | closeResource (fd : ℤ)
  | destroyResource (id : ℤ)
  | shutdown
  | sendMsg (msg : Option Addr) (fd : ℤ)
  | recvMsg (msg : Option Addr) (fd : ℤ)
  | wakeupQueue (check : WakeupCheck) (q : Addr) (queueUsers : Addr × Role)
  | openQueue (id fd : ℤ) (mode : BitVec 32)
deriving DecidableEq, Repr

/-- The two functions that move a message, which go through the same points. -/
inductive Transfer
  | receive
  | send
deriving DecidableEq, Repr

/-- A call of `dmq_receive` or `dmq_send`: the descriptor, the buffer and its length. -/
structure TransferCall where
  op : Transfer
  fd : ℤ
  msg : Option Addr
  len : ℤ
deriving DecidableEq, Repr

/-- Where the user code of a process stands. Outside the queue functions it is at `user`, with the
value the last of them returned; every other point is right before the statement it names. -/
inductive Context
  | user (ret : ℤ)
  | close (fd : ℤ)
  | closeDetach (fd : ℤ) (q queueEntries : Addr) (role : Role)
  | closeFree (fd : ℤ) (q queueEntries : Addr) (role : Role) (entry : Option Addr)
  | closeResource (fd : ℤ) (q : Addr)
  | closeResult (q : Addr)
  | getattr (fd attr : ℤ)
  | getattrRead (q : Addr) (attr : ℤ)
  | openResource (id : ℤ) (mode : BitVec 32)
  | openResult (id : ℤ) (mode : BitVec 32)
  | openQueue (id fd : ℤ) (mode : BitVec 32)
  | openReturn
  | transfer (c : TransferCall)
  | transferSize (c : TransferCall) (q : Addr)
  | transferFind (c : TransferCall) (q : Addr)
  | transferRoom (c : TransferCall) (q queueEntries : Addr)
  | transferCall (c : TransferCall) (q : Addr)
  | transferResult (c : TransferCall) (q : Addr)
  | transferRetry (c : TransferCall) (q : Addr)
  | transferWake (c : TransferCall) (q : Addr)
  | setattr (fd attr value : ℤ)
  | setattrCheck (q : Addr) (attr value : ℤ)
  | setattrWrite (q : Addr) (attr value : ℤ)
  | unlink (id : ℤ)
  | unlinkReturn
  | graveyard
  | halting
deriving DecidableEq, Repr

/-! ### The pools -/

/-- `struct PCB`. -/
structure PCBs where
  allocator : PoolAllocator
  list : Memory Addr
  pid : Addr → ℤ
  returnValue : Addr → ℤ
  status : Addr → ProcessStatus
  signals : Addr → BitVec 32
  signalsMask : Addr → BitVec 32
  parent : Addr → Option Addr
  children : Addr → ListHead Addr
  cpuState : Addr → Context
  timer : Addr → Option Addr
  lastFd : Addr → ℤ
  descriptors : Addr → ListHead Addr
  syscall : Addr → Option Syscall
  syscallRetvalue : Addr → ℤ

/-- `struct PCBPtr`. -/
structure PCBPtrs where
  allocator : PoolAllocator
  list : Memory Addr
  pcb : Addr → Addr

/-- `TimerItem`. -/
structure TimerItems where
  allocator : PoolAllocator
  list : Memory Addr
  awakeningTime : Addr → ℤ
  pcb : Addr → Addr

/-- `Resource`. -/
structure Resources where
  allocator : PoolAllocator
  list : Memory Addr
  id : Addr → ℤ
  type : Addr → ℤ
  descriptorsPtrs : Addr → ListHead Addr
  value : Addr → Option Addr

/-- `struct Descriptor`. -/
structure Descriptors where
  allocator : PoolAllocator
  list : Memory Addr
  pcb : Addr → Addr
  resource : Addr → Addr
  fd : Addr → ℤ
  rwn : Addr → Role → Option Addr
  ptr : Addr → Option Addr

/-- `struct DescriptorPtr`. -/
structure DescriptorPtrs where
  allocator : PoolAllocator
  list : Memory Addr
  descriptor : Addr → Addr

/-- `Queue`. -/
structure Queues where
  allocator : PoolAllocator
  messages : Addr → ListHead Addr
  users : Addr × Role → ListHead Addr
  maxMessages : Addr → ℤ
  msgSize : Addr → ℤ
  openings : Addr → ℤ

/-- `QueueUser`. -/
structure QueueUsers where
  allocator : PoolAllocator
  list : Memory Addr
  pid : Addr → ℤ
  status : Addr → ProcessStatus

/-- `Message`. -/
structure Messages where
  allocator : PoolAllocator
  list : Memory Addr
  message : Addr → Option Addr
  len : Addr → ℤ

/-- The blocks of the message strings, byte by byte. -/
structure MsgStrings where
  allocator : PoolAllocator
  byte : Addr → UInt8

/-! ### The kernel -/

/-- The pools and the globals of the kernel, and the memory of the user code. -/
structure Kernel where
  pcbs : PCBs
  pcbPtrs : PCBPtrs
  timerItems : TimerItems
  resources : Resources
  descriptors : Descriptors
  descriptorPtrs : DescriptorPtrs
  queues : Queues
  queueUsers : QueueUsers
  messages : Messages
  msgStrings : MsgStrings
  initPcb : Option Addr
  running : Option Addr
  lastPid : ℤ
  lists : PcbList → ListHead Addr
  resourcesList : ListHead Addr
  timerList : ListHead Addr
  disastrOSTime : ℤ
  shutdownNow : Bool
  userBytes : Addr → UInt8
  userInts : Addr → ℤ

/-! ### Sizes of the structures -/

def sizeofPCBPtr : ℤ := 24
def sizeofTimerItem : ℤ := 32
def sizeofResource : ℤ := 56
def sizeofQueue : ℤ := 112
def sizeofQueueUser : ℤ := 24
def sizeofMessage : ℤ := 32
def sizeofDescriptor : ℤ := 72
def sizeofDescriptorPtr : ℤ := 24

/-- The offset of `message` in a `Message`. -/
def messageField : ℤ := 16

/-- Where the linker has placed the static buffers. The size of a PCB depends on the size of a
machine context. The message buffer and the string buffer are different objects of one data segment
and so at an `int` distance, and the null pointer, whose distance to the queue users is cut to an
`int` when it is released, is not mistaken for one of them. -/
structure Layout where
  sizeofPCB : ℤ
  pcbBuffer : Addr
  pcbPtrBuffer : Addr
  timerItemBuffer : Addr
  resourcesBuffer : Addr
  queuesBuffer : Addr
  msgStringsBuffer : Addr
  queueUsersBuffer : Addr
  messageBuffer : Addr
  descriptorBuffer : Addr
  descriptorPtrBuffer : Addr
  sizeofPCB_pos : 1 ≤ sizeofPCB
  sizeofPCB_fits : maxNumProcesses * (sizeofPCB + sizeofInt) ≤ intMax
  messages_apart :
    messageBuffer + maxNumMessages * (sizeofMessage + sizeofInt) ≤ msgStringsBuffer ∨
      msgStringsBuffer + maxNumStrings * (maxMessageSize + sizeofInt) ≤ messageBuffer
  messages_near : |msgStringsBuffer - messageBuffer| ≤ 2130706432
  null_rejected : ∀ i, 0 ≤ i → i < maxNumProcesses →
    toInt (0 - queueUsersBuffer) ≠ i * sizeofQueueUser

end DisastrOS
