import Mathlib.Data.Int.Notation
import Mathlib.Data.Nat.Notation

/-!
# Constants and machine integers

The constants of `disastrOS_constants.h` that the modelled code uses, and the conversion to a
32-bit `int`.
-/

set_option autoImplicit false
set_option relaxedAutoImplicit false

namespace DisastrOS

/-- A machine address, as an integer. A pointer is an `Option Addr`, with `none` for `NULL`. -/
abbrev Addr := ℤ

/-- The largest `int`. -/
def intMax : ℤ := 2147483647

/-- Conversion to a 32-bit two's-complement `int`. -/
def toInt (n : ℤ) : ℤ := n.bmod 4294967296

/-! ### Sizes of the pools -/

def maxNumProcesses : ℤ := 1024
def maxNumResources : ℤ := 1024
def maxNumMessagesPerQueue : ℤ := 128
def maxNumStrings : ℤ := 32768
def maxNumQueues : ℤ := 256
def maxMessageSize : ℤ := 128
def maxNumMessages : ℤ := maxNumMessagesPerQueue * maxNumQueues

/-- No pool has as many blocks as this, so a walk along the links of a list that visits more nodes
is on a cycle and does not end. -/
def walkBound : ℕ := 32769

/-! ### Signals -/

def dsosSigchld : BitVec 32 := 0x1
def dsosSighup : BitVec 32 := 0x2

/-! ### System call errors -/

def dsosEwait : ℤ := -5
def dsosEspawn : ℤ := -6
def dsosEsleep : ℤ := -7
def dsosEresourcecreate : ℤ := -8
def dsosEresourceopen : ℤ := -9
def dsosEresourcenoexcl : ℤ := -10
def dsosEresourcenofd : ℤ := -11
def dsosEresourceclose : ℤ := -12
def dsosEresourceinuse : ℤ := -13
def dsosNoMsgReceived : ℤ := -14
def dsosNoMsgSent : ℤ := -15
def dsosEqueueopen : ℤ := -16
def dsosShutdownExit : ℤ := -17
def dsosShutting : ℤ := -18

/-! ### Errors of the queue functions -/

def eagain : ℤ := -101
def invalidFd : ℤ := -102
def invalidAttribute : ℤ := -103
def attNotSet : ℤ := -104
def bufferTooSmall : ℤ := -105
def msgTooBig : ℤ := -106
def actionNotAllowed : ℤ := -107
def invalidValue : ℤ := -110
def operationNotAvailable : ℤ := -112
def listInsertionError : ℤ := -114

/-! ### Resources and queues -/

def dsosCreate : BitVec 32 := 0x1
def dsosExcl : BitVec 32 := 0x4

def dsosRdonly : BitVec 32 := 0o1
def dsosWronly : BitVec 32 := 0o2
def dsosCreat : BitVec 32 := 0o10
def dsosQExcl : BitVec 32 := 0o20
def dsosNonblock : BitVec 32 := 0o40

def attQueueCurrentMessages : ℤ := 0
def attQueueMaxMessages : ℤ := 1
def attQueueMessageSize : ℤ := 2
def attQueueOpenings : ℤ := 3

/-- `shutdownWaitingCycles` ticks are left to the processes that a shutdown sends to their exit. -/
def shutdownWaitingCycles : ℤ := 5

/-- The test `flags & bit` of the source. -/
def hasBit (flags bit : BitVec 32) : Bool := flags &&& bit ≠ 0

end DisastrOS
