import DisastrOS.Objects

/-!
# Opening and closing resources

`internal_openResource`, `internal_closeResource`, `internal_destroyResource` and
`internal_openQueue`, with `Queue_add_pid`.
-/

set_option autoImplicit false
set_option relaxedAutoImplicit false

namespace DisastrOS

open LinkedLists
open Function (update)

namespace Kernel

/-! ### Resources (`disastrOS_open_resource.c` and its siblings) -/

/-- The end of `internal_openResource`: the process gets a descriptor of the resource. -/
def openDescriptor (k : Kernel) (running res : Addr) : Option Kernel :=
  match k.descriptorAlloc (k.pcbs.lastFd running) res running with
  | (none, k) => some (k.setRetvalue running dsosEresourcenofd)
  | (some des, k) =>
    if k.pcbs.lastFd running = intMax then none
    else
      let k := { k with
        pcbs.lastFd := update k.pcbs.lastFd running (k.pcbs.lastFd running + 1) }
      let (desptr, k) := k.descriptorPtrAlloc des
      let k := k.insertDescriptor running (k.pcbs.descriptors running).last (some des)
      let k := { k with descriptors.ptr := update k.descriptors.ptr des desptr }
      let k := k.insertDescriptorPtr res (k.resources.descriptorsPtrs res).last desptr
      some (k.setRetvalue running (k.descriptors.fd des))

/-- The second part of `internal_openResource`, once the resource was looked up and, if the mode
says so, created. -/
def openFound (k : Kernel) (running : Addr) (res : Option Addr) (type : ℤ)
    (openMode : BitVec 32) : Option Kernel :=
  match res with
  | none => some (k.setRetvalue running dsosEresourceopen)
  | some res =>
    if k.resources.type res ≠ type then some (k.setRetvalue running dsosEresourceopen)
    else if hasBit openMode dsosExcl ∧ (k.resources.descriptorsPtrs res).size ≠ 0 then
      some (k.setRetvalue running dsosEresourcenoexcl)
    else k.openDescriptor running res

/-- `internal_openResource`. -/
def internalOpenResource (id type : ℤ) (openMode : BitVec 32) (k : Kernel) : Option Kernel := do
  let running ← k.running
  let res ← k.resourceById id
  if hasBit openMode dsosCreate then
    if hasBit openMode dsosExcl ∧ res.isSome then
      some (k.setRetvalue running dsosEresourcenoexcl)
    else
      match res with
      | some res => k.openFound running (some res) type openMode
      | none =>
        match k.resourceAlloc id type with
        | (none, k) => some (k.setRetvalue running dsosEresourcecreate)
        | (some res, k) =>
          let k := k.insertResource k.resourcesList.last (some res)
          k.openFound running (some res) type openMode
  else k.openFound running res type openMode

/-- `internal_closeResource`. -/
def internalCloseResource (fd : ℤ) (k : Kernel) : Option Kernel := do
  let running ← k.running
  match ← k.descriptorByFd running fd with
  | none => some (k.setRetvalue running dsosEresourceclose)
  | some des => do
    let k := k.detachDescriptor running (some des)
    let res := k.descriptors.resource des
    let desptr ← k.descriptors.ptr des
    let k := k.detachDescriptorPtr res (some desptr)
    let k := k.descriptorFree des
    let k := k.descriptorPtrFree desptr
    some (k.setRetvalue running 0)

/-- The part of `internal_destroyResource` that frees the queue of a resource. -/
def freeValue (k : Kernel) (res : Addr) : Option Kernel :=
  match k.resources.value res with
  | some q => if k.resources.type res = 2 then k.queueFree q else some k
  | none => some k

/-- `internal_destroyResource`. -/
def internalDestroyResource (id : ℤ) (k : Kernel) : Option Kernel := do
  let running ← k.running
  match ← k.resourceById id with
  | none => some (k.setRetvalue running dsosEresourceclose)
  | some res =>
    if (k.resources.descriptorsPtrs res).size ≠ 0 then
      some (k.setRetvalue running dsosEresourceinuse)
    else do
      let k := k.detachResource (some res)
      let k ← k.freeValue res
      let k ← k.resourceFree res
      some (k.setRetvalue running 0)

/-! ### Queues (`disastrOS_open_queue.c`) -/

/-- The bit of the mode that asks for a role. -/
def roleBit : Role → BitVec 32
  | .reader => dsosRdonly
  | .writer => dsosWronly
  | .nonBlock => dsosNonblock

/-- One of the three parts of `Queue_add_pid`, with what it has stored in the descriptor; a null
result is the early return. The descriptor can be null, and is written to then. -/
def queueAddRole (k : Kernel) (q : Addr) (pid : ℤ) (mode : BitVec 32) (ds : Option Addr)
    (role : Role) : Option (Bool × Kernel) :=
  if hasBit mode (roleBit role) then do
    let ds ← ds
    let (qu, k) := k.queueUserAlloc pid
    let entry := (listInsert k.queueUsers.list (k.queues.users (q, role))
      (k.queues.users (q, role)).last qu).ret
    let k := k.insertUser (q, role) (k.queues.users (q, role)).last qu
    let k := { k with
      descriptors.rwn :=
        update k.descriptors.rwn ds (update (k.descriptors.rwn ds) role entry) }
    some (entry.isSome, k)
  else some (true, k)

/-- `Queue_add_pid`. -/
def queueAddPid (k : Kernel) (q : Addr) (pid : ℤ) (mode : BitVec 32) (ds : Option Addr) :
    Option (ℤ × Kernel) := do
  let (added, k) ← k.queueAddRole q pid mode ds .reader
  if !added then some (listInsertionError, k)
  else
    let (added, k) ← k.queueAddRole q pid mode ds .writer
    if !added then some (listInsertionError, k)
    else
      let (added, k) ← k.queueAddRole q pid mode ds .nonBlock
      if !added then some (listInsertionError, k)
      else some (0, { k with queues.openings := update k.queues.openings q (k.queues.openings q + 1) })

/-- The second part of `internal_openQueue`: the resource has a queue, and the process becomes one of
its users. -/
def joinQueue (k : Kernel) (running res q : Addr) (fd : ℤ) (mode : BitVec 32) :
    Option Kernel :=
  if k.resources.type res ≠ 2 then some (k.setRetvalue running invalidFd)
  else do
    let ds ← k.descriptorByFd running fd
    let (err, k) ← k.queueAddPid q (k.pcbs.pid running) mode ds
    some (k.setRetvalue running (if err ≠ 0 then listInsertionError else fd))

/-- The part of `internal_openQueue` that gives the resource up when there is no queue left. -/
def giveUpResource (k : Kernel) (running : Addr) (id fd : ℤ) : Option Kernel := do
  let k ← k.internalCloseResource fd
  if k.pcbs.syscallRetvalue running ≠ 0 then some k
  else
    let k ← k.internalDestroyResource id
    if k.pcbs.syscallRetvalue running ≠ 0 then some k
    else some (k.setRetvalue running dsosEqueueopen)

/-- `internal_openQueue`. -/
def internalOpenQueue (id fd : ℤ) (mode : BitVec 32) (k : Kernel) : Option Kernel := do
  let running ← k.running
  let found ← k.resourceById id
  let res ← found
  match k.resources.value res with
  | some q => k.joinQueue running res q fd mode
  | none =>
    match k.queueAlloc with
    | (none, k) => k.giveUpResource running id fd
    | (some q, k) =>
      let k := { k with resources.value := update k.resources.value res (some q) }
      k.joinQueue running res q fd mode

end Kernel

end DisastrOS
