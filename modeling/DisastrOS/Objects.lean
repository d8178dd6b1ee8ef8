import DisastrOS.Kernel

/-!
# Kernel objects

The functions that allocate, free and look up the objects of the kernel: `disastrOS_pcb.c`,
`disastrOS_timer.c`, `disastrOS_resource.c`, `disastrOS_descriptor.c`, and the lookups by file
descriptor of `disastrOS.c`.

A function that can crash or run for ever returns an `Option`, with `none` for a run that goes no
further: a null pointer is followed, an `assert` fails, a counter overflows, or a walk along a list
does not end. `PCB_alloc` and `PCBPtr_alloc` write to the block without a look whether they got one;
the other allocations return null when the pool is used up. The results of the release functions
are not looked at by their callers, with the exception of `Message_free`.
-/

set_option autoImplicit false
set_option relaxedAutoImplicit false

namespace DisastrOS

open LinkedLists
open Function (update)

namespace Kernel

/-! ### Lists of PCBs -/

/-- `List_insert` on one of the lists of PCBs. -/
def insertPcb (k : Kernel) (i : PcbList) (prev item : Option Addr) : Kernel :=
  let r := listInsert k.pcbs.list (k.lists i) prev item
  { k with pcbs.list := r.list, lists := update k.lists i r.head }

/-- `List_detach` on one of the lists of PCBs. -/
def detachPcb (k : Kernel) (i : PcbList) (item : Option Addr) : Kernel :=
  let r := listDetach k.pcbs.list (k.lists i) item
  { k with pcbs.list := r.list, lists := update k.lists i r.head }

def setStatus (k : Kernel) (pcb : Addr) (status : ProcessStatus) : Kernel :=
  { k with pcbs.status := update k.pcbs.status pcb status }

def setRetvalue (k : Kernel) (pcb : Addr) (retvalue : ℤ) : Kernel :=
  { k with pcbs.syscallRetvalue := update k.pcbs.syscallRetvalue pcb retvalue }

def setContext (k : Kernel) (pcb : Addr) (context : Context) : Kernel :=
  { k with pcbs.cpuState := update k.pcbs.cpuState pcb context }

/-! ### PCBs (`disastrOS_pcb.c`) -/

/-- What `PCB_alloc` writes into the block. The machine state, the last system call and its return
value are those of the process that had the block before. -/
def resetPcb (k : Kernel) (pcb : Addr) (allocator : PoolAllocator) : Kernel :=
  { k with
    lastPid := k.lastPid + 1
    pcbs :=
      { k.pcbs with
        allocator := allocator
        list := update k.pcbs.list pcb Links.unlinked
        pid := update k.pcbs.pid pcb k.lastPid
        returnValue := update k.pcbs.returnValue pcb 0
        status := update k.pcbs.status pcb .invalid
        lastFd := update k.pcbs.lastFd pcb 0
        signals := update k.pcbs.signals pcb 0
        signalsMask := update k.pcbs.signalsMask pcb 0xFFFFFFFF
        descriptors := update k.pcbs.descriptors pcb listInit
        parent := update k.pcbs.parent pcb none
        timer := update k.pcbs.timer pcb none
        children := update k.pcbs.children pcb listInit } }

/-- `PCB_alloc`. -/
def pcbAlloc (k : Kernel) : Option (Addr × Kernel) :=
  match k.pcbs.allocator.getBlock with
  | (none, _) => none
  | (some pcb, allocator) =>
    if k.lastPid = intMax then none else some (pcb, k.resetPcb pcb allocator)

/-- `PCB_free`. -/
def pcbFree (k : Kernel) (pcb : Addr) : Kernel :=
  { k with pcbs.allocator := (k.pcbs.allocator.releaseBlock pcb).2 }

/-- What `PCBPtr_alloc` writes into the block. -/
def resetPcbPtr (k : Kernel) (pcbPtr : Addr) (allocator : PoolAllocator) (pcb : Addr) : Kernel :=
  { k with
    pcbPtrs :=
      { allocator := allocator
        list := update k.pcbPtrs.list pcbPtr Links.unlinked
        pcb := update k.pcbPtrs.pcb pcbPtr pcb } }

/-- `PCBPtr_alloc`. -/
def pcbPtrAlloc (k : Kernel) (pcb : Addr) : Option (Addr × Kernel) :=
  match k.pcbPtrs.allocator.getBlock with
  | (none, _) => none
  | (some pcbPtr, allocator) => some (pcbPtr, k.resetPcbPtr pcbPtr allocator pcb)

/-- `PCBPtr_free`. -/
def pcbPtrFree (k : Kernel) (pcbPtr : Addr) : Kernel :=
  { k with pcbPtrs.allocator := (k.pcbPtrs.allocator.releaseBlock pcbPtr).2 }

/-- `PCBPtr_byPID`. -/
def pcbPtrByPID (k : Kernel) (head : ListHead Addr) (pid : ℤ) : Option (Option Addr) :=
  scan k.pcbPtrs.list (fun aux ↦ k.pcbs.pid (k.pcbPtrs.pcb aux) = pid) walkBound head.first

/-- `List_insert` on the children list of a process. -/
def insertChild (k : Kernel) (parent : Addr) (prev item : Option Addr) : Kernel :=
  let r := listInsert k.pcbPtrs.list (k.pcbs.children parent) prev item
  { k with pcbPtrs.list := r.list, pcbs.children := update k.pcbs.children parent r.head }

/-- `List_detach` on the children list of a process. -/
def detachChild (k : Kernel) (parent : Addr) (item : Option Addr) : Kernel :=
  let r := listDetach k.pcbPtrs.list (k.pcbs.children parent) item
  { k with pcbPtrs.list := r.list, pcbs.children := update k.pcbs.children parent r.head }

/-! ### Timers (`disastrOS_timer.c`) -/

/-- `TimerItem_alloc`. -/
def timerItemAlloc (k : Kernel) (awakeningTime : ℤ) (pcb : Addr) : Option Addr × Kernel :=
  match k.timerItems.allocator.getBlock with
  | (none, _) => (none, k)
  | (some item, allocator) =>
    (some item,
      { k with
        timerItems :=
          { allocator := allocator
            list := update k.timerItems.list item Links.unlinked
            awakeningTime := update k.timerItems.awakeningTime item awakeningTime
            pcb := update k.timerItems.pcb item pcb } })

/-- `TimerItem_free`. -/
def timerItemFree (k : Kernel) (item : Addr) : Kernel :=
  { k with timerItems.allocator := (k.timerItems.allocator.releaseBlock item).2 }

/-- `List_insert` on `timer_list`. -/
def insertTimer (k : Kernel) (prev item : Option Addr) : Kernel :=
  let r := listInsert k.timerItems.list k.timerList prev item
  { k with timerItems.list := r.list, timerList := r.head }

/-- `List_detach` on `timer_list`. -/
def detachTimer (k : Kernel) (item : Option Addr) : Kernel :=
  let r := listDetach k.timerItems.list k.timerList item
  { k with timerItems.list := r.list, timerList := r.head }

/-- The loop of `TimerList_add`: the last item before the first that is due later. -/
def timerListPrevious (timers : TimerItems) (awakeningTime : ℤ) :
    ℕ → Option Addr → Option Addr → Option (Option Addr)
  | _, previousItem, none => some previousItem
  | 0, _, some _ => none
  | bound + 1, previousItem, some aux =>
    if awakeningTime < timers.awakeningTime aux then some previousItem
    else timerListPrevious timers awakeningTime bound (some aux) (timers.list aux).next

/-- `TimerList_add`. The field `timer` of the PCB is not written. -/
def timerListAdd (k : Kernel) (awakeningTime : ℤ) (pcb : Addr) :
    Option (Option Addr × Kernel) := do
  let previousItem ←
    timerListPrevious k.timerItems awakeningTime walkBound none k.timerList.first
  match k.timerItemAlloc awakeningTime pcb with
  | (none, k) => some (none, k)
  | (some newItem, k) => some (some newItem, k.insertTimer previousItem (some newItem))

/-- `TimerList_current`. -/
def timerListCurrent (k : Kernel) : Option Addr :=
  match k.timerList.first with
  | none => none
  | some item => if k.timerItems.awakeningTime item ≤ k.disastrOSTime then some item else none

/-- `TimerList_removeCurrent`. -/
def timerListRemoveCurrent (k : Kernel) : Kernel :=
  match k.timerList.first with
  | none => k
  | some item => (k.detachTimer (some item)).timerItemFree item

/-! ### Resources (`disastrOS_resource.c`) -/

/-- `Resource_alloc`. The value is the one the block had before. -/
def resourceAlloc (k : Kernel) (id type : ℤ) : Option Addr × Kernel :=
  match k.resources.allocator.getBlock with
  | (none, _) => (none, k)
  | (some res, allocator) =>
    (some res,
      { k with
        resources :=
          { k.resources with
            allocator := allocator
            list := update k.resources.list res Links.unlinked
            id := update k.resources.id res id
            type := update k.resources.type res type
            descriptorsPtrs := update k.resources.descriptorsPtrs res listInit } })

/-- `Resource_free`. -/
def resourceFree (k : Kernel) (res : Addr) : Option Kernel :=
  if (k.resources.descriptorsPtrs res).first.isSome ∨
      (k.resources.descriptorsPtrs res).last.isSome then none
  else some { k with resources.allocator := (k.resources.allocator.releaseBlock res).2 }

/-- `ResourceList_byId` on `resources_list`. -/
def resourceById (k : Kernel) (id : ℤ) : Option (Option Addr) :=
  scan k.resources.list (fun aux ↦ k.resources.id aux = id) walkBound k.resourcesList.first

/-- `List_insert` on `resources_list`. -/
def insertResource (k : Kernel) (prev item : Option Addr) : Kernel :=
  let r := listInsert k.resources.list k.resourcesList prev item
  { k with resources.list := r.list, resourcesList := r.head }

/-- `List_detach` on `resources_list`. -/
def detachResource (k : Kernel) (item : Option Addr) : Kernel :=
  let r := listDetach k.resources.list k.resourcesList item
  { k with resources.list := r.list, resourcesList := r.head }

/-! ### Queues, their users and their messages (`disastrOS_resource.c`) -/

/-- `Queue_alloc`. -/
def queueAlloc (k : Kernel) : Option Addr × Kernel :=
  match k.queues.allocator.getBlock with
  | (none, _) => (none, k)
  | (some q, allocator) =>
    (some q,
      { k with
        queues :=
          { allocator := allocator
            messages := update k.queues.messages q listInit
            users := update (update (update k.queues.users (q, .reader) listInit)
              (q, .writer) listInit) (q, .nonBlock) listInit
            maxMessages := update k.queues.maxMessages q maxNumMessagesPerQueue
            msgSize := update k.queues.msgSize q maxMessageSize
            openings := update k.queues.openings q 0 } })

/-- `QueueUser_alloc`. The links are those the block had before. -/
def queueUserAlloc (k : Kernel) (pid : ℤ) : Option Addr × Kernel :=
  match k.queueUsers.allocator.getBlock with
  | (none, _) => (none, k)
  | (some qu, allocator) =>
    (some qu,
      { k with
        queueUsers :=
          { k.queueUsers with
            allocator := allocator
            pid := update k.queueUsers.pid qu pid
            status := update k.queueUsers.status qu .running } })

/-- `QueueUser_free`. The null pointer is handed to the allocator like any other address. -/
def queueUserFree (k : Kernel) (qu : Option Addr) : Kernel :=
  { k with queueUsers.allocator := (k.queueUsers.allocator.releaseBlock (qu.getD 0)).2 }

/-- `List_insert` on a user list of a queue. -/
def insertUser (k : Kernel) (users : Addr × Role) (prev item : Option Addr) : Kernel :=
  let r := listInsert k.queueUsers.list (k.queues.users users) prev item
  { k with queueUsers.list := r.list, queues.users := update k.queues.users users r.head }

/-- `List_detach` on a user list of a queue. -/
def detachUser (k : Kernel) (users : Addr × Role) (item : Option Addr) : Kernel :=
  let r := listDetach k.queueUsers.list (k.queues.users users) item
  { k with queueUsers.list := r.list, queues.users := update k.queues.users users r.head }

/-- `MsgString_alloc`. -/
def msgStringAlloc (k : Kernel) : Option Addr × Kernel :=
  match k.msgStrings.allocator.getBlock with
  | (none, _) => (none, k)
  | (some ms, allocator) => (some ms, { k with msgStrings.allocator := allocator })

/-- What `Message_alloc` writes into the block. The links are those the block had before. -/
def resetMessage (k : Kernel) (m : Addr) (allocator : PoolAllocator) (message : Option Addr)
    (messageSize : ℤ) : Kernel :=
  { k with
    messages :=
      { k.messages with
        allocator := allocator
        message := update k.messages.message m message
        len := update k.messages.len m messageSize } }

/-- `Message_alloc`. -/
def messageAlloc (k : Kernel) (message : Option Addr) (messageSize : ℤ) :
    Option Addr × Kernel :=
  match k.messages.allocator.getBlock with
  | (none, _) => (none, k)
  | (some m, allocator) => (some m, k.resetMessage m allocator message messageSize)

/-- `MsgString_free`, with its result. -/
def msgStringFree (k : Kernel) (block : Addr) : PoolAllocatorResult × Kernel :=
  let r := k.msgStrings.allocator.releaseBlock block
  (r.1, { k with msgStrings.allocator := r.2 })

/-- `Message_free`. What is released is the address of the field `message`, not the string it points
to; the message itself is released only if that has succeeded. -/
def messageFree (k : Kernel) (m : Option Addr) : Kernel :=
  let r := k.msgStringFree (m.getD 0 + messageField)
  if r.1 = .success then
    { r.2 with messages.allocator := (k.messages.allocator.releaseBlock (m.getD 0)).2 }
  else r.2

/-- `List_pop` on the messages of a queue, with the message. -/
def popMessage (k : Kernel) (q : Addr) : Option Addr × Kernel :=
  let r := listPop k.messages.list (k.queues.messages q)
  (r.ret, { k with messages.list := r.list, queues.messages := update k.queues.messages q r.head })

/-- `List_insert` at the end of the messages of a queue. -/
def insertMessage (k : Kernel) (q : Addr) (m : Addr) : Kernel :=
  let r := listInsert k.messages.list (k.queues.messages q) (k.queues.messages q).last (some m)
  { k with messages.list := r.list, queues.messages := update k.queues.messages q r.head }

/-- The first loop of `Queue_free`, from index `i` on. The size is read again at each turn. -/
def freeMessages (q : Addr) : ℕ → ℤ → Kernel → Option Kernel
  | 0, i, k => if i < (k.queues.messages q).size then none else some k
  | bound + 1, i, k =>
    if i < (k.queues.messages q).size then
      let (m, k) := k.popMessage q
      freeMessages q bound (i + 1) (k.messageFree m)
    else some k

/-- One of the other three loops of `Queue_free`. -/
def freeUsers (users : Addr × Role) : ℕ → Kernel → Option Kernel
  | 0, k => if (k.queues.users users).first.isSome then none else some k
  | bound + 1, k =>
    match (k.queues.users users).first with
    | none => some k
    | some qu => freeUsers users bound ((k.detachUser users (some qu)).queueUserFree (some qu))

/-- `Queue_free`. -/
def queueFree (k : Kernel) (q : Addr) : Option Kernel := do
  let k ← freeMessages q walkBound 0 k
  let k ← freeUsers (q, .reader) walkBound k
  let k ← freeUsers (q, .writer) walkBound k
  let k ← freeUsers (q, .nonBlock) walkBound k
  some { k with queues.allocator := (k.queues.allocator.releaseBlock q).2 }

/-! ### Descriptors (`disastrOS_descriptor.c`) -/

/-- `Descriptor_alloc`. The field `ptr` is the one the block had before. -/
def descriptorAlloc (k : Kernel) (fd : ℤ) (res pcb : Addr) : Option Addr × Kernel :=
  match k.descriptors.allocator.getBlock with
  | (none, _) => (none, k)
  | (some d, allocator) =>
    (some d,
      { k with
        descriptors :=
          { k.descriptors with
            allocator := allocator
            list := update k.descriptors.list d Links.unlinked
            fd := update k.descriptors.fd d fd
            resource := update k.descriptors.resource d res
            pcb := update k.descriptors.pcb d pcb
            rwn := update k.descriptors.rwn d fun _ ↦ none } })

/-- `Descriptor_free`. -/
def descriptorFree (k : Kernel) (d : Addr) : Kernel :=
  { k with descriptors.allocator := (k.descriptors.allocator.releaseBlock d).2 }

/-- `DescriptorPtr_alloc`. -/
def descriptorPtrAlloc (k : Kernel) (descriptor : Addr) : Option Addr × Kernel :=
  match k.descriptorPtrs.allocator.getBlock with
  | (none, _) => (none, k)
  | (some d, allocator) =>
    (some d,
      { k with
        descriptorPtrs :=
          { allocator := allocator
            list := update k.descriptorPtrs.list d Links.unlinked
            descriptor := update k.descriptorPtrs.descriptor d descriptor } })

/-- `DescriptorPtr_free`. -/
def descriptorPtrFree (k : Kernel) (d : Addr) : Kernel :=
  { k with descriptorPtrs.allocator := (k.descriptorPtrs.allocator.releaseBlock d).2 }

/-- `DescriptorList_byFd` on the descriptors of a process. -/
def descriptorByFd (k : Kernel) (pcb : Addr) (fd : ℤ) : Option (Option Addr) :=
  scan k.descriptors.list (fun aux ↦ k.descriptors.fd aux = fd) walkBound
    (k.pcbs.descriptors pcb).first

/-- `List_insert` on the descriptors of a process. -/
def insertDescriptor (k : Kernel) (pcb : Addr) (prev item : Option Addr) : Kernel :=
  let r := listInsert k.descriptors.list (k.pcbs.descriptors pcb) prev item
  { k with descriptors.list := r.list, pcbs.descriptors := update k.pcbs.descriptors pcb r.head }

/-- `List_detach` on the descriptors of a process. -/
def detachDescriptor (k : Kernel) (pcb : Addr) (item : Option Addr) : Kernel :=
  let r := listDetach k.descriptors.list (k.pcbs.descriptors pcb) item
  { k with descriptors.list := r.list, pcbs.descriptors := update k.pcbs.descriptors pcb r.head }

/-- `List_insert` on the descriptor pointers of a resource. -/
def insertDescriptorPtr (k : Kernel) (res : Addr) (prev item : Option Addr) : Kernel :=
  let r := listInsert k.descriptorPtrs.list (k.resources.descriptorsPtrs res) prev item
  { k with
    descriptorPtrs.list := r.list
    resources.descriptorsPtrs := update k.resources.descriptorsPtrs res r.head }

/-- `List_detach` on the descriptor pointers of a resource. -/
def detachDescriptorPtr (k : Kernel) (res : Addr) (item : Option Addr) : Kernel :=
  let r := listDetach k.descriptorPtrs.list (k.resources.descriptorsPtrs res) item
  { k with
    descriptorPtrs.list := r.list
    resources.descriptorsPtrs := update k.resources.descriptorsPtrs res r.head }

/-- `disastrOS_queue_by_fd` for the given process. -/
def queueByFd (k : Kernel) (pcb : Addr) (fd : ℤ) : Option (Option Addr) := do
  match ← k.descriptorByFd pcb fd with
  | none => some none
  | some ds => some (k.resources.value (k.descriptors.resource ds))

/-- `disastrOS_queue_entries` for the given process: the descriptor that holds the entries, if there
is one. -/
def queueEntries (k : Kernel) (pcb : Addr) (fd : ℤ) : Option (Option Addr) :=
  k.descriptorByFd pcb fd

end Kernel

end DisastrOS
