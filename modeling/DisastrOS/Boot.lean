import DisastrOS.System

/-!
# The start of the system

The kernel as `disastrOS_start` leaves it before the first process: the pools initialised over
zeroed memory, the lists empty, nothing running. `init_eq_freshPool` gives the result of
`PoolAllocator_init` in closed form, and the pools of `boot` are written in this form so that a run
from `boot` can be evaluated.
-/

set_option autoImplicit false
set_option relaxedAutoImplicit false

namespace DisastrOS

open LinkedLists

/-! ### Fresh pools -/

/-- A static allocator before its initialisation. -/
def zeroedPool : PoolAllocator := ⟨0, 0, fun _ ↦ 0, 0, 0, 0, 0, 0⟩

/-- A pool of `numItems` blocks, all free. -/
def freshPool (buffer : Addr) (itemSize numItems : ℤ) : PoolAllocator where
  buffer := buffer
  freeListAddr := buffer + itemSize * numItems
  freeList i :=
    if i = numItems - 1 then nullIdx else if 0 ≤ i ∧ i < numItems - 1 then i + 1 else 0
  bufferSize := itemSize * numItems
  size := numItems
  sizeMax := numItems
  itemSize := itemSize
  firstIdx := 0

/-- What `PoolAllocator_init` makes of a zeroed allocator. -/
theorem init_eq_freshPool {itemSize numItems memorySize : ℤ} (hitem : 1 ≤ itemSize)
    (hnum : 1 ≤ numItems) (hfits : numItems * (itemSize + sizeofInt) ≤ intMax)
    (hmemory : numItems * (itemSize + sizeofInt) ≤ memorySize) (buffer : Addr) :
    zeroedPool.init itemSize numItems buffer memorySize =
      (.success, freshPool buffer itemSize numItems) := by
  have hsteps : ((numItems - 1).toNat : ℤ) = numItems - 1 := Int.toNat_of_nonneg (by omega)
  have hrequested : toInt (numItems * (itemSize + sizeofInt)) =
      numItems * (itemSize + sizeofInt) := by
    simp only [intMax, sizeofInt] at hfits ⊢
    exact PoolAllocator.toInt_eq (by nlinarith) (by omega)
  simp only [PoolAllocator.init, hrequested]
  rw [if_neg (by omega)]
  simp only [freshPool, zeroedPool, Prod.mk.injEq, PoolAllocator.mk.injEq, true_and, and_true]
  funext i
  rw [Function.update_apply, PoolAllocator.populate_apply, hsteps, zero_add]

/-- A fresh pool is sound, and none of its blocks is handed out. -/
theorem freshPool_ok {itemSize numItems : ℤ} (hitem : 1 ≤ itemSize) (hnum : 1 ≤ numItems)
    (hfits : numItems * (itemSize + sizeofInt) ≤ intMax) (buffer : Addr) :
    (freshPool buffer itemSize numItems).Ok ∧
      ∀ x, ¬ (freshPool buffer itemSize numItems).Allocated x := by
  obtain ⟨a, hinit, hok, -, -, -, -, -, hfree⟩ :=
    PoolAllocator.init_sound hitem hnum hfits le_rfl zeroedPool buffer
  rw [init_eq_freshPool hitem hnum hfits le_rfl] at hinit
  obtain rfl := (Prod.mk.inj hinit).2
  exact ⟨hok, hfree⟩

/-! ### The kernel before the first process -/

/-- The state in which `disastrOS_start` reaches `main_context` for the first time. -/
def Layout.boot (layout : Layout) : Kernel where
  pcbs :=
    { allocator := freshPool layout.pcbBuffer layout.sizeofPCB maxNumProcesses
      list := fun _ ↦ Links.unlinked
      pid := fun _ ↦ 0
      returnValue := fun _ ↦ 0
      status := fun _ ↦ .created
      signals := fun _ ↦ 0
      signalsMask := fun _ ↦ 0
      parent := fun _ ↦ none
      children := fun _ ↦ Head.empty
      cpuState := fun _ ↦ .user 0
      timer := fun _ ↦ none
      lastFd := fun _ ↦ 0
      descriptors := fun _ ↦ Head.empty
      syscall := fun _ ↦ none
      syscallRetvalue := fun _ ↦ 0 }
  pcbPtrs :=
    { allocator := freshPool layout.pcbPtrBuffer sizeofPCBPtr maxNumProcesses
      list := fun _ ↦ Links.unlinked
      pcb := fun _ ↦ 0 }
  timerItems :=
    { allocator := freshPool layout.timerItemBuffer sizeofTimerItem maxNumProcesses
      list := fun _ ↦ Links.unlinked
      awakeningTime := fun _ ↦ 0
      pcb := fun _ ↦ 0 }
  resources :=
    { allocator := freshPool layout.resourcesBuffer sizeofResource maxNumResources
      list := fun _ ↦ Links.unlinked
      id := fun _ ↦ 0
      type := fun _ ↦ 0
      descriptorsPtrs := fun _ ↦ Head.empty
      value := fun _ ↦ none }
  descriptors :=
    { allocator := freshPool layout.descriptorBuffer sizeofDescriptor maxNumProcesses
      list := fun _ ↦ Links.unlinked
      pcb := fun _ ↦ 0
      resource := fun _ ↦ 0
      fd := fun _ ↦ 0
      rwn := fun _ _ ↦ none
      ptr := fun _ ↦ none }
  descriptorPtrs :=
    { allocator := freshPool layout.descriptorPtrBuffer sizeofDescriptorPtr maxNumProcesses
      list := fun _ ↦ Links.unlinked
      descriptor := fun _ ↦ 0 }
  queues :=
    { allocator := freshPool layout.queuesBuffer sizeofQueue maxNumQueues
      messages := fun _ ↦ Head.empty
      users := fun _ ↦ Head.empty
      maxMessages := fun _ ↦ 0
      msgSize := fun _ ↦ 0
      openings := fun _ ↦ 0 }
  queueUsers :=
    { allocator := freshPool layout.queueUsersBuffer sizeofQueueUser maxNumProcesses
      list := fun _ ↦ Links.unlinked
      pid := fun _ ↦ 0
      status := fun _ ↦ .created }
  messages :=
    { allocator := freshPool layout.messageBuffer sizeofMessage maxNumMessages
      list := fun _ ↦ Links.unlinked
      message := fun _ ↦ none
      len := fun _ ↦ 0 }
  msgStrings :=
    { allocator := freshPool layout.msgStringsBuffer maxMessageSize maxNumStrings
      byte := fun _ ↦ 0 }
  initPcb := none
  running := none
  lastPid := 0
  lists := fun _ ↦ listInit
  resourcesList := listInit
  timerList := listInit
  disastrOSTime := 0
  shutdownNow := false
  userBytes := fun _ ↦ 0
  userInts := fun _ ↦ 0

/-- A layout, for runs on concrete inputs. -/
def sampleLayout : Layout where
  sizeofPCB := 17544
  pcbBuffer := 0x400000
  pcbPtrBuffer := 0x1600000
  timerItemBuffer := 0x1700000
  resourcesBuffer := 0x1800000
  queuesBuffer := 0x1900000
  msgStringsBuffer := 0x1A00000
  queueUsersBuffer := 0x1F00000
  messageBuffer := 0x2000000
  descriptorBuffer := 0x2200000
  descriptorPtrBuffer := 0x2500000
  sizeofPCB_pos := by decide
  sizeofPCB_fits := by decide
  messages_apart := by decide
  messages_near := by decide
  null_rejected := by
    intro i hi _
    have hdistance : toInt (0 - 0x1F00000) = -0x1F00000 := by decide
    rw [hdistance, sizeofQueueUser]
    omega

end DisastrOS
