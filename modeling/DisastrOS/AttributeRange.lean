import DisastrOS.MessageOrder

/-!
# The attributes of the queues

`dmq_setattr` checks a capacity against the upper limit only, and a message size against nothing. As
long as the values it writes are in range, the attributes of every live queue are, and the copy loop of
a SEND stays inside the string block that it has got (`attributesBounded_of_inRange`). A process can set
a message size of 300 (`oversizedMessages_not_attributesBounded`).
-/

set_option autoImplicit false
set_option relaxedAutoImplicit false

namespace DisastrOS

open LinkedLists PoolAllocator
open Function (update)

namespace Kernel

variable {layout : Layout} {k k' : Kernel} {nodes : Addr → List Addr} {a : Action}

/-! ### The condition on a step -/

/-- The action is no shutdown, and the value it sets an attribute to is in range. -/
def AttributesInRange (k : Kernel) (a : Action) : Prop :=
  k.SizesInRange a ∧ ∀ w ∈ k.attributeWrite a, w.2.1 = attQueueMaxMessages → 0 ≤ w.2.2

instance (k : Kernel) (a : Action) : Decidable (k.AttributesInRange a) :=
  inferInstanceAs (Decidable (_ ∧ ∀ w ∈ k.attributeWrite a, _ → _))

/-! ### The invariant -/

/-- The attributes of queue `q` are not too small. -/
def NotBelow (k : Kernel) (q : Addr) : Prop := 0 ≤ k.queues.maxMessages q ∧ 1 ≤ k.queues.msgSize q

/-- The store is prepared, and the live queues have their attributes in range. The upper limits are in
`Prepared`, for every queue. -/
structure InRange (layout : Layout) (k : Kernel) (nodes : Addr → List Addr) : Prop extends
    k.Prepared layout nodes where
  queuePool : k.queues.allocator.Ok
  sameQueuePool : SamePool layout.boot.queues.allocator k.queues.allocator
  values : ∀ res q, k.resources.value res = some q → k.queues.allocator.IsBlock q
  live : ∀ q, k.queues.allocator.Allocated q → k.NotBelow q

/-- A step that leaves the queues alone. -/
theorem InRange.congr (h : k.InRange layout nodes) {nodes' : Addr → List Addr}
    (hprepared : k'.Prepared layout nodes') (hqueues : k'.queues.allocator = k.queues.allocator)
    (hattributes : k'.attributes = k.attributes)
    (hvalues : k'.resources.value = k.resources.value) : k'.InRange layout nodes' where
  toPrepared := hprepared
  queuePool := hqueues ▸ h.queuePool
  sameQueuePool := hqueues ▸ h.sameQueuePool
  values := by rw [hqueues, hvalues]; exact h.values
  live q hq := by
    obtain ⟨hmax, hsize⟩ := Prod.mk.inj hattributes
    rw [NotBelow, hmax, hsize]
    exact h.live q (hqueues ▸ hq)

theorem InRange.step (h : k.InRange layout nodes) (hrange : k.AttributesInRange a)
    (hstep : k.step a = some k') : ∃ nodes', k'.InRange layout nodes' := by
  obtain ⟨nodes', hprepared⟩ := h.toPrepared.step hrange.1.fit hstep
  refine ⟨nodes', ?_⟩
  cases step_store hrange.1.1 hstep with
  | same _ hqueues hattributes hvalues => exact h.congr hprepared hqueues hattributes hvalues
  | accept p q fd msg next _ _ _ _ haccept =>
    have hframe := acceptMessage_eq haccept
    exact h.congr hprepared ((congrArg (·.queues.allocator) hframe).trans rfl)
      ((congrArg attributes hframe).trans rfl) ((congrArg (·.resources.value) hframe).trans rfl)
  | deliver p q fd buffer m next k₁ _ _ _ hpop hdeliver =>
    have hframe := deliverMessage_eq hdeliver
    rw [← (Prod.mk.inj hpop).2] at hframe
    exact h.congr hprepared ((congrArg (·.queues.allocator) hframe).trans rfl)
      ((congrArg attributes hframe).trans rfl) ((congrArg (·.resources.value) hframe).trans rfl)
  | free p id res q next k₁ k₂ _ _ _ _ hfreed _ _ _ hqueues hattributes hvalues =>
    have hblock : k.queues.allocator.IsBlock q := by
      unfold freedQueue at hfreed
      split_ifs at hfreed
      exact h.values res q hfreed
    obtain ⟨hok, hnot, hothers⟩ := h.queuePool.releaseBlock_isBlock hblock
    have hsame := h.sameQueuePool.trans (releaseBlock_samePool k.queues.allocator q)
    obtain ⟨hmax, hsize⟩ := Prod.mk.inj hattributes
    rw [← hqueues] at hok hnot hothers hsame
    constructor
    · exact hprepared
    · exact hok
    · exact hsame
    · intro res' x hx
      rw [hvalues] at hx
      rw [hqueues]
      exact ((releaseBlock_samePool k.queues.allocator q).isBlock x).mpr (h.values res' x hx)
    · intro x hx
      have hne : x ≠ q := fun heq ↦ hnot (heq ▸ hx)
      rw [NotBelow, hmax, hsize]
      exact h.live x ((hothers x hne).mp hx)
  | init p id fd res q mode next pool _ _ _ _ hget hqueues _ hattributes hvalues =>
    obtain ⟨hok, hblock, -, -, hallocated⟩ := getBlock_some h.queuePool hget
    have hsame := getBlock_samePool k.queues.allocator
    rw [hget] at hsame
    obtain ⟨hmax, hsize⟩ := Prod.mk.inj hattributes
    constructor
    · exact hprepared
    · rw [hqueues]
      exact hok
    · rw [hqueues]
      exact h.sameQueuePool.trans hsame
    · intro res' x hx
      rw [hvalues, Function.update_apply] at hx
      rw [hqueues]
      apply (hsame.isBlock x).mpr
      split_ifs at hx
      · exact Option.some.inj hx ▸ hblock
      · exact h.values res' x hx
    · intro x hx
      rw [hqueues] at hx
      rw [NotBelow, hmax, hsize, Function.update_apply, Function.update_apply]
      split_ifs with hxq
      · decide
      · exact h.live x (((hallocated x).mp hx).resolve_left hxq)
  | write p q attr newVal ha hrunning hcontext _ hqueues hattributes hvalues =>
    subst ha
    have hwrite := attributeWrite_eq_some hrunning hcontext
    constructor
    · exact hprepared
    · exact hqueues ▸ h.queuePool
    · exact hqueues ▸ h.sameQueuePool
    · rw [hqueues, hvalues]
      exact h.values
    · intro x hx
      rw [hqueues] at hx
      obtain ⟨hmax, hsize⟩ := h.live x hx
      obtain ⟨hmax', hsize'⟩ := Prod.mk.inj hattributes
      rw [NotBelow, hmax', hsize', writeAttribute]
      split_ifs with hattr
      · refine ⟨?_, hsize⟩
        change 0 ≤ update k.queues.maxMessages q newVal x
        rw [Function.update_apply]
        split_ifs
        · exact hrange.2 _ hwrite hattr
        · exact hmax
      · refine ⟨hmax, ?_⟩
        change 1 ≤ update k.queues.msgSize q newVal x
        rw [Function.update_apply]
        split_ifs
        · have hattr' := (h.sizes.pending _ _ _ _ hcontext).resolve_left hattr
          exact (hrange.1.2 _ hwrite hattr').1
        · exact hsize

/-! ### Sending -/

/-- The attributes of the live queues are in range. A string block that is handed out next lies among
the blocks of the pool, before its bookkeeping and apart from every other block; the copy loop of a SEND
takes no more bytes than the block has, whatever the buffer holds, so it is never cut short, and a SEND
changes no byte outside that block. -/
structure AttributesBounded (k : Kernel) : Prop where
  maxMessages : ∀ q ∈ k.queues.allocator.allocatedBlocks,
    0 ≤ k.queues.maxMessages q ∧ k.queues.maxMessages q ≤ maxNumMessagesPerQueue
  msgSize : ∀ q ∈ k.queues.allocator.allocatedBlocks,
    1 ≤ k.queues.msgSize q ∧ k.queues.msgSize q ≤ maxMessageSize
  block : ∀ block ∈ k.msgStrings.allocator.getBlock.1,
    k.msgStrings.allocator.buffer ≤ block ∧
      block + maxMessageSize ≤ k.msgStrings.allocator.freeListAddr ∧
      ∀ block', k.msgStrings.allocator.Allocated block' →
        block + maxMessageSize ≤ block' ∨ block' + maxMessageSize ≤ block
  copy : ∀ q ∈ k.queues.allocator.allocatedBlocks, ∀ source src,
    copyLength source src (k.queues.msgSize q).toNat ≤ maxMessageSize
  completes : ∀ q ∈ k.queues.allocator.allocatedBlocks, ∀ p src,
    (k.acceptMessage p q (some src)).isSome = true
  send : ∀ p msg fd a k', k.running = some p → k.request a = some (.sendMsg msg fd) →
    k.step a = some k' → ∀ x, k'.msgStrings.byte x ≠ k.msgStrings.byte x →
      ∃ block ∈ k.msgStrings.allocator.getBlock.1, block ≤ x ∧ x < block + maxMessageSize

theorem Stored.strings_end (h : k.Stored layout nodes) : k.msgStrings.allocator.freeListAddr =
    k.msgStrings.allocator.buffer + k.msgStrings.allocator.itemSize *
      k.msgStrings.allocator.sizeMax := by
  rw [h.sameStringPool.freeListAddr, h.sameStringPool.buffer, h.sameStringPool.itemSize,
    h.sameStringPool.sizeMax]
  rfl

/-- The string block that is handed out next. -/
theorem Stored.nextString (h : k.Stored layout nodes) {block : Addr}
    (hget : k.msgStrings.allocator.getBlock.1 = some block) :
    k.msgStrings.allocator.buffer ≤ block ∧
      block + maxMessageSize ≤ k.msgStrings.allocator.freeListAddr ∧
      ∀ block', k.msgStrings.allocator.Allocated block' →
        block + maxMessageSize ≤ block' ∨ block' + maxMessageSize ≤ block := by
  obtain ⟨-, hblock, hfree, -⟩ := getBlock_some h.stringPool (Prod.ext hget rfl)
  have hitem : k.msgStrings.allocator.itemSize = maxMessageSize := h.sameStringPool.itemSize
  have hpos : 1 ≤ k.msgStrings.allocator.itemSize := by
    rw [hitem]
    decide
  obtain ⟨hlow, hhigh⟩ := hblock.inside hpos
  rw [← h.strings_end, hitem] at hhigh
  refine ⟨hlow, hhigh, fun block' hblock' ↦ ?_⟩
  have happart := hblock.disjoint hpos hblock'.isBlock fun heq ↦ hfree (heq ▸ hblock')
  rwa [hitem] at happart

/-- The copy loop of a SEND takes no more bytes than a string block has. -/
theorem copyLength_le_maxMessageSize {size : ℤ} (hsize : size ≤ maxMessageSize)
    (source : Addr → UInt8) (src : Addr) :
    (copyLength source src size.toNat : ℤ) ≤ maxMessageSize := by
  have hlength := copyLength_le source src size.toNat
  rw [maxMessageSize] at hsize ⊢
  omega

/-- A copy that stays below the end of the pool is not cut short. -/
theorem storeMessage_eq_some {src m block : Addr} {turns : ℕ}
    (hblock : k.messages.message m = some block) (hturns : (k.messages.len m).toNat = turns)
    (hfits : block + copyLength k.userBytes src turns ≤
      k.msgStrings.allocator.buffer + k.msgStrings.allocator.itemSize *
        k.msgStrings.allocator.sizeMax) :
    k.storeMessage (some src) m = some { k with
      msgStrings.byte := copyBytes k.userBytes src k.msgStrings.byte block turns } := by
  cases turns with
  | zero =>
    simp only [storeMessage, hturns]
    rfl
  | succ turns => simp only [storeMessage, hturns, hblock, if_pos hfits]

/-- The part of a SEND that stores the message, when both pools have a block left. -/
theorem Stored.acceptMessage_eq_some (h : k.Stored layout nodes) {q : Addr}
    (hsize : k.queues.msgSize q ≤ maxMessageSize) {block m : Addr} {pool msgPool : PoolAllocator}
    (hget : k.msgStrings.allocator.getBlock = (some block, pool))
    (hgetMsg : k.messages.allocator.getBlock = (some m, msgPool)) (p src : Addr) :
    k.acceptMessage p q (some src) = some
      ((({ k with msgStrings := ⟨pool, copyBytes k.userBytes src k.msgStrings.byte block
        (k.queues.msgSize q).toNat⟩ }.resetMessage m msgPool (some block)
          (k.queues.msgSize q)).insertMessage q m).setRetvalue p 0) := by
  -- the copy stays below the end of the pool
  have hlength := copyLength_le_maxMessageSize hsize k.userBytes src
  obtain ⟨-, hhigh, -⟩ := h.nextString (by rw [hget])
  have hsame := getBlock_samePool k.msgStrings.allocator
  rw [h.strings_end, ← hsame.buffer, ← hsame.itemSize, ← hsame.sizeMax, hget] at hhigh
  have hbelow : block + copyLength k.userBytes src (k.queues.msgSize q).toNat ≤
      pool.buffer + pool.itemSize * pool.sizeMax := by lia
  have hlen : update k.messages.len m (k.queues.msgSize q) m = k.queues.msgSize q :=
    Function.update_self ..
  have hstore := storeMessage_eq_some
    (k := { k with msgStrings.allocator := pool }.resetMessage m msgPool (some block)
      (k.queues.msgSize q)) (Function.update_self ..) (congrArg Int.toNat hlen) hbelow
  simp only [Kernel.acceptMessage, msgStringAlloc, messageAlloc, hget, hgetMsg, hstore]
  rfl

/-- The part of a SEND that stores the message gets to its end. -/
theorem Prepared.acceptMessage_isSome (h : k.Prepared layout nodes) (p q src : Addr) :
    (k.acceptMessage p q (some src)).isSome = true := by
  rcases hget : k.msgStrings.allocator.getBlock with ⟨_ | block, pool⟩ <;>
    rcases hgetMsg : k.messages.allocator.getBlock with ⟨_ | m, msgPool⟩
  case some.some => rw [h.stored.acceptMessage_eq_some (h.sizes.size q) hget hgetMsg, Option.isSome_some]
  all_goals simp only [acceptMessage, msgStringAlloc, messageAlloc, hget, hgetMsg, Option.isSome_some]

/-- What the part of a SEND that stores the message writes to the strings. -/
theorem acceptMessage_byte {p q : Addr} {msg : Option Addr}
    (haccept : k.acceptMessage p q msg = some k') :
    k'.msgStrings.byte = k.msgStrings.byte ∨ ∃ block,
      k.msgStrings.allocator.getBlock.1 = some block ∧
        k'.msgStrings.byte = copyBytes k.userBytes (msg.getD 0) k.msgStrings.byte block
          (k.queues.msgSize q).toNat := by
  rcases hget : k.msgStrings.allocator.getBlock with ⟨_ | block, pool⟩ <;>
    rcases hgetMsg : k.messages.allocator.getBlock with ⟨_ | m, msgPool⟩ <;>
    simp only [acceptMessage, msgStringAlloc, messageAlloc, hget, hgetMsg] at haccept
  · exact Or.inl (by rw [← Option.some.inj haccept]; rfl)
  · exact Or.inl (by rw [← Option.some.inj haccept]; rfl)
  · exact Or.inl (by rw [← Option.some.inj haccept]; rfl)
  · obtain ⟨k₂, hstore, hk'⟩ := Option.bind_eq_some_iff.mp haccept
    obtain ⟨hbyte, -⟩ := storeMessage_spec (Function.update_self ..) hstore
    have hlen : update k.messages.len m (k.queues.msgSize q) m = k.queues.msgSize q :=
      Function.update_self ..
    refine Or.inr ⟨block, rfl, ?_⟩
    rw [← Option.some.inj hk', ← hlen]
    exact hbyte

/-- A SEND changes no byte outside the string block that it gets. -/
theorem Sizes.send_inside (h : k.Sizes) {p fd x : ℤ} {msg : Option Addr}
    (hrunning : k.running = some p) (hrequest : k.request a = some (.sendMsg msg fd))
    (hstep : k.step a = some k') (hx : k'.msgStrings.byte x ≠ k.msgStrings.byte x) :
    ∃ block, k.msgStrings.allocator.getBlock.1 = some block ∧ block ≤ x ∧
      x < block + maxMessageSize := by
  obtain ⟨next, -, hcall⟩ := step_syscall hrunning hrequest hstep
  obtain ⟨p', q, entries, -, -, -, ⟨-, haccept⟩ | ⟨-, hwait⟩⟩ := internalSendMessage_cases hcall
  · have hlength := copyLength_le_maxMessageSize (h.size q) k.userBytes (msg.getD 0)
    obtain hbyte | ⟨block, hget, hbyte⟩ := acceptMessage_byte haccept
    · exact absurd (congrFun hbyte x) hx
    · refine ⟨block, hget, ?_⟩
      by_contra houtside
      apply hx
      rw [hbyte]
      apply copyBytes_of_outside
      change x < block ∨ block + copyLength k.userBytes (msg.getD 0) (k.queues.msgSize q).toNat ≤ x
      lia
  · obtain ⟨_, _, -, -, rfl⟩ := waitForQueue_eq hwait
    exact absurd rfl hx

theorem InRange.attributesBounded (h : k.InRange layout nodes) : k.AttributesBounded where
  maxMessages q hq := ⟨(h.live q (mem_allocatedBlocks.mp hq)).1, h.capacities.max q⟩
  msgSize q hq := ⟨(h.live q (mem_allocatedBlocks.mp hq)).2, h.sizes.size q⟩
  block _ hget := h.stored.nextString hget
  copy q _ := copyLength_le_maxMessageSize (h.sizes.size q)
  completes q _ p src := h.toPrepared.acceptMessage_isSome p q src
  send _ _ _ _ _ hrunning hrequest hstep _ := h.sizes.send_inside hrunning hrequest hstep

end Kernel

/-! ### Whole runs -/

theorem Layout.boot_inRange (layout : Layout) : layout.boot.InRange layout fun _ ↦ [] where
  toPrepared := layout.boot_prepared
  queuePool := (freshPool_ok (by decide) (by decide) (by decide) layout.queuesBuffer).1
  sameQueuePool := SamePool.refl _
  values _ _ hvalue := by simp [Layout.boot] at hvalue
  live q hlive :=
    absurd hlive ((freshPool_ok (by decide) (by decide) (by decide) layout.queuesBuffer).2 q)

/-- The attributes of the queues are in range in every state of a run that sets them to values in
range only, and a SEND then stays inside its string block. -/
theorem attributesBounded_of_inRange (layout : Layout) {actions : List Action} {k : Kernel}
    (hrange : Runs.Meets Kernel.step Kernel.AttributesInRange layout.boot actions)
    (hrun : Runs.run Kernel.step layout.boot actions = some k) : k.AttributesBounded := by
  have hkeeps : ∀ k a k', (∃ nodes, Kernel.InRange layout k nodes) → k.AttributesInRange a →
      k.step a = some k' → ∃ nodes, k'.InRange layout nodes := by
    rintro k a k' ⟨nodes, hinv⟩ hrange hstep
    exact hinv.step hrange hstep
  obtain ⟨nodes, hinv⟩ := Runs.run_invariant hkeeps ⟨_, layout.boot_inRange⟩ hrange hrun
  exact hinv.attributesBounded

/-- The first process opens queue 0 and sets an attribute of it. -/
def setAttribute (attr newVal : ℤ) : List Action :=
  openSetup ++ [.call (.setattr 0 attr newVal), .statement, .statement, .statement]

theorem attributesBounded_of_inRange_eightBytes : ∃ k,
    Runs.run Kernel.step sampleLayout.boot (setAttribute attQueueMessageSize 8) = some k ∧
      k.queues.msgSize 0x1900000 = 8 ∧ k.AttributesBounded := by
  have hruns : (Runs.run Kernel.step sampleLayout.boot
      (setAttribute attQueueMessageSize 8)).isSome := by decide +kernel
  obtain ⟨k, hk⟩ := Option.isSome_iff_exists.mp hruns
  have hsize : ∀ k ∈ Runs.run Kernel.step sampleLayout.boot (setAttribute attQueueMessageSize 8),
      k.queues.msgSize 0x1900000 = 8 := by decide +kernel
  exact ⟨k, hk, hsize k hk,
    attributesBounded_of_inRange sampleLayout (by decide +kernel) hk⟩

/-- Nothing keeps a process from setting a message size of 300. -/
theorem oversizedMessages_not_attributesBounded : ∃ k,
    Runs.run Kernel.step sampleLayout.boot (setAttribute attQueueMessageSize 300) = some k ∧
      ¬ k.AttributesBounded := by
  have hruns : (Runs.run Kernel.step sampleLayout.boot
      (setAttribute attQueueMessageSize 300)).isSome := by decide +kernel
  obtain ⟨k, hk⟩ := Option.isSome_iff_exists.mp hruns
  have hlive : ∀ k ∈ Runs.run Kernel.step sampleLayout.boot (setAttribute attQueueMessageSize 300),
      0x1900000 ∈ k.queues.allocator.allocatedBlocks ∧ k.queues.msgSize 0x1900000 = 300 := by
    decide +kernel
  refine ⟨k, hk, fun hbounded ↦ ?_⟩
  obtain ⟨hmem, hsize⟩ := hlive k hk
  have hmax := (hbounded.msgSize _ hmem).2
  rw [hsize] at hmax
  exact absurd hmax (by decide)

end DisastrOS
