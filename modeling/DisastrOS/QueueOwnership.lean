import DisastrOS.Files
import DisastrOS.Library.Runs
import DisastrOS.Returns

/-!
# The queues of the resources

The value of a resource of type 2 is its queue. `Resource_alloc` does not write it, so a resource that
gets a block for the second time starts with the queue of the first. In every run in which this does
not happen (`Kernel.CreatesClean`) each listed resource has no value or a live queue of its own, and a
`dmq_open` that creates a resource yields a fresh queue (`valuesOwned_of_clean`). After a resource was
created, unlinked and created anew, two resources share one queue
(`recycledResource_not_valuesOwned`).
-/

set_option autoImplicit false
set_option relaxedAutoImplicit false

namespace DisastrOS

open LinkedLists PoolAllocator
open Function (update)

/-! ### Values in the table -/

namespace Files

variable {f : Files} {pool pool' : PoolAllocator} {p p' r d x q : Addr} {fd id : ℤ}

/-- The value of a listed resource is the address of a live queue, the resource is of type 2, and no
other listed resource has this value. -/
structure ValuesOwned (f : Files) (queues : PoolAllocator) : Prop where
  live : ∀ r ∈ f.resourceNodes, ∀ q, f.resources.value r = some q →
    f.resources.type r = 2 ∧ queues.Allocated q
  unshared : ∀ r ∈ f.resourceNodes, ∀ r' ∈ f.resourceNodes, ∀ q, f.resources.value r = some q →
    f.resources.value r' = some q → r = r'

/-- The values are owned, in a table and a pool that are in order. -/
structure Owned (f : Files) (queues : PoolAllocator) : Prop where
  ok : f.Ok
  pool : queues.Ok
  values : f.ValuesOwned queues

/-- The resource of this id, if there is one, has no value. -/
def Unset (f : Files) (id : ℤ) : Prop :=
  ∀ r ∈ f.resourceNodes, f.resources.id r = id → f.resources.value r = none

/-- Process `p` has a descriptor `fd` of the resource `id`, which is of type 2. -/
def HasOpen (f : Files) (p : Addr) (fd id : ℤ) : Prop :=
  ∃ d ∈ f.descriptorNodes p, f.descriptors.fd d = fd ∧
    f.resources.id (f.descriptors.resource d) = id ∧
    f.resources.type (f.descriptors.resource d) = 2

/-! ### Resources that come and go -/

theorem create_resourceNodes (h : f.Ok) (type : ℤ)
    (hget : f.resources.allocator.getBlock = (some r, pool))
    (hnew : ∀ r' ∈ f.resourceNodes, f.resources.id r' ≠ id) :
    (f.create r pool id type).resourceNodes = f.resourceNodes ++ [r] ∧ r ∉ f.resourceNodes := by
  refine ⟨(Holds.create h id type hget hnew).resourceNodes_eq, fun hr ↦ ?_⟩
  obtain ⟨-, -, hfree, -⟩ := getBlock_some h.resourcePool hget
  exact hfree (h.resource_allocated r hr)

theorem Owned.create (h : f.Owned pool) {resPool : PoolAllocator} (type : ℤ)
    (hget : f.resources.allocator.getBlock = (some r, resPool))
    (hnew : ∀ r' ∈ f.resourceNodes, f.resources.id r' ≠ id) (hclean : f.resources.value r = none) :
    (f.create r resPool id type).Owned pool := by
  obtain ⟨hnodes, hfresh⟩ := create_resourceNodes h.ok type hget hnew
  have hold : ∀ r' ∈ (f.create r resPool id type).resourceNodes, ∀ q,
      f.resources.value r' = some q → r' ∈ f.resourceNodes := by
    intro r' hr' q hq
    rw [hnodes, List.mem_append, List.mem_singleton] at hr'
    rcases hr' with hr' | rfl
    · exact hr'
    · exact absurd (hclean.symm.trans hq) (by simp)
  refine ⟨(Holds.create h.ok id type hget hnew).ok, h.pool, ?_, ?_⟩
  · intro r' hr' q hq
    have hmem := hold r' hr' q hq
    have hne : r' ≠ r := fun hsame ↦ hfresh (hsame ▸ hmem)
    change update f.resources.type r type r' = 2 ∧ _
    rw [Function.update_of_ne hne]
    exact h.values.live r' hmem q hq
  · intro r₁ hr₁ r₂ hr₂ q hq₁ hq₂
    exact h.values.unshared r₁ (hold r₁ hr₁ q hq₁) r₂ (hold r₂ hr₂ q hq₂) q hq₁ hq₂

theorem Unset.create (h : f.Unset id) (hok : f.Ok) {resPool : PoolAllocator} {id' : ℤ} (type : ℤ)
    (hget : f.resources.allocator.getBlock = (some r, resPool))
    (hnew : ∀ r' ∈ f.resourceNodes, f.resources.id r' ≠ id') (hclean : f.resources.value r = none) :
    (f.create r resPool id' type).Unset id := by
  obtain ⟨hnodes, hfresh⟩ := create_resourceNodes hok type hget hnew
  intro r' hr' hid
  rw [hnodes, List.mem_append, List.mem_singleton] at hr'
  rcases hr' with hr' | rfl
  · have hne : r' ≠ r := fun hsame ↦ hfresh (hsame ▸ hr')
    change update f.resources.id r id' r' = id at hid
    rw [Function.update_of_ne hne] at hid
    exact h r' hr' hid
  · exact hclean

theorem HasOpen.create (h : f.HasOpen p fd id) (hok : f.Ok) {resPool : PoolAllocator} {id' type : ℤ}
    (hget : f.resources.allocator.getBlock = (some r, resPool)) :
    (f.create r resPool id' type).HasOpen p fd id := by
  obtain ⟨d, hd, hfd, hid, htype⟩ := h
  obtain ⟨-, -, hfree, -⟩ := getBlock_some hok.resourcePool hget
  have hne : f.descriptors.resource d ≠ r := fun hsame ↦
    hfree (hsame ▸ hok.resource_allocated _ (Holds.resource_mem hok hd))
  refine ⟨d, hd, hfd, ?_, ?_⟩
  · exact (Function.update_of_ne hne _ _).trans hid
  · exact (Function.update_of_ne hne _ _).trans htype

/-- The queue of a resource that is destroyed goes back to the pool. -/
theorem Owned.destroy (h : f.Owned pool) (hr : r ∈ f.resourceNodes) (hunused : f.pointerNodes r = [])
    (hpool : pool' = match if f.resources.type r = 2 then f.resources.value r else none with
      | some q => (pool.releaseBlock q).2
      | none => pool) : (f.destroy r).Owned pool' := by
  have hdestroyed := Holds.destroy h.ok hr hunused
  have hnodes : (f.destroy r).resourceNodes = f.resourceNodes.erase r := hdestroyed.resourceNodes_eq
  have hold : ∀ r' ∈ (f.destroy r).resourceNodes, r' ≠ r ∧ r' ∈ f.resourceNodes := by
    intro r' hr'
    rw [hnodes] at hr'
    exact h.ok.resourceList.nodup.mem_erase_iff.mp hr'
  have hunshared : ∀ r₁ ∈ (f.destroy r).resourceNodes, ∀ r₂ ∈ (f.destroy r).resourceNodes, ∀ q,
      f.resources.value r₁ = some q → f.resources.value r₂ = some q → r₁ = r₂ :=
    fun r₁ hr₁ r₂ hr₂ ↦ h.values.unshared r₁ (hold r₁ hr₁).2 r₂ (hold r₂ hr₂).2
  cases hvalue : f.resources.value r with
  | none =>
    simp only [hvalue, ite_self] at hpool
    subst hpool
    exact ⟨hdestroyed.ok, h.pool, fun r' hr' ↦ h.values.live r' (hold r' hr').2, hunshared⟩
  | some q =>
    obtain ⟨htype, hlive⟩ := h.values.live r hr q hvalue
    simp only [hvalue, htype, if_true] at hpool
    obtain ⟨hok, -, hallocated⟩ := h.pool.release hlive
    subst hpool
    refine ⟨hdestroyed.ok, hok, ?_, hunshared⟩
    intro r' hr' q' hq'
    obtain ⟨hne, hmem⟩ := hold r' hr'
    obtain ⟨htype', hlive'⟩ := h.values.live r' hmem q' hq'
    refine ⟨htype', (hallocated q').mpr ⟨fun hsame ↦ hne ?_, hlive'⟩⟩
    exact h.values.unshared r' hmem r hr q (hsame ▸ hq') hvalue

theorem Unset.destroy (h : f.Unset id) (hok : f.Ok) (hr : r ∈ f.resourceNodes)
    (hunused : f.pointerNodes r = []) : (f.destroy r).Unset id := by
  intro r' hr'
  rw [(Holds.destroy hok hr hunused).resourceNodes_eq] at hr'
  exact h r' (List.mem_of_mem_erase hr')

/-! ### Descriptors that come and go -/

theorem HasOpen.join (h : f.HasOpen p fd id) (hok : f.Ok) {ptrPool : PoolAllocator}
    (hr : r ∈ f.resourceNodes) (hget : f.descriptors.allocator.getBlock = (some d, pool))
    (hgetPtr : f.descriptorPtrs.allocator.getBlock = (some x, ptrPool)) :
    (f.join p' r d x pool ptrPool).HasOpen p fd id := by
  obtain ⟨d', hd', hfd, hid, htype⟩ := h
  obtain ⟨-, -, hfree, -⟩ := getBlock_some hok.descriptorPool hget
  have hne : d' ≠ d := fun hsame ↦ hfree (hsame ▸ hok.descriptor_allocated p d' hd')
  have hresource : update f.descriptors.resource d r d' = f.descriptors.resource d' :=
    Function.update_of_ne hne _ _
  refine ⟨d', ?_, (Function.update_of_ne hne _ _).trans hfd, ?_, ?_⟩
  · rw [(Holds.join hok hr hget hgetPtr).descriptorNodes_eq, Function.update_apply]
    split_ifs with hp
    · exact List.mem_append_left _ (hp ▸ hd')
    · exact hd'
  · exact (congrArg f.resources.id hresource).trans hid
  · exact (congrArg f.resources.type hresource).trans htype

/-- The descriptor that a process gets. -/
theorem HasOpen.of_join (hok : f.Ok) {ptrPool : PoolAllocator} (hr : r ∈ f.resourceNodes)
    (htype : f.resources.type r = 2) (hget : f.descriptors.allocator.getBlock = (some d, pool))
    (hgetPtr : f.descriptorPtrs.allocator.getBlock = (some x, ptrPool)) :
    (f.join p r d x pool ptrPool).HasOpen p (f.lastFd p) (f.resources.id r) := by
  have hresource : update f.descriptors.resource d r d = r := Function.update_self ..
  refine ⟨d, ?_, Function.update_self .., ?_, ?_⟩
  · rw [(Holds.join hok hr hget hgetPtr).descriptorNodes_eq, Function.update_self]
    exact List.mem_append_right _ (List.mem_singleton_self d)
  · exact congrArg f.resources.id hresource
  · exact (congrArg f.resources.type hresource).trans htype

theorem HasOpen.drop (h : f.HasOpen p fd id) (hok : f.Ok) (hne : p ≠ p')
    (hd : d ∈ f.descriptorNodes p') (hptr : f.descriptors.ptr d = some x) :
    (f.drop p' d (f.descriptors.resource d) x).HasOpen p fd id := by
  obtain ⟨d', hd', hrest⟩ := h
  refine ⟨d', ?_, hrest⟩
  rwa [(Holds.drop hok hd hptr).descriptorNodes_eq, Function.update_of_ne hne]

theorem HasOpen.reset (h : f.HasOpen p fd id) (hok : f.Ok) (hne : p ≠ p') :
    (f.reset p').HasOpen p fd id := by
  obtain ⟨d, hd, hrest⟩ := h
  refine ⟨d, ?_, hrest⟩
  rwa [(Holds.reset hok p').descriptorNodes_eq, Function.update_of_ne hne]

/-! ### A new queue -/

theorem Owned.setValue (h : f.Owned pool) (htype : f.resources.type r = 2)
    (hget : pool.getBlock = (some q, pool')) :
    { f with resources.value := update f.resources.value r (some q) }.Owned pool' := by
  obtain ⟨hok, -, hfree, -, hallocated⟩ := getBlock_some h.pool hget
  have hold : ∀ r' ∈ f.resourceNodes, f.resources.value r' ≠ some q := fun r' hr' hq ↦
    hfree (h.values.live r' hr' q hq).2
  refine ⟨(Holds.setValue h.ok _).ok, hok, ?_, ?_⟩
  · intro r' hr' q' hq'
    change update f.resources.value r (some q) r' = some q' at hq'
    rw [Function.update_apply] at hq'
    split_ifs at hq' with hsame
    · obtain rfl := Option.some.inj hq'
      exact ⟨hsame ▸ htype, (hallocated q).mpr (Or.inl rfl)⟩
    · obtain ⟨htype', hlive⟩ := h.values.live r' hr' q' hq'
      exact ⟨htype', (hallocated q').mpr (Or.inr hlive)⟩
  · intro r₁ hr₁ r₂ hr₂ q' hq₁ hq₂
    change update f.resources.value r (some q) r₁ = some q' at hq₁
    change update f.resources.value r (some q) r₂ = some q' at hq₂
    rw [Function.update_apply] at hq₁ hq₂
    split_ifs at hq₁ hq₂ with h₁ h₂ h₂
    · rw [h₁, h₂]
    · exact absurd (hq₂.trans hq₁.symm) (hold r₂ hr₂)
    · exact absurd (hq₁.trans hq₂.symm) (hold r₁ hr₁)
    · exact h.values.unshared r₁ hr₁ r₂ hr₂ q' hq₁ hq₂

theorem Unset.setValue (h : f.Unset id) (value : Option Addr) (hne : f.resources.id r ≠ id) :
    { f with resources.value := update f.resources.value r value }.Unset id := by
  intro r' hr' hid
  have hid' : f.resources.id r' = id := hid
  change update f.resources.value r value r' = none
  rw [Function.update_of_ne fun hsame : r' = r ↦ hne (hsame ▸ hid')]
  exact h r' hr' hid'

end Files

/-! ### The condition on a step -/

/-- The actions of the runs: no fork and no shutdown, and no `OPEN_QUEUE` but that of `dmq_open`. -/
def Action.usesQueues : Action → Bool
  | .syscall .fork | .syscall .shutdown | .syscall (.openQueue ..) => false
  | _ => true

/-- The call is an `OPEN_QUEUE` of the resource `id`. -/
def Syscall.opensQueue (id : ℤ) : Syscall → Bool
  | .openQueue id' _ _ => id' = id
  | _ => false

namespace Kernel

variable {k k' : Kernel} {a : Action} {p : Addr} {fd id : ℤ}

/-- A system call that creates a resource gets a block without a value. -/
def CreatesCleanCall (k : Kernel) : Syscall → Prop
  | .openResource id _ mode => hasBit mode dsosCreate = true → k.resourceById id = some none →
    ∀ r ∈ k.resources.allocator.getBlock.1, k.resources.value r = none
  | _ => True

def CreatesClean (k : Kernel) (a : Action) : Prop := ∀ c ∈ k.request a, k.CreatesCleanCall c

/-- The step is one of the runs, and creates no resource with a value. -/
def OwnershipSafe (k : Kernel) (a : Action) : Prop := a.usesQueues = true ∧ k.CreatesClean a

/-- The step is not an `OPEN_QUEUE` of the resource `id`. -/
def LeavesUnopened (id : ℤ) (k : Kernel) (a : Action) : Prop :=
  ∀ c ∈ k.request a, c.opensQueue id = false

instance (k : Kernel) : ∀ c, Decidable (k.CreatesCleanCall c)
  | .openResource .. => inferInstanceAs (Decidable (_ → _ → ∀ r ∈ k.resources.allocator.getBlock.1, _))
  | .preempt | .fork | .wait .. | .exit _ | .spawn | .sleep _ | .closeResource _
  | .destroyResource _ | .shutdown | .sendMsg .. | .recvMsg .. | .wakeupQueue .. | .openQueue .. =>
    isTrue trivial

instance (k : Kernel) (a : Action) : Decidable (k.OwnershipSafe a) :=
  inferInstanceAs (Decidable (a.usesQueues = true ∧ ∀ c ∈ k.request a, k.CreatesCleanCall c))

theorem request_of_usesQueues (h : a.usesQueues = true) :
    k.request a ≠ some .shutdown ∧ k.request a ≠ some .fork ∧
      ∀ {p id fd mode next}, k.Calls p a (.openQueue id fd mode) next →
        k.pcbs.cpuState p = .openQueue id fd mode := by
  have hstatement : ∀ {context : Context} {c : Syscall} {next : Context},
      context.request = some (c, next) → c ≠ .shutdown ∧ c ≠ .fork ∧
        ∀ id fd mode, c = .openQueue id fd mode → context = .openQueue id fd mode := by
    intro context c next hrequest
    cases context <;> simp only [Context.request, Option.some.injEq, Prod.mk.injEq, reduceCtorEq]
      at hrequest <;> obtain ⟨rfl, -⟩ := hrequest
    case transferCall c _ => cases c with | mk op _ _ _ => cases op <;> simp [TransferCall.syscall]
    all_goals simp
  have hmakes : ∀ c, k.request a = some c → c ≠ .shutdown ∧ c ≠ .fork := by
    intro c hrequest
    cases a with
    | syscall c' =>
      simp only [request] at hrequest
      split_ifs at hrequest
      obtain rfl := Option.some.inj hrequest
      constructor
      · rintro rfl
        exact Bool.false_ne_true h
      · rintro rfl
        exact Bool.false_ne_true h
    | statement =>
      obtain ⟨⟨c', next⟩, hbind, rfl⟩ := Option.map_eq_some_iff.mp hrequest
      obtain ⟨context, -, hrequest'⟩ := Option.bind_eq_some_iff.mp hbind
      exact ⟨(hstatement hrequest').1, (hstatement hrequest').2.1⟩
    | start | timer | write _ _ | call _ => exact absurd hrequest (by simp [request])
  refine ⟨fun hrequest ↦ (hmakes _ hrequest).1 rfl, fun hrequest ↦ (hmakes _ hrequest).2 rfl, ?_⟩
  intro p id fd mode next hcalls
  cases hcalls with
  | user _ _ _ => exact absurd h Bool.false_ne_true
  | statement _ _ hrequest => exact (hstatement hrequest).2.2 _ _ _ rfl

/-! ### The invariant -/

/-- What holds at the points of `dmq_open`: once the resource is open, the process has a descriptor of
it. -/
def OpenPoint (k : Kernel) (p : Addr) : Context → Prop
  | .openResult id _ => (∃ mode, k.pcbs.syscall p = some (.openResource id 2 mode)) ∧
    (0 ≤ k.pcbs.syscallRetvalue p → k.files.HasOpen p (k.pcbs.syscallRetvalue p) id)
  | .openQueue id fd _ => k.files.HasOpen p fd id
  | _ => True

/-- The resources own their queues, and the processes in `dmq_open` have opened their resources. -/
structure OwnsQueues (k : Kernel) : Prop where
  owned : k.files.Owned k.queues.allocator
  opens : ∀ p, k.OpenPoint p (k.pcbs.cpuState p)
  noShutdown : k.NoShutdown

/-- The descriptors of a process that does not make a call stay. -/
theorem hasOpen_step (hok : k.files.Ok) (hopen : k.files.HasOpen p fd id)
    (hshutdown : k.request a ≠ some .shutdown) (hfork : k.request a ≠ some .fork)
    (hstep : k.step a = some k') (hquiet : ¬ (k.running = some p ∧ ∃ c next, k.Calls p a c next))
    (hcontext : k'.pcbs.cpuState p ≠ .user 0) : k'.files.HasOpen p fd id := by
  cases step_files hshutdown hstep with
  | same hfiles => exact hfiles ▸ hopen
  | newProcess p' _ hfiles _ hstart =>
    rw [hfiles]
    refine hopen.reset hok ?_
    rintro rfl
    exact hstart.elim hcontext hfork
  | call p' c next hp hcalls hkind hcall =>
    have hne : p ≠ p' := by
      rintro rfl
      exact hquiet ⟨hp, c, next, hcalls⟩
    have htrap : (k.trap p' next c).files.Ok := hok
    have hopen' : (k.trap p' next c).files.HasOpen p fd id := hopen
    cases c with
    | openResource id' type mode =>
      obtain ⟨p₁, hp₁, hopens⟩ := internalOpenResource_files htrap hcall
      cases hopens with
      | failed hfiles => exact hfiles ▸ hopen'
      | joined r d x pool ptrPool hfound _ hget hgetPtr hfiles =>
        rw [hfiles]
        exact hopen'.join htrap (resourceById_some htrap hfound).1 hget hgetPtr
      | created r resPool _ _ hnew hfiles =>
        rw [hfiles]
        exact hopen'.create htrap hnew
      | createdJoined r d x resPool pool ptrPool hnone _ hnew hget hgetPtr hfiles =>
        rw [hfiles]
        have hcreated := Files.Holds.create htrap id' type hnew fun r' hr' ↦
          resourceById_none htrap hnone hr'
        refine (hopen'.create htrap hnew).join hcreated.ok ?_ hget hgetPtr
        rw [hcreated.resourceNodes_eq]
        exact List.mem_append_right _ (List.mem_singleton_self r)
    | closeResource fd' =>
      obtain ⟨p₁, hp₁, ⟨-, hfiles, -⟩ | ⟨d, x, hfound, hptr, hfiles, -⟩⟩ :=
        internalCloseResource_files hcall
      · exact hfiles ▸ hopen'
      · obtain rfl := Option.some.inj (hp.symm.trans hp₁)
        rw [hfiles]
        exact hopen'.drop htrap hne (descriptorByFd_some htrap hfound).1 hptr
    | destroyResource id' =>
      obtain ⟨_, -, ⟨hfiles, -⟩ | ⟨r, hfound, hsize, hfiles, -⟩⟩ :=
        internalDestroyResource_files hcall
      · exact hfiles ▸ hopen'
      · rw [hfiles]
        exact hopen'
    | openQueue id' fd' mode =>
      obtain ⟨p₁, hp₁, hopens⟩ := internalOpenQueue_files hcall
      obtain rfl := Option.some.inj (hp.symm.trans hp₁)
      cases hopens with
      | joined r q _ _ hfiles | fresh r q pool _ _ _ hfiles | refused hfiles =>
        rw [hfiles]
        exact hopen'
      | closed d x hfound hptr hfiles | gaveUp r d x hfound hptr _ _ _ hfiles =>
        rw [hfiles]
        exact hopen'.drop htrap hne (descriptorByFd_some htrap hfound).1 hptr
    | exit value =>
      obtain ⟨hfields, -⟩ := internalExit_fields hcall
      obtain ⟨d, hd, hrest⟩ := hopen'
      refine ⟨d, ?_, ?_⟩
      · obtain hfiles | ⟨p₁, _, hp₁, hholds, -⟩ := internalExit_files htrap hcall
        · rwa [hfiles]
        · obtain rfl := Option.some.inj (hp.symm.trans hp₁)
          rwa [hholds.descriptorNodes_eq, Function.update_of_ne hne]
      · rw [hfields]
        exact hrest
    | _ => simp [Syscall.touchesFiles] at hkind

/-- The system call of `dmq_open` that succeeds leaves its process with a descriptor. -/
theorem Opens.hasOpen {mode : BitVec 32} (hok : k.files.Ok) (hopens : k.Opens p id 2 mode k')
    (hret : 0 ≤ k'.pcbs.syscallRetvalue p) :
    k'.files.HasOpen p (k'.pcbs.syscallRetvalue p) id := by
  cases hopens with
  | failed _ hfailed => exact absurd hret (not_le.mpr hfailed)
  | joined r d x pool ptrPool hfound htype hget hgetPtr hfiles hret' =>
    obtain ⟨hr, rfl⟩ := resourceById_some hok hfound
    rw [hfiles, hret']
    exact Files.HasOpen.of_join hok hr htype hget hgetPtr
  | created _ _ _ _ _ _ hfailed => exact absurd hret (not_le.mpr hfailed)
  | createdJoined r d x resPool pool ptrPool hnone _ hnew hget hgetPtr hfiles hret' =>
    have hcreated := Files.Holds.create hok id 2 hnew fun r' hr' ↦
      resourceById_none hok hnone hr'
    have hr : r ∈ (k.files.create r resPool id 2).resourceNodes := by
      rw [hcreated.resourceNodes_eq]
      exact List.mem_append_right _ (List.mem_singleton_self r)
    have hid : (k.files.create r resPool id 2).resources.id r = id := Function.update_self ..
    have htype : (k.files.create r resPool id 2).resources.type r = 2 := Function.update_self ..
    rw [hfiles, hret']
    have hopen := Files.HasOpen.of_join (p := p) hcreated.ok hr htype hget hgetPtr
    rwa [hid] at hopen

/-- The points of `dmq_open` after a step. -/
theorem openPoint_step (hok : k.files.Ok) (hopens : ∀ p, k.OpenPoint p (k.pcbs.cpuState p))
    (hnoShutdown : k.NoShutdown) (hqueues : a.usesQueues = true) (hstep : k.step a = some k')
    (p : Addr) : k'.OpenPoint p (k'.pcbs.cpuState p) := by
  obtain ⟨hshutdown, hfork, -⟩ := request_of_usesQueues (k := k) hqueues
  have hkeeps : ∀ {fd id : ℤ}, k.files.HasOpen p fd id →
      ¬ (k.running = some p ∧ ∃ c next, k.Calls p a c next) → k'.pcbs.cpuState p ≠ .user 0 →
      k'.files.HasOpen p fd id := fun hopen hquiet hcontext ↦
    hasOpen_step hok hopen hshutdown hfork hstep hquiet hcontext
  obtain ⟨hsame, hquiet⟩ | ⟨ret, hret⟩ | ⟨c, hentry⟩ | ⟨c, next, hnext, hp, hcalls, hcall⟩ |
    ⟨next, hnext, hp, haction, hstatement⟩ := (step_contexts hnoShutdown hshutdown hstep).at p
  · have hpoint := hopens p
    rw [hsame]
    cases hcontext : k.pcbs.cpuState p with
    | openResult id mode =>
      rw [hcontext] at hpoint hsame
      obtain ⟨⟨mode', hcall⟩, hopen⟩ := hpoint
      obtain ⟨hsyscall, hret⟩ | ⟨_, _, -, hwait⟩ | hcalls := step_retvalue hshutdown hstep p
      · refine ⟨⟨mode', hsyscall.trans hcall⟩, ?_⟩
        rw [hret]
        exact fun hfd ↦ hkeeps (hopen hfd) hquiet (by simp [hsame])
      · exact absurd (hcall.symm.trans hwait) (by simp)
      · exact absurd hcalls hquiet
    | openQueue id fd mode =>
      rw [hcontext] at hpoint hsame
      exact hkeeps hpoint hquiet (by simp [hsame])
    | _ => trivial
  · rw [hret]
    trivial
  · rw [hentry]
    cases c <;> trivial
  · rw [hnext]
    cases hcalls with
    | user _ _ _ => trivial
    | statement _ _ hrequest =>
      generalize k.pcbs.cpuState p = context at hrequest
      cases context with
      | openResource id mode =>
        simp only [Context.request, Option.some.injEq, Prod.mk.injEq] at hrequest
        obtain ⟨rfl, rfl⟩ := hrequest
        have htrap : (k.trap p (.openResult id mode) (.openResource id 2 (resourceFlags mode))).files.Ok
          := hok
        obtain ⟨p', hp', hopened⟩ := internalOpenResource_files htrap hcall
        obtain rfl := Option.some.inj (hp.symm.trans hp')
        refine ⟨⟨resourceFlags mode, ?_⟩, fun hret ↦ hopened.hasOpen htrap hret⟩
        rw [internalOpenResource_eq hcall]
        exact Function.update_self ..
      | _ =>
        simp only [Context.request, Option.some.injEq, Prod.mk.injEq, reduceCtorEq] at hrequest <;>
          obtain ⟨-, rfl⟩ := hrequest <;> trivial
  · rw [hnext]
    have hpoint := hopens p
    generalize hcontext : k.pcbs.cpuState p = context at hpoint hstatement
    cases hstatement with
    | openResult id mode hfd =>
      refine hkeeps (hpoint.2 hfd) ?_ (by simp [hnext])
      rintro ⟨-, c, next, hcalls⟩
      subst haction
      cases hcalls with
      | statement _ _ hrequest =>
        rw [hcontext] at hrequest
        simp [Context.request] at hrequest
    | _ => trivial

/-- The value that a resource gets is that of its own queue. -/
theorem OwnsQueues.owned_step (h : k.OwnsQueues) (hsafe : k.OwnershipSafe a)
    (hstep : k.step a = some k') : k'.files.Owned k'.queues.allocator := by
  obtain ⟨hshutdown, -, hopener⟩ := request_of_usesQueues (k := k) hsafe.1
  cases step_files hshutdown hstep with
  | same hfiles hpool =>
    rw [hfiles, hpool]
    exact h.owned
  | newProcess p _ hfiles hpool =>
    rw [hfiles, hpool]
    exact { h.owned with ok := (Files.Holds.reset h.owned.ok p).ok, values := { h.owned.values with } }
  | call p c next hp hcalls hkind hcall =>
    have htrap : (k.trap p next c).files.Owned (k.trap p next c).queues.allocator := h.owned
    have hclean : k.CreatesCleanCall c := hsafe.2 c (hcalls.request hp)
    cases c with
    | openResource id type mode =>
      have hpool : k'.queues.allocator = k.queues.allocator := by
        rw [internalOpenResource_eq hcall]
        rfl
      obtain ⟨_, _, hopens⟩ := internalOpenResource_files htrap.ok hcall
      have hok := hopens.ok htrap.ok
      rw [hpool]
      cases hopens with
      | failed hfiles => exact hfiles ▸ h.owned
      | joined r d x pool ptrPool _ _ _ _ hfiles =>
        rw [hfiles] at hok ⊢
        exact { h.owned with ok := hok, values := { h.owned.values with } }
      | created r resPool hnone hmode hnew hfiles =>
        rw [hfiles]
        exact htrap.create type hnew (fun r' hr' ↦ resourceById_none htrap.ok hnone hr')
          (hclean hmode hnone r (congrArg Prod.fst hnew))
      | createdJoined r d x resPool pool ptrPool hnone hmode hnew _ _ hfiles =>
        rw [hfiles] at hok ⊢
        have hcreated := htrap.create type hnew
          (fun r' hr' ↦ resourceById_none htrap.ok hnone hr')
          (hclean hmode hnone r (congrArg Prod.fst hnew))
        exact { hcreated with ok := hok, values := { hcreated.values with } }
    | closeResource fd =>
      have hpool : k'.queues.allocator = k.queues.allocator := by
        rw [internalCloseResource_eq hcall]
        rfl
      obtain ⟨_, -, ⟨-, hfiles, -⟩ | ⟨d, x, hfound, hptr, hfiles, -⟩⟩ :=
        internalCloseResource_files hcall
      · rw [hfiles, hpool]
        exact h.owned
      · have hok := (Files.Holds.drop htrap.ok (descriptorByFd_some htrap.ok hfound).1 hptr).ok
        rw [hfiles, hpool]
        exact { h.owned with ok := hok, values := { h.owned.values with } }
    | destroyResource id =>
      obtain ⟨_, -, ⟨hfiles, hpool, -⟩ | ⟨r, hfound, hsize, hfiles, hpool, -⟩⟩ :=
        internalDestroyResource_files hcall
      · rw [hfiles, hpool]
        exact h.owned
      · rw [hfiles]
        exact htrap.destroy (resourceById_some htrap.ok hfound).1
          (Files.Holds.unused htrap.ok hsize) hpool
    | openQueue id fd mode =>
      obtain ⟨p', hp', hopens⟩ := internalOpenQueue_files hcall
      obtain rfl := Option.some.inj (hp.symm.trans hp')
      cases hopens with
      | joined r q _ _ hfiles hpool =>
        rw [hfiles, hpool]
        exact { h.owned with
          ok := (Files.Holds.setRwn htrap.ok _).ok, values := { h.owned.values with } }
      | fresh r q pool hfound hvalue hget hfiles hpool =>
        -- the resource found is the one that the process has opened
        have hpoint := h.opens p
        rw [hopener hcalls] at hpoint
        obtain ⟨d, hd, -, hid, htype⟩ := hpoint
        have hmem := Files.Holds.resource_mem htrap.ok hd
        obtain ⟨hr, hid'⟩ := resourceById_some htrap.ok hfound
        obtain rfl := htrap.ok.ids r hr _ hmem (hid'.trans hid.symm)
        have hset := htrap.setValue htype hget
        rw [hfiles, hpool]
        exact { hset with
          ok := (Files.Holds.setRwn hset.ok _).ok, values := { hset.values with } }
      | refused hfiles hpool =>
        rw [hfiles, hpool]
        exact h.owned
      | closed d x hfound hptr hfiles hpool =>
        have hok := (Files.Holds.drop htrap.ok (descriptorByFd_some htrap.ok hfound).1 hptr).ok
        rw [hfiles, hpool]
        exact { h.owned with ok := hok, values := { h.owned.values with } }
      | gaveUp r d x hfound hptr hres hvalue hunused hfiles hpool =>
        have hdropped := Files.Holds.drop htrap.ok (descriptorByFd_some htrap.ok hfound).1 hptr
        have howned : ((k.trap p next (.openQueue id fd mode)).files.drop p d
            (k.descriptors.resource d) x).Owned k.queues.allocator :=
          { h.owned with ok := hdropped.ok, values := { h.owned.values with } }
        rw [hfiles]
        refine howned.destroy (resourceById_some htrap.ok hres).1 (Files.Holds.unused hdropped.ok hunused) ?_
        have hnone : (k.trap p next (.openQueue id fd mode)).files.resources.value r = none := hvalue
        simp only [Files.drop, hnone, ite_self, hpool]
        rfl
    | exit value =>
      obtain ⟨hfields, hpool⟩ := internalExit_fields hcall
      have hok : k'.files.Ok := filesOk_step h.owned.ok hshutdown hstep
      have hvalues : k'.files.ValuesOwned k.queues.allocator := by
        rw [hfields]
        exact { h.owned.values with }
      rw [hpool]
      exact ⟨hok, h.owned.pool, hvalues⟩
    | _ => simp [Syscall.touchesFiles] at hkind

theorem OwnsQueues.step (h : k.OwnsQueues) (hsafe : k.OwnershipSafe a) (hstep : k.step a = some k') :
    k'.OwnsQueues where
  owned := h.owned_step hsafe hstep
  opens := openPoint_step h.owned.ok h.opens h.noShutdown hsafe.1 hstep
  noShutdown := h.noShutdown.step (request_of_usesQueues hsafe.1).1 hstep

/-! ### A resource without a queue -/

/-- A resource without a value keeps none until its `OPEN_QUEUE`. -/
theorem unset_step (hunset : k.files.Unset id) (hok : k.files.Ok) (hsafe : k.OwnershipSafe a)
    (hleaves : LeavesUnopened id k a) (hstep : k.step a = some k') : k'.files.Unset id := by
  obtain ⟨hshutdown, -, -⟩ := request_of_usesQueues (k := k) hsafe.1
  cases step_files hshutdown hstep with
  | same hfiles => exact hfiles ▸ hunset
  | newProcess p _ hfiles =>
    rw [hfiles]
    exact hunset
  | call p c next hp hcalls hkind hcall =>
    have htrap : (k.trap p next c).files.Ok := hok
    have hunset' : (k.trap p next c).files.Unset id := hunset
    have hclean : k.CreatesCleanCall c := hsafe.2 c (hcalls.request hp)
    have hopens : c.opensQueue id = false := hleaves c (hcalls.request hp)
    cases c with
    | openResource id' type mode =>
      obtain ⟨_, _, hopens⟩ := internalOpenResource_files htrap hcall
      cases hopens with
      | failed hfiles | joined _ _ _ _ _ _ _ _ _ hfiles =>
        rw [hfiles]
        exact hunset
      | created r resPool hnone hmode hnew hfiles
      | createdJoined r _ _ resPool _ _ hnone hmode hnew _ _ hfiles =>
        rw [hfiles]
        exact hunset'.create htrap type hnew
          (fun r' hr' ↦ resourceById_none htrap hnone hr')
          (hclean hmode hnone r (congrArg Prod.fst hnew))
    | closeResource fd =>
      obtain ⟨_, -, ⟨-, hfiles, -⟩ | ⟨d, x, -, -, hfiles, -⟩⟩ := internalCloseResource_files hcall <;>
        rw [hfiles] <;> exact hunset
    | destroyResource id' =>
      obtain ⟨_, -, ⟨hfiles, -⟩ | ⟨r, hfound, hsize, hfiles, -⟩⟩ :=
        internalDestroyResource_files hcall
      · exact hfiles ▸ hunset
      · rw [hfiles]
        exact hunset'.destroy htrap (resourceById_some htrap hfound).1
          (Files.Holds.unused htrap hsize)
    | openQueue id' fd mode =>
      obtain ⟨p', hp', hopens'⟩ := internalOpenQueue_files hcall
      obtain rfl := Option.some.inj (hp.symm.trans hp')
      cases hopens' with
      | joined _ _ _ _ hfiles | refused hfiles | closed _ _ _ _ hfiles =>
        rw [hfiles]
        exact hunset
      | fresh r q pool hfound _ _ hfiles =>
        have hid : k.resources.id r = id' := (resourceById_some htrap hfound).2
        have hne : k.resources.id r ≠ id := by
          rw [hid]
          simpa [Syscall.opensQueue] using hopens
        rw [hfiles]
        exact hunset'.setValue (some q) hne
      | gaveUp r d x hfound hptr hres _ hunused hfiles =>
        have hdropped := Files.Holds.drop htrap (descriptorByFd_some htrap hfound).1 hptr
        have hunset'' : ((k.trap p next (.openQueue id' fd mode)).files.drop p d
            (k.descriptors.resource d) x).Unset id := hunset
        rw [hfiles]
        exact hunset''.destroy hdropped.ok (resourceById_some htrap hres).1
          (Files.Holds.unused hdropped.ok hunused)
    | exit value =>
      rw [(internalExit_fields hcall).1]
      exact hunset
    | _ => simp [Syscall.touchesFiles] at hkind

/-! ### A fresh queue -/

/-- The user list of a role is empty or has one entry, of the process `pid`. -/
def OnlyUser (k : Kernel) (q : Addr) (pid : ℤ) (role : Role) : Prop :=
  k.queues.users (q, role) = Head.empty ∨
    ∃ qu, k.queues.users (q, role) = ⟨some qu, some qu, 1⟩ ∧ k.queueUsers.pid qu = pid

theorem OnlyUser.pid_eq {q : Addr} {pid : ℤ} {role : Role} (h : k.OnlyUser q pid role) :
    ∀ qu ∈ (k.queues.users (q, role)).toList k.queueUsers.list, k.queueUsers.pid qu = pid := by
  intro qu hqu
  obtain hempty | ⟨qu', hone, hpid⟩ := h
  · rw [hempty] at hqu
    exact absurd hqu List.not_mem_nil
  · rw [hone] at hqu
    obtain rfl : qu = qu' := List.mem_singleton.mp hqu
    exact hpid

/-- A part of `Queue_add_pid` that succeeds puts one user into an empty list. -/
theorem queueAddRole_onlyUser {q : Addr} {pid : ℤ} {mode : BitVec 32} {ds : Option Addr} {role : Role}
    (hadd : k.queueAddRole q pid mode ds role = some (true, k'))
    (hempty : k.queues.users (q, role) = Head.empty) :
    k'.OnlyUser q pid role ∧ ∀ other ≠ role,
      k'.queues.users (q, other) = k.queues.users (q, other) ∧
        (k.OnlyUser q pid other → k'.OnlyUser q pid other) := by
  unfold queueAddRole at hadd
  split_ifs at hadd with hmode
  · obtain ⟨ds, -, hrest⟩ := Option.bind_eq_some_iff.mp hadd
    rcases hget : k.queueUsers.allocator.getBlock with ⟨_ | qu, pool⟩
    · simp [queueUserAlloc, hget] at hrest
    · simp only [queueUserAlloc, hget, Option.some.injEq, Prod.mk.injEq, hempty] at hrest
      obtain ⟨hadded, rfl⟩ := hrest
      have hlinks : ((k.queueUsers.list qu).next.isSome || (k.queueUsers.list qu).prev.isSome) =
          false := by
        by_contra hlinked
        rw [Bool.not_eq_false] at hlinked
        simp [listInsert, Head.empty, hlinked] at hadded
      refine ⟨Or.inr ⟨qu, ?_, Function.update_self ..⟩, fun other hother ↦ ⟨?_, ?_⟩⟩
      · simp [insertUser, listInsert, hempty, hlinks, Head.empty]
      · have hne : (q, other) ≠ (q, role) := fun hsame ↦ hother (Prod.mk.inj hsame).2
        exact Function.update_of_ne hne _ _
      · have hne : (q, other) ≠ (q, role) := fun hsame ↦ hother (Prod.mk.inj hsame).2
        rintro (hother' | ⟨qu', hother', hpid⟩)
        · exact Or.inl ((Function.update_of_ne hne _ _).trans hother')
        · refine Or.inr ⟨qu', (Function.update_of_ne hne _ _).trans hother', ?_⟩
          change update k.queueUsers.pid qu pid qu' = pid
          rw [Function.update_apply]
          split_ifs
          · rfl
          · exact hpid
  · obtain rfl := (Prod.mk.inj (Option.some.inj hadd)).2
    exact ⟨Or.inl hempty, fun _ _ ↦ ⟨rfl, id⟩⟩

/-- A process that joins a queue without users is its only one. -/
theorem queueAddPid_onlyUser {q : Addr} {pid : ℤ} {mode : BitVec 32} {ds : Option Addr}
    (hadd : k.queueAddPid q pid mode ds = some (0, k'))
    (hempty : ∀ role, k.queues.users (q, role) = Head.empty) :
    (∀ role, k'.OnlyUser q pid role) ∧ k'.queues.openings q = k.queues.openings q + 1 := by
  obtain ⟨⟨added₁, k₁⟩, h₁, hrest⟩ := Option.bind_eq_some_iff.mp hadd
  cases added₁ with
  | false => exact absurd (Prod.mk.inj (Option.some.inj hrest)).1 (by decide)
  | true =>
  obtain ⟨⟨added₂, k₂⟩, h₂, hrest⟩ := Option.bind_eq_some_iff.mp hrest
  cases added₂ with
  | false => exact absurd (Prod.mk.inj (Option.some.inj hrest)).1 (by decide)
  | true =>
  obtain ⟨⟨added₃, k₃⟩, h₃, hrest⟩ := Option.bind_eq_some_iff.mp hrest
  cases added₃ with
  | false => exact absurd (Prod.mk.inj (Option.some.inj hrest)).1 (by decide)
  | true =>
  obtain ⟨-, rfl⟩ := Prod.mk.inj (Option.some.inj hrest)
  obtain ⟨hreader, hkeep₁⟩ := queueAddRole_onlyUser h₁ (hempty .reader)
  obtain ⟨hwriter, hkeep₂⟩ := queueAddRole_onlyUser h₂
    ((hkeep₁ .writer (by decide)).1.trans (hempty .writer))
  obtain ⟨hnonBlock, hkeep₃⟩ := queueAddRole_onlyUser h₃ (((hkeep₂ .nonBlock (by decide)).1.trans
    (hkeep₁ .nonBlock (by decide)).1).trans (hempty .nonBlock))
  constructor
  · intro role
    cases role with
    | reader =>
      exact (hkeep₃ .reader (by decide)).2 ((hkeep₂ .reader (by decide)).2 hreader)
    | writer => exact (hkeep₃ .writer (by decide)).2 hwriter
    | nonBlock => exact hnonBlock
  · have hopenings : k₃.queues.openings = k.queues.openings := by
      rw [queueAddRole_eq h₃, queueAddRole_eq h₂, queueAddRole_eq h₁]
    change update k₃.queues.openings q (k₃.queues.openings q + 1) q = k.queues.openings q + 1
    rw [Function.update_self, hopenings]

/-- Process `p` has got a fresh queue for the resource `id`: no messages, the default attributes, no
users besides `p`, and no other resource with this queue. -/
structure FreshQueue (k : Kernel) (p r q : Addr) (id : ℤ) : Prop where
  listed : r ∈ k.files.resourceNodes
  id_eq : k.resources.id r = id
  value : k.resources.value r = some q
  messages : k.queues.messages q = Head.empty
  maxMessages : k.queues.maxMessages q = maxNumMessagesPerQueue
  msgSize : k.queues.msgSize q = maxMessageSize
  openings : k.queues.openings q = 1
  users : ∀ role, ∀ qu ∈ (k.queues.users (q, role)).toList k.queueUsers.list,
    k.queueUsers.pid qu = k.pcbs.pid p
  unshared : ∀ r' ∈ k.files.resourceNodes, k.resources.value r' = some q → r' = r

/-- The `OPEN_QUEUE` that succeeds on a resource without a queue. -/
theorem OpensQueue.freshQueue {p : Addr} {mode : BitVec 32} (hok : k.files.Ok)
    (hunset : k.files.Unset id) (hopen : k.files.HasOpen p fd id)
    (howned : k'.files.ValuesOwned k'.queues.allocator) (hopens : k.OpensQueue p id fd mode k')
    (hret : 0 ≤ k'.pcbs.syscallRetvalue p) : ∃ r q, k'.FreshQueue p r q id := by
  cases hopens with
  | joined r q hfound hvalue =>
    obtain ⟨hr, hid⟩ := resourceById_some hok hfound
    exact absurd ((hunset r hr hid).symm.trans hvalue) (by simp)
  | refused _ _ hfailed | closed _ _ _ _ _ _ hfailed | gaveUp _ _ _ _ _ _ _ _ _ _ hfailed =>
    exact absurd hret (not_le.mpr hfailed)
  | fresh r q pool hfound hvalue hget hfiles _ k₁ halloc hjoin =>
    obtain ⟨hr, hid⟩ := resourceById_some hok hfound
    obtain ⟨d, hd, -, hid', htype⟩ := hopen
    obtain rfl := hok.ids r hr _ (Files.Holds.resource_mem hok hd) (hid.trans hid'.symm)
    have hframe := joinQueue_eq hjoin
    simp only [queueAlloc, hget, Prod.mk.injEq, true_and] at halloc
    obtain rfl := halloc
    refine ⟨k.descriptors.resource d, q, ?_⟩
    have hlisted : k.descriptors.resource d ∈ k'.files.resourceNodes := by
      rw [hfiles]
      exact hr
    have hset : k'.resources.value (k.descriptors.resource d) = some q := by
      rw [hframe]
      exact Function.update_self ..
    obtain ⟨htype', -⟩ | ⟨-, ds, err, k₂, -, hadd, rfl⟩ := joinQueue_cases hjoin
    · exact absurd htype htype'
    have herr : err = 0 := by
      by_contra hne
      change 0 ≤ update k₂.pcbs.syscallRetvalue p (if err ≠ 0 then listInsertionError else fd) p
        at hret
      rw [Function.update_self, if_pos hne] at hret
      exact absurd hret (by decide)
    subst herr
    obtain ⟨husers, hopenings⟩ := queueAddPid_onlyUser hadd fun role ↦ by
      cases role <;> simp [listInit]
    have hjoined := queueAddPid_eq hadd
    have hzero : update k.queues.openings q 0 q + 1 = 1 := by
      rw [Function.update_self, zero_add]
    exact
      { listed := hlisted
        id_eq := by rw [hjoined]; exact hid
        value := hset
        messages := by rw [hjoined]; exact Function.update_self ..
        maxMessages := by rw [hjoined]; exact Function.update_self ..
        msgSize := by rw [hjoined]; exact Function.update_self ..
        openings := hopenings.trans hzero
        users := fun role qu hqu ↦ ((husers role).pid_eq qu hqu).trans (by rw [hjoined]; rfl)
        unshared := fun r' hr' hq ↦ howned.unshared r' hr' _ hlisted q hq hset }

/-- From this state on, a `dmq_open` that creates its resource yields a fresh queue, if the steps on
the way meet the condition and no other `OPEN_QUEUE` of the id comes before its own. -/
def CreatesFresh (k : Kernel) : Prop :=
  ∀ p id mode, k.running = some p → k.pcbs.cpuState p = .openResource id mode →
    k.resourceById id = some none →
      ∀ rest k₁ k₂ fd mode',
        Runs.Meets Kernel.step (fun k a ↦ k.OwnershipSafe a ∧ LeavesUnopened id k a) k
            (.statement :: rest) →
          Runs.run Kernel.step k (.statement :: rest) = some k₁ → k₁.running = some p →
            k₁.pcbs.cpuState p = .openQueue id fd mode' → k₁.step .statement = some k₂ →
              0 ≤ k₂.pcbs.syscallRetvalue p → ∃ r q, k₂.FreshQueue p r q id

theorem OwnsQueues.createsFresh (h : k.OwnsQueues) : k.CreatesFresh := by
  intro p id mode hp hcontext hnone rest k₁ k₂ fd mode' hmeets hrun hp₁ hcontext₁ hstep hret
  have hkeeps : ∀ k a k', Kernel.OwnsQueues k ∧ k.files.Unset id →
      k.OwnershipSafe a ∧ LeavesUnopened id k a → k.step a = some k' →
        k'.OwnsQueues ∧ k'.files.Unset id := by
    intro k a k' hinv hok hstep
    exact ⟨hinv.1.step hok.1 hstep, unset_step hinv.2 hinv.1.owned.ok hok.1 hok.2 hstep⟩
  have hstart : k.files.Unset id := fun r hr hid ↦ absurd hid (resourceById_none h.owned.ok hnone hr)
  obtain ⟨hinv, hunset⟩ := Runs.run_invariant hkeeps ⟨h, hstart⟩ hmeets hrun
  have hopen := hinv.opens p
  rw [hcontext₁] at hopen
  have hrequest : k₁.request .statement = some (.openQueue id fd mode') := by
    simp [request, context, hp₁, hcontext₁, Context.request]
  obtain ⟨next, hcalls, hcall⟩ := step_syscall hp₁ hrequest hstep
  have hclean : k₁.OwnershipSafe .statement := by
    refine ⟨rfl, fun c hc ↦ ?_⟩
    obtain rfl := Option.some.inj (hrequest.symm.trans hc)
    trivial
  have howned := (hinv.step hclean hstep).owned.values
  obtain ⟨p', hp', hopens⟩ := internalOpenQueue_files hcall
  obtain rfl := Option.some.inj (hp₁.symm.trans hp')
  have hok : (k₁.trap p next (.openQueue id fd mode')).files.Ok := hinv.owned.ok
  have hunset' : (k₁.trap p next (.openQueue id fd mode')).files.Unset id := hunset
  have hopen' : (k₁.trap p next (.openQueue id fd mode')).files.HasOpen p fd id := hopen
  exact hopens.freshQueue hok hunset' hopen' howned hret

end Kernel

/-! ### Whole runs -/

theorem Layout.boot_ownsQueues (layout : Layout) : layout.boot.OwnsQueues := by
  have hqueues := freshPool_ok (by decide : 1 ≤ sizeofQueue) (by decide : 1 ≤ maxNumQueues)
    (by decide) layout.queuesBuffer
  have hvalues : layout.boot.files.ValuesOwned layout.boot.queues.allocator :=
    ⟨fun _ _ _ hvalue ↦ absurd hvalue (by simp [Kernel.files, boot]),
      fun _ _ _ _ _ hvalue ↦ absurd hvalue (by simp [Kernel.files, boot])⟩
  exact
    { owned := ⟨layout.boot_filesOk, hqueues.1, hvalues⟩
      opens := fun _ ↦ trivial
      noShutdown := fun _ ↦ by simp [boot] }

/-- In every run in which no resource is created with a value, the resources own their queues, and a
`dmq_open` that creates a resource yields a fresh queue. -/
theorem valuesOwned_of_clean (layout : Layout) {actions : List Action} {k : Kernel}
    (hclean : Runs.Meets Kernel.step Kernel.OwnershipSafe layout.boot actions)
    (hrun : Runs.run Kernel.step layout.boot actions = some k) :
    k.files.ValuesOwned k.queues.allocator ∧ k.CreatesFresh := by
  have hkeeps : ∀ k a k', Kernel.OwnsQueues k → k.OwnershipSafe a → k.step a = some k' →
      k'.OwnsQueues := by
    intro k a k' hinv hok hstep
    exact hinv.step hok hstep
  have howns := Runs.run_invariant hkeeps layout.boot_ownsQueues hclean hrun
  exact ⟨howns.owned.values, howns.createsFresh⟩

/-- The first process opens queues 0 and 1. -/
def twoOpens : List Action :=
  .start :: ([0, 1].map fun id ↦ .call (.openQueue id 0o13) :: List.replicate 4 .statement).flatten

theorem valuesOwned_of_clean_twoOpens : ∃ k,
    Runs.run Kernel.step sampleLayout.boot twoOpens = some k ∧
      k.files.ValuesOwned k.queues.allocator ∧ k.CreatesFresh ∧
      k.files.resourceNodes.map k.resources.value = [some 0x1900000, some 0x1900070] := by
  have hends : (Runs.run Kernel.step sampleLayout.boot twoOpens).map
      (fun k ↦ k.files.resourceNodes.map k.resources.value) =
        some [some 0x1900000, some 0x1900070] := by decide +kernel
  obtain ⟨k, hk, hvalues⟩ := Option.map_eq_some_iff.mp hends
  obtain ⟨howned, hfresh⟩ := valuesOwned_of_clean sampleLayout (by decide +kernel) hk
  exact ⟨k, hk, howned, hfresh, hvalues⟩

/-- The first process opens queue 0, closes and unlinks it, and opens queues 1 and 2. -/
def recycledResource : List Action :=
  [.start, .call (.openQueue 0 0o13)] ++ List.replicate 4 .statement ++
    .call (.close 0) :: List.replicate 9 .statement ++
    .call (.unlink 0) :: List.replicate 2 .statement ++
    ([1, 2].map fun id ↦ .call (.openQueue id 0o13) :: List.replicate 4 .statement).flatten

/-- The resource of queue 1 is in the block of the one that was unlinked, and has its queue, which is
free and becomes the queue of the third resource too. -/
theorem recycledResource_not_valuesOwned : ∃ k,
    Runs.run Kernel.step sampleLayout.boot recycledResource = some k ∧
      (∀ a ∈ recycledResource, a.usesQueues = true) ∧
      ¬ k.files.ValuesOwned k.queues.allocator := by
  have hends : (Runs.run Kernel.step sampleLayout.boot recycledResource).map
      (fun k ↦ (k.files.resourceNodes, k.files.resourceNodes.map k.resources.value)) =
        some ([0x1800000, 0x1800038], [some 0x1900000, some 0x1900000]) := by decide +kernel
  obtain ⟨k, hk, hpair⟩ := Option.map_eq_some_iff.mp hends
  obtain ⟨hnodes, hvalues⟩ := Prod.mk.inj hpair
  refine ⟨k, hk, by decide, fun howned ↦ ?_⟩
  rw [hnodes] at hvalues
  simp only [List.map_cons, List.map_nil, List.cons.injEq, and_true] at hvalues
  have hsame := howned.unshared 0x1800000 (by simp [hnodes]) 0x1800038 (by simp [hnodes]) _
    hvalues.1 hvalues.2
  exact absurd hsame (by decide)

end DisastrOS
