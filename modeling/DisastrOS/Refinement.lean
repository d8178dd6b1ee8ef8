import DisastrOS.FailedOpens
import DisastrOS.HandleTable

/-!
# The kernel refines the abstract models

In every run without a shutdown each step does to the descriptors and the resources what
`ResourceTable.Step` says, and the system calls return what the table says (`resources_refine_table`);
so the lists, the pointers and the pools can be forgotten. What the table keeps is then said of the
kernel: a descriptor lasts (`descriptor_lasts`), its number is not used again
(`descriptor_notReused`), and a resource is created exclusively by one process only
(`exclusive_until_removed`).

In every run in which no process waits for a queue or is woken from one, each step is one of `Processes.Step`
(`processes_refine_model`).
-/

set_option autoImplicit false
set_option relaxedAutoImplicit false

namespace DisastrOS

open LinkedLists PoolAllocator HandleTables
open Function (update)

namespace Kernel

variable {k k' : Kernel} {a : Action} {p : Addr} {c : Syscall} {id fd : ℤ} {mode : BitVec 32}

/-! ### Events -/

/-- What a step is to the table: a new process, a system call that concerns resources with its result, or
nothing. -/
def fileEvent (k : Kernel) (a : Action) (k' : Kernel) : FileEvent :=
  if a = .start ∨ k.request a = some .fork ∨ k.request a = some .spawn then
    match k.pcbs.allocator.getBlock.1 with
    | some p => .creates p
    | none => .quiet
  else
    match k.running, k.request a with
    | some p, some c => if c.touchesFiles then .call p c (k'.pcbs.syscallRetvalue p) else .quiet
    | _, _ => .quiet

/-- The other calls leave the descriptors and the resources alone. -/
theorem syscallVector_files (hquiet : c.touchesFiles = false)
    (hc : c ≠ .fork ∧ c ≠ .spawn ∧ c ≠ .shutdown) (hcall : syscallVector c k = some k') :
    k'.files = k.files := by
  cases c with
  | preempt => rw [internalSchedule_eq hcall]; rfl
  | fork => exact absurd rfl hc.1
  | spawn => exact absurd rfl hc.2.1
  | shutdown => exact absurd rfl hc.2.2
  | wait pid result =>
    obtain ⟨p', -, ⟨-, rfl⟩ | ⟨_, -, -, ⟨x, -, -, rfl⟩ | ⟨-, ⟨-, rfl⟩ | ⟨-, -, rfl⟩⟩⟩⟩ :=
      internalWait_cases hcall <;> simp
  | sleep cycles =>
    obtain ⟨p', -, rfl | ⟨t, k₁, hadd, rfl⟩⟩ := internalSleep_cases hcall
    · rfl
    · have hfiles : k₁.files = k.files := by rw [timerListAdd_eq hadd]; rfl
      simpa using hfiles
  | sendMsg msg fd =>
    obtain ⟨_, _, _, -, -, -, ⟨-, haccept⟩ | ⟨-, hwait⟩⟩ := internalSendMessage_cases hcall
    · rw [acceptMessage_eq haccept]; rfl
    · exact files_waitForQueue hwait
  | recvMsg msg fd =>
    obtain ⟨_, _, -, -, ⟨-, rfl⟩ | ⟨_, _, -, -, ⟨_, k₁, hpop, hdeliver⟩ | ⟨k₁, hpop, hwait⟩⟩⟩ :=
      internalRecvMessage_cases hcall
    · rfl
    · have hframe := deliverMessage_eq hdeliver
      rw [← (Prod.mk.inj hpop).2] at hframe
      rw [hframe]; rfl
    · obtain ⟨-, rfl⟩ := popMessage_eq_none hpop
      exact files_waitForQueue hwait
  | wakeupQueue check q users =>
    obtain ⟨_, -, ⟨_, _, -, -, rfl⟩ | ⟨-, rfl⟩⟩ := internalWakeUpQueue_cases hcall <;> simp
  | openResource | closeResource | destroyResource | openQueue | exit =>
    exact absurd hquiet.symm Bool.false_ne_true

theorem fileEvent_create (hcreates : a = .start ∨ k.request a = some .fork ∨ k.request a = some .spawn)
    (hfresh : k.pcbs.allocator.getBlock.1 = some p) (k' : Kernel) : k.fileEvent a k' = .creates p := by
  rw [fileEvent, if_pos hcreates, hfresh]

theorem fileEvent_none (hstart : a ≠ .start) (hrequest : k.request a = none) (k' : Kernel) :
    k.fileEvent a k' = .quiet := by
  have hquiet : ¬ (a = .start ∨ k.request a = some .fork ∨ k.request a = some .spawn) := by
    simp [hstart, hrequest]
  rw [fileEvent, if_neg hquiet, hrequest]
  cases k.running <;> rfl

theorem fileEvent_call (hp : k.running = some p) (hrequest : k.request a = some c)
    (hc : c ≠ .fork ∧ c ≠ .spawn) (k' : Kernel) :
    k.fileEvent a k' = if c.touchesFiles then .call p c (k'.pcbs.syscallRetvalue p) else .quiet := by
  have hstart : a ≠ .start := by
    rintro rfl
    simp [request] at hrequest
  have hquiet : ¬ (a = .start ∨ k.request a = some .fork ∨ k.request a = some .spawn) := by
    simp [hstart, hrequest, hc.1, hc.2]
  rw [fileEvent, if_neg hquiet, hp, hrequest]

/-! ### Steps -/

/-- A call that answers as the table says is a step of the table. -/
theorem step_of_answer {t : ResourceTable} {result : ℤ × ResourceTable}
    (hanswer : k'.answer p = result)
    (hstep : ResourceTable.Step t (.call p c result.1) result.2) :
    ResourceTable.Step t (.call p c (k'.pcbs.syscallRetvalue p)) k'.files.table := by
  subst hanswer
  exact hstep

theorem joinQueue_table {r q : Addr} (hjoin : k.joinQueue p r q fd mode = some k') :
    k'.files.table = k.files.table := by
  rw [joinQueue_eq hjoin]
  rfl

theorem internalOpenQueue_table (hok : k.files.Ok) (hp : k.running = some p)
    (hopen : internalOpenQueue id fd mode k = some k') :
    ResourceTable.Step k.files.table (.call p (.openQueue id fd mode) (k'.pcbs.syscallRetvalue p))
      k'.files.table := by
  obtain ⟨p', r, hp', -, ⟨q, -, hjoin⟩ | ⟨-, ⟨q, k₁, halloc, hjoin⟩ | ⟨-, hgive⟩⟩⟩ :=
    internalOpenQueue_cases hopen
  · obtain rfl := Option.some.inj (hp.symm.trans hp')
    rw [joinQueue_table hjoin]
    exact .openQueue ..
  · obtain rfl := Option.some.inj (hp.symm.trans hp')
    rcases hget : k.queues.allocator.getBlock with ⟨_ | q', pool⟩
    · simp [queueAlloc, hget] at halloc
    · simp only [queueAlloc, hget, Prod.mk.injEq, Option.some.injEq] at halloc
      obtain ⟨rfl, rfl⟩ := halloc
      rw [joinQueue_table hjoin]
      exact .openQueue ..
  · obtain rfl := Option.some.inj (hp.symm.trans hp')
    exact step_of_answer (giveUpResource_answer hok hp hgive) (.giveUp ..)

/-- An exit closes no descriptor of the process, or all. -/
theorem internalExit_table (hok : k.files.Ok) (hp : k.running = some p) {value : ℤ}
    (hexit : internalExit value k = some k') (ret : ℤ) :
    ResourceTable.Step k.files.table (.call p (.exit value) ret) k'.files.table := by
  obtain hfiles | ⟨p', ptrs, hp', hholds, -⟩ := internalExit_files hok hexit
  · rw [hfiles]
    exact .exit ..
  · obtain rfl := Option.some.inj (hp.symm.trans hp')
    obtain ⟨numbers, hdrops⟩ : ∃ numbers : List ℤ,
        k.files.table.Does (numbers.map (.drop p)) k'.files.table := by
      refine internalExit_induct (P := fun f ↦ ∃ numbers : List ℤ,
        k.files.table.Does (numbers.map (.drop p)) f.table) hok hexit ⟨[], .nil _⟩ ?_
      rintro f p' d x hf ⟨numbers, hdrops⟩ hd hptr hp'
      obtain rfl := Option.some.inj (hp.symm.trans hp')
      refine ⟨numbers ++ [f.descriptors.fd d], ?_⟩
      rw [Files.Holds.table_drop hf hd hptr, List.map_append]
      exact hdrops.append (Table.does_one (o := .drop p (f.descriptors.fd d)) trivial)
    refine .exitToParent p value ret numbers _ hdrops fun fd ↦ ?_
    refine hholds.tells.noDescriptor p fd fun d hd ↦ ?_
    rw [Function.update_self] at hd
    exact absurd hd List.not_mem_nil

/-- Every step is one of the table. -/
theorem step_table (hok : k.files.Ok) (hshutdown : k.request a ≠ some .shutdown)
    (hstep : k.step a = some k') :
    ResourceTable.Step k.files.table (k.fileEvent a k') k'.files.table := by
  have hcreates : ∀ {k₁ : Kernel} {child : Addr},
      (a = .start ∨ k.request a = some .fork ∨ k.request a = some .spawn) →
      k.pcbs.allocator.getBlock.1 = some child → k₁.files = k.files.reset child →
      ResourceTable.Step k.files.table (k.fileEvent a k₁) k₁.files.table := by
    intro k₁ child hcreates hfresh hfiles
    rw [fileEvent_create hcreates hfresh, hfiles, Files.Holds.table_reset hok]
    exact .create child
  have hnothing : a ≠ .start → k.request a = none → k'.files = k.files →
      ResourceTable.Step k.files.table (k.fileEvent a k') k'.files.table := by
    intro hstart hrequest hfiles
    rw [fileEvent_none hstart hrequest, hfiles]
    exact .quiet
  obtain ⟨rfl, hstart⟩ | ⟨rfl, htimer⟩ | ⟨x, byte, rfl, -, rfl⟩ | ⟨c, p, ret, rfl, -, -, rfl⟩ |
    ⟨c, p, next, hp, hcalls, hcall⟩ | ⟨p, rfl, hp, hrequest, hrun⟩ := step_cases hstep
  · obtain ⟨-, p, pool, hget, rfl⟩ := startProcess_cases hstart
    exact hcreates (Or.inl rfl) (by rw [hget]) rfl
  · obtain ⟨p, hp, hschedule⟩ := Option.bind_eq_some_iff.mp htimer
    refine hnothing (by simp) rfl ?_
    rw [internalSchedule_eq hschedule]
    rfl
  · exact hnothing (by simp) rfl rfl
  · exact hnothing (by simp) rfl rfl
  · have hrequest := hcalls.request hp
    have hok' : (k.trap p next c).files.Ok := hok
    by_cases hc : c = .fork ∨ c = .spawn
    · obtain ⟨child, hfresh, hfiles⟩ : ∃ child, k.pcbs.allocator.getBlock.1 = some child ∧
          k'.files = k.files.reset child := by
        obtain rfl | rfl := hc
        all_goals
          obtain ⟨⟨child, k₁⟩, hnew, hk'⟩ := Option.bind_eq_some_iff.mp hcall
          obtain ⟨_, pool, _, _, -, hget, -, -, rfl⟩ := newProcess_cases hnew
          rw [← Option.some.inj hk']
          have hget' : k.pcbs.allocator.getBlock = (some child, pool) := hget
          exact ⟨child, by rw [hget'], rfl⟩
      refine hcreates (Or.inr ?_) hfresh hfiles
      exact hc.imp (fun hc ↦ hrequest.trans (congrArg some hc)) fun hc ↦
        hrequest.trans (congrArg some hc)
    · rw [fileEvent_call hp hrequest (not_or.mp hc)]
      cases htouches : c.touchesFiles with
      | false =>
        have hfiles := syscallVector_files htouches ⟨(not_or.mp hc).1, (not_or.mp hc).2, fun h ↦
          hshutdown (h ▸ hrequest)⟩ hcall
        rw [hfiles]
        exact .quiet
      | true =>
        rw [if_pos rfl]
        cases c with
        | openResource id type mode =>
          exact step_of_answer (internalOpenResource_answer hok' hp hcall) (.openResource ..)
        | closeResource fd =>
          exact step_of_answer (internalCloseResource_answer hok' hp hcall) (.closeResource ..)
        | destroyResource id =>
          exact step_of_answer (internalDestroyResource_answer hok' hp hcall) (.destroyResource ..)
        | openQueue id fd mode => exact internalOpenQueue_table (k := k.trap p next _) hok' hp hcall
        | exit value => exact internalExit_table (k := k.trap p next _) hok' hp hcall _
        | preempt | fork | wait | spawn | sleep | shutdown | sendMsg | recvMsg | wakeupQueue =>
          exact absurd htouches Bool.false_ne_true
  · refine hnothing (by simp) (by simp [request, Kernel.context, hp, hrequest]) ?_
    rw [runStatement_eq hrun]
    rfl

/-! ### Calls, of the user code and of the queue functions -/

theorem step_openResource {type : ℤ} (hok : k.files.Ok) (hp : k.running = some p)
    (hrequest : k.request a = some (.openResource id type mode)) (hstep : k.step a = some k') :
    k'.answer p = ResourceTable.openCall k.files.table p id type mode := by
  obtain ⟨next, -, hcall⟩ := step_syscall hp hrequest hstep
  exact internalOpenResource_answer (k := k.trap p next (.openResource id type mode)) hok hp hcall

theorem step_closeResource (hok : k.files.Ok) (hp : k.running = some p)
    (hrequest : k.request a = some (.closeResource fd)) (hstep : k.step a = some k') :
    k'.answer p = ResourceTable.closeCall k.files.table p fd := by
  obtain ⟨next, -, hcall⟩ := step_syscall hp hrequest hstep
  exact internalCloseResource_answer (k := k.trap p next (.closeResource fd)) hok hp hcall

/-! ### Runs -/

/-- The table is in order and says what the lists say. -/
structure Tabulates (k : Kernel) (t : ResourceTable) : Prop where
  ok : k.files.Ok
  sound : t.Sound
  same : k.files.table = t

theorem Tabulates.step {t : ResourceTable} (h : k.Tabulates t) (hcalls : k.CallsNoShutdown a)
    (hstep : k.step a = some k') :
    ∃ t', t.Step (k.fileEvent a k') t' ∧ k'.Tabulates t' := by
  have htable := step_table h.ok hcalls hstep
  rw [h.same] at htable
  exact ⟨_, htable, filesOk_step h.ok hcalls hstep, htable.sound h.sound, rfl⟩

/-- The action is no call that waits for a queue, wakes a process from one or shuts down. -/
def CallsNoUsers (k : Kernel) (a : Action) : Prop := ∀ c ∈ k.request a, c.concernsUsers = false

instance (k : Kernel) (a : Action) : Decidable (k.CallsNoUsers a) :=
  inferInstanceAs (Decidable (∀ c ∈ k.request a, _))

/-- The processes are in order and are what the lists show. -/
structure ShowsProcesses (k : Kernel) (v : Processes) : Prop where
  noShutdown : k.NoShutdown
  shows_ : k.Shows v
  consistent : v.Consistent

theorem Shows.pcbPool {v : Processes} (h : k.Shows v) : k.pcbs.allocator.Ok := by
  obtain ⟨s, hlists⟩ := h
  exact hlists.scheduled.pool

theorem ShowsProcesses.step {v : Processes} (h : k.ShowsProcesses v) (hcalls : k.CallsNoUsers a)
    (hstep : k.step a = some k') : ∃ v', v.Step (k.event a) v' ∧ k'.ShowsProcesses v' := by
  obtain ⟨v', hstep', hshows'⟩ := h.shows_.step h.consistent h.noShutdown hcalls hstep
  refine ⟨v', hstep', h.noShutdown.step ?_ hstep, hshows', h.consistent.step hstep'⟩
  exact fun hrequest ↦ Bool.noConfusion (hcalls _ hrequest)

end Kernel

/-- The table before the first process. -/
def ResourceTable.empty : ResourceTable where
  kind _ := none
  uses _ := 0
  handle _ _ := none
  next _ := 0
  freeObjects := maxNumResources
  freeHandles := maxNumProcesses

theorem ResourceTable.empty_sound : ResourceTable.empty.Sound where
  next_nonneg _ := le_rfl
  given _ _ h := absurd rfl h
  counted i handles h := by
    have hnone : handles = ∅ := Finset.eq_empty_iff_forall_notMem.mpr fun x hx ↦
      Option.noConfusion rfl (heq_of_eq (h x hx))
    rw [hnone]
    exact Nat.zero_le _
  unused _ _ := rfl

theorem Layout.boot_tabulates (layout : Layout) : layout.boot.Tabulates .empty where
  ok := layout.boot_filesOk
  sound := ResourceTable.empty_sound
  same := layout.boot_filesOk.table_eq
    { resource := fun _ hr ↦ absurd hr List.not_mem_nil
      noResource := fun _ _ ↦ ⟨rfl, rfl⟩
      descriptor := fun _ _ hd ↦ absurd hd List.not_mem_nil
      noDescriptor := fun _ _ _ ↦ rfl
      next := rfl
      freeObjects := rfl
      freeHandles := rfl }

/-- What a run without a shutdown leaves of the table of a state of it. -/
theorem Kernel.Tabulates.run {k k' : Kernel} {t : ResourceTable} {actions : List Action}
    (h : k.Tabulates t) (hmeets : Runs.Meets Kernel.step Kernel.CallsNoShutdown k actions)
    (hrun : Runs.run Kernel.step k actions = some k') :
    ∃ t', Runs.Trace ResourceTable.Step t (Runs.events Kernel.step Kernel.fileEvent k actions) t' ∧
      k'.Tabulates t' := by
  refine Runs.run_refines (R := Kernel.Tabulates) ?_ h hmeets hrun
  exact fun k a k' t h hcalls hstep ↦ h.step hcalls hstep

/-- Every run without a shutdown is one of the table of handles. -/
theorem resources_refine_table (layout : Layout) {actions : List Action} {k : Kernel}
    (hmeets : Runs.Meets Kernel.step Kernel.CallsNoShutdown layout.boot actions)
    (hrun : Runs.run Kernel.step layout.boot actions = some k) :
    k.files.table.Sound ∧ Runs.Trace ResourceTable.Step .empty
      (Runs.events Kernel.step Kernel.fileEvent layout.boot actions) k.files.table := by
  obtain ⟨t, htrace, htabulates⟩ := layout.boot_tabulates.run hmeets hrun
  rw [htabulates.same]
  exact ⟨htabulates.sound, htrace⟩

/-- Every run in which no process waits for a queue is one of the abstract processes. -/
theorem processes_refine_model (layout : Layout) {actions : List Action} {k : Kernel}
    (hmeets : Runs.Meets Kernel.step Kernel.CallsNoUsers layout.boot actions)
    (hrun : Runs.run Kernel.step layout.boot actions = some k) :
    ∃ v₀ v : Processes, v₀.all = [] ∧ v₀.timers = [] ∧
      Runs.Trace Processes.Step v₀
        (Runs.events Kernel.step (fun k a _ ↦ k.event a) layout.boot actions) v ∧
      v.Consistent ∧ k.Shows v := by
  obtain ⟨hshutdown, v₀, hshows, hv, hnone, htimers⟩ := layout.boot_satisfies
    (P := fun _ v ↦ (∀ p, p ∉ v.all) ∧ v.timers = []) ⟨layout.boot_noProcess, rfl⟩
  have hstart : layout.boot.ShowsProcesses v₀ := ⟨hshutdown, hshows, hv⟩
  obtain ⟨v, htrace, hend⟩ : ∃ v, Runs.Trace Processes.Step v₀
      (Runs.events Kernel.step (fun k a _ ↦ k.event a) layout.boot actions) v ∧ k.ShowsProcesses v := by
    refine Runs.run_refines (R := Kernel.ShowsProcesses) ?_ hstart hmeets hrun
    exact fun k a k' v h hcalls hstep ↦ h.step hcalls hstep
  exact ⟨v₀, v, List.eq_nil_iff_forall_not_mem.mpr hnone, htimers, htrace, hend.consistent, hend.shows_⟩

/-- A child sleeps while its parent waits for it, and exits. -/
theorem processes_refine_model_child : ∃ k,
    Runs.run Kernel.step sampleLayout.boot [.start, .syscall .spawn, .syscall .spawn,
      .syscall (.wait 0 none), .timer, .syscall (.sleep 2), .timer, .timer, .syscall (.exit 3)] = some k ∧
    ∃ v₀ v : Processes, v₀.all = [] ∧ v₀.timers = [] ∧ Runs.Trace Processes.Step v₀
      (Runs.events Kernel.step (fun k a _ ↦ k.event a) sampleLayout.boot [.start, .syscall .spawn,
        .syscall .spawn, .syscall (.wait 0 none), .timer, .syscall (.sleep 2), .timer, .timer,
        .syscall (.exit 3)]) v ∧ v.Consistent ∧ k.Shows v := by
  have hruns : (Runs.run Kernel.step sampleLayout.boot [.start, .syscall .spawn, .syscall .spawn,
      .syscall (.wait 0 none), .timer, .syscall (.sleep 2), .timer, .timer,
      .syscall (.exit 3)]).isSome := by decide +kernel
  obtain ⟨k, hk⟩ := Option.isSome_iff_exists.mp hruns
  exact ⟨k, hk, processes_refine_model sampleLayout (by decide +kernel) hk⟩

/-- A process opens a resource, its child opens it too and tries to remove it, and the process closes it. -/
def sharedResource : List Action :=
  [.start, .syscall .spawn, .syscall (.openResource 7 1 dsosCreate), .timer,
    .syscall (.openResource 7 1 0), .syscall (.destroyResource 7), .timer, .syscall (.closeResource 0)]

theorem resources_refine_table_shared : ∃ k,
    Runs.run Kernel.step sampleLayout.boot sharedResource = some k ∧ k.files.table.Sound ∧
      Runs.Trace ResourceTable.Step .empty
        (Runs.events Kernel.step Kernel.fileEvent sampleLayout.boot sharedResource) k.files.table := by
  have hruns : (Runs.run Kernel.step sampleLayout.boot sharedResource).isSome := by decide +kernel
  obtain ⟨k, hk⟩ := Option.isSome_iff_exists.mp hruns
  exact ⟨k, hk, resources_refine_table sampleLayout (by decide +kernel) hk⟩

/-- A descriptor stands for its resource, which keeps its type, until it is taken away. -/
theorem descriptor_lasts (layout : Layout) {before after : List Action} {k k' : Kernel} {p : Addr}
    {fd id type : ℤ} (hbefore : Runs.Meets Kernel.step Kernel.CallsNoShutdown layout.boot before)
    (hrun : Runs.run Kernel.step layout.boot before = some k) (hnames : k.files.table.Names p fd id type)
    (hafter : Runs.Meets Kernel.step Kernel.CallsNoShutdown k after)
    (hrun' : Runs.run Kernel.step k after = some k')
    (hlasts : ∀ e ∈ Runs.events Kernel.step Kernel.fileEvent k after, ¬ e.Ends p fd) :
    k'.files.table.Names p fd id type := by
  obtain ⟨t, -, htabulates⟩ := layout.boot_tabulates.run hbefore hrun
  obtain ⟨t', htrace, htabulates'⟩ := htabulates.run hafter hrun'
  rw [htabulates.same] at hnames
  rw [htabulates'.same]
  refine (htrace.invariant (P := fun t ↦ t.Sound ∧ t.Names p fd id type) hlasts ?_
    ⟨htabulates.sound, hnames⟩).2
  exact fun t e t' h hlasts hstep ↦ ⟨hstep.sound h.1, hstep.names h.1 h.2 hlasts⟩

/-- The child of the process that has opened a resource opens and closes it and tries to remove it. -/
theorem descriptor_lasts_child : ∃ k k',
    Runs.run Kernel.step sampleLayout.boot (sharedResource.take 3) = some k ∧
      Runs.run Kernel.step k [.timer, .syscall (.openResource 7 1 0), .syscall (.closeResource 0),
        .syscall (.destroyResource 7)] = some k' ∧ k'.files.table.Names 0x400000 0 7 1 := by
  have hruns : ∃ k ∈ Runs.run Kernel.step sampleLayout.boot (sharedResource.take 3),
      k.files.table.handle 0x400000 0 = some 7 ∧ k.files.table.kind 7 = some 1 ∧
        Runs.Meets Kernel.step Kernel.CallsNoShutdown k [.timer, .syscall (.openResource 7 1 0),
          .syscall (.closeResource 0), .syscall (.destroyResource 7)] ∧
        (∀ e ∈ Runs.events Kernel.step Kernel.fileEvent k [.timer, .syscall (.openResource 7 1 0),
          .syscall (.closeResource 0), .syscall (.destroyResource 7)], ¬ e.Ends 0x400000 0) ∧
        (Runs.run Kernel.step k [.timer, .syscall (.openResource 7 1 0), .syscall (.closeResource 0),
          .syscall (.destroyResource 7)]).isSome := by
    decide +kernel
  obtain ⟨k, hk, hhandle, hkind, hmeets, hlasts, hsome⟩ := hruns
  obtain ⟨k', hk'⟩ := Option.isSome_iff_exists.mp hsome
  exact ⟨k, k', hk, hk', descriptor_lasts sampleLayout (by decide +kernel) hk ⟨hhandle, hkind⟩ hmeets
    hk' hlasts⟩

/-- A file descriptor that was closed stays closed: another close of it fails, and no open returns it. -/
theorem descriptor_notReused (layout : Layout) {before after : List Action} {a : Action}
    {k k₁ k' : Kernel} {p : Addr} {fd : ℤ}
    (hbefore : Runs.Meets Kernel.step Kernel.CallsNoShutdown layout.boot before)
    (hrun : Runs.run Kernel.step layout.boot before = some k) (hp : k.running = some p)
    (hrequest : k.request a = some (.closeResource fd)) (hclose : k.step a = some k₁)
    (hret : k₁.pcbs.syscallRetvalue p = 0)
    (hafter : Runs.Meets Kernel.step Kernel.CallsNoShutdown k₁ after)
    (hrun' : Runs.run Kernel.step k₁ after = some k')
    (hsame : .creates p ∉ Runs.events Kernel.step Kernel.fileEvent k₁ after) (hp' : k'.running = some p) :
    (∀ a' k₂, k'.request a' = some (.closeResource fd) → k'.step a' = some k₂ →
        k₂.pcbs.syscallRetvalue p = dsosEresourceclose) ∧
      ∀ id type mode a' k₂, k'.request a' = some (.openResource id type mode) → k'.step a' = some k₂ →
        k₂.pcbs.syscallRetvalue p ≠ fd := by
  obtain ⟨t, -, htabulates⟩ := layout.boot_tabulates.run hbefore hrun
  have hclosed := Kernel.step_closeResource htabulates.ok hp hrequest hclose
  rw [htabulates.same] at hclosed
  have hcloses : (ResourceTable.closeCall t p fd).1 = 0 := (congrArg Prod.fst hclosed).symm.trans hret
  obtain ⟨hnonneg, hspent⟩ := ResourceTable.closeCall_spent htabulates.sound hcloses
  have hcalls : k.CallsNoShutdown a := .of_request hrequest (by simp)
  obtain ⟨t₁, -, htabulates₁⟩ := htabulates.step hcalls hclose
  obtain ⟨t', htrace, htabulates'⟩ := htabulates₁.run hafter hrun'
  have hspent₁ : t₁.Spent p fd := by
    have htable : k₁.files.table = _ := congrArg Prod.snd hclosed
    rw [← htabulates₁.same, htable]
    exact hspent
  have hspent' : t'.Spent p fd := htrace.invariant (P := fun t ↦ t.Spent p fd)
    (Q := fun e ↦ e ≠ .creates p) (fun e he hsame' ↦ hsame (hsame' ▸ he))
    (fun t e t' h hlasts hstep ↦ hstep.spent h hlasts) hspent₁
  constructor
  · intro a' k₂ hrequest' hclose'
    have hfails := Kernel.step_closeResource htabulates'.ok hp' hrequest' hclose'
    rw [htabulates'.same, ResourceTable.closeCall, hspent'.handle] at hfails
    exact congrArg Prod.fst hfails
  · intro id type mode a' k₂ hrequest' hopen hsame'
    have hopened := congrArg Prod.fst (Kernel.step_openResource htabulates'.ok hp' hrequest' hopen)
    rw [htabulates'.same] at hopened
    have hgiven := hspent'.given
    have hret' : k₂.pcbs.syscallRetvalue p = (ResourceTable.openCall t' p id type mode).1 := hopened
    obtain hnext | herror := ResourceTable.openCall_ret t' p id type mode
    · omega
    · omega

/-- The first process makes a queue, closes it and opens it again; up to the CLOSE_RESOURCE, and from there. -/
def closesQueue : List Action :=
  .start :: .call (.openQueue 0 0o13) :: List.replicate 4 .statement ++
    .call (.close 0) :: List.replicate 7 .statement

def opensAgain : List Action :=
  [.statement, .call (.openQueue 0 0o2), .statement]

theorem descriptor_notReused_reopened : ∃ k k₁ k',
    Runs.run Kernel.step sampleLayout.boot closesQueue = some k ∧
      k.request .statement = some (.closeResource 0) ∧ k.step .statement = some k₁ ∧
        Runs.run Kernel.step k₁ opensAgain = some k' ∧
          (∀ a k₂, k'.request a = some (.closeResource 0) → k'.step a = some k₂ →
            k₂.pcbs.syscallRetvalue 0x400000 = dsosEresourceclose) ∧
          ∀ id type mode a k₂, k'.request a = some (.openResource id type mode) → k'.step a = some k₂ →
            k₂.pcbs.syscallRetvalue 0x400000 ≠ 0 := by
  have hruns : ∃ k ∈ Runs.run Kernel.step sampleLayout.boot closesQueue,
      k.running = some 0x400000 ∧ k.request .statement = some (.closeResource 0) ∧
        ∃ k₁ ∈ k.step .statement, k₁.pcbs.syscallRetvalue 0x400000 = 0 ∧
          Runs.Meets Kernel.step Kernel.CallsNoShutdown k₁ opensAgain ∧
          .creates 0x400000 ∉ Runs.events Kernel.step Kernel.fileEvent k₁ opensAgain ∧
          ∃ k' ∈ Runs.run Kernel.step k₁ opensAgain, k'.running = some 0x400000 := by
    decide +kernel
  obtain ⟨k, hk, hp, hrequest, k₁, hclose, hret, hmeets, hsame, k', hk', hp'⟩ := hruns
  exact ⟨k, k₁, k', hk, hrequest, hclose, hk', descriptor_notReused sampleLayout (by decide +kernel) hk hp
    hrequest hclose hret hmeets hk' hsame hp'⟩

/-- A resource that was opened cannot be created exclusively, by whomever, until it is removed. -/
theorem exclusive_until_removed (layout : Layout) {before after : List Action} {a a' : Action}
    {k k₁ k' k₂ : Kernel} {p q : Addr} {id type type' : ℤ} {mode mode' : BitVec 32}
    (hbefore : Runs.Meets Kernel.step Kernel.CallsNoShutdown layout.boot before)
    (hrun : Runs.run Kernel.step layout.boot before = some k) (hp : k.running = some p)
    (hrequest : k.request a = some (.openResource id type mode)) (hopen : k.step a = some k₁)
    (hret : 0 ≤ k₁.pcbs.syscallRetvalue p)
    (hafter : Runs.Meets Kernel.step Kernel.CallsNoShutdown k₁ after)
    (hrun' : Runs.run Kernel.step k₁ after = some k')
    (hstays : ∀ e ∈ Runs.events Kernel.step Kernel.fileEvent k₁ after, ¬ e.Removes id)
    (hq : k'.running = some q) (hcreate : hasBit mode' dsosCreate = true)
    (hexcl : hasBit mode' dsosExcl = true)
    (hrequest' : k'.request a' = some (.openResource id type' mode')) (hopen' : k'.step a' = some k₂) :
    k₂.pcbs.syscallRetvalue q = dsosEresourcenoexcl ∧ k₂.files.table = k'.files.table := by
  obtain ⟨t, -, htabulates⟩ := layout.boot_tabulates.run hbefore hrun
  have hopened := Kernel.step_openResource htabulates.ok hp hrequest hopen
  rw [htabulates.same] at hopened
  have hkind := ResourceTable.openCall_kind (hret.trans_eq (congrArg Prod.fst hopened))
  have hcalls : k.CallsNoShutdown a := .of_request hrequest (by simp)
  obtain ⟨t₁, -, htabulates₁⟩ := htabulates.step hcalls hopen
  obtain ⟨t', htrace, htabulates'⟩ := htabulates₁.run hafter hrun'
  have hkind₁ : t₁.kind id = some type := by
    have htable : k₁.files.table = _ := congrArg Prod.snd hopened
    rw [← htabulates₁.same, htable]
    exact hkind
  have hkind' : t'.kind id = some type := htrace.invariant (P := fun t ↦ t.kind id = some type) hstays
    (fun t e t' h hstays hstep ↦ hstep.kind h hstays) hkind₁
  have hrefused := Kernel.step_openResource htabulates'.ok hq hrequest' hopen'
  rw [htabulates'.same, ResourceTable.openCall_exclusive (hkind'.trans_ne (Option.some_ne_none type))
    hcreate hexcl] at hrefused
  rw [htabulates'.same]
  exact Prod.mk.inj hrefused

/-- The child of the process that has opened resource 7 asks `dmq_open` to create it as a queue for itself. -/
theorem exclusive_until_removed_child : ∃ k k₁ k' k₂,
    Runs.run Kernel.step sampleLayout.boot (sharedResource.take 2) = some k ∧
      k.step (.syscall (.openResource 7 1 dsosCreate)) = some k₁ ∧
        Runs.run Kernel.step k₁ [.syscall (.closeResource 0), .timer, .call (.openQueue 7 0o30)] =
            some k' ∧
          k'.step .statement = some k₂ ∧
            k₂.pcbs.syscallRetvalue (0x400000 + 17544) = dsosEresourcenoexcl ∧
              k₂.files.table = k'.files.table := by
  have hruns : ∃ k ∈ Runs.run Kernel.step sampleLayout.boot (sharedResource.take 2),
      k.running = some 0x400000 ∧ k.request (.syscall (.openResource 7 1 dsosCreate)) =
          some (.openResource 7 1 dsosCreate) ∧
        ∃ k₁ ∈ k.step (.syscall (.openResource 7 1 dsosCreate)),
          0 ≤ k₁.pcbs.syscallRetvalue 0x400000 ∧
          Runs.Meets Kernel.step Kernel.CallsNoShutdown k₁
            [.syscall (.closeResource 0), .timer, .call (.openQueue 7 0o30)] ∧
          (∀ e ∈ Runs.events Kernel.step Kernel.fileEvent k₁
            [.syscall (.closeResource 0), .timer, .call (.openQueue 7 0o30)], ¬ e.Removes 7) ∧
          ∃ k' ∈ Runs.run Kernel.step k₁ [.syscall (.closeResource 0), .timer, .call (.openQueue 7 0o30)],
            k'.running = some (0x400000 + 17544) ∧
              k'.request .statement = some (.openResource 7 2 (dsosCreate ||| dsosExcl)) ∧
              (k'.step .statement).isSome := by
    decide +kernel
  obtain ⟨k, hk, hp, hrequest, k₁, hopen, hret, hmeets, hstays, k', hk', hq, hrequest', hsome⟩ := hruns
  obtain ⟨k₂, hopen'⟩ := Option.isSome_iff_exists.mp hsome
  exact ⟨k, k₁, k', k₂, hk, hopen, hk', hopen', exclusive_until_removed sampleLayout (by decide +kernel)
    hk hp hrequest hopen hret hmeets hk' hstays hq (by decide) (by decide) hrequest' hopen'⟩

end DisastrOS
