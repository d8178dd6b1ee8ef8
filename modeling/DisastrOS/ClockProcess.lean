import DisastrOS.Termination

/-!
# A clock process keeps the system running

A clock process is one that the first process has spawned and that never waits, sleeps or exits. From
then on it runs or is ready after every step (`HasClock.step`), so there is always a process to run, and
`clockProcess_keepsRunning` follows for whole runs: the running process is in no list, and every step
that the processes ask for is done. Parents that are gone do not matter: a process without a parent
that lives on exits to the ready ones, or to whoever waits in the block of its parent.
-/

set_option autoImplicit false
set_option relaxedAutoImplicit false

namespace DisastrOS

open LinkedLists
open Function (update)

/-- The calls with which a process stops running, other than a preempt. -/
def Syscall.leaves : Syscall → Bool
  | .wait .. | .sleep _ | .exit _ => true
  | _ => false

namespace Processes

variable {v v' w : Processes} {e : Event} {p q c x : Addr}

/-! ### The clock -/

/-- Somebody runs, and `c` runs or is ready. -/
def HasClock (c : Addr) (v : Processes) : Prop :=
  v.running ≠ none ∧ (v.running = some c ∨ c ∈ v.queue .ready)

theorem HasClock.schedule (h : v.HasClock c) (hp : v.running = some p) :
    (v.schedule p).HasClock c := by
  cases hcases : v.due ++ v.queue .ready with
  | nil =>
    rw [schedule_nil hcases]
    exact h
  | cons next rest =>
    rw [schedule_cons hcases]
    refine ⟨Option.some_ne_none next, ?_⟩
    simp only [Option.some.injEq, Function.update_self, List.mem_append, List.mem_singleton]
    rcases h.2 with hruns | hready
    · exact Or.inr (Or.inr (Option.some.inj (hruns.symm.trans hp)))
    · have hmem : c ∈ next :: rest := hcases ▸ List.mem_append_right _ hready
      rcases List.mem_cons.mp hmem with hc | hrest
      · exact Or.inl hc.symm
      · exact Or.inr (Or.inl hrest)

/-- When another process blocks or exits, the first ready one runs. -/
theorem HasClock.dispatch (h : v.HasClock c) (hp : v.running = some p) (hne : p ≠ c)
    (hruns : w.running = (v.queue .ready).head?) (hready : w.queue .ready = (v.queue .ready).tail) :
    w.HasClock c := by
  have hmem : c ∈ v.queue .ready :=
    h.2.resolve_left fun hc ↦ hne (Option.some.inj (hp.symm.trans hc))
  cases hcases : v.queue .ready with
  | nil =>
    rw [hcases] at hmem
    exact absurd hmem List.not_mem_nil
  | cons next rest =>
    rw [hcases] at hruns hready hmem
    refine ⟨hruns.trans_ne (Option.some_ne_none next), ?_⟩
    rw [hruns, hready]
    rcases List.mem_cons.mp hmem with rfl | hrest
    · exact Or.inl rfl
    · exact Or.inr hrest

/-- The clock goes on, whatever the other processes do. -/
theorem HasClock.step (h : v.HasClock c) (hstep : v.Step e v')
    (hclock : ∀ call, e = .call call → v.running = some c → call.leaves = false) :
    v'.HasClock c := by
  have hother : ∀ p call, e = .call call → v.running = some p → call.leaves = true → p ≠ c := by
    rintro p call rfl hp hleaves rfl
    rw [hclock call rfl hp] at hleaves
    exact Bool.false_ne_true hleaves
  cases hstep with
  | quiet | sleepFails | waitFails | reap | other => exact h
  | start p hidle _ => exact absurd hidle h.1
  | tick p hp =>
    have htick : ({ v with time := toInt (v.time + 1) } : Processes).HasClock c := h
    exact htick.schedule hp
  | preempt p hp =>
    have htrap : (v.trap p .preempt).HasClock c := h
    exact htrap.schedule hp
  | create p child x call _ hp _ _ =>
    refine ⟨h.1, h.2.imp_right fun hready ↦ ?_⟩
    change c ∈ update v.queue PcbList.ready (v.queue PcbList.ready ++ [child]) PcbList.ready
    rw [Function.update_self]
    exact List.mem_append_left _ hready
  | sleep p t cycles hp _ => exact h.dispatch hp (hother p _ rfl hp rfl) rfl rfl
  | wait p x pid result hp _ _ => exact h.dispatch hp (hother p _ rfl hp rfl) rfl rfl
  | exitToParent p i parent value hp _ _ _ =>
    have hready := h.2.resolve_left fun hc ↦
      hother p _ rfl hp rfl (Option.some.inj (hp.symm.trans hc))
    exact ⟨Option.some_ne_none parent, Or.inr hready⟩
  | exitToReady p i parent next value hp _ _ _ hnext =>
    exact h.dispatch hp (hother p _ rfl hp rfl) hnext.symm rfl

/-! ### The root -/

/-- There is a first process, and it is the only one without a parent. -/
def Rooted (v : Processes) : Prop :=
  v.init ≠ none ∧ ∀ p ∈ v.all, v.parent p = none → v.init = some p

theorem Rooted.of_subset (h : v.Rooted) (hall : ∀ p ∈ v'.all, p ∈ v.all) (hinit : v'.init = v.init)
    (hparent : v'.parent = v.parent) : v'.Rooted := by
  constructor
  · rw [hinit]
    exact h.1
  · intro p hp hnone
    rw [hinit]
    exact h.2 p (hall p hp) (hparent ▸ hnone)

theorem Rooted.schedule (h : v.Rooted) (hv : v.Consistent) (hp : v.running = some p) :
    (v.schedule p).Rooted := by
  refine h.of_subset (fun q hq ↦ (hv.schedule_perm hp).mem_iff.mp hq) ?_ ?_
  · rw [schedule_eq]
  · rw [schedule_eq]

/-- New processes have a parent, unless they are first ones. -/
theorem Rooted.step (h : v.Rooted) (hv : v.Consistent) (hstep : v.Step e v') (hstart : e ≠ .start) :
    v'.Rooted := by
  cases hstep with
  | quiet | sleepFails | waitFails | other => exact h
  | start => exact absurd rfl hstart
  | tick p hp =>
    have htick : ({ v with time := toInt (v.time + 1) } : Processes).Rooted := h
    exact htick.schedule { hv with } hp
  | preempt p hp =>
    have htrap : (v.trap p .preempt).Rooted := h
    exact htrap.schedule (hv.trap hp _) hp
  | create p child x call _ hp hfresh _ =>
    refine ⟨h.1, fun q hq hnone ↦ ?_⟩
    have hne : q ≠ child := by
      rintro rfl
      have hparent : update v.parent q (some p) q = none := hnone
      rw [Function.update_self] at hparent
      exact absurd hparent (by simp)
    have hold := (List.mem_cons.mp ((create_perm _ p child x).mem_iff.mp hq)).resolve_left hne
    exact h.2 q hold ((Function.update_of_ne hne _ _).symm.trans hnone)
  | sleep p t cycles hp _ =>
    exact h.of_subset (fun q hq ↦ (block_perm hp).mem_iff.mp hq) rfl rfl
  | wait p x pid result hp _ _ =>
    exact h.of_subset (fun q hq ↦ (block_perm hp).mem_iff.mp hq) rfl rfl
  | reap p x pid result hp _ _ =>
    exact h.of_subset (fun q hq ↦ (reap_subperm _ p x).subset hq) rfl rfl
  | exitToParent p i parent value hp _ _ hawaits =>
    have htrap := hv.trap hp (.exit value)
    have hperm := htrap.exitToParent_perm hp ((hv.trap_awaits hp).mpr hawaits) i value
    exact h.of_subset (fun q hq ↦ hperm.mem_iff.mpr (List.mem_cons_of_mem _ hq)) rfl rfl
  | exitToReady p i parent next value hp _ _ _ hnext =>
    have hperm := exitToReady_perm (v := v.trap p (.exit value)) hp hnext i value
    exact h.of_subset (fun q hq ↦ hperm.mem_iff.mp hq) rfl rfl

theorem Rooted.start (hfirst : ∀ p, p ∉ v.all) (hidle : v.running = none) (p : Addr) :
    (v.start p).Rooted := by
  refine ⟨Option.some_ne_none p, fun q hq _ ↦ ?_⟩
  rcases List.mem_cons.mp ((start_perm hidle p).mem_iff.mp hq) with rfl | hold
  · rfl
  · exact absurd hold (hfirst q)

end Processes

namespace Kernel

variable {k k' : Kernel} {v v' : Processes} {a : Action} {c : Addr}

/-! ### What the clock gives -/

/-- A step of the processes in which `c` does not wait, sleep or exit, and the first process does not
exit. -/
def ClockSafe (c : Addr) (k : Kernel) (a : Action) : Prop :=
  a.ofProcesses = true ∧ a ≠ .start ∧ ∀ p ∈ k.running, ∀ call ∈ k.request a,
    (p = c → call.leaves = false) ∧ (k.initPcb = some p → call.exits = false)

instance (c : Addr) (k : Kernel) (a : Action) : Decidable (k.ClockSafe c a) :=
  inferInstanceAs (Decidable (_ ∧ _ ∧ ∀ p ∈ k.running, ∀ call ∈ k.request a, _))

/-- A process that is in no list runs, `c` runs or is ready, and every step is done that the processes
may take next. -/
def KeepsRunning (c : Addr) (k : Kernel) : Prop :=
  (∃ p, k.running = some p ∧ k.pcbs.list p = Links.unlinked ∧
    ∀ l, ¬ Reaches k.pcbs.list (k.lists l).first p) ∧
  (k.running = some c ∨ Reaches k.pcbs.list (k.lists .ready).first c) ∧
  ∀ a, k.ClockSafe c a → a ≠ .syscall .fork → a ≠ .syscall .spawn → (k.step a).isSome

/-- The invariant of the runs after the start. -/
structure Started (k : Kernel) (v : Processes) : Prop where
  plain : k.Plain
  bounded : k.Bounded
  rooted : v.Rooted

/-- The invariant of the runs with a clock. -/
structure Ticking (c : Addr) (k : Kernel) (v : Processes) : Prop extends k.Started v where
  clock : v.HasClock c

theorem Started.step (h : k.Started v) (hv : v.Consistent) (ha : a.ofProcesses = true)
    (hstart : a ≠ .start) (hstep : k.step a = some k') (hstep' : v.Step (k.event a) v') :
    k'.Started v' where
  plain := h.plain.step ha hstep
  bounded := h.bounded.step ha hstep
  rooted := h.rooted.step hv hstep' (event_eq_start.not.mpr hstart)

theorem Ticking.step (h : k.Ticking c v) (hv : v.Consistent) (hshows : k.Shows v)
    (hsafe : k.ClockSafe c a) (hstep : k.step a = some k') (hstep' : v.Step (k.event a) v') :
    k'.Ticking c v' where
  toStarted := h.toStarted.step hv hsafe.1 hsafe.2.1 hstep hstep'
  clock := by
    refine h.clock.step hstep' fun call hevent hruns ↦ ?_
    exact (hsafe.2.2 c (hshows.running.trans hruns) call (event_eq_call.mp hevent)).1 rfl

theorem Ticking.keepsRunning (h : k.Ticking c v) (hv : v.Consistent) (hshows : k.Shows v) :
    k.KeepsRunning c := by
  obtain ⟨p, hp⟩ := Option.ne_none_iff_exists'.mp h.clock.1
  have hunlisted := hv.unlisted hp
  refine ⟨⟨p, hshows.running.trans hp, ?_, fun l hl ↦ ?_⟩, ?_, fun a hsafe hfork hspawn ↦ ?_⟩
  · obtain ⟨s, hlists⟩ := hshows
    exact hlists.scheduled.threads.tidy p hunlisted
  · exact hunlisted l ((hshows.reaches_iff l).mp hl)
  · rw [hshows.running, hshows.reaches_iff]
    exact h.clock.2
  · refine hshows.step_isSome hv h.plain h.bounded hp hsafe.1 hsafe.2.1 ⟨hfork, hspawn⟩ ?_
    rintro value rfl
    have hrunning : k.running = some p := hshows.running.trans hp
    have hrequest : k.request (.syscall (.exit value)) = some (.exit value) := by
      simp [Kernel.request, h.plain.atUser hrunning]
    obtain ⟨hclock, hfirst⟩ := hsafe.2.2 p hrunning _ hrequest
    have hnotInit : v.init ≠ some p := fun hinit ↦
      Bool.false_ne_true.symm (hfirst (hshows.initPcb.trans hinit))
    refine ⟨h.rooted.1, fun hnone ↦ ?_, fun hnil ↦ ?_⟩
    · exact hnotInit (h.rooted.2 p (Processes.mem_all_of_running hp) hnone)
    · rcases h.clock.2 with hruns | hready
      · exact Bool.false_ne_true.symm (hclock (Option.some.inj (hp.symm.trans hruns)))
      · rw [hnil] at hready
        exact absurd hready List.not_mem_nil

/-- The child of a spawn is the block that was free. -/
theorem allocated_of_spawn (hpool : k.pcbs.allocator.Ok)
    (hchild : k.pcbs.allocator.getBlock.1 = some c) (hstep : k.step (.syscall .spawn) = some k') :
    ¬ k.pcbs.allocator.Allocated c ∧ k'.pcbs.allocator.Allocated c := by
  have hrequest := request_of_step hstep
  obtain ⟨p, hp⟩ := running_of_request hrequest
  obtain ⟨next, -, hcall⟩ := step_syscall hp hrequest hstep
  obtain ⟨⟨c', k₁⟩, hnew, hk'⟩ := Option.bind_eq_some_iff.mp hcall
  obtain ⟨_, pool, x, ptrPool, -, hget, -, -, rfl⟩ := newProcess_cases hnew
  obtain rfl := Option.some.inj hk'
  have hget' : k.pcbs.allocator.getBlock = (some c', pool) := hget
  rw [hget'] at hchild
  obtain rfl := Option.some.inj hchild
  obtain ⟨-, -, hfree, -, hallocated⟩ := PoolAllocator.getBlock_some hpool hget'
  exact ⟨hfree, (hallocated c').mpr (Or.inl rfl)⟩

/-- The child of a spawn is ready. -/
theorem Shows.hasClock_spawn (hshows : k.Shows v) (hshows' : k'.Shows v')
    (hchild : k.pcbs.allocator.getBlock.1 = some c) (hstep : k.step (.syscall .spawn) = some k')
    (hstep' : v.Step (.call .spawn) v') : v'.HasClock c := by
  have hpool : k.pcbs.allocator.Ok := by
    obtain ⟨s, hlists⟩ := hshows
    exact hlists.scheduled.pool
  obtain ⟨hfree, hallocated⟩ := allocated_of_spawn hpool hchild hstep
  rw [hshows.allocated_iff] at hfree
  rw [hshows'.allocated_iff] at hallocated
  cases hstep' with
  | create p c' x call _ hp hfresh _ =>
    have hmem := (Processes.create_perm _ p c' x).mem_iff.mp hallocated
    obtain rfl : c = c' := (List.mem_cons.mp hmem).resolve_right hfree
    refine ⟨hp.trans_ne (Option.some_ne_none p), Or.inr ?_⟩
    change c ∈ update v.queue PcbList.ready (v.queue PcbList.ready ++ [c]) PcbList.ready
    rw [Function.update_self]
    exact List.mem_append_right _ (List.mem_singleton_self c)
  | other p _ _ hother => exact Bool.noConfusion hother

/-! ### Whole runs -/

end Kernel

/-- The first process is the root. -/
theorem Layout.started (layout : Layout) {k : Kernel}
    (hstart : layout.boot.step .start = some k) : k.Satisfies Kernel.Started := by
  obtain ⟨hshutdown, v, hshows, hv, hnone⟩ :=
    layout.boot_satisfies (P := fun _ v ↦ ∀ p, p ∉ v.all) layout.boot_noProcess
  obtain ⟨v', hstep', hshows'⟩ := hshows.step hv hshutdown
    (fun c hrequest ↦ absurd hrequest (by simp [Kernel.request])) hstart
  refine ⟨hshutdown.step (by simp [Kernel.request]) hstart, v', hshows', hv.step hstep',
    layout.boot_plain.step rfl hstart, layout.boot_bounded.step rfl hstart, ?_⟩
  cases hstep' with
  | start p hidle _ => exact Processes.Rooted.start hnone hidle p

/-- From the spawn of a clock process on the system keeps running. -/
theorem clockProcess_keepsRunning (layout : Layout) {before after : List Action}
    {k₀ k₁ k : Kernel} {c : Addr}
    (hbefore : ∀ a ∈ before, a.ofProcesses = true ∧ a ≠ .start)
    (hboot : Runs.run Kernel.step layout.boot (.start :: before) = some k₀)
    (hchild : k₀.pcbs.allocator.getBlock.1 = some c)
    (hspawn : k₀.step (.syscall .spawn) = some k₁)
    (hafter : Runs.Meets Kernel.step (Kernel.ClockSafe c) k₁ after)
    (hrun : Runs.run Kernel.step k₁ after = some k) : k.KeepsRunning c := by
  obtain ⟨k', hstart, hrest⟩ := Runs.run_cons_eq_some.mp hboot
  -- up to the spawn
  have hallowed : Runs.Meets Kernel.step (fun _ a ↦ a.ofProcesses = true ∧ a ≠ .start) k' before :=
    Runs.Meets.of_forall k' hbefore
  obtain ⟨hshutdown, v₀, hshows₀, hv₀, hstarted⟩ := Kernel.satisfies_run
    (fun k a ha c hrequest ↦ Kernel.concernsUsers_of_processes
      (Kernel.concernsProcesses_of_request ha.1 hrequest))
    (fun k k' a v v' ha hstep _ hv h hstep' _ ↦ h.step hv ha.1 ha.2 hstep hstep')
    (layout.started hstart) hallowed hrest
  -- the spawn
  have hcalls : ∀ call, k₀.request (.syscall .spawn) = some call → call.concernsUsers = false :=
    fun call hrequest ↦ Kernel.concernsUsers_of_processes
      (Kernel.concernsProcesses_of_request rfl hrequest)
  obtain ⟨v₁, hstep₁, hshows₁⟩ := hshows₀.step hv₀ hshutdown hcalls hspawn
  have hevent : k₀.event (.syscall .spawn) = .call .spawn :=
    Kernel.event_eq_call.mpr (Kernel.request_of_step hspawn)
  have hticking : k₁.Ticking c v₁ :=
    { toStarted := hstarted.step hv₀ rfl (by decide) hspawn hstep₁
      clock := hshows₀.hasClock_spawn hshows₁ hchild hspawn (hevent ▸ hstep₁) }
  -- the rest of the run
  obtain ⟨-, v, hshows, hv, hend⟩ := Kernel.satisfies_run
    (fun k a ha call hrequest ↦ Kernel.concernsUsers_of_processes
      (Kernel.concernsProcesses_of_request ha.1 hrequest))
    (fun k k' a v v' ha hstep hshows hv h hstep' _ ↦ h.step hv hshows ha hstep hstep')
    ⟨hshutdown.step (fun hrequest ↦ Bool.noConfusion (hcalls _ hrequest)) hspawn, v₁, hshows₁,
      hv₀.step hstep₁, hticking⟩ hafter hrun
  exact hend.keepsRunning hv hshows

/-- The first process spawns the clock and another child and waits, the other child exits, and the
timer gives way to the clock. -/
theorem clockProcess_keepsRunning_waitingParent : ∃ k₀ k₁ k,
    Runs.run Kernel.step sampleLayout.boot [.start] = some k₀ ∧
      k₀.step (.syscall .spawn) = some k₁ ∧
        Runs.run Kernel.step k₁ [.syscall .spawn, .syscall (.wait 0 none), .timer,
          .syscall (.exit 5), .timer] = some k ∧ k.KeepsRunning (0x400000 + 17544) := by
  have hruns : ∃ k₀ ∈ Runs.run Kernel.step sampleLayout.boot [.start],
      k₀.pcbs.allocator.getBlock.1 = some (0x400000 + 17544) ∧
        ∃ k₁ ∈ k₀.step (.syscall .spawn),
          Runs.Meets Kernel.step (Kernel.ClockSafe (0x400000 + 17544)) k₁ [.syscall .spawn,
            .syscall (.wait 0 none), .timer, .syscall (.exit 5), .timer] ∧
          (Runs.run Kernel.step k₁ [.syscall .spawn, .syscall (.wait 0 none), .timer,
            .syscall (.exit 5), .timer]).isSome := by decide +kernel
  obtain ⟨k₀, hboot, hchild, k₁, hspawn, hmeets, hrun⟩ := hruns
  obtain ⟨k, hk⟩ := Option.isSome_iff_exists.mp hrun
  exact ⟨k₀, k₁, k, hboot, hspawn, hk,
    clockProcess_keepsRunning sampleLayout (by simp) hboot hchild hspawn hmeets hk⟩

end DisastrOS
