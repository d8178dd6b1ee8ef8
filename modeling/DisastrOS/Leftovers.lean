import DisastrOS.Refinement

/-!
# What a zombie leaves behind

A process that exits while its parent does not wait for it keeps its descriptors: it is a zombie, and
never runs again to close them (`Processes.Gone`). The `wait` that takes it away frees its PCB only, and
the next process in the block starts with an empty list of descriptors, while the resources still count
the old ones. So whatever it had open can never be removed again (`exit_pins_resource`).

The proof puts the two abstract models side by side: the processes say that nobody runs in the block until a
new process is made in it, and the table of handles says that the use outlives the handle.
-/

set_option autoImplicit false
set_option relaxedAutoImplicit false

namespace DisastrOS

open LinkedLists PoolAllocator HandleTables
open Function (update)

namespace Processes

variable {v v' : Processes} {e : Event} {p q : Addr}

/-- Process `p` neither runs nor is it ever made to run: it is a zombie, or was taken away. -/
structure Gone (p : Addr) (v : Processes) : Prop where
  notRunning : v.running ≠ some p
  notReady : p ∉ v.queue .ready
  notWaiting : p ∉ v.queue .waiting

theorem Gone.schedule (h : v.Gone p) (hv : v.Consistent) (hq : v.running = some q) :
    (v.schedule q).Gone p := by
  have hne : p ≠ q := by
    rintro rfl
    exact h.notRunning hq
  cases hcases : v.due ++ v.queue .ready with
  | nil =>
    rw [schedule_nil hcases]
    exact h
  | cons next rest =>
    have hnot : p ∉ next :: rest := by
      rw [← hcases, List.mem_append, not_or]
      refine ⟨fun hdue ↦ ?_, h.notReady⟩
      obtain ⟨t, ht, rfl⟩ := List.mem_map.mp hdue
      exact h.notWaiting (hv.sleeps t ((List.takeWhile_sublist _).subset ht)).1
    rw [List.mem_cons, not_or] at hnot
    rw [schedule_cons hcases]
    refine ⟨fun hruns ↦ hnot.1 (Option.some.inj hruns).symm, ?_, ?_⟩
    · simp [hnot.2, hne]
    · simp [h.notWaiting]

theorem Gone.block (h : v.Gone p) (hne : p ≠ q) : (v.block q).Gone p where
  notRunning hruns := h.notReady (List.mem_of_head? hruns)
  notReady hmem := h.notReady (List.mem_of_mem_tail (by simpa [Processes.block] using hmem))
  notWaiting hmem := by simp [Processes.block, h.notWaiting, hne] at hmem

/-- The exit of a process takes it out of what can run, whoever runs then. -/
theorem Gone.exitToParent {parent i : Addr} {value : ℤ} (hready : p ∉ v.queue .ready)
    (hwaiting : p ∉ v.queue .waiting) (hparent : parent ≠ p) :
    (v.exitToParent q i parent value).Gone p where
  notRunning hruns := hparent (Option.some.inj hruns)
  notReady := by simpa [Processes.exitToParent] using hready
  notWaiting hmem := hwaiting (List.mem_of_mem_erase (by simpa [Processes.exitToParent] using hmem))

theorem Gone.exitToReady {next i : Addr} {value : ℤ} (hready : p ∉ v.queue .ready)
    (hwaiting : p ∉ v.queue .waiting) (hnext : (v.queue .ready).head? = some next) :
    (v.exitToReady q i next value).Gone p where
  notRunning hruns := hready (List.mem_of_head? (hnext.trans hruns))
  notReady hmem := hready (List.mem_of_mem_tail (by simpa [Processes.exitToReady] using hmem))
  notWaiting := by simpa [Processes.exitToReady] using hwaiting

/-- A process that is gone stays so until a new one is made in its block. -/
theorem Gone.step (h : v.Gone p) (hv : v.Consistent) (hstep : v.Step e v') :
    v'.Gone p ∨ (e = .start ∨ e = .call .fork ∨ e = .call .spawn) ∧ p ∉ v.all ∧ p ∈ v'.all := by
  have hne : ∀ q, v.running = some q → p ≠ q := by
    rintro q hq rfl
    exact h.notRunning hq
  cases hstep with
  | quiet | sleepFails | waitFails | other => exact Or.inl ⟨h.notRunning, h.notReady, h.notWaiting⟩
  | start q hidle hfresh =>
    by_cases hsame : p = q
    · subst hsame
      exact Or.inr ⟨Or.inl rfl, hfresh, mem_all_of_running rfl⟩
    · exact Or.inl ⟨fun hruns ↦ hsame (Option.some.inj hruns).symm, h.notReady, h.notWaiting⟩
  | tick q hq =>
    have htick : ({ v with time := toInt (v.time + 1) } : Processes).Gone p :=
      ⟨h.notRunning, h.notReady, h.notWaiting⟩
    exact Or.inl (htick.schedule { hv with } hq)
  | preempt q hq =>
    have htrap : (v.trap q .preempt).Gone p := ⟨h.notRunning, h.notReady, h.notWaiting⟩
    exact Or.inl (htrap.schedule (hv.trap hq _) hq)
  | create q c x call hcall hq hfresh _ =>
    by_cases hsame : p = c
    · subst hsame
      refine Or.inr ⟨Or.inr ?_, hfresh, mem_all_of_queue (l := .ready) ?_⟩
      · exact hcall.imp (congrArg Event.call) (congrArg Event.call)
      · simp [Processes.create]
    · refine Or.inl ⟨h.notRunning, fun hmem ↦ ?_, fun hmem ↦ ?_⟩
      · simp [Processes.create, Processes.trap, h.notReady, hsame] at hmem
      · simp [Processes.create, Processes.trap, h.notWaiting] at hmem
  | sleep q t cycles hq _ =>
    have hadded : ((v.trap q (.sleep cycles)).addTimer t q (toInt (v.time + cycles))).Gone p :=
      ⟨h.notRunning, h.notReady, h.notWaiting⟩
    exact Or.inl (hadded.block (hne q hq))
  | reap q x pid result hq _ _ =>
    refine Or.inl ⟨h.notRunning, fun hmem ↦ ?_, fun hmem ↦ ?_⟩
    · simp [Processes.reap, Processes.trap, h.notReady] at hmem
    · simp [Processes.reap, Processes.trap, h.notWaiting] at hmem
  | wait q x pid result hq _ _ =>
    have htrap : (v.trap q (.wait pid result)).Gone p := ⟨h.notRunning, h.notReady, h.notWaiting⟩
    exact Or.inl (htrap.block (hne q hq))
  | exitToParent q i parent value hq _ _ hawaits =>
    refine Or.inl (.exitToParent h.notReady h.notWaiting ?_)
    rintro rfl
    exact h.notWaiting (hv.waiting_of_status hawaits.1)
  | exitToReady q i parent next value hq _ _ _ hnext =>
    exact Or.inl (.exitToReady h.notReady h.notWaiting hnext)

/-- A process that exits is gone. -/
theorem Step.gone_of_exit {value : ℤ} (hstep : v.Step (.call (.exit value)) v') (hv : v.Consistent)
    (hp : v.running = some p) : v'.Gone p := by
  have hready := hv.unlisted hp .ready
  have hwaiting := hv.unlisted hp .waiting
  cases hstep with
  | exitToParent q i parent _ hq _ _ hawaits =>
    refine .exitToParent hready hwaiting ?_
    rintro rfl
    exact hwaiting (hv.waiting_of_status hawaits.1)
  | exitToReady q i parent next _ hq _ _ _ hnext => exact .exitToReady hready hwaiting hnext
  | create _ _ _ _ hcall => exact absurd hcall (by simp)
  | other _ _ _ hother => exact absurd hother (by simp [Syscall.concernsProcesses])

end Processes

namespace Kernel

variable {k k' : Kernel} {v : Processes} {t : ResourceTable} {a : Action} {p q parent : Addr}
  {fd id type : ℤ}

/-! ### The two models side by side -/

theorem fileEvent_running {c : Syscall} {ret : ℤ} (hevent : k.fileEvent a k' = .call p c ret) :
    k.running = some p := by
  unfold fileEvent at hevent
  split_ifs at hevent
  · split at hevent <;> exact FileEvent.noConfusion hevent
  · split at hevent
    · rename_i q c' hq _
      split_ifs at hevent
      rw [hq, (FileEvent.call.inj hevent).1]
    · exact FileEvent.noConfusion hevent

/-- A block that is handed out by a step is the one of the new process. -/
theorem fileEvent_of_allocated (hok : k.pcbs.allocator.Ok)
    (hcreates : a = .start ∨ k.request a = some .fork ∨ k.request a = some .spawn)
    (hold : ¬ k.pcbs.allocator.Allocated p) (hnew : k'.pcbs.allocator.Allocated p)
    (hstep : k.step a = some k') : k.fileEvent a k' = .creates p := by
  have hfresh : ∀ {q : Addr} {pool : PoolAllocator}, k.pcbs.allocator.getBlock = (some q, pool) →
      k'.pcbs.allocator = pool → k.fileEvent a k' = .creates p := by
    intro q pool hget hpool
    rw [hpool, (getBlock_some hok hget).2.2.2.2] at hnew
    obtain rfl : p = q := hnew.resolve_right hold
    exact fileEvent_create hcreates (congrArg Prod.fst hget) k'
  have hcall : ∀ c, c = .fork ∨ c = .spawn → k.request a = some c → k.fileEvent a k' = .creates p := by
    intro c hc hrequest
    obtain ⟨q, hq⟩ := running_of_request hrequest
    obtain ⟨next, -, hcall⟩ := step_syscall hq hrequest hstep
    rcases hc with rfl | rfl
    all_goals
      obtain ⟨⟨child, k₁⟩, hmade, hk'⟩ := Option.bind_eq_some_iff.mp hcall
      obtain rfl := Option.some.inj hk'
      obtain ⟨_, pool, x, ptrPool, -, hget, -, -, rfl⟩ := newProcess_cases hmade
      exact hfresh hget rfl
  rcases hcreates with rfl | hrequest | hrequest
  · obtain ⟨-, q, pool, hget, rfl⟩ := startProcess_cases hstep
    exact hfresh hget rfl
  · exact hcall .fork (Or.inl rfl) hrequest
  · exact hcall .spawn (Or.inr rfl) hrequest

/-- The use that a process has left behind: its descriptor is still there and nobody can close it, or
belongs to nobody any more. -/
structure LeftBehind (p : Addr) (fd id type : ℤ) (k : Kernel) (v : Processes) (t : ResourceTable) :
    Prop where
  processes : k.ShowsProcesses v
  tabulates : k.Tabulates t
  stays : v.Gone p ∧ t.Names p fd id type ∨ t.Pinned id type

theorem LeftBehind.step (h : k.LeftBehind p fd id type v t) (hcalls : k.CallsNoUsers a)
    (hstep : k.step a = some k') : ∃ v' t', k'.LeftBehind p fd id type v' t' := by
  have hshutdown : k.CallsNoShutdown a := fun hrequest ↦ Bool.noConfusion (hcalls _ hrequest)
  obtain ⟨v', hstep', hprocesses'⟩ := h.processes.step hcalls hstep
  obtain ⟨t', htable, htabulates'⟩ := h.tabulates.step hshutdown hstep
  refine ⟨v', t', hprocesses', htabulates', ?_⟩
  rcases h.stays with ⟨hgone, hnames⟩ | hpinned
  · by_cases hends : (k.fileEvent a k').Ends p fd
    · -- nobody runs in the block, so a new process is made in it
      refine Or.inr ?_
      cases hevent : k.fileEvent a k' with
      | quiet =>
        rw [hevent] at hends
        exact hends.elim
      | creates q =>
        rw [hevent] at hends htable
        obtain rfl : q = p := hends
        cases htable
        exact hnames.pinned_renew h.tabulates.sound
      | call q c ret =>
        rw [hevent] at hends
        have hruns := (h.processes.shows_.running.symm.trans (fileEvent_running hevent)).trans
          (congrArg some hends.1)
        exact absurd hruns hgone.notRunning
    · refine Or.inl ⟨?_, htable.names h.tabulates.sound hnames hends⟩
      obtain hgone' | ⟨hcreates, hfree, hmade⟩ := hgone.step h.processes.consistent hstep'
      · exact hgone'
      · have hold : ¬ k.pcbs.allocator.Allocated p := hfree ∘ h.processes.shows_.allocated_iff.mp
        have hnew : k'.pcbs.allocator.Allocated p := hprocesses'.shows_.allocated_iff.mpr hmade
        rw [event_eq_start, event_eq_call, event_eq_call] at hcreates
        rw [fileEvent_of_allocated h.processes.shows_.pcbPool hcreates hold hnew hstep] at hends
        exact absurd rfl hends
  · exact Or.inr (htable.pinned hpinned)

/-- The resource is there and in use. -/
theorem LeftBehind.inuse (h : k.LeftBehind p fd id type v t) :
    t.kind id = some type ∧ t.uses id ≠ 0 := by
  rcases h.stays with ⟨-, hnames⟩ | hpinned
  · refine ⟨hnames.kind, fun hunused ↦ ?_⟩
    exact h.tabulates.sound.handle_ne hunused p fd hnames.handle
  · exact ⟨hpinned.kind, Nat.one_le_iff_ne_zero.mp hpinned.spare.le_uses⟩

/-! ### The exit -/

/-- An exit to a ready process leaves the descriptors alone. -/
theorem internalExit_files_of_alone {value : ℤ} (hp : k.running = some p)
    (hparent : k.pcbs.parent p = some parent) (halone : parent ≠ p → k.awaits parent p = false)
    (hexit : internalExit value k = some k') : k'.files = k.files := by
  obtain ⟨p', k₁, parent', hp', hzombie, hparent', hcases⟩ := internalExit_cases hexit
  obtain rfl := Option.some.inj (hp.symm.trans hp')
  have hframe := becomeZombie_eq hzombie
  obtain rfl : parent = parent' := by
    rw [hframe] at hparent'
    exact Option.some.inj (hparent.symm.trans hparent')
  rcases hcases with ⟨hawaits, -⟩ | ⟨-, hexit⟩
  · rw [becomeZombie_awaits hzombie, Bool.and_eq_true, decide_eq_true_iff] at hawaits
    exact absurd (hawaits.2.symm.trans (halone hawaits.1)) (by decide)
  · rw [exitToReady_eq hexit, hframe]
    rfl

theorem step_destroyResource (hok : k.files.Ok) (hp : k.running = some p)
    (hrequest : k.request a = some (.destroyResource id)) (hstep : k.step a = some k') :
    k'.answer p = ResourceTable.destroyCall k.files.table id := by
  obtain ⟨next, -, hcall⟩ := step_syscall hp hrequest hstep
  exact internalDestroyResource_answer (k := k.trap p next (.destroyResource id)) hok hp hcall

theorem awaits_trap {next : Context} {c : Syscall} (hne : parent ≠ p) :
    (k.trap p next c).awaits parent p = k.awaits parent p := by
  simp only [awaits, trap, setContext, Function.update_of_ne hne]
  rfl

theorem leftBehind_of_exit {value : ℤ} (hprocesses : k.ShowsProcesses v) (htabulates : k.Tabulates t)
    (hp : k.running = some p) (hnames : t.Names p fd id type)
    (hparent : k.pcbs.parent p = some parent) (halone : k.awaits parent p = false)
    (hrequest : k.request a = some (.exit value)) (hexit : k.step a = some k') :
    ∃ v' t', k'.LeftBehind p fd id type v' t' := by
  have hcalls : k.CallsNoUsers a := by
    intro c hc
    obtain rfl := Option.some.inj (hrequest.symm.trans hc)
    rfl
  obtain ⟨v', hstep', hprocesses'⟩ := hprocesses.step hcalls hexit
  obtain ⟨t', -, htabulates'⟩ := htabulates.step
    (fun hshutdown ↦ Bool.noConfusion (hcalls _ hshutdown)) hexit
  rw [event_eq_call.mpr hrequest] at hstep'
  have hgone := hstep'.gone_of_exit hprocesses.consistent (hprocesses.shows_.running.symm.trans hp)
  obtain ⟨next, -, hcall⟩ := step_syscall hp hrequest hexit
  have hfiles : k'.files = k.files := internalExit_files_of_alone (k := k.trap p next (.exit value)) hp
    hparent (fun hne ↦ (awaits_trap hne).trans halone) hcall
  have hsame : t' = t := by rw [← htabulates'.same, hfiles, htabulates.same]
  exact ⟨v', t', hprocesses', htabulates', Or.inl ⟨hgone, hsame ▸ hnames⟩⟩

end Kernel

/-- What a process has open that becomes a zombie is never removed again. -/
theorem exit_pins_resource (layout : Layout) {before after : List Action} {a a' : Action}
    {k k₁ k' k₂ : Kernel} {p q parent : Addr} {fd id type value : ℤ}
    (hbefore : Runs.Meets Kernel.step Kernel.CallsNoUsers layout.boot before)
    (hrun : Runs.run Kernel.step layout.boot before = some k) (hp : k.running = some p)
    (hnames : k.files.table.Names p fd id type) (hparent : k.pcbs.parent p = some parent)
    (halone : k.awaits parent p = false) (hrequest : k.request a = some (.exit value))
    (hexit : k.step a = some k₁)
    (hafter : Runs.Meets Kernel.step Kernel.CallsNoUsers k₁ after)
    (hrun' : Runs.run Kernel.step k₁ after = some k') (hq : k'.running = some q)
    (hrequest' : k'.request a' = some (.destroyResource id)) (hdestroy : k'.step a' = some k₂) :
    k₂.pcbs.syscallRetvalue q = dsosEresourceinuse ∧ k₂.files.table = k'.files.table := by
  obtain ⟨hshutdown, v₀, hshows₀, hv₀, -⟩ := layout.boot_satisfies (P := fun _ _ ↦ True) trivial
  -- up to the exit
  obtain ⟨v, t, hprocesses, htabulates⟩ : ∃ v t, k.ShowsProcesses v ∧ k.Tabulates t := by
    refine Runs.run_invariant (P := fun k ↦ ∃ v t, Kernel.ShowsProcesses k v ∧ Kernel.Tabulates k t)
      ?_ ⟨v₀, _, ⟨hshutdown, hshows₀, hv₀⟩, layout.boot_tabulates⟩ hbefore hrun
    rintro k a k' ⟨v, t, hprocesses, htabulates⟩ hcalls hstep
    obtain ⟨v', -, hprocesses'⟩ := hprocesses.step hcalls hstep
    obtain ⟨t', -, htabulates'⟩ := htabulates.step
      (fun hrequest ↦ Bool.noConfusion (hcalls _ hrequest)) hstep
    exact ⟨v', t', hprocesses', htabulates'⟩
  rw [htabulates.same] at hnames
  -- from the exit on
  have hleft := Kernel.leftBehind_of_exit hprocesses htabulates hp hnames hparent halone
    hrequest hexit
  obtain ⟨v', t', hleft'⟩ := Runs.run_invariant
    (P := fun k ↦ ∃ v t, Kernel.LeftBehind p fd id type k v t)
    (fun k a k' h hcalls hstep ↦ h.elim fun _ h ↦ h.elim fun _ h ↦ h.step hcalls hstep) hleft hafter hrun'
  have hanswer := Kernel.step_destroyResource hleft'.tabulates.ok hq hrequest' hdestroy
  rw [hleft'.tabulates.same, ResourceTable.destroyCall_inuse hleft'.inuse.1 hleft'.inuse.2] at hanswer
  rw [hleft'.tabulates.same]
  exact Prod.mk.inj hanswer

/-- A child opens a resource and exits, and its parent takes it away: `dmq_unlink` cannot remove it. -/
theorem exit_pins_resource_reaped : ∃ k k₁ k' k₂,
    Runs.run Kernel.step sampleLayout.boot [.start, .syscall .spawn, .timer,
      .syscall (.openResource 7 1 dsosCreate)] = some k ∧ k.step (.syscall (.exit 0)) = some k₁ ∧
      Runs.run Kernel.step k₁ [.syscall (.wait 0 none), .call (.unlink 7)] = some k' ∧
      k'.step .statement = some k₂ ∧ k₂.pcbs.syscallRetvalue 0x400000 = dsosEresourceinuse ∧
      k₂.files.table = k'.files.table := by
  have hruns : ∃ k ∈ Runs.run Kernel.step sampleLayout.boot [.start, .syscall .spawn, .timer,
      .syscall (.openResource 7 1 dsosCreate)], k.running = some (0x400000 + 17544) ∧
        (k.files.table.handle (0x400000 + 17544) 0 = some 7 ∧ k.files.table.kind 7 = some 1) ∧
        k.pcbs.parent (0x400000 + 17544) = some 0x400000 ∧
        k.awaits 0x400000 (0x400000 + 17544) = false ∧
        k.request (.syscall (.exit 0)) = some (.exit 0) ∧ ∃ k₁ ∈ k.step (.syscall (.exit 0)),
          Runs.Meets Kernel.step Kernel.CallsNoUsers k₁ [.syscall (.wait 0 none), .call (.unlink 7)] ∧
          ∃ k' ∈ Runs.run Kernel.step k₁ [.syscall (.wait 0 none), .call (.unlink 7)],
            k'.running = some 0x400000 ∧ k'.request .statement = some (.destroyResource 7) ∧
              (k'.step .statement).isSome := by
    decide +kernel
  obtain ⟨k, hk, hp, ⟨hhandle, hkind⟩, hparent, halone, hrequest, k₁, hexit, hmeets, k', hk', hq, hrequest',
    hsome⟩ := hruns
  obtain ⟨k₂, hdestroy⟩ := Option.isSome_iff_exists.mp hsome
  exact ⟨k, k₁, k', k₂, hk, hexit, hk', hdestroy, exit_pins_resource sampleLayout (by decide +kernel) hk
    hp ⟨hhandle, hkind⟩ hparent halone hrequest hexit hmeets hk' hq hrequest' hdestroy⟩

end DisastrOS
