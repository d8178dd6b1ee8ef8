import DisastrOS.MemberPoints
import DisastrOS.NonBlocking
import DisastrOS.TableConsistency

/-!
# Points of the openings

Where the processes stand between the `OPEN_RESOURCE` and the `OPEN_QUEUE` of a `dmq_open` and between
the first statement and the `CLOSE_RESOURCE` of a `dmq_close`. A process inside a queue function is there
and no zombie (`Kernel.Inside`), so that its block is not given to another one; a `dmq_close` keeps the
descriptor it has found (`closes_step`), and the descriptor of a `dmq_open` is not noted before its
`OPEN_QUEUE` (`entering_step`).
-/

set_option autoImplicit false
set_option relaxedAutoImplicit false

namespace DisastrOS

open LinkedLists PoolAllocator
open Function (update)

/-! ### Processes that are there -/

namespace Processes

variable {v v' : Processes} {e : Event} {p : Addr}

/-- The process is there, and no zombie. -/
structure Active (v : Processes) (p : Addr) : Prop where
  mem : p ∈ v.all
  notZombie : v.status p ≠ .zombie

theorem Consistent.active_running (h : v.Consistent) (hp : v.running = some p) : v.Active p := by
  refine ⟨mem_all_of_running hp, ?_⟩
  rcases h.status_running p hp with hstatus | hstatus <;> simp [hstatus]

theorem Step.active (hstep : v.Step e v') (hv : v.Consistent) (h : v.Active p)
    (hexit : ∀ value, e = .call (.exit value) → v.running ≠ some p) : v'.Active p :=
  ⟨hstep.mem_all hv h.notZombie hexit h.mem, hstep.noZombie h.notZombie hexit⟩

end Processes

/-- The descriptor and the queue of a `dmq_close` that has not closed the descriptor yet. -/
def Context.closes : Context → Option (ℤ × Addr)
  | .closeDetach fd q _ _ | .closeFree fd q _ _ _ | .closeResource fd q => some (fd, q)
  | _ => none

namespace Kernel

variable {k k' : Kernel} {v v' : Processes} {a : Action} {m : Addr → Option Opening}
  {p q d : Addr} {fd : ℤ}

/-- A statement that is executed makes no system call. -/
theorem request_of_runStatement {context : Context} (hrun : k.runStatement p context = some k') :
    context.request = none := by
  cases context with
  | closeResource | openResource | openQueue | transferCall | transferRetry | transferWake | unlink
  | graveyard => cases hrun
  | _ => rfl

/-- An exit leaves its process outside the queue functions. -/
theorem Calls.next_of_exit {value : ℤ} {next : Context} (hcalls : k.Calls p a (.exit value) next) :
    ∃ ret, next = .user ret := by
  cases hcalls with
  | user _ ret => exact ⟨ret, rfl⟩
  | statement _ _ hrequest =>
    generalize k.pcbs.cpuState p = context at hrequest
    cases context with
    | graveyard =>
      cases hrequest
      exact ⟨0, rfl⟩
    | transferCall c q =>
      simp only [Context.request, Option.some.injEq, Prod.mk.injEq] at hrequest
      cases hop : c.op <;> simp [TransferCall.syscall, hop] at hrequest
    | _ => cases hrequest

/-- Every process that is inside a queue function is there. -/
def Inside (k : Kernel) (v : Processes) : Prop :=
  ∀ p, (∀ ret, k.pcbs.cpuState p ≠ .user ret) → v.Active p

theorem Inside.step (h : k.Inside v) (hshows : k.Shows v) (hv : v.Consistent)
    (hnoShutdown : k.NoShutdown) (hshutdown : k.request a ≠ some .shutdown)
    (hstep : k.step a = some k') (hstep' : v.Step (k.event a) v') : k'.Inside v' := by
  intro p hp'
  obtain ⟨hactive, hexit⟩ : v.Active p ∧
      ∀ value, k.event a = .call (.exit value) → v.running ≠ some p := by
    have hold {p' : Addr} (hp : k.running = some p') (hne : p ≠ p')
        (hsame : k'.pcbs.cpuState p = k.pcbs.cpuState p) :
        v.Active p ∧ ∀ value, k.event a = .call (.exit value) → v.running ≠ some p := by
      refine ⟨h p (hsame ▸ hp'), fun _ _ hrunning ↦ hne ?_⟩
      exact Option.some.inj (hrunning.symm.trans (hshows.running.symm.trans hp))
    cases step_contexts hnoShutdown hshutdown hstep with
    | same hcontexts hquiet =>
      refine ⟨h p (hcontexts ▸ hp'), fun value hevent ↦ ?_⟩
      exact absurd (hquiet.symm.trans (event_eq_call.mp hevent)) (by simp)
    | start p' hidle _ hcontexts =>
      rw [hcontexts] at hp'
      have hne : p ≠ p' := by
        rintro rfl
        exact hp' 0 (Function.update_self ..)
      rw [Function.update_of_ne hne] at hp'
      refine ⟨h p hp', fun _ _ hrunning ↦ ?_⟩
      exact absurd (hidle.symm.trans (hshows.running.trans hrunning)) (by simp)
    | call p' c ret haction hp _ hsame =>
      by_cases hne : p = p'
      · subst hne
        refine ⟨hv.active_running (hshows.running.symm.trans hp), fun value hevent ↦ ?_⟩
        subst haction
        cases hevent
      · exact hold hp hne (by rw [hsame]; exact Function.update_of_ne hne ..)
    | syscall p' c next hp hcalls _ hcontexts =>
      by_cases hne : p = p'
      · subst hne
        refine ⟨hv.active_running (hshows.running.symm.trans hp), fun value hevent ↦ ?_⟩
        obtain rfl := Option.some.inj ((hcalls.request hp).symm.trans (event_eq_call.mp hevent))
        obtain ⟨ret, rfl⟩ := hcalls.next_of_exit
        exact absurd (by rw [hcontexts, Function.update_self]) (hp' ret)
      · exact hold hp hne (by rw [hcontexts, Function.update_of_ne hne])
    | spawn p' child next hp hcalls _ _ hcontexts =>
      have hchild : p ≠ child := by
        rintro rfl
        exact hp' 0 (by rw [hcontexts, Function.update_self])
      by_cases hne : p = p'
      · subst hne
        refine ⟨hv.active_running (hshows.running.symm.trans hp), fun value hevent ↦ ?_⟩
        exact absurd ((hcalls.request hp).symm.trans (event_eq_call.mp hevent)) (by simp)
      · exact hold hp hne (by rw [hcontexts, Function.update_of_ne hchild, Function.update_of_ne hne])
    | statement p' next haction hp hrun _ _ hcontexts =>
      by_cases hne : p = p'
      · subst hne
        refine ⟨hv.active_running (hshows.running.symm.trans hp), fun value hevent ↦ ?_⟩
        subst haction
        have hrequest := event_eq_call.mp hevent
        rw [request, context, hp, Option.map_some, Option.bind_some,
          request_of_runStatement hrun] at hrequest
        cases hrequest
      · exact hold hp hne (by rw [hcontexts, Function.update_of_ne hne])
  exact hstep'.active hv hactive hexit

/-- A PCB that is not allocated stands outside the queue functions. -/
theorem Inside.user_of_fresh (h : k.Inside v) (hshows : k.Shows v)
    (hfresh : k.pcbs.allocator.getBlock.1 = some p) : ∃ ret, k.pcbs.cpuState p = .user ret := by
  by_contra hnot
  have hactive := h p fun ret hret ↦ hnot ⟨ret, hret⟩
  have hallocated := hshows.allocated_iff.mpr hactive.mem
  obtain ⟨s, hlists⟩ := hshows
  have hpool : k.pcbs.allocator.Ok := hlists.scheduled.pool
  rcases hget : k.pcbs.allocator.getBlock with ⟨_ | p', pool⟩
  · rw [hget] at hfresh
    cases hfresh
  · rw [hget] at hfresh
    obtain rfl := Option.some.inj hfresh
    obtain ⟨-, -, hfree, -⟩ := getBlock_some hpool hget
    exact hfree hallocated

/-! ### The descriptor of a `dmq_close` -/

/-- A process that calls nothing on the table, and is not new, keeps the queue of its descriptor. -/
theorem RefersTo.step (h : k.RefersTo p fd q) (hok : k.files.Ok)
    (hshutdown : k.request a ≠ some .shutdown) (hfork : k.request a ≠ some .fork)
    (hstep : k.step a = some k') (hquiet : ∀ c, k.request a = some c → k.running ≠ some p)
    (hcontext : k'.pcbs.cpuState p ≠ .user 0) : k'.RefersTo p fd q := by
  obtain hsame | ⟨-, huser | hcalls⟩ :=
    step_descriptors hok hshutdown hstep fun c hrequest _ ↦ hquiet c hrequest
  · exact h.of_sameFor hsame
  · exact absurd huser hcontext
  · exact absurd hcalls hfork

/-- The descriptor of a `dmq_close` refers to the queue that was found for it. -/
theorem closes_step (hnoShutdown : k.NoShutdown) (hok : k.files.Ok)
    (hshutdown : k.request a ≠ some .shutdown) (hfork : k.request a ≠ some .fork)
    (h : ∀ p fd q, (k.pcbs.cpuState p).closes = some (fd, q) → k.RefersTo p fd q)
    (hstep : k.step a = some k') (p : Addr) (fd : ℤ) (q : Addr)
    (hcloses : (k'.pcbs.cpuState p).closes = some (fd, q)) : k'.RefersTo p fd q := by
  have hcontext : k'.pcbs.cpuState p ≠ .user 0 := by
    intro huser
    rw [huser] at hcloses
    cases hcloses
  have hkeeps (hrefers : k.RefersTo p fd q) (hquiet : ∀ c, k.request a = some c → k.running ≠ some p) :
      k'.RefersTo p fd q := hrefers.step hok hshutdown hfork hstep hquiet hcontext
  obtain ⟨hsame, hquiet⟩ | ⟨ret, hret⟩ | ⟨call, hentry⟩ | ⟨call, next, hnext, hp, hcalls, -⟩ |
    ⟨next, hnext, hp, rfl, hleads⟩ := (step_contexts hnoShutdown hshutdown hstep).at p
  · rw [hsame] at hcloses
    refine hkeeps (h p fd q hcloses) fun c hrequest hp ↦ hquiet ⟨hp, c, ?_⟩
    obtain ⟨next, hcalls, -⟩ := step_syscall hp hrequest hstep
    exact ⟨next, hcalls⟩
  · rw [hret] at hcloses
    cases hcloses
  · rw [hentry] at hcloses
    cases call <;> cases hcloses
  · rw [hnext] at hcloses
    cases hcalls with
    | user _ ret => cases hcloses
    | statement _ _ hrequest =>
      generalize k.pcbs.cpuState p = context at hrequest
      cases context <;> simp only [Context.request, Option.some.injEq, Prod.mk.injEq, reduceCtorEq]
        at hrequest <;> obtain ⟨-, rfl⟩ := hrequest <;> cases hcloses
  · have hquiet (hrequest : (k.pcbs.cpuState p).request = none) :
        ∀ c, k.request .statement = some c → k.running ≠ some p := by
      intro c hc _
      rw [request, context, hp, Option.map_some, Option.bind_some, hrequest] at hc
      cases hc
    have hpoint := h p
    rw [hnext] at hcloses
    generalize k.pcbs.cpuState p = context at hleads hquiet hpoint
    cases hleads with
    | close fd' q' ds hqueue =>
      obtain ⟨rfl, rfl⟩ : fd' = fd ∧ q' = q := by simpa [Context.closes] using hcloses
      exact hkeeps (refersTo_of_queueByFd hok hqueue) (hquiet rfl)
    | closeDetach | closeFree | closeLast => exact hkeeps (hpoint fd q hcloses) (hquiet rfl)
    | _ => cases hcloses

/-! ### The descriptor of a `dmq_open` -/

/-- Only an `OPEN_QUEUE` notes a descriptor that is not noted yet. -/
theorem noteOpening_none (hnone : m d = none)
    (hopen : ∀ p id fd mode, k.running = some p → k.request a = some (.openQueue id fd mode) →
      k.descriptorByFd p fd ≠ some (some d)) : noteOpening m k a k' d = none := by
  unfold noteOpening
  by_cases hleads : k'.files.Leads d
  · rw [if_neg (not_not.mpr hleads)]
    cases hp : k.running with
    | none => exact hnone
    | some p =>
      dsimp only
      split
      · rw [if_neg fun hboth ↦ hopen p _ _ _ hp ‹_› hboth.2]
        exact hnone
      · rw [hnone, Option.map_none, ite_self]
      · exact hnone
  · rw [if_pos hleads]

/-- The descriptor of a `dmq_open` is not noted before its `OPEN_QUEUE`. -/
theorem entering_step (hnoShutdown : k.NoShutdown) (hok : k.files.Ok)
    (hopens : ∀ p, k.OpenPoint p (k.pcbs.cpuState p)) (hshutdown : k.request a ≠ some .shutdown)
    (hfork : k.request a ≠ some .fork)
    (hallocated : ∀ d o, m d = some o → k.descriptors.allocator.Allocated d)
    (h : ∀ p, ∀ d ∈ k.files.descriptorNodes p, k.leftAt p (k.descriptors.fd d) = none → m d = none)
    (hstep : k.step a = some k') (p : Addr) (d : Addr) (hd : d ∈ k'.files.descriptorNodes p)
    (hleft : k'.leftAt p (k'.descriptors.fd d) = none) : noteOpening m k a k' d = none := by
  have hplain (hplain : (k'.pcbs.cpuState p).plain = true) : False :=
    Option.some_ne_none _ ((leftAt_plain hplain _).symm.trans hleft)
  -- the other processes note nothing of the descriptors of this one
  have hother (hmem : d ∈ k.files.descriptorNodes p) (hnone : m d = none)
      (hquiet : ∀ id fd mode, k.request a = some (.openQueue id fd mode) → k.running ≠ some p) :
      noteOpening m k a k' d = none := by
    refine noteOpening_none hnone fun p' id fd mode hp' hrequest hfound ↦ ?_
    have hne : p ≠ p' := by
      rintro rfl
      exact hquiet id fd mode hrequest hp'
    exact hok.disjoint hne hmem (descriptorByFd_some hok hfound).1
  obtain ⟨hsame, hquiet⟩ | ⟨ret, hret⟩ | ⟨call, hentry⟩ | ⟨call, next, hnext, hp, hcalls, hcall⟩ |
    ⟨next, hnext, hp, rfl, hleads⟩ := (step_contexts hnoShutdown hshutdown hstep).at p
  · have hnoCall (c : Syscall) (hrequest : k.request a = some c) : k.running ≠ some p := fun hp ↦ by
      obtain ⟨next, hcalls, -⟩ := step_syscall hp hrequest hstep
      exact hquiet ⟨hp, c, next, hcalls⟩
    obtain hfiles | ⟨-, huser | hforks⟩ :=
      step_descriptors hok hshutdown hstep fun c hrequest _ ↦ hnoCall c hrequest
    · rw [hfiles.nodes] at hd
      have hfd : k'.descriptors.fd d = k.descriptors.fd d := (hfiles.kept d hd).fd
      rw [hfd, leftAt_congr hsame] at hleft
      · exact hother hd (h p d hd hleft) fun id fd mode hrequest ↦ hnoCall _ hrequest
      · intro id mode hpoint
        have hopen := hopens p
        rw [hpoint] at hopen
        obtain ⟨⟨mode', hlast⟩, -⟩ := hopen
        obtain ⟨-, hret⟩ | ⟨_, _, -, hwait⟩ | hcalled := step_retvalue hshutdown hstep p
        · exact hret
        · exact absurd (hlast.symm.trans hwait) (by simp)
        · exact absurd hcalled hquiet
    · exact (hplain (by rw [huser]; rfl)).elim
    · exact absurd hforks hfork
  · exact (hplain (by rw [hret]; rfl)).elim
  · exact (hplain (by rw [hentry]; cases call <;> rfl)).elim
  · cases hcalls with
    | user _ ret => exact (hplain (by rw [hnext]; rfl)).elim
    | statement _ _ hrequest =>
      generalize hcontext : k.pcbs.cpuState p = context at hrequest
      cases context with
      | openResource id mode =>
        cases hrequest
        obtain ⟨p', hp', hopened⟩ := internalOpenResource_files (k := k.trap p _ _) hok hcall
        obtain rfl := Option.some.inj (hp.symm.trans hp')
        have hrequest : k.request .statement = some (.openResource id 2 (resourceFlags mode)) := by
          rw [request, context, hp, Option.map_some, Option.bind_some, hcontext]
          rfl
        have hok' := filesOk_step hok hshutdown hstep
        rw [leftAt, hnext] at hleft
        obtain ⟨-, hret⟩ | ⟨d', hfree, hnodes, hfd, hret⟩ := Opens.newDescriptor
          (k := k.trap p (.openResult id mode) (.openResource id 2 (resourceFlags mode))) hok hopened
        · rw [if_neg fun hboth ↦ absurd hboth.1 (not_le.mpr hret)] at hleft
          cases hleft
        · have hd' : d' ∈ k'.files.descriptorNodes p := by
            rw [hnodes]
            exact List.mem_append_right _ (List.mem_singleton_self d')
          dsimp only at hleft
          split_ifs at hleft with hboth
          obtain rfl := hok'.fd_inj p d hd d' hd' (hboth.2.trans hfd.symm)
          refine noteOpening_none ?_ fun p' id' fd mode' _ hrequest' ↦ ?_
          · cases ho : m d with
            | none => rfl
            | some o => exact absurd (hallocated d o ho) hfree
          · rw [hrequest] at hrequest'
            cases hrequest'
      | _ =>
        simp only [Context.request, Option.some.injEq, Prod.mk.injEq, reduceCtorEq] at hrequest <;>
          obtain ⟨-, rfl⟩ := hrequest <;> exact (hplain (by rw [hnext]; rfl)).elim
  · generalize hcontext : k.pcbs.cpuState p = context at hleads
    cases hleads with
    | openResult id mode hnonneg =>
      have hrequest : k.request .statement = none := by
        rw [request, context, hp, Option.map_some, Option.bind_some, hcontext]
        rfl
      have hfiles : k'.files = k.files := by
        rw [step_statement hp hcontext rfl] at hstep
        rw [runStatement_eq hstep]
        rfl
      have hfd : k'.descriptors.fd d = k.descriptors.fd d :=
        congrArg (fun f : Files ↦ f.descriptors.fd d) hfiles
      rw [hfiles] at hd
      rw [leftAt, hnext, hfd] at hleft
      dsimp only at hleft
      split_ifs at hleft with hret
      refine hother hd (h p d hd ?_) fun id fd mode hopen ↦ absurd (hrequest.symm.trans hopen) (by simp)
      rw [leftAt, hcontext]
      exact if_pos ⟨hnonneg, hret⟩
    | _ =>
      rw [leftAt, hnext] at hleft
      cases hleft

end Kernel

end DisastrOS
