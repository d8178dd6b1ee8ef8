import DisastrOS.QueueMembers

/-!
# Points of the members

Where the processes stand in the runs of `dmq_open`, `dmq_close`, `dmq_send`, `dmq_receive`, `dmq_getattr`
and `dmq_setattr` in which no `dmq_open` fails once it has a descriptor (`Kernel.MembersSafe`): what is noted
of the descriptors of a process at each point (`MemberPoint`), and the invariant of the runs (`MembersInv`),
which the steps that leave the users of the queues alone keep.
-/

set_option autoImplicit false
set_option relaxedAutoImplicit false

namespace DisastrOS

open LinkedLists PoolAllocator
open Function (update)

/-! ### Points of the user code -/

/-- The roles that `dmq_close` goes through before this one. -/
def Role.passed : Role → Role → Bool
  | .reader, _ => false
  | .writer, role => role = .reader
  | .nonBlock, role => role ≠ .nonBlock

theorem Role.passed_next {role next : Role} (h : role.next = some next) :
    update role.passed role true = next.passed := by
  funext role'
  cases role <;> cases h <;> cases role' <;> rfl

theorem Role.passed_last {role : Role} (h : role.next = none) :
    update role.passed role true = fun _ ↦ true := by
  funext role'
  cases role with
  | reader | writer => cases h
  | nonBlock => cases role' <;> rfl

/-- The descriptor that a `dmq_close` is about to take out of the lists of its queue. -/
def Context.closing : Context → Option (ℤ × Addr × Addr)
  | .closeDetach fd q ds _ | .closeFree fd q ds _ _ => some (fd, q, ds)
  | _ => none

/-- The point is not in the middle of a `dmq_open` or a `dmq_close`. -/
def Context.plain : Context → Bool
  | .openResult .. | .openQueue .. | .closeDetach .. | .closeFree .. | .closeResource .. => false
  | _ => true

theorem Context.closing_of_plain {context : Context} (h : context.plain = true) :
    context.closing = none := by
  cases context <;> first | rfl | cases h

namespace Kernel

variable {layout : Layout} {k k' : Kernel} {a : Action} {m m' : Addr → Option Opening}
  {users : Addr × Role → List Addr} {p p' q d u : Addr} {fd : ℤ}

/-- The roles in which process `p` has been taken out of the queue of its descriptor `fd` so far; there
are none as long as a `dmq_open` has not put it in. -/
def leftAt (k : Kernel) (p : Addr) (fd : ℤ) : Option (Role → Bool) :=
  match k.pcbs.cpuState p with
  | .openResult _ _ =>
    if 0 ≤ k.pcbs.syscallRetvalue p ∧ fd = k.pcbs.syscallRetvalue p then none else some fun _ ↦ false
  | .openQueue _ fd' _ => if fd = fd' then none else some fun _ ↦ false
  | .closeDetach fd' _ _ role => some (if fd = fd' then role.passed else fun _ ↦ false)
  | .closeFree fd' _ _ role _ => some (if fd = fd' then update role.passed role true else fun _ ↦ false)
  | .closeResource fd' _ => some (if fd = fd' then fun _ ↦ true else fun _ ↦ false)
  | _ => some fun _ ↦ false

theorem leftAt_plain (h : (k.pcbs.cpuState p).plain = true) (fd : ℤ) :
    k.leftAt p fd = some fun _ ↦ false := by
  unfold leftAt
  cases hcontext : k.pcbs.cpuState p <;> rw [hcontext] at h <;> first | rfl | cases h

/-! ### The condition -/

/-- The system call belongs to the runs. -/
def MembersCall (k : Kernel) (a : Action) : Syscall → Prop
  | .destroyResource _ | .shutdown | .fork => False
  | .openResource .. | .closeResource _ => a = .statement
  | .openQueue .. => a = .statement ∧ ∀ p ∈ k.running, ∀ k' ∈ k.step a, 0 ≤ k'.pcbs.syscallRetvalue p
  | _ => True

/-- The queues are used through the functions of `dmq_open` and its like only, and not unlinked; and an
`OPEN_QUEUE` succeeds. -/
def MembersSafe (k : Kernel) (a : Action) : Prop := ∀ c ∈ k.request a, k.MembersCall a c

instance (k : Kernel) (a : Action) : ∀ c, Decidable (k.MembersCall a c)
  | .destroyResource _ | .shutdown | .fork => isFalse not_false
  | .openResource .. | .closeResource _ => inferInstanceAs (Decidable (a = .statement))
  | .openQueue .. => inferInstanceAs (Decidable (a = .statement ∧ ∀ p ∈ k.running, ∀ k' ∈ k.step a, _))
  | .preempt | .wait .. | .exit _ | .spawn | .sleep _ | .sendMsg .. | .recvMsg .. | .wakeupQueue .. =>
    isTrue trivial

instance (k : Kernel) (a : Action) : Decidable (k.MembersSafe a) :=
  inferInstanceAs (Decidable (∀ c ∈ k.request a, k.MembersCall a c))

theorem MembersSafe.usesQueues (h : k.MembersSafe a) (hstep : k.step a = some k') :
    a.usesQueues = true := by
  cases a with
  | syscall c =>
    have hrequest : k.request (.syscall c) = some c := by
      rw [step] at hstep
      split_ifs at hstep with hat
      rw [request, if_pos hat]
    have hcall := h c hrequest
    cases c with
    | fork | shutdown => exact hcall.elim
    | openQueue => cases hcall.1
    | _ => rfl
  | _ => rfl

theorem MembersSafe.notShutdown (h : k.MembersSafe a) : k.request a ≠ some .shutdown :=
  fun hrequest ↦ h _ hrequest

/-! ### The invariant -/

/-- The descriptors of process `p` are noted, each as far as its `dmq_open` or `dmq_close` has got. -/
structure MemberPoint (k : Kernel) (m : Addr → Option Opening) (p : Addr) : Prop where
  notes : ∀ d ∈ k.files.descriptorNodes p,
    (m d).map Opening.left = k.leftAt p (k.descriptors.fd d)
  closing : ∀ fd q d, (k.pcbs.cpuState p).closing = some (fd, q, d) →
    d ∈ k.files.descriptorNodes p ∧ k.descriptors.fd d = fd ∧
      k.resources.value (k.descriptors.resource d) = some q

/-- Process `p` is about to free user `u`, which it has taken out of its list. -/
def Freeing (k : Kernel) (p u : Addr) : Prop :=
  ∃ fd q ds role, k.pcbs.cpuState p = .closeFree fd q ds role (some u)

theorem Freeing.of_update {next : Context} (h : k'.Freeing p' u)
    (hcontexts : k'.pcbs.cpuState = update k.pcbs.cpuState p next)
    (hnext : ∀ fd q ds role entry, next ≠ .closeFree fd q ds role entry) : p' ≠ p ∧ k.Freeing p' u := by
  obtain ⟨fd, q, ds, role, hcontext⟩ := h
  by_cases hne : p' = p
  · subst hne
    rw [hcontexts, Function.update_self] at hcontext
    exact absurd hcontext (hnext fd q ds role (some u))
  · rw [hcontexts, Function.update_of_ne hne] at hcontext
    exact ⟨hne, fd, q, ds, role, hcontext⟩

/-- The table is in order, the queues are owned, and the users of the queues are the entries of the
descriptors that are noted. -/
structure MembersInv (layout : Layout) (k : Kernel) (m : Addr → Option Opening) : Prop where
  owns : k.OwnsQueues
  backed : k.files.Backed
  entering : ∀ d, k.files.Leads d → m d = none → ∀ role, k.descriptors.rwn d role = none
  clean : ∀ r, ¬ k.resources.allocator.Allocated r → k.resources.value r = none
  enrolled : ∃ users, k.Enrolled layout m users ∧ ∀ p u, k.Freeing p u → k.Aside users u
  freeing_inj : ∀ p p' u, k.Freeing p u → k.Freeing p' u → p = p'
  points : ∀ p, k.MemberPoint m p

theorem MembersInv.ownershipSafe (h : k.MembersInv layout m) (hsafe : k.MembersSafe a)
    (hstep : k.step a = some k') : k.OwnershipSafe a := by
  refine ⟨hsafe.usesQueues hstep, fun c hc ↦ ?_⟩
  cases c with
  | openResource id type mode =>
    intro _ _ r hr
    rcases hget : k.resources.allocator.getBlock with ⟨r', pool⟩
    rw [hget] at hr
    obtain rfl : r' = some r := hr
    obtain ⟨-, -, hfree, -⟩ := getBlock_some h.owns.owned.ok.resourcePool hget
    exact h.clean r hfree
  | _ => trivial

/-- A descriptor that has not been noted has no entries, if it had none before. -/
theorem MembersInv.entering_of_files (h : k.MembersInv layout m) (hfiles : k'.files = k.files)
    (hnotes : ∀ d, m' d = none → m d = none) (d : Addr) (hleads : k'.files.Leads d) (hnone : m' d = none)
    (role : Role) : k'.descriptors.rwn d role = none := by
  have hrwn : k'.descriptors.rwn = k.descriptors.rwn := congrArg (·.descriptors.rwn) hfiles
  rw [hfiles] at hleads
  rw [hrwn]
  exact h.entering d hleads (hnotes d hnone) role

/-! ### Points of the processes -/

/-- A process whose descriptors stay the same, with their notes. -/
theorem MemberPoint.of_sameFor (h : k.MemberPoint m p) (hsame : k.files.SameFor k'.files p)
    (hnotes : ∀ d ∈ k.files.descriptorNodes p, m' d = m d)
    (hleft : ∀ fd, k'.leftAt p fd = k.leftAt p fd)
    (hclosing : ∀ fd q d, (k'.pcbs.cpuState p).closing = some (fd, q, d) →
      d ∈ k.files.descriptorNodes p ∧ k.descriptors.fd d = fd ∧
        k.resources.value (k.descriptors.resource d) = some q) : k'.MemberPoint m' p := by
  have hfd : ∀ d ∈ k.files.descriptorNodes p, k'.descriptors.fd d = k.descriptors.fd d :=
    fun d hd ↦ (hsame.kept d hd).fd
  refine ⟨fun d hd ↦ ?_, fun fd q d hd ↦ ?_⟩
  · rw [hsame.nodes] at hd
    rw [hnotes d hd, hleft, hfd d hd]
    exact h.notes d hd
  · obtain ⟨hmem, rfl, hvalue⟩ := hclosing fd q d hd
    have hresource : k'.descriptors.resource d = k.descriptors.resource d := (hsame.kept d hmem).resource
    rw [hsame.nodes, hresource]
    exact ⟨hmem, hfd d hmem, (hsame.kept d hmem).value q hvalue⟩

/-- A process at a plain point is in the lists of all its descriptors. -/
theorem MemberPoint.of_plain (hplain : (k.pcbs.cpuState p).plain = true)
    (hnotes : ∀ d ∈ k.files.descriptorNodes p, (m d).map Opening.left = some fun _ ↦ false) :
    k.MemberPoint m p := by
  refine ⟨fun d hd ↦ ?_, fun fd q d hclosing ↦ ?_⟩
  · rw [leftAt_plain hplain, hnotes d hd]
  · rw [Context.closing_of_plain hplain] at hclosing
    cases hclosing

theorem MemberPoint.of_empty (hempty : k.files.descriptorNodes p = [])
    (hplain : (k.pcbs.cpuState p).plain = true) : k.MemberPoint m p := by
  refine .of_plain hplain fun d hd ↦ ?_
  rw [hempty] at hd
  exact absurd hd List.not_mem_nil

/-- A process that goes on at a plain point. -/
theorem MemberPoint.of_sameFor_plain (h : k.MemberPoint m p) (hsame : k.files.SameFor k'.files p)
    (hbefore : (k.pcbs.cpuState p).plain = true) (hafter : (k'.pcbs.cpuState p).plain = true) :
    k'.MemberPoint m p := by
  refine .of_plain hafter fun d hd ↦ ?_
  rw [hsame.nodes] at hd
  rw [h.notes d hd, leftAt_plain hbefore]

theorem leftAt_congr (hcontext : k'.pcbs.cpuState p = k.pcbs.cpuState p)
    (hret : ∀ id mode, k.pcbs.cpuState p = .openResult id mode →
      k'.pcbs.syscallRetvalue p = k.pcbs.syscallRetvalue p) (fd : ℤ) :
    k'.leftAt p fd = k.leftAt p fd := by
  unfold leftAt
  rw [hcontext]
  cases hpoint : k.pcbs.cpuState p with
  | openResult id mode =>
    dsimp only
    rw [hret id mode hpoint]
  | _ => rfl

/-- A process that stays where it is, and makes no call, keeps its descriptors and their notes. -/
theorem MembersInv.point_other (h : k.MembersInv layout m) (hsafe : k.MembersSafe a)
    (hstep : k.step a = some k') (hquiet : ¬ (k.running = some p ∧ ∃ c next, k.Calls p a c next))
    (hcontext : k'.pcbs.cpuState p = k.pcbs.cpuState p)
    (hnotes : ∀ d ∈ k.files.descriptorNodes p, d ∈ k'.files.descriptorNodes p → m' d = m d) :
    k'.MemberPoint m' p := by
  have hcalls : ∀ c, k.request a = some c → c.touchesFiles = true → k.running ≠ some p := by
    intro c hrequest _ hp
    obtain ⟨next, hcalls, -⟩ := step_syscall hp hrequest hstep
    exact hquiet ⟨hp, c, next, hcalls⟩
  obtain hsame | ⟨hreset, hnew⟩ :=
    step_descriptors h.owns.owned.ok hsafe.notShutdown hstep hcalls
  · refine (h.points p).of_sameFor hsame (fun d hd ↦ hnotes d hd ?_) (leftAt_congr hcontext ?_) ?_
    · rw [hsame.nodes]
      exact hd
    · intro id mode hpoint
      have hopen := h.owns.opens p
      rw [hpoint] at hopen
      obtain ⟨⟨mode', hcall⟩, -⟩ := hopen
      obtain ⟨-, hret⟩ | ⟨_, _, -, hwait⟩ | hcalled := step_retvalue hsafe.notShutdown hstep p
      · exact hret
      · rw [hcall] at hwait
        cases hwait
      · exact absurd hcalled hquiet
    · rw [hcontext]
      exact (h.points p).closing
  · refine .of_empty ?_ ?_
    · rw [hreset, (Files.Holds.reset h.owns.owned.ok p).descriptorNodes_eq, Function.update_self]
    · obtain huser | hfork := hnew
      · rw [huser]
        rfl
      · exact (hsafe _ hfork).elim

theorem leads_of_mem (hok : k.files.Ok) (hd : d ∈ k.files.descriptorNodes p) : k.files.Leads d := by
  obtain ⟨x, hx, -, hdesc⟩ := hok.pointer p d hd
  exact ⟨x, hx, hdesc⟩

/-- A step notes something only of a descriptor of the running process. -/
theorem MembersInv.noteOpening_other (h : k.MembersInv layout m) (hok : k'.files.Ok)
    (hd : d ∈ k.files.descriptorNodes p) (hd' : d ∈ k'.files.descriptorNodes p)
    (hp : k.running ≠ some p) : noteOpening m k a k' d = m d := by
  have hleads := leads_of_mem hok hd'
  have hown {p' : Addr} (hp' : k.running = some p') : d ∉ k.files.descriptorNodes p' := by
    refine h.owns.owned.ok.disjoint ?_ hd
    rintro rfl
    exact hp hp'
  unfold noteOpening
  rw [if_neg (not_not.mpr hleads)]
  cases hrunning : k.running with
  | none => rfl
  | some p' =>
    dsimp only
    split
    · rw [if_neg]
      rintro ⟨-, hfound⟩
      exact hown hrunning (descriptorByFd_some h.owns.owned.ok hfound).1
    · rename_i hcontext _
      rw [if_neg]
      intro hsame
      refine hown hrunning ?_
      rw [← hsame]
      exact ((h.points p').closing _ _ _ (by rw [hcontext]; rfl)).1
    · rfl

/-! ### Steps that leave the users of the queues alone -/

theorem noteOpening_keeps (hkeeps : k.KeepsMembers a)
    (hleads : ∀ d o, m d = some o → k'.files.Leads d) : noteOpening m k a k' = m := by
  funext d
  rw [noteOpening_quiet hkeeps.notesNothing]
  split_ifs with hd
  · rfl
  · cases ho : m d with
    | none => rfl
    | some o => exact absurd (hleads d o ho) hd

/-- Such a step leads no process to the free of a user. -/
theorem KeepsMembers.freeing (h : k.KeepsMembers a) (hnoShutdown : k.NoShutdown)
    (hshutdown : k.request a ≠ some .shutdown) (hstep : k.step a = some k') (hfree : k'.Freeing p u) :
    k.Freeing p u := by
  obtain ⟨fd, q, ds, role, hcontext⟩ := hfree
  obtain ⟨hsame, -⟩ | ⟨ret, hret⟩ | ⟨call, hentry⟩ | ⟨call, next, hnext, hp, hcalls, -⟩ |
    ⟨next, hnext, hp, ha, hstatement⟩ := (step_contexts hnoShutdown hshutdown hstep).at p
  · exact ⟨fd, q, ds, role, hsame ▸ hcontext⟩
  · rw [hret] at hcontext
    cases hcontext
  · rw [hentry] at hcontext
    cases call <;> cases hcontext
  · rw [hnext] at hcontext
    subst hcontext
    cases hcalls with
    | statement _ _ hrequest =>
      generalize k.pcbs.cpuState p = context at hrequest
      cases context <;> simp [Context.request] at hrequest
  · rw [hnext] at hcontext
    have hleaves := h.2 p hp ha
    generalize k.pcbs.cpuState p = context at hleaves hstatement
    cases hstatement with
    | closeDetach => cases hleaves
    | _ => cases hcontext

/-- A new descriptor has no entries. -/
theorem MembersInv.entering_keeps (h : k.MembersInv layout m) (hshutdown : k.request a ≠ some .shutdown)
    (hkeeps : k.KeepsMembers a) (hstep : k.step a = some k') (d : Addr) (hleads : k'.files.Leads d)
    (hnone : m d = none) (role : Role) : k'.descriptors.rwn d role = none := by
  have hok := h.owns.owned.ok
  have hjoin {f : Files} {p r d' x : Addr} {pool ptrPool : PoolAllocator} (hf : f.Ok)
      (hr : r ∈ f.resourceNodes) (hget : f.descriptors.allocator.getBlock = (some d', pool))
      (hgetPtr : f.descriptorPtrs.allocator.getBlock = (some x, ptrPool))
      (hold : f.Leads d → f.descriptors.rwn d role = none)
      (hfiles : k'.files = f.join p r d' x pool ptrPool) : k'.files.descriptors.rwn d role = none := by
    rw [hfiles] at hleads ⊢
    have hset : (f.join p r d' x pool ptrPool).descriptors.rwn d =
        update f.descriptors.rwn d' (fun _ ↦ none) d := rfl
    rw [hset]
    by_cases hne : d = d'
    · rw [hne, Function.update_self]
    · rw [Function.update_of_ne hne]
      exact hold (hleads.of_join hf hr hget hgetPtr hne)
  have hold (hleads : k.files.Leads d) : k.files.descriptors.rwn d role = none :=
    h.entering d hleads hnone role
  change k'.files.descriptors.rwn d role = none
  cases step_files hshutdown hstep with
  | same hfiles | newProcess _ _ hfiles =>
    rw [hfiles] at hleads ⊢
    exact hold hleads
  | call p c next hp hcalls hkind hcall =>
    have hc := hkeeps.1 c (hcalls.request hp)
    cases c with
    | openResource id type mode =>
      have htrap : (k.trap p next (.openResource id type mode)).files.Ok := hok
      obtain ⟨_, -, hopens⟩ := internalOpenResource_files htrap hcall
      cases hopens with
      | failed hfiles =>
        rw [hfiles] at hleads ⊢
        exact hold hleads
      | joined r d' x pool ptrPool hfound _ hget hgetPtr hfiles =>
        exact hjoin hok (resourceById_some hok hfound).1 hget hgetPtr hold hfiles
      | created r resPool hnoId _ hnew hfiles =>
        rw [hfiles] at hleads ⊢
        exact hold (hleads.of_create hok hnew fun r' hr' ↦ resourceById_none hok hnoId hr')
      | createdJoined r d' x resPool pool ptrPool hnoId _ hnew hget hgetPtr hfiles =>
        have hids : ∀ r' ∈ k.files.resourceNodes, k.files.resources.id r' ≠ id := fun r' hr' ↦
          resourceById_none hok hnoId hr'
        have hcreated := Files.Holds.create hok id type hnew hids
        have hr : r ∈ (k.files.create r resPool id type).resourceNodes := by
          rw [hcreated.resourceNodes_eq]
          exact List.mem_append_right _ (List.mem_singleton_self r)
        exact hjoin hcreated.ok hr hget hgetPtr (fun hleads ↦ hold (hleads.of_create hok hnew hids)) hfiles
    | closeResource | destroyResource | openQueue | exit => cases hc
    | _ => cases hkind

/-- A resource that has not been handed out has no value. -/
theorem MembersInv.clean_step (h : k.MembersInv layout m) (hsafe : k.MembersSafe a)
    (hstep : k.step a = some k') (r : Addr) (hr : ¬ k'.resources.allocator.Allocated r) :
    k'.resources.value r = none := by
  have hok := h.owns.owned.ok
  have hcreate (id type : ℤ) {r' : Addr} {pool : PoolAllocator}
      (hget : k.files.resources.allocator.getBlock = (some r', pool))
      (hr : ¬ (k.files.create r' pool id type).resources.allocator.Allocated r) :
      (k.files.create r' pool id type).resources.value r = none := by
    obtain ⟨-, -, -, -, hallocated⟩ := getBlock_some hok.resourcePool hget
    exact h.clean r fun hr' ↦ hr ((hallocated r).mpr (.inr hr'))
  change ¬ k'.files.resources.allocator.Allocated r at hr
  change k'.files.resources.value r = none
  cases step_files hsafe.notShutdown hstep with
  | same hfiles | newProcess p _ hfiles =>
    rw [hfiles] at hr ⊢
    exact h.clean r hr
  | call p c next hp hcalls hkind hcall =>
    have hc := hsafe c (hcalls.request hp)
    cases c with
    | openResource id type mode =>
      have htrap : (k.trap p next (.openResource id type mode)).files.Ok := hok
      obtain ⟨_, -, hopens⟩ := internalOpenResource_files htrap hcall
      cases hopens with
      | failed hfiles | joined _ _ _ _ _ _ _ _ _ hfiles =>
        rw [hfiles] at hr ⊢
        exact h.clean r hr
      | created r' resPool _ _ hnew hfiles | createdJoined r' _ _ resPool _ _ _ _ hnew _ _ hfiles =>
        rw [hfiles] at hr ⊢
        exact hcreate id type hnew hr
    | closeResource fd =>
      obtain ⟨_, -, ⟨-, hfiles, -⟩ | ⟨d, x, -, -, hfiles, -⟩⟩ := internalCloseResource_files hcall <;>
        rw [hfiles] at hr ⊢ <;> exact h.clean r hr
    | openQueue id fd mode =>
      have hret := hc.2 p hp k' hstep
      obtain ⟨p', hp', hopens⟩ := internalOpenQueue_files hcall
      obtain rfl := Option.some.inj (hp.symm.trans hp')
      cases hopens with
      | joined _ _ _ _ hfiles =>
        rw [hfiles] at hr ⊢
        exact h.clean r hr
      | fresh r' q pool hfound _ _ hfiles =>
        rw [hfiles] at hr ⊢
        have hne : r ≠ r' := by
          rintro rfl
          exact hr (hok.resource_allocated r (resourceById_some hok hfound).1)
        exact (Function.update_of_ne hne _ _).trans (h.clean r hr)
      | refused _ _ hneg | closed _ _ _ _ _ _ hneg | gaveUp _ _ _ _ _ _ _ _ _ _ hneg =>
        exact absurd hret (not_le.mpr hneg)
    | exit value =>
      rw [(internalExit_fields hcall).1] at hr ⊢
      exact h.clean r hr
    | destroyResource => exact hc.elim
    | _ => cases hkind

/-! ### Points after such a step -/

theorem spawn_child (hspawn : syscallVector .spawn k = some k') :
    ∃ child, k'.files = k.files.reset child ∧
      k'.pcbs.cpuState = update k.pcbs.cpuState child (.user 0) := by
  obtain ⟨⟨child, k₁⟩, h₁, hk'⟩ := Option.bind_eq_some_iff.mp hspawn
  obtain ⟨_, pool, _, _, -, -, -, -, rfl⟩ := newProcess_cases h₁
  rw [← Option.some.inj hk']
  exact ⟨child, rfl, rfl⟩

/-- A call that does not concern the table of descriptors, or an exit, comes from the user code or from a
`dmq_send` or `dmq_receive`. -/
theorem Calls.plain {c : Syscall} {next : Context} (hcalls : k.Calls p a c next)
    (hkind : c.touchesFiles = false ∨ ∃ value, c = .exit value) :
    (k.pcbs.cpuState p).plain = true ∧ next.plain = true := by
  cases hcalls with
  | user _ ret hcontext =>
    rw [hcontext]
    exact ⟨rfl, rfl⟩
  | statement _ _ hrequest =>
    generalize k.pcbs.cpuState p = context at hrequest
    cases context with
    | transferCall | transferRetry | transferWake =>
      obtain ⟨-, rfl⟩ := Prod.mk.inj (Option.some.inj hrequest)
      exact ⟨rfl, rfl⟩
    | graveyard =>
      obtain ⟨-, rfl⟩ := Prod.mk.inj (Option.some.inj hrequest)
      exact ⟨rfl, rfl⟩
    | closeResource | openResource | openQueue | unlink =>
      obtain ⟨rfl, -⟩ := Prod.mk.inj (Option.some.inj hrequest)
      obtain hkind | ⟨value, hkind⟩ := hkind <;> cases hkind
    | _ => cases hrequest

/-- The `CLOSE_RESOURCE` of a statement is that of `dmq_close`. -/
theorem Calls.closing {next : Context} (hcalls : k.Calls p .statement (.closeResource fd) next) :
    ∃ q, k.pcbs.cpuState p = .closeResource fd q := by
  cases hcalls with
  | statement _ _ hrequest =>
    generalize k.pcbs.cpuState p = context at hrequest
    cases context with
    | closeResource fd' q =>
      cases hrequest
      exact ⟨q, rfl⟩
    | transferCall c q =>
      simp only [Context.request, Option.some.injEq, Prod.mk.injEq] at hrequest
      cases hop : c.op <;> simp [TransferCall.syscall, hop] at hrequest
    | _ => cases hrequest

/-- The descriptors of the process after its `OPEN_RESOURCE`. -/
theorem Opens.newDescriptor {id type : ℤ} {mode : BitVec 32} (hok : k.files.Ok)
    (hopens : k.Opens p id type mode k') :
    k'.files.descriptorNodes p = k.files.descriptorNodes p ∧ k'.pcbs.syscallRetvalue p < 0 ∨
      ∃ d, ¬ k.descriptors.allocator.Allocated d ∧
        k'.files.descriptorNodes p = k.files.descriptorNodes p ++ [d] ∧
        k'.descriptors.fd d = k'.pcbs.syscallRetvalue p ∧ 0 ≤ k'.pcbs.syscallRetvalue p := by
  have hjoins {f : Files} {r d x : Addr} {pool ptrPool : PoolAllocator} (hok : f.Ok)
      (hr : r ∈ f.resourceNodes) (hget : f.descriptors.allocator.getBlock = (some d, pool))
      (hgetPtr : f.descriptorPtrs.allocator.getBlock = (some x, ptrPool))
      (hfiles : k'.files = f.join p r d x pool ptrPool)
      (hret : k'.pcbs.syscallRetvalue p = f.lastFd p) :
      ¬ f.descriptors.allocator.Allocated d ∧
        k'.files.descriptorNodes p = f.descriptorNodes p ++ [d] ∧
        k'.descriptors.fd d = k'.pcbs.syscallRetvalue p ∧ 0 ≤ k'.pcbs.syscallRetvalue p := by
    obtain ⟨-, -, hfree, -⟩ := getBlock_some hok.descriptorPool hget
    refine ⟨hfree, ?_, ?_, ?_⟩
    · rw [hfiles, (Files.Holds.join hok hr hget hgetPtr).descriptorNodes_eq, Function.update_self]
    · rw [hret]
      change k'.files.descriptors.fd d = _
      rw [hfiles]
      exact Function.update_self ..
    · rw [hret]
      exact hok.lastFd_nonneg p
  cases hopens with
  | failed hfiles hret =>
    rw [hfiles]
    exact Or.inl ⟨rfl, hret⟩
  | joined r d x pool ptrPool hfound _ hget hgetPtr hfiles hret =>
    exact Or.inr ⟨d, hjoins hok (resourceById_some hok hfound).1 hget hgetPtr hfiles hret⟩
  | created r resPool _ _ hnew hfiles hret =>
    rw [hfiles]
    exact Or.inl ⟨rfl, hret⟩
  | createdJoined r d x resPool pool ptrPool hnone _ hnew hget hgetPtr hfiles hret =>
    have hcreated := Files.Holds.create hok id type hnew fun r' hr' ↦
      resourceById_none hok hnone hr'
    have hr : r ∈ (k.files.create r resPool id type).resourceNodes := by
      rw [hcreated.resourceNodes_eq]
      exact List.mem_append_right _ (List.mem_singleton_self r)
    exact Or.inr ⟨d, hjoins hcreated.ok hr hget hgetPtr hfiles hret⟩

/-- The process after its `OPEN_RESOURCE`. -/
theorem Opens.memberPoint {id type : ℤ} {mode mode' : BitVec 32} (hopens : k.Opens p id type mode k')
    (hok : k.files.Ok) (hok' : k'.files.Ok)
    (hnotes : ∀ d ∈ k.files.descriptorNodes p, (m d).map Opening.left = some fun _ ↦ false)
    (hfresh : ∀ d, ¬ k.descriptors.allocator.Allocated d → m d = none)
    (hcontext : k'.pcbs.cpuState p = .openResult id mode') : k'.MemberPoint m p := by
  have hleft (fd : ℤ) : k'.leftAt p fd = if 0 ≤ k'.pcbs.syscallRetvalue p ∧
      fd = k'.pcbs.syscallRetvalue p then none else some fun _ ↦ false := by
    unfold leftAt
    rw [hcontext]
  have hclosing : ∀ fd q d, (k'.pcbs.cpuState p).closing = some (fd, q, d) →
      d ∈ k'.files.descriptorNodes p ∧ k'.descriptors.fd d = fd ∧
        k'.resources.value (k'.descriptors.resource d) = some q := by
    intro fd q d hclosing
    rw [hcontext] at hclosing
    cases hclosing
  obtain ⟨hnodes, hret⟩ | ⟨d, hfree, hnodes, hfd, hret⟩ := hopens.newDescriptor hok
  · refine ⟨fun d hd ↦ ?_, hclosing⟩
    rw [hnodes] at hd
    rw [hleft, if_neg fun hboth ↦ absurd hboth.1 (not_le.mpr hret)]
    exact hnotes d hd
  · refine ⟨fun d' hd' ↦ ?_, hclosing⟩
    · rw [hleft]
      have hmem := hd'
      rw [hnodes, List.mem_append, List.mem_singleton] at hmem
      obtain hmem | rfl := hmem
      · rw [if_neg]
        · exact hnotes d' hmem
        · rintro ⟨-, hsame⟩
          have hd : d ∈ k'.files.descriptorNodes p := by
            rw [hnodes]
            exact List.mem_append_right _ (List.mem_singleton_self d)
          obtain rfl := hok'.fd_inj p d' hd' d hd (hsame.trans hfd.symm)
          exact hfree (hok.descriptor_allocated p d' hmem)
      · rw [hfresh d' hfree, if_pos ⟨hret, hfd⟩]
        rfl

/-- The descriptor that a `dmq_close` has found. -/
theorem closing_of_close (hok : k.files.Ok) {q ds : Addr} (hqueue : k.queueByFd p fd = some (some q))
    (hentries : k.queueEntries p fd = some (some ds)) :
    ds ∈ k.files.descriptorNodes p ∧ k.descriptors.fd ds = fd ∧
      k.resources.value (k.descriptors.resource ds) = some q := by
  obtain ⟨hmem, rfl⟩ := descriptorByFd_some hok hentries
  obtain ⟨found, hfound, hvalue⟩ := Option.bind_eq_some_iff.mp hqueue
  obtain rfl := descriptorByFd_unique hok hmem hfound
  exact ⟨hmem, rfl, Option.some.inj hvalue⟩

/-- The process after a statement that changes no users of the queues. -/
theorem MembersInv.point_statement (h : k.MembersInv layout m)
    (hleaves : (k.pcbs.cpuState p).leavesQueue = false)
    (hquiet : (k.pcbs.cpuState p).request = none)
    (hrun : k.runStatement p (k.pcbs.cpuState p) = some k') : k'.MemberPoint m p := by
  have hfiles : k'.files = k.files := by
    rw [runStatement_eq hrun]
    rfl
  have hsame : k.files.SameFor k'.files p := by
    rw [hfiles]
    exact .refl _ p
  obtain ⟨-, next, hcontexts, hnext⟩ := runStatement_context (h.owns.noShutdown p) hrun
  have hcontext' : k'.pcbs.cpuState p = next := by rw [hcontexts, Function.update_self]
  have hplain (hbefore : (k.pcbs.cpuState p).plain = true) (hafter : next.plain = true) :
      k'.MemberPoint m p := (h.points p).of_sameFor_plain hsame hbefore (hcontext' ▸ hafter)
  generalize hcontext : k.pcbs.cpuState p = context at hleaves hquiet hrun hnext hplain
  cases context with
  | closeDetach | closeFree => cases hleaves
  | openQueue | closeResource => cases hquiet
  | openResult id mode =>
    have hret : k'.pcbs.syscallRetvalue p = k.pcbs.syscallRetvalue p := by rw [runStatement_eq hrun]
    refine (h.points p).of_sameFor hsame (fun _ _ ↦ rfl) (fun fd ↦ ?_) fun fd q d hclosing ↦ ?_
    · have hleft : k.leftAt p fd = if 0 ≤ k.pcbs.syscallRetvalue p ∧
          fd = k.pcbs.syscallRetvalue p then none else some fun _ ↦ false := by
        unfold leftAt
        rw [hcontext]
      simp only [runStatement] at hrun
      split_ifs at hrun with hneg
      · rw [hleft, if_neg fun hboth ↦ absurd hboth.1 (not_le.mpr hneg)]
        have hpoint : k'.pcbs.cpuState p = .user (k.pcbs.syscallRetvalue p) := by
          rw [← Option.some.inj hrun]
          exact Function.update_self ..
        exact leftAt_plain (by rw [hpoint]; rfl) fd
      · have hpoint : k'.pcbs.cpuState p = .openQueue id (k.pcbs.syscallRetvalue p) mode := by
          rw [← Option.some.inj hrun]
          exact Function.update_self ..
        rw [hleft, leftAt, hpoint]
        simp only [not_lt.mp hneg, true_and]
    · rw [hcontext'] at hclosing
      cases hnext <;> cases hclosing
  | close fd =>
    cases hnext with
    | returns => exact hplain rfl rfl
    | close _ q ds hqueue hentries =>
      refine (h.points p).of_sameFor hsame (fun _ _ ↦ rfl) (fun fd' ↦ ?_) fun fd' q' d hclosing ↦ ?_
      · rw [leftAt, leftAt, hcontext', hcontext]
        dsimp only
        split_ifs <;> rfl
      · rw [hcontext'] at hclosing
        obtain ⟨rfl, rfl, rfl⟩ : fd = fd' ∧ q = q' ∧ ds = d := by
          simpa [Context.closing] using hclosing
        exact closing_of_close h.owns.owned.ok hqueue hentries
  | _ =>
    cases hnext <;> exact hplain rfl rfl

/-- The processes after a step that changes no users of the queues. -/
theorem MembersInv.point_keeps (h : k.MembersInv layout m) (hsafe : k.MembersSafe a)
    (hkeeps : k.KeepsMembers a) (hstep : k.step a = some k') (p : Addr) : k'.MemberPoint m p := by
  have hok := h.owns.owned.ok
  have hother (hquiet : ¬ (k.running = some p ∧ ∃ c next, k.Calls p a c next))
      (hcontext : k'.pcbs.cpuState p = k.pcbs.cpuState p) : k'.MemberPoint m p :=
    h.point_other hsafe hstep hquiet hcontext fun _ _ _ ↦ rfl
  have hsilent (hrequest : k.request a = none) (hcontext : k'.pcbs.cpuState p = k.pcbs.cpuState p) :
      k'.MemberPoint m p := by
    refine hother ?_ hcontext
    rintro ⟨hp, c, next, hcalls⟩
    exact Option.some_ne_none c ((hcalls.request hp).symm.trans hrequest)
  have hnew {child : Addr} (hfiles : k'.files = k.files.reset child)
      (hcontext : k'.pcbs.cpuState child = .user 0) : k'.MemberPoint m child := by
    refine .of_empty ?_ (by rw [hcontext]; rfl)
    rw [hfiles, (Files.Holds.reset hok child).descriptorNodes_eq, Function.update_self]
  obtain ⟨rfl, hstart⟩ | ⟨rfl, htimer⟩ | ⟨x, byte, rfl, -, rfl⟩ | ⟨c, p₁, ret, rfl, hp₁, hret, rfl⟩ |
    ⟨c, p₁, next, hp₁, hcalls, hcall⟩ | ⟨p₁, rfl, hp₁, hquiet, hrun⟩ := step_cases hstep
  · obtain ⟨-, p₀, pool, -, rfl⟩ := startProcess_cases hstart
    by_cases hp : p = p₀
    · subst hp
      exact hnew rfl (Function.update_self ..)
    · exact hsilent rfl (Function.update_of_ne hp ..)
  · obtain ⟨p₁, -, hschedule⟩ := Option.bind_eq_some_iff.mp htimer
    exact hsilent rfl (by rw [internalSchedule_eq hschedule])
  · exact hsilent rfl rfl
  · by_cases hp : p = p₁
    · subst hp
      have hcontext : (k.setContext p c.entry).pcbs.cpuState p = c.entry := Function.update_self ..
      refine (h.points p).of_sameFor_plain (.refl _ p) (by rw [hret]; rfl) ?_
      rw [hcontext]
      cases c <;> rfl
    · exact hsilent rfl (Function.update_of_ne hp ..)
  · have hrequest := hcalls.request hp₁
    have hc : c ≠ .shutdown := fun hsame ↦ hsafe.notShutdown (hsame ▸ hrequest)
    by_cases hp : p = p₁
    · subst hp
      by_cases htouches : c.touchesFiles = true
      · -- the OPEN_RESOURCE of `dmq_open`
        have hleaves := hkeeps.1 c hrequest
        have hcall' := hsafe c hrequest
        cases c with
        | openResource id type mode =>
          obtain rfl : a = .statement := hcall'
          cases hcalls with
          | statement _ _ hcontext =>
          generalize hpoint : k.pcbs.cpuState p = context at hcontext
          cases context with
          | openResource id' mode' =>
            simp only [Context.request, Option.some.injEq, Prod.mk.injEq,
              Syscall.openResource.injEq] at hcontext
            obtain ⟨⟨rfl, rfl, rfl⟩, rfl⟩ := hcontext
            have hafter : k'.pcbs.cpuState p = .openResult id' mode' := by
              rw [internalOpenResource_eq hcall]
              exact Function.update_self ..
            obtain ⟨p', hp', hopens⟩ := internalOpenResource_files (k := k.trap p (.openResult id' mode')
              (.openResource id' 2 (resourceFlags mode'))) hok hcall
            obtain rfl := Option.some.inj (hp₁.symm.trans hp')
            obtain ⟨users, henrolled, -⟩ := h.enrolled
            have hok' := filesOk_step hok hsafe.notShutdown hstep
            refine hopens.memberPoint hok hok' (fun d hd ↦ ?_) (fun d hfree ↦ ?_) hafter
            · rw [(h.points p).notes d hd, leftAt_plain (by rw [hpoint]; rfl)]
            · cases ho : m d with
              | none => rfl
              | some o => exact absurd (henrolled.descriptor d o ho).1 hfree
          | transferCall c' q =>
            simp only [Context.request, Option.some.injEq, Prod.mk.injEq] at hcontext
            cases hop : c'.op <;> simp [TransferCall.syscall, hop] at hcontext
          | _ => simp [Context.request] at hcontext
        | closeResource | destroyResource | openQueue | exit => cases hleaves
        | _ => cases htouches
      · have hplains := hcalls.plain (Or.inl (by simpa using htouches))
        have hquiet : ∀ c', k.request a = some c' → c'.touchesFiles = true → k.running ≠ some p := by
          intro c' hrequest' htouches'
          obtain rfl := Option.some.inj (hrequest.symm.trans hrequest')
          exact absurd htouches' htouches
        have hafter : k'.pcbs.cpuState p = next ∨ ∃ child, k'.pcbs.cpuState p = .user 0 ∧ child = p := by
          obtain hsame | ⟨-, child, -, hcontexts⟩ := syscallVector_cpuState hc hcall
          · exact .inl (by rw [hsame]; exact Function.update_self ..)
          · by_cases hchild : p = child
            · subst hchild
              exact .inr ⟨p, by rw [hcontexts, Function.update_self], rfl⟩
            · left
              rw [hcontexts, Function.update_of_ne hchild]
              exact Function.update_self ..
        have hplain' : (k'.pcbs.cpuState p).plain = true := by
          obtain hnext | ⟨_, huser, -⟩ := hafter
          · rw [hnext]
            exact hplains.2
          · rw [huser]
            rfl
        obtain hsame | ⟨hreset, -⟩ := step_descriptors hok hsafe.notShutdown hstep hquiet
        · exact (h.points p).of_sameFor_plain hsame hplains.1 hplain'
        · refine .of_empty ?_ hplain'
          rw [hreset, (Files.Holds.reset hok p).descriptorNodes_eq, Function.update_self]
    · have hquiet : ¬ (k.running = some p ∧ ∃ c next, k.Calls p a c next) := fun hboth ↦
        hp (Option.some.inj (hboth.1.symm.trans hp₁))
      obtain hsame | ⟨rfl, -⟩ := syscallVector_cpuState hc hcall
      · exact hother hquiet (by rw [hsame]; exact Function.update_of_ne hp ..)
      · obtain ⟨child, hfiles, hcontexts⟩ := spawn_child hcall
        by_cases hchild : p = child
        · subst hchild
          exact hnew hfiles (by rw [hcontexts, Function.update_self])
        · refine hother hquiet ?_
          rw [hcontexts, Function.update_of_ne hchild]
          exact Function.update_of_ne hp ..
  · by_cases hp : p = p₁
    · subst hp
      exact h.point_statement (hkeeps.2 p hp₁ rfl) hquiet hrun
    · obtain ⟨-, next, hcontexts, -⟩ := runStatement_context (h.owns.noShutdown p₁) hrun
      refine hother (fun hboth ↦ hp (Option.some.inj (hboth.1.symm.trans hp₁))) ?_
      rw [hcontexts, Function.update_of_ne hp]

/-- The step keeps the invariant, and the notes. -/
theorem MembersInv.keeps (h : k.MembersInv layout m) (hsafe : k.MembersSafe a)
    (hkeeps : k.KeepsMembers a) (hstep : k.step a = some k') :
    k'.MembersInv layout (noteOpening m k a k') := by
  obtain ⟨users, henrolled, haside⟩ := h.enrolled
  have hroll := hkeeps.roll hstep
  have hstays : ∀ d o, m d = some o →
      k.files.Stays k'.files d ∧ k'.descriptors.rwn d = k.descriptors.rwn d := by
    intro d o ho
    obtain ⟨hallocated, hleads⟩ := henrolled.descriptor d o ho
    exact hkeeps.stays h.owns.owned.ok hstep hallocated hleads
  have hnotes : noteOpening m k a k' = m := noteOpening_keeps hkeeps fun d o ho ↦
    (hstays d o ho).1.leads (henrolled.descriptor d o ho).2
  have hfreeing {p u : Addr} (hfree : k'.Freeing p u) : k.Freeing p u :=
    hkeeps.freeing h.owns.noShutdown hsafe.notShutdown hstep hfree
  rw [hnotes]
  exact
    { owns := h.owns.step (h.ownershipSafe hsafe hstep) hstep
      backed := backed_step h.backed h.owns.owned.ok hsafe.notShutdown hstep
      entering := h.entering_keeps hsafe.notShutdown hkeeps hstep
      clean := h.clean_step hsafe hstep
      enrolled := ⟨users, henrolled.of_stays hroll hstays, fun p u hfree ↦
        (haside p u (hfreeing hfree)).of_roll hroll⟩
      freeing_inj := fun p p' u hp hp' ↦ h.freeing_inj p p' u (hfreeing hp) (hfreeing hp')
      points := h.point_keeps hsafe hkeeps hstep }

end Kernel

end DisastrOS
