import DisastrOS.MemberPoints
import DisastrOS.ReceiveBounds
import DisastrOS.SharedQueues

/-!
# Permissions

In the runs of `dmq_open`, `dmq_close`, `dmq_send`, `dmq_receive`, `dmq_getattr` and `dmq_setattr` in which no
`dmq_open` fails once it has a descriptor, the three entries of a descriptor are those that the mode of its
`dmq_open` asks for, and the lists of users of a queue are made of these entries, until `dmq_close` takes
them out one by one (`membersMatch_of_safe`).
-/

set_option autoImplicit false
set_option relaxedAutoImplicit false

namespace DisastrOS

open LinkedLists PoolAllocator
open Function (update)

namespace Kernel

variable {layout : Layout} {k k' : Kernel} {a : Action} {m m' : Addr → Option Opening}
  {users : Addr × Role → List Addr} {p p' q d u : Addr} {fd : ℤ}

/-! ### A process leaves its queue -/

/-- The other processes after a step of process `p`. -/
theorem MembersInv.points_of (h : k.MembersInv layout m) (hsafe : k.MembersSafe a)
    (hstep : k.step a = some k') (hp : k.running = some p)
    (hcontexts : ∀ p' ≠ p, k'.pcbs.cpuState p' = k.pcbs.cpuState p')
    (hown : k'.MemberPoint (noteOpening m k a k') p) (p' : Addr) :
    k'.MemberPoint (noteOpening m k a k') p' := by
  by_cases hne : p' = p
  · exact hne ▸ hown
  · have hrunning : k.running ≠ some p' := fun hp' ↦ hne (Option.some.inj (hp'.symm.trans hp))
    have hok' := filesOk_step h.owns.owned.ok hsafe.notShutdown hstep
    exact h.point_other hsafe hstep (fun hboth ↦ hrunning hboth.1) (hcontexts p' hne)
      fun d hd hd' ↦ h.noteOpening_other hok' hd hd' hrunning

/-- What is left of the notes, when the descriptors that are noted stay. -/
theorem noteOpening_of_leads {d : Addr} (hleads : ∀ d o, m d = some o → k'.files.Leads d)
    (hp : k.running = some p) (hquiet : k.request .statement = none) {fd : ℤ} {ds : Addr} {role : Role}
    (hcontext : k.pcbs.cpuState p = .closeDetach fd q ds role) :
    noteOpening m k .statement k' d = if ds = d then (m d).map (·.leave role) else m d := by
  unfold noteOpening
  by_cases hd : k'.files.Leads d
  · rw [if_neg (not_not.mpr hd)]
    simp only [hp, hquiet, hcontext]
  · rw [if_pos hd]
    cases ho : m d with
    | none => simp
    | some o => exact absurd (hleads d o ho) hd

/-- The process takes its descriptor out of one of the three lists. -/
theorem MembersInv.detach (h : k.MembersInv layout m) (hsafe : k.MembersSafe .statement)
    (hstep : k.step .statement = some k') (hp : k.running = some p) {ds : Addr} {role : Role}
    (hcontext : k.pcbs.cpuState p = .closeDetach fd q ds role) :
    k'.MembersInv layout (noteOpening m k .statement k') := by
  obtain ⟨users, henrolled, haside⟩ := h.enrolled
  have hok := h.owns.owned.ok
  have hrequest : k.request .statement = none := by
    simp [request, context, hp, hcontext, Context.request]
  have hk' : (k.detachUser (q, role) (k.descriptors.rwn ds role)).setContext p
      (.closeFree fd q ds role (k.descriptors.rwn ds role)) = k' := by
    rw [step_statement hp hcontext rfl] at hstep
    exact Option.some.inj hstep
  have hfiles : k'.files = k.files := by
    rw [← hk']
    rfl
  have hcontexts : k'.pcbs.cpuState = update k.pcbs.cpuState p
      (.closeFree fd q ds role (k.descriptors.rwn ds role)) := by
    rw [← hk']
    rfl
  obtain ⟨hds, hfd, hvalue⟩ := (h.points p).closing fd q ds (by rw [hcontext]; rfl)
  have hleft (fd' : ℤ) : k.leftAt p fd' = some (if fd' = fd then role.passed else fun _ ↦ false) := by
    rw [leftAt, hcontext]
  obtain ⟨o, ho, hbefore⟩ : ∃ o, m ds = some o ∧ o.left = role.passed := by
    have hnote := (h.points p).notes ds hds
    rw [hleft, if_pos hfd] at hnote
    exact Option.map_eq_some_iff.mp hnote
  have hinside : o.left role = false := by
    rw [hbefore]
    cases role <;> rfl
  have hnotes : noteOpening m k .statement k' = update m ds (some (o.leave role)) := by
    funext d
    rw [noteOpening_of_leads (fun d o ho ↦ hfiles ▸ (henrolled.descriptor d o ho).2) hp hrequest hcontext,
      Function.update_apply]
    by_cases hd : ds = d
    · subst hd
      rw [if_pos rfl, if_pos rfl, ho]
      rfl
    · rw [if_neg hd, if_neg (Ne.symm hd)]
  obtain ⟨users', henrolled', haside', hentry⟩ := henrolled.leave ho hinside hvalue
  -- the entry was in its list, and the other processes are about to free users that are in none
  have hfree {p' u : Addr} (hne : p' ≠ p) (hfreeing : k'.Freeing p' u) : k.Freeing p' u := by
    obtain ⟨fd', q', ds', role', hcontext'⟩ := hfreeing
    rw [hcontexts, Function.update_of_ne hne] at hcontext'
    exact ⟨fd', q', ds', role', hcontext'⟩
  have hfreeOwn {u : Addr} (hfreeing : k'.Freeing p u) : k.descriptors.rwn ds role = some u := by
    obtain ⟨fd', q', ds', role', hcontext'⟩ := hfreeing
    rw [hcontexts, Function.update_self] at hcontext'
    exact (Context.closeFree.inj hcontext').2.2.2.2
  have hapart {p' u : Addr} (hne : p' ≠ p) (hfreeing : k'.Freeing p' u) :
      k.descriptors.rwn ds role ≠ some u := fun hu ↦
    (haside p' u (hfree hne hfreeing)).notMem (q, role)
      ((henrolled.members q role u).mpr ⟨ds, ⟨o, ho, hinside⟩, hu, hvalue⟩)
  have hown : k'.MemberPoint (noteOpening m k .statement k') p := by
    have hleft' (fd' : ℤ) : k'.leftAt p fd' =
        some (if fd' = fd then update role.passed role true else fun _ ↦ false) := by
      rw [leftAt, hcontexts, Function.update_self]
    rw [hnotes]
    have hfds : k'.descriptors.fd = k.descriptors.fd := congrArg (·.descriptors.fd) hfiles
    refine ⟨fun d hd ↦ ?_, fun fd' q' d hclosing ↦ ?_⟩
    · rw [hfiles] at hd
      rw [hleft', hfds]
      by_cases hsame : d = ds
      · subst hsame
        rw [Function.update_self, if_pos hfd, ← hbefore]
        rfl
      · rw [Function.update_of_ne hsame, if_neg fun hfd' ↦ hsame (hok.fd_inj p d hd ds hds (hfd'.trans hfd.symm))]
        have hnote := (h.points p).notes d hd
        rwa [hleft, if_neg fun hfd' ↦ hsame (hok.fd_inj p d hd ds hds (hfd'.trans hfd.symm))] at hnote
    · rw [hcontexts, Function.update_self] at hclosing
      obtain ⟨rfl, rfl, rfl⟩ : fd = fd' ∧ q = q' ∧ ds = d := by simpa [Context.closing] using hclosing
      have hvalue' : k'.resources.value (k'.descriptors.resource ds) = some q :=
        (congrArg (fun f : Files ↦ f.resources.value (f.descriptors.resource ds)) hfiles).trans hvalue
      rw [hfiles, hfds]
      exact ⟨hds, hfd, hvalue'⟩
  have howned := h.owns.step (h.ownershipSafe hsafe hstep) hstep
  exact
    { owns := howned
      backed := hfiles ▸ h.backed
      entering := by
        rw [hnotes]
        refine h.entering_of_files hfiles fun d hnone ↦ ?_
        by_cases hsame : d = ds
        · subst hsame
          rw [Function.update_self] at hnone
          cases hnone
        · rwa [Function.update_of_ne hsame] at hnone
      clean := h.clean_step hsafe hstep
      enrolled := by
        rw [hnotes, ← hk']
        refine ⟨users', henrolled'.of_stays rfl fun d _ _ ↦ ⟨.refl _ d, rfl⟩, fun p' u hfreeing ↦ ?_⟩
        rw [hk'] at hfreeing
        by_cases hne : p' = p
        · subst hne
          exact (hentry u (hfreeOwn hfreeing)).of_roll rfl
        · exact (haside' u (haside p' u (hfree hne hfreeing))).of_roll rfl
      freeing_inj := by
        intro p₁ p₂ u h₁ h₂
        by_cases hp₁ : p₁ = p
        · by_contra hne
          have hp₂ : p₂ ≠ p := fun hp₂ ↦ hne (hp₁.trans hp₂.symm)
          exact hapart hp₂ h₂ (hfreeOwn (hp₁ ▸ h₁))
        · by_cases hp₂ : p₂ = p
          · exact absurd (hfreeOwn (hp₂ ▸ h₂)) (hapart hp₁ h₁)
          · exact h.freeing_inj p₁ p₂ u (hfree hp₁ h₁) (hfree hp₂ h₂)
      points := h.points_of hsafe hstep hp
        (fun p' hne ↦ by rw [hcontexts, Function.update_of_ne hne]) hown }

/-- The process frees the user that it has taken out. -/
theorem MembersInv.free (h : k.MembersInv layout m) (hsafe : k.MembersSafe .statement)
    (hstep : k.step .statement = some k') (hp : k.running = some p) {ds : Addr} {role : Role}
    {entry : Option Addr} (hcontext : k.pcbs.cpuState p = .closeFree fd q ds role entry) :
    k'.MembersInv layout (noteOpening m k .statement k') := by
  obtain ⟨users, henrolled, haside⟩ := h.enrolled
  have hrequest : k.request .statement = none := by
    simp [request, context, hp, hcontext, Context.request]
  obtain ⟨next, hk', hnext⟩ : ∃ next, (k.queueUserFree entry).setContext p next = k' ∧
      (role.next = none ∧ next = .closeResource fd q ∨
        ∃ role', role.next = some role' ∧ next = .closeDetach fd q ds role') := by
    rw [step_statement hp hcontext rfl, runStatement] at hstep
    cases hrole : role.next with
    | none =>
      rw [hrole] at hstep
      exact ⟨_, Option.some.inj hstep, .inl ⟨rfl, rfl⟩⟩
    | some role' =>
      rw [hrole] at hstep
      exact ⟨_, Option.some.inj hstep, .inr ⟨role', rfl, rfl⟩⟩
  have hfiles : k'.files = k.files := by
    rw [← hk']
    rfl
  have hcontexts : k'.pcbs.cpuState = update k.pcbs.cpuState p next := by
    rw [← hk']
    rfl
  have hnotes : noteOpening m k .statement k' = m := by
    have hquiet : k.NotesNothing .statement := by
      refine ⟨fun id fd mode ↦ by rw [hrequest]; simp, fun p' fd' q' ds' role' hp' _ hcontext' ↦ ?_⟩
      obtain rfl := Option.some.inj (hp.symm.trans hp')
      rw [hcontext] at hcontext'
      cases hcontext'
    funext d
    rw [noteOpening_quiet hquiet]
    split_ifs with hd
    · rfl
    · cases ho : m d with
      | none => rfl
      | some o => exact absurd (hfiles ▸ (henrolled.descriptor d o ho).2) hd
  have hfree {p' u : Addr} (hfreeing : k'.Freeing p' u) : p' ≠ p ∧ k.Freeing p' u :=
    hfreeing.of_update hcontexts fun _ _ _ _ _ ↦ by
      obtain ⟨-, rfl⟩ | ⟨_, -, rfl⟩ := hnext <;> simp
  have hfreed : ∃ users, (k.queueUserFree entry).Enrolled layout m users ∧
      ∀ p' u, k'.Freeing p' u → (k.queueUserFree entry).Aside users u := by
    cases hentry : entry with
    | none =>
      rw [henrolled.queueUserFree_none]
      exact ⟨users, henrolled, fun p' u hfreeing ↦ haside p' u (hfree hfreeing).2⟩
    | some u =>
      rw [hentry] at hcontext
      have hown : k.Freeing p u := ⟨fd, q, ds, role, hcontext⟩
      refine ⟨users, henrolled.free (haside p u hown), fun p' u' hfreeing ↦ ?_⟩
      obtain ⟨hne, hfreeing'⟩ := hfree hfreeing
      refine (haside p' u' hfreeing').free henrolled.pool (haside p u hown) ?_
      rintro rfl
      exact hne (h.freeing_inj p' p u' hfreeing' hown)
  have hown : k'.MemberPoint (noteOpening m k .statement k') p := by
    have hsame : k.files.SameFor k'.files p := by
      rw [hfiles]
      exact .refl _ p
    rw [hnotes]
    refine (h.points p).of_sameFor hsame (fun _ _ ↦ rfl) (fun fd' ↦ ?_) fun fd' q' d hclosing ↦ ?_
    · rw [leftAt, leftAt, hcontexts, Function.update_self, hcontext]
      obtain ⟨hrole, rfl⟩ | ⟨role', hrole, rfl⟩ := hnext
      · dsimp only
        rw [Role.passed_last hrole]
      · dsimp only
        rw [Role.passed_next hrole]
    · rw [hcontexts, Function.update_self] at hclosing
      refine (h.points p).closing fd' q' d ?_
      rw [hcontext]
      obtain ⟨-, rfl⟩ | ⟨role', -, rfl⟩ := hnext
      · cases hclosing
      · exact hclosing
  exact
    { owns := h.owns.step (h.ownershipSafe hsafe hstep) hstep
      backed := hfiles ▸ h.backed
      entering := by
        rw [hnotes]
        exact h.entering_of_files hfiles fun _ hnone ↦ hnone
      clean := h.clean_step hsafe hstep
      enrolled := by
        obtain ⟨users', henrolled', haside'⟩ := hfreed
        rw [hnotes]
        refine ⟨users', ?_, fun p' u hfreeing ↦ ?_⟩
        · rw [← hk']
          exact henrolled'.of_stays rfl fun d _ _ ↦ ⟨.refl _ d, rfl⟩
        · have hset := haside' p' u hfreeing
          rw [← hk']
          exact hset.of_roll rfl
      freeing_inj := fun p₁ p₂ u h₁ h₂ ↦ h.freeing_inj p₁ p₂ u (hfree h₁).2 (hfree h₂).2
      points := h.points_of hsafe hstep hp
        (fun p' hne ↦ by rw [hcontexts, Function.update_of_ne hne]) hown }

/-- A step that notes nothing forgets the descriptors that are gone. -/
theorem noteOpening_eq (hquiet : k.NotesNothing a)
    (hgone : ∀ d o, m d = some o → m' d = none → ¬ k'.files.Leads d)
    (hkept : ∀ d o, m' d = some o → m d = some o ∧ k'.files.Leads d) : noteOpening m k a k' = m' := by
  funext d
  rw [noteOpening_quiet hquiet]
  cases ho' : m' d with
  | none =>
    split_ifs with hd
    · cases ho : m d with
      | none => rfl
      | some o => exact absurd hd (hgone d o ho ho')
    · rfl
  | some o =>
    obtain ⟨ho, hd⟩ := hkept d o ho'
    rw [if_pos hd, ho]

/-- The process gives up the descriptor that is in no list any more. -/
theorem MembersInv.closeResource (h : k.MembersInv layout m) (hsafe : k.MembersSafe .statement)
    (hstep : k.step .statement = some k') (hp : k.running = some p)
    (hcontext : k.pcbs.cpuState p = .closeResource fd q) :
    k'.MembersInv layout (noteOpening m k .statement k') := by
  obtain ⟨users, henrolled, haside⟩ := h.enrolled
  have hok : k.files.Ok := h.owns.owned.ok
  have hrequest : k.request .statement = some (.closeResource fd) := by
    simp [request, context, hp, hcontext, Context.request]
  have hcall : internalCloseResource fd (k.trap p (.closeResult q) (.closeResource fd)) = some k' := by
    rw [step_request hp hcontext rfl] at hstep
    exact hstep
  have hframe := internalCloseResource_eq hcall
  have hroll : k'.roll = k.roll := by
    rw [hframe]
    rfl
  have hcontexts : k'.pcbs.cpuState = update k.pcbs.cpuState p (.closeResult q) := by
    rw [hframe]
    rfl
  have hquiet : k.NotesNothing .statement := by
    refine ⟨fun id fd' mode ↦ by rw [hrequest]; simp, fun p' fd' q' ds' role' hp' _ hcontext' ↦ ?_⟩
    obtain rfl := Option.some.inj (hp.symm.trans hp')
    rw [hcontext] at hcontext'
    cases hcontext'
  have hleft (fd' : ℤ) : k.leftAt p fd' = some (if fd' = fd then fun _ ↦ true else fun _ ↦ false) := by
    rw [leftAt, hcontext]
  have hafter : (k'.pcbs.cpuState p).plain = true := by
    rw [hcontexts, Function.update_self]
    rfl
  have hfree {p' u : Addr} (hfreeing : k'.Freeing p' u) : k.Freeing p' u :=
    (hfreeing.of_update hcontexts fun _ _ _ _ _ ↦ by simp).2
  have hbacked : k'.files.Backed := backed_step h.backed hok hsafe.notShutdown hstep
  -- the descriptors of the process that are left, and what is noted of them
  obtain ⟨m', hnotes, hentering, henrolled', hown⟩ : ∃ m', noteOpening m k .statement k' = m' ∧
      (∀ d, k'.files.Leads d → m' d = none → ∀ role, k'.descriptors.rwn d role = none) ∧
      k'.Enrolled layout m' users ∧ k'.MemberPoint m' p := by
    obtain ⟨p', hp', ⟨hnone, hfiles, -⟩ | ⟨d, x, hfound, hptr, hfiles, -⟩⟩ :=
      internalCloseResource_files hcall
    · obtain rfl := Option.some.inj (hp.symm.trans hp')
      have hsame : k'.files = k.files := hfiles
      have hleads : ∀ d o, m d = some o → k'.files.Leads d := fun d o ho ↦
        hsame ▸ (henrolled.descriptor d o ho).2
      refine ⟨m, ?_, h.entering_of_files hsame fun _ hnone ↦ hnone,
        henrolled.of_stays hroll fun d _ _ ↦ ?_, ?_⟩
      · exact noteOpening_eq hquiet (fun d o ho hnone ↦ absurd (ho.symm.trans hnone) (by simp))
          fun d o ho ↦ ⟨ho, hleads d o ho⟩
      · have hrwn : k'.files.descriptors.rwn = k.files.descriptors.rwn := by rw [hsame]
        rw [hsame]
        exact ⟨.refl _ d, congrFun hrwn d⟩
      · have hother : ∀ d ∈ k.files.descriptorNodes p, k.descriptors.fd d ≠ fd := by
          rintro d hd rfl
          have hunique : none = some d := descriptorByFd_unique hok hd hnone
          cases hunique
        refine .of_plain hafter fun d hd ↦ ?_
        rw [hsame] at hd
        rw [(h.points p).notes d hd, hleft, if_neg (hother d hd)]
    · obtain rfl := Option.some.inj (hp.symm.trans hp')
      obtain ⟨hd, hfd⟩ := descriptorByFd_some hok hfound
      have hdrop : k'.files = k.files.drop p d (k.files.descriptors.resource d) x := hfiles
      have hholds := Files.Holds.drop hok hd hptr
      obtain ⟨-, -, hallocated⟩ := hok.descriptorPool.release (hok.descriptor_allocated p d hd)
      have hgone : ¬ k'.files.Leads d := by
        refine hbacked.not_leads ?_
        rw [hdrop]
        exact fun hallocated' ↦ ((hallocated d).mp hallocated').1 rfl
      have hall : ∀ o, m d = some o → ∀ role, o.left role = true := by
        intro o ho role
        have hnote := (h.points p).notes d hd
        rw [ho, hleft, if_pos hfd] at hnote
        have hleft' : o.left = fun _ ↦ true := Option.some.inj hnote
        rw [hleft']
      have hold {d' : Addr} {o : Opening} (ho : update m d none d' = some o) : d' ≠ d ∧ m d' = some o := by
        rw [Function.update_apply] at ho
        split_ifs at ho with hne
        exact ⟨hne, ho⟩
      have hstays : ∀ d' o, update m d none d' = some o →
          k.files.Stays k'.files d' ∧ k'.descriptors.rwn d' = k.descriptors.rwn d' := by
        intro d' o ho
        have hrwn : k'.files.descriptors.rwn = k.files.descriptors.rwn := by
          rw [hdrop]
          rfl
        refine ⟨?_, congrFun hrwn d'⟩
        rw [hdrop]
        exact .drop hok hd hptr (hold ho).1
      have hentering : ∀ d', k'.files.Leads d' → update m d none d' = none →
          ∀ role, k'.descriptors.rwn d' role = none := by
        intro d' hleads hnone role
        have hne : d' ≠ d := by
          rintro rfl
          exact hgone hleads
        have hrwn : k'.descriptors.rwn = k.descriptors.rwn := congrArg (·.descriptors.rwn) hdrop
        rw [hdrop] at hleads
        rw [Function.update_of_ne hne] at hnone
        rw [hrwn]
        exact h.entering d' (hleads.of_drop hok hd hptr) hnone role
      refine ⟨update m d none, ?_, hentering, (henrolled.forget hall).of_stays hroll hstays, ?_⟩
      · refine noteOpening_eq hquiet (fun d' o ho hnone ↦ ?_) fun d' o ho ↦ ⟨(hold ho).2, ?_⟩
        · have hsame : d' = d := by
            by_contra hne
            rw [Function.update_of_ne hne, ho] at hnone
            cases hnone
          exact hsame ▸ hgone
        · exact (hstays d' o ho).1.leads (henrolled.descriptor d' o (hold ho).2).2
      · have hnodes : k'.files.descriptorNodes p = (k.files.descriptorNodes p).erase d := by
          rw [hdrop, hholds.descriptorNodes_eq, Function.update_self]
        have hmem {d' : Addr} (hd' : d' ∈ k'.files.descriptorNodes p) :
            d' ≠ d ∧ d' ∈ k.files.descriptorNodes p := by
          rw [hnodes] at hd'
          exact (hok.descriptorLists.represents p).nodup.mem_erase_iff.mp hd'
        refine .of_plain hafter fun d' hd' ↦ ?_
        obtain ⟨hne, hd'⟩ := hmem hd'
        rw [Function.update_of_ne hne, (h.points p).notes d' hd', hleft, if_neg]
        exact fun hsame ↦ hne (hok.fd_inj p d' hd' d hd (hsame.trans hfd.symm))
  have hpoints := h.points_of hsafe hstep hp (fun p' hne ↦ by rw [hcontexts, Function.update_of_ne hne])
    (hnotes ▸ hown)
  rw [hnotes] at hpoints ⊢
  exact
    { owns := h.owns.step (h.ownershipSafe hsafe hstep) hstep
      backed := hbacked
      entering := hentering
      clean := h.clean_step hsafe hstep
      enrolled := ⟨users, henrolled', fun p' u hfreeing ↦ (haside p' u (hfree hfreeing)).of_roll hroll⟩
      freeing_inj := fun p₁ p₂ u h₁ h₂ ↦ h.freeing_inj p₁ p₂ u (hfree h₁) (hfree h₂)
      points := hpoints }

/-! ### A process enters a queue, or exits -/

/-- An `OPEN_QUEUE` that succeeds changes entries and values only. -/
theorem OpensQueue.files_of_success {id : ℤ} {mode : BitVec 32} (hopens : k.OpensQueue p id fd mode k')
    (hret : 0 ≤ k'.pcbs.syscallRetvalue p) : ∃ rwn value, k'.files =
      { k.files with descriptors.rwn := rwn, resources.value := value } := by
  cases hopens with
  | joined _ _ _ _ hfiles => exact ⟨_, k.resources.value, hfiles⟩
  | fresh r q pool _ _ _ hfiles => exact ⟨_, _, hfiles⟩
  | refused _ _ hneg | closed _ _ _ _ _ _ hneg | gaveUp _ _ _ _ _ _ _ _ _ _ hneg =>
    exact absurd hret (not_le.mpr hneg)

/-- The process joins the queue of the descriptor that it has got. -/
theorem MembersInv.openQueue (h : k.MembersInv layout m) (hsafe : k.MembersSafe .statement)
    (hstep : k.step .statement = some k') (hp : k.running = some p) {id : ℤ} {mode : BitVec 32}
    (hcontext : k.pcbs.cpuState p = .openQueue id fd mode) :
    k'.MembersInv layout (noteOpening m k .statement k') := by
  obtain ⟨users, henrolled, haside⟩ := h.enrolled
  have hok : k.files.Ok := h.owns.owned.ok
  have hrequest : k.request .statement = some (.openQueue id fd mode) := by
    simp [request, context, hp, hcontext, Context.request]
  have hret : 0 ≤ k'.pcbs.syscallRetvalue p := (hsafe _ hrequest).2 p hp k' hstep
  have hcall : internalOpenQueue id fd mode (k.trap p .openReturn (.openQueue id fd mode)) = some k' := by
    rw [step_request hp hcontext rfl] at hstep
    exact hstep
  have hframe := internalOpenQueue_eq hcall
  have hcontexts : k'.pcbs.cpuState = update k.pcbs.cpuState p .openReturn := by
    rw [hframe]
    rfl
  have hleft (fd' : ℤ) : k.leftAt p fd' = if fd' = fd then none else some fun _ ↦ false := by
    rw [leftAt, hcontext]
  have hafter : (k'.pcbs.cpuState p).plain = true := by
    rw [hcontexts, Function.update_self]
    rfl
  have hpoint := h.owns.opens p
  rw [hcontext] at hpoint
  obtain ⟨d, hd, hfd, hid, -⟩ := hpoint
  have hfd' : k.descriptors.fd d = fd := hfd
  have hnew : m d = none := by
    have hnote := (h.points p).notes d hd
    rw [hleft, if_pos hfd'] at hnote
    exact Option.map_eq_none_iff.mp hnote
  have htrap : (k.trap p .openReturn (.openQueue id fd mode)).Enrolled layout m users :=
    henrolled.of_stays rfl fun d _ _ ↦ ⟨.refl _ d, rfl⟩
  obtain ⟨hfound, users', henrolled', haside'⟩ := htrap.internalOpenQueue (d := d) h.owns.owned hp hd
    hfd hid hnew (h.entering d (leads_of_mem hok hd) hnew) hcall hret
  have hother (d' : Addr) (hd' : d' ∈ k.files.descriptorNodes p) (hsame : k.descriptors.fd d' = fd) :
      d' = d := hok.fd_inj p d' hd' d hd (hsame.trans hfd.symm)
  have hnotes : noteOpening m k .statement k' =
      update m d (some ⟨mode, k.pcbs.pid p, fun _ ↦ false⟩) := by
    funext d'
    unfold noteOpening
    by_cases hleads : k'.files.Leads d'
    · rw [if_neg (not_not.mpr hleads)]
      simp only [hp, hrequest]
      by_cases hsame : d' = d
      · rw [hsame, if_pos ⟨hret, hfound⟩, Function.update_self]
      · rw [if_neg, Function.update_of_ne hsame]
        rintro ⟨-, hfound'⟩
        exact hsame (Option.some.inj (Option.some.inj (hfound'.symm.trans hfound)))
    · rw [if_pos hleads]
      cases ho : update m d (some ⟨mode, k.pcbs.pid p, fun _ ↦ false⟩) d' with
      | none => rfl
      | some o => exact absurd (henrolled'.descriptor d' o ho).2 hleads
  have hfree {p' u : Addr} (hfreeing : k'.Freeing p' u) : k.Freeing p' u :=
    (hfreeing.of_update hcontexts fun _ _ _ _ _ ↦ by simp).2
  -- the table keeps the descriptors of the process
  obtain ⟨hnodes, hleads⟩ : k'.files.descriptorNodes p = k.files.descriptorNodes p ∧
      ∀ d', k'.files.Leads d' → k.files.Leads d' := by
    obtain ⟨p', hp', hopens⟩ := internalOpenQueue_files hcall
    obtain rfl := Option.some.inj (hp.symm.trans hp')
    obtain ⟨rwn, value, hfiles⟩ := hopens.files_of_success hret
    rw [hfiles]
    exact ⟨rfl, fun _ hleads ↦ hleads⟩
  have hown : k'.MemberPoint (noteOpening m k .statement k') p := by
    rw [hnotes]
    have hnote (d' : Addr) (hd' : d' ∈ k.files.descriptorNodes p) :
        (update m d (some ⟨mode, k.pcbs.pid p, fun _ ↦ false⟩) d').map Opening.left =
          some fun _ ↦ false := by
      by_cases hsame : d' = d
      · rw [hsame, Function.update_self]
        rfl
      · rw [Function.update_of_ne hsame, (h.points p).notes d' hd', hleft,
          if_neg fun hfd' ↦ hsame (hother d' hd' hfd')]
    refine .of_plain hafter fun d' hd' ↦ ?_
    rw [hnodes] at hd'
    exact hnote d' hd'
  exact
    { owns := h.owns.step (h.ownershipSafe hsafe hstep) hstep
      backed := backed_step h.backed h.owns.owned.ok hsafe.notShutdown hstep
      entering := by
        intro d' hleads' hnone role
        rw [hnotes] at hnone
        have hne : d' ≠ d := by
          rintro rfl
          rw [Function.update_self] at hnone
          cases hnone
        rw [Function.update_of_ne hne] at hnone
        have hrwn : k'.descriptors.rwn d' = k.descriptors.rwn d' := by
          refine internalOpenQueue_rwn (k := k.trap p .openReturn (.openQueue id fd mode)) hp hcall
            fun hfound' ↦ hne ?_
          exact Option.some.inj (Option.some.inj (hfound'.symm.trans hfound))
        rw [hrwn]
        exact h.entering d' (hleads d' hleads') hnone role
      clean := h.clean_step hsafe hstep
      enrolled := by
        rw [hnotes]
        exact ⟨users', henrolled', fun p' u hfreeing ↦
          haside' u ((haside p' u (hfree hfreeing)).of_roll rfl)⟩
      freeing_inj := fun p₁ p₂ u h₁ h₂ ↦ h.freeing_inj p₁ p₂ u (hfree h₁) (hfree h₂)
      points := h.points_of hsafe hstep hp
        (fun p' hne ↦ by rw [hcontexts, Function.update_of_ne hne]) hown }

/-- The process gives up all its descriptors, or becomes a zombie with them. -/
theorem MembersInv.exit (h : k.MembersInv layout m) (hsafe : k.MembersSafe a)
    (hstep : k.step a = some k') (hp : k.running = some p) {value : ℤ}
    (hrequest : k.request a = some (.exit value)) : k'.MembersInv layout (noteOpening m k a k') := by
  obtain ⟨users, henrolled, haside⟩ := h.enrolled
  have hok : k.files.Ok := h.owns.owned.ok
  obtain ⟨next, hcalls, hcall⟩ := step_syscall hp hrequest hstep
  obtain ⟨hbefore, hnext⟩ := hcalls.plain (Or.inr ⟨value, rfl⟩)
  have hcontexts : k'.pcbs.cpuState = update k.pcbs.cpuState p next := by
    obtain hsame | ⟨hspawn, -⟩ := syscallVector_cpuState (by simp) hcall
    · exact hsame
    · cases hspawn
  have hafter : (k'.pcbs.cpuState p).plain = true := by
    rw [hcontexts, Function.update_self]
    exact hnext
  have hquiet : k.NotesNothing a := by
    refine ⟨fun id fd mode ↦ by rw [hrequest]; simp, fun p' fd q ds role hp' _ hcontext ↦ ?_⟩
    obtain rfl := Option.some.inj (hp.symm.trans hp')
    rw [hcontext] at hbefore
    cases hbefore
  have hfree {p' u : Addr} (hfreeing : k'.Freeing p' u) : k.Freeing p' u := by
    refine (hfreeing.of_update hcontexts fun fd q ds role entry hcontext ↦ ?_).2
    rw [hcontext] at hnext
    cases hnext
  have hreleasable : (k.trap p next (.exit value)).Releasable layout m users p :=
    { enrolled := henrolled.of_stays rfl fun d _ _ ↦ ⟨.refl _ d, rfl⟩
      owned := h.owns.owned
      backed := h.backed
      entering := h.entering
      inside := fun d hd ↦ by
        have hnote := (h.points p).notes d hd
        rw [leftAt_plain hbefore] at hnote
        obtain ⟨o, ho, hleft⟩ := Option.map_eq_some_iff.mp hnote
        exact ⟨o, ho, fun role ↦ congrFun hleft role⟩ }
  have hbacked := backed_step h.backed h.owns.owned.ok hsafe.notShutdown hstep
  -- what is noted of the descriptors that are left, and the lists of their queues
  obtain ⟨m', users', hnotes, hentering, henrolled', haside', hown⟩ : ∃ m' users',
      noteOpening m k a k' = m' ∧
        (∀ d, k'.files.Leads d → m' d = none → ∀ role, k'.descriptors.rwn d role = none) ∧
        k'.Enrolled layout m' users' ∧ (∀ v, k.Aside users v → k'.Aside users' v) ∧ k'.MemberPoint m' p := by
    obtain ⟨hfiles, hroll⟩ | ⟨users', henrolled', haside', hentering, hempty, hgone⟩ :=
      hreleasable.internalExit hp hcall
    · have hsame : k'.files = k.files := hfiles
      have hleads : ∀ d o, m d = some o → k'.files.Leads d := fun d o ho ↦
        hsame ▸ (henrolled.descriptor d o ho).2
      refine ⟨m, users, ?_, h.entering_of_files hsame fun _ hnone ↦ hnone,
        henrolled.of_stays hroll fun d _ _ ↦ ?_, fun v hv ↦ hv.of_roll hroll, ?_⟩
      · exact noteOpening_eq hquiet (fun d o ho hnone ↦ absurd (ho.symm.trans hnone) (by simp))
          fun d o ho ↦ ⟨ho, hleads d o ho⟩
      · have hrwn : k'.files.descriptors.rwn = k.files.descriptors.rwn := by rw [hsame]
        rw [hsame]
        exact ⟨.refl _ d, congrFun hrwn d⟩
      · have hsameFor : k.files.SameFor k'.files p := by
          rw [hsame]
          exact .refl _ p
        exact (h.points p).of_sameFor_plain hsameFor hbefore hafter
    · refine ⟨_, users', noteOpening_eq hquiet (fun d o ho hnone ↦ ?_) fun d o ho ↦ ⟨?_, ?_⟩,
        hentering, henrolled', fun v hv ↦ haside' v (hv.of_roll rfl), .of_empty hempty hafter⟩
      · refine hbacked.not_leads (hgone d ?_)
        by_contra hd
        rw [without, if_neg hd, ho] at hnone
        cases hnone
      · rw [without] at ho
        split_ifs at ho with hd
        exact ho
      · exact (henrolled'.descriptor d o ho).2
  have hpoints := h.points_of hsafe hstep hp (fun p' hne ↦ by rw [hcontexts, Function.update_of_ne hne])
    (hnotes ▸ hown)
  rw [hnotes] at hpoints ⊢
  exact
    { owns := h.owns.step (h.ownershipSafe hsafe hstep) hstep
      backed := hbacked
      entering := hentering
      clean := h.clean_step hsafe hstep
      enrolled := ⟨users', henrolled', fun p' u hfreeing ↦ haside' u (haside p' u (hfree hfreeing))⟩
      freeing_inj := fun p₁ p₂ u h₁ h₂ ↦ h.freeing_inj p₁ p₂ u (hfree h₁) (hfree h₂)
      points := hpoints }

/-- Every step of the runs keeps the invariant. -/
theorem MembersInv.step (h : k.MembersInv layout m) (hsafe : k.MembersSafe a)
    (hstep : k.step a = some k') : k'.MembersInv layout (noteOpening m k a k') := by
  by_cases hkeeps : k.KeepsMembers a
  · exact h.keeps hsafe hkeeps hstep
  obtain ⟨c, hrequest, hleaves⟩ | ⟨p, hp, rfl, hleaves⟩ :
      (∃ c, k.request a = some c ∧ c.leavesQueue = true) ∨
        ∃ p, k.running = some p ∧ a = .statement ∧ (k.pcbs.cpuState p).leavesQueue = true := by
    simpa [KeepsMembers, imp_iff_not_or, not_and_or] using hkeeps
  · obtain ⟨p, hp⟩ := running_of_request hrequest
    have hcall := hsafe c hrequest
    cases c with
    | exit value => exact h.exit hsafe hstep hp hrequest
    | destroyResource | shutdown => exact hcall.elim
    | closeResource fd =>
      obtain rfl : a = .statement := hcall
      obtain ⟨next, hcalls, -⟩ := step_syscall hp hrequest hstep
      obtain ⟨q, hcontext⟩ := hcalls.closing
      exact h.closeResource hsafe hstep hp hcontext
    | openQueue id fd mode =>
      obtain rfl : a = .statement := hcall.1
      obtain ⟨next, hcalls, -⟩ := step_syscall hp hrequest hstep
      exact h.openQueue hsafe hstep hp ((request_of_usesQueues rfl).2.2 hcalls)
    | _ => cases hleaves
  · generalize hcontext : k.pcbs.cpuState p = context at hleaves
    cases context with
    | closeDetach fd q ds role => exact h.detach hsafe hstep hp hcontext
    | closeFree fd q ds role entry => exact h.free hsafe hstep hp hcontext
    | _ => cases hleaves

/-! ### The permissions of a call -/

/-- A `dmq_send` or `dmq_receive` that has found its queue is about to look for the user of its
descriptor. -/
def Finding (k : Kernel) (p : Addr) (c : TransferCall) (q : Addr) : Prop :=
  k.pcbs.cpuState p = .transferSize c q ∨ k.pcbs.cpuState p = .transferFind c q

/-- The descriptor of such a call still refers to this queue. -/
theorem finding_step (hnoShutdown : k.NoShutdown) (hok : k.files.Ok)
    (hshutdown : k.request a ≠ some .shutdown)
    (h : ∀ p c q, k.Finding p c q → k.RefersOnly p c.fd q) (hstep : k.step a = some k') (p : Addr)
    (c : TransferCall) (q : Addr) (hfinding : k'.Finding p c q) : k'.RefersOnly p c.fd q := by
  have hstatement (hp : k.running = some p) (ha : a = .statement)
      (hquiet : (k.pcbs.cpuState p).request = none) (hrefers : k.RefersOnly p c.fd q) :
      k'.RefersOnly p c.fd q := by
    subst ha
    refine hrefers.step hok hshutdown hstep fun call hrequest _ hp' ↦ ?_
    obtain ⟨next, hcalls, -⟩ := step_syscall hp hrequest hstep
    cases hcalls with
    | statement _ _ hcall => exact Option.some_ne_none _ (hcall.symm.trans hquiet)
  obtain ⟨hsame, hquiet⟩ | ⟨ret, hret⟩ | ⟨call, hentry⟩ | ⟨call, next, hnext, hp, hcalls, -⟩ |
    ⟨next, hnext, hp, ha, hleads⟩ := (step_contexts hnoShutdown hshutdown hstep).at p
  · unfold Finding at hfinding
    rw [hsame] at hfinding
    refine (h p c q hfinding).step hok hshutdown hstep fun call hrequest _ hp ↦ ?_
    obtain ⟨next, hcalls, -⟩ := step_syscall hp hrequest hstep
    exact hquiet ⟨hp, call, next, hcalls⟩
  · unfold Finding at hfinding
    rw [hret] at hfinding
    obtain hfinding | hfinding := hfinding <;> cases hfinding
  · unfold Finding at hfinding
    rw [hentry] at hfinding
    obtain hfinding | hfinding := hfinding <;> cases call <;> cases hfinding
  · unfold Finding at hfinding
    rw [hnext] at hfinding
    cases hcalls with
    | user _ ret => obtain hfinding | hfinding := hfinding <;> cases hfinding
    | statement _ _ hrequest =>
      generalize k.pcbs.cpuState p = context at hrequest
      obtain rfl | rfl := hfinding <;> cases context <;> simp [Context.request] at hrequest
  · unfold Finding at hfinding
    rw [hnext] at hfinding
    generalize hcontext : k.pcbs.cpuState p = context at hleads
    obtain rfl | rfl := hfinding
    · cases hleads with
      | transfer _ _ hqueue =>
        exact hstatement hp ha (by rw [hcontext]; rfl) (refersOnly_of_queueByFd hok hqueue)
    · cases hleads with
      | transferSize => exact hstatement hp ha (by rw [hcontext]; rfl) (h p c q (.inl hcontext))

/-! ### What the runs keep -/

/-- Process `p` is not in the middle of the `dmq_open` or a `dmq_close` of its descriptor `fd`. -/
def Settled (k : Kernel) (p : Addr) (fd : ℤ) : Prop :=
  match k.pcbs.cpuState p with
  | .openResult _ _ => fd ≠ k.pcbs.syscallRetvalue p
  | .openQueue _ fd' _ | .closeDetach fd' _ _ _ | .closeFree fd' _ _ _ _ | .closeResource fd' _ => fd ≠ fd'
  | _ => True

theorem Settled.leftAt (h : k.Settled p fd) : k.leftAt p fd = some fun _ ↦ false := by
  unfold Settled at h
  unfold Kernel.leftAt
  cases hcontext : k.pcbs.cpuState p with
  | openResult | openQueue | closeDetach | closeFree | closeResource =>
    rw [hcontext] at h
    simp [h]
  | _ => rfl

/-- User `u` is the entry of a descriptor of the queue, and `dmq_close` has not taken it out of its list. -/
def EntryOf (k : Kernel) (m : Addr → Option Opening) (q : Addr) (role : Role) (u d : Addr) : Prop :=
  k.files.Leads d ∧ k.resources.value (k.descriptors.resource d) = some q ∧
    k.descriptors.rwn d role = some u ∧ ∀ o, m d = some o → o.left role = false

/-- The members of the queues match the openings: a descriptor has the entries that its mode asks for, each
of them a user with the pid of the process that occurs once in the list of the queue; a member of a list is
the entry of one descriptor; and a call is refused if the mode of its descriptor does not allow it. -/
structure MembersMatch (k : Kernel) (m : Addr → Option Opening) : Prop where
  entries : ∀ p, ∀ d ∈ k.files.descriptorNodes p, k.Settled p (k.descriptors.fd d) →
    ∃ o q, m d = some o ∧ k.resources.value (k.descriptors.resource d) = some q ∧
      ∀ role, (k.descriptors.rwn d role).isSome = hasBit o.mode (roleBit role) ∧
        ∀ u, k.descriptors.rwn d role = some u → k.queueUsers.allocator.Allocated u ∧
          (k.userNodes (q, role)).count u = 1 ∧ k.queueUsers.pid u = o.pid
  members : ∀ q role, ∀ u ∈ k.userNodes (q, role), ∃! d, k.EntryOf m q role u d
  permission : ∀ p c q, k.running = some p → k.pcbs.cpuState p = .transferFind c q →
    ∀ d ∈ k.files.descriptorNodes p, k.descriptors.fd d = c.fd → ∃ o k', m d = some o ∧
      k.step .statement = some k' ∧ (k'.pcbs.cpuState p = .user actionNotAllowed ↔
        hasBit o.mode (roleBit c.op.role) = false)

theorem MembersInv.membersMatch (h : k.MembersInv layout m) (hsized : k.files.Sized)
    (hfinding : ∀ p c q, k.Finding p c q → k.RefersOnly p c.fd q) : k.MembersMatch m := by
  obtain ⟨users, henrolled, -⟩ := h.enrolled
  have hok := h.owns.owned.ok
  have hnodes : k.userNodes = users := funext fun i ↦ (henrolled.lists.represents i).toList_eq
  -- a descriptor that is settled is in all its lists
  have hsettled (p : Addr) (d : Addr) (hd : d ∈ k.files.descriptorNodes p)
      (h' : k.Settled p (k.descriptors.fd d)) :
      ∃ o q, m d = some o ∧ (∀ role, o.left role = false) ∧
        k.resources.value (k.descriptors.resource d) = some q := by
    have hnote := (h.points p).notes d hd
    rw [h'.leftAt] at hnote
    obtain ⟨o, ho, hleft⟩ := Option.map_eq_some_iff.mp hnote
    obtain ⟨q, hq⟩ := henrolled.queue d o ho
    exact ⟨o, q, ho, fun role ↦ congrFun hleft role, hq⟩
  constructor
  · intro p d hd h'
    obtain ⟨o, q, ho, hinside, hq⟩ := hsettled p d hd h'
    refine ⟨o, q, ho, hq, fun role ↦ ⟨henrolled.mode d o ho role (hinside role), fun u hu ↦ ?_⟩⟩
    have hmem : u ∈ users (q, role) :=
      (henrolled.members q role u).mpr ⟨d, ⟨o, ho, hinside role⟩, hu, hq⟩
    refine ⟨henrolled.allocated _ u hmem, ?_, henrolled.pid d o ho role (hinside role) u hu⟩
    rw [hnodes]
    exact List.count_eq_one_of_mem (henrolled.lists.represents _).nodup hmem
  · intro q role u hu
    rw [hnodes] at hu
    obtain ⟨d, hlive⟩ := (henrolled.members q role u).mp hu
    obtain ⟨⟨o, ho, hinside⟩, hentry, hq⟩ := hlive
    refine ⟨d, ⟨(henrolled.descriptor d o ho).2, hq, hentry, fun o' ho' ↦ ?_⟩, ?_⟩
    · obtain rfl := Option.some.inj (ho.symm.trans ho')
      exact hinside
    · rintro d' ⟨hleads, hq', hentry', hleft⟩
      cases ho' : m d' with
      | none =>
        rw [h.entering d' hleads ho' role] at hentry'
        cases hentry'
      | some o' => exact henrolled.inj ⟨⟨o', ho', hleft o' ho'⟩, hentry', hq'⟩ ⟨⟨o, ho, hinside⟩, hentry, hq⟩
  · intro p c q hp hcontext d hd hfd
    obtain ⟨o, q', ho, hinside, hq'⟩ := hsettled p d hd (by rw [Settled, hcontext]; trivial)
    obtain rfl : q' = q := Option.some.inj (hq'.symm.trans (hfinding p c q (.inr hcontext) d hd hfd))
    have hbit := henrolled.mode d o ho c.op.role (hinside _)
    have hfound : k.queueEntries p c.fd = some (some d) := by
      rw [← hfd]
      exact descriptorByFd_of_mem hok hsized hd
    have hfind : listFind walkBound k.queueUsers.list (k.queues.users (q', c.op.role))
        (k.descriptors.rwn d c.op.role) =
          some ((users (q', c.op.role)).find? fun u ↦ some u = k.descriptors.rwn d c.op.role) := by
      have hlength := length_le_walkBound henrolled.pool (henrolled.samePool.sizeMax.trans rfl)
        (henrolled.lists.represents (q', c.op.role)).nodup (henrolled.allocated _)
      exact (henrolled.lists.represents (q', c.op.role)).scan_terminates _ hlength
    cases hentry : k.descriptors.rwn d c.op.role with
    | none =>
      rw [hentry] at hbit hfind
      have hnone : (users (q', c.op.role)).find? (fun u ↦ some u = none) = none :=
        List.find?_eq_none.mpr fun u _ ↦ by simp
      refine ⟨o, k.setContext p (.user actionNotAllowed), ho, ?_, fun _ ↦ hbit.symm, fun _ ↦
        Function.update_self ..⟩
      rw [step_statement hp hcontext rfl]
      simp only [runStatement, hfound, hentry, hfind, hnone, Option.bind_eq_bind, Option.bind_some]
    | some u =>
      rw [hentry] at hbit hfind
      have hmem : u ∈ users (q', c.op.role) :=
        (henrolled.members _ _ u).mpr ⟨d, ⟨o, ho, hinside _⟩, hentry, hq'⟩
      obtain ⟨v, hv⟩ : ∃ v, (users (q', c.op.role)).find? (fun v ↦ some v = some u) = some v :=
        Option.isSome_iff_exists.mp (List.find?_isSome.mpr ⟨u, hmem, by simp⟩)
      refine ⟨o, k.setContext p (.transferRoom c q' d), ho, ?_, fun hrefused ↦ ?_, fun hclear ↦ ?_⟩
      · rw [step_statement hp hcontext rfl]
        simp only [runStatement, hfound, hentry, hfind, hv, Option.bind_eq_bind, Option.bind_some]
      · have hroom : (k.setContext p (.transferRoom c q' d)).pcbs.cpuState p = .transferRoom c q' d :=
          Function.update_self ..
        rw [hroom] at hrefused
        cases hrefused
      · exact absurd (hbit.trans hclear) (by simp)

end Kernel

/-! ### Whole runs -/

theorem Layout.boot_membersInv (layout : Layout) : layout.boot.MembersInv layout fun _ ↦ none := by
  have husers := layout.boot_usersOrdered
  have hfreeing (p u : Addr) : ¬ layout.boot.Freeing p u := by
    rintro ⟨fd, q, ds, role, hcontext⟩
    cases hcontext
  have hleads (d : Addr) : ¬ layout.boot.files.Leads d := by
    rintro ⟨x, hx, -⟩
    exact absurd hx List.not_mem_nil
  exact
    { owns := layout.boot_ownsQueues
      backed := layout.boot_backed
      entering := fun d hd ↦ absurd hd (hleads d)
      clean := fun _ _ ↦ rfl
      enrolled := by
        refine ⟨fun _ ↦ [], ?_, fun p u hfree ↦ absurd hfree (hfreeing p u)⟩
        exact
          { descriptor := fun _ _ ho ↦ by cases ho
            queue := fun _ _ ho ↦ by cases ho
            mode := fun _ _ ho ↦ by cases ho
            pid := fun _ _ ho ↦ by cases ho
            lists := husers.lists
            pool := husers.pool
            samePool := SamePool.refl _
            allocated := husers.allocated
            unlinked := husers.unlinked
            members := fun q role u ↦ by
              constructor
              · intro hu
                exact absurd hu List.not_mem_nil
              · rintro ⟨d, ⟨o, ho, -⟩, -⟩
                cases ho
            inj := by
              rintro d d' q q' role role' u ⟨⟨o, ho, -⟩, -⟩
              cases ho }
      freeing_inj := fun p _ u h ↦ absurd h (hfreeing p u)
      points := fun p ↦ .of_empty rfl rfl }

/-- In every state of the runs, the members of the queues match the openings. -/
theorem membersMatch_of_safe (layout : Layout) {actions : List Action} {k : Kernel}
    (hsafe : Runs.Meets Kernel.step Kernel.MembersSafe layout.boot actions)
    (hrun : Runs.run Kernel.step layout.boot actions = some k) :
    k.MembersMatch (Runs.monitor Kernel.step Kernel.noteOpening (fun _ ↦ none) layout.boot actions) := by
  have hkeeps : ∀ (m : Addr → Option Opening) (k : Kernel) (a : Action) (k' : Kernel),
      (k.MembersInv layout m ∧ k.files.Sized ∧ ∀ p c q, k.Finding p c q → k.RefersOnly p c.fd q) →
        k.MembersSafe a → k.step a = some k' →
          k'.MembersInv layout (Kernel.noteOpening m k a k') ∧ k'.files.Sized ∧
            ∀ p c q, k'.Finding p c q → k'.RefersOnly p c.fd q := by
    rintro m k a k' ⟨hinv, hsized, hfinding⟩ hsafe hstep
    have hok := hinv.owns.owned.ok
    exact ⟨hinv.step hsafe hstep, Kernel.filesSized_step hok hsized hsafe.notShutdown hstep,
      Kernel.finding_step hinv.owns.noShutdown hok hsafe.notShutdown hfinding hstep⟩
  have hboot : ∀ p c q, layout.boot.Finding p c q → layout.boot.RefersOnly p c.fd q := by
    rintro p c q (hcontext | hcontext) <;> cases hcontext
  obtain ⟨hinv, hsized, hfinding⟩ := Runs.monitor_invariant hkeeps
    ⟨layout.boot_membersInv, ⟨rfl, rfl⟩, hboot⟩ hsafe hrun
  exact hinv.membersMatch hsized hfinding

/-- The first process opens queue 0 for reading, and again for writing without blocking. -/
def openTwice : List Action :=
  .start :: ([0o11, 0o42].map fun mode ↦ .call (.openQueue 0 mode) :: List.replicate 4 .statement).flatten

/-- It is about to look for the user of its first descriptor, to send a message. -/
theorem membersMatch_of_safe_openTwice : ∃ k,
    Runs.run Kernel.step sampleLayout.boot
        (openTwice ++ .call (.send 0 (some 0x800000) 2) :: List.replicate 2 .statement) = some k ∧
      k.MembersMatch (Runs.monitor Kernel.step Kernel.noteOpening (fun _ ↦ none) sampleLayout.boot
        (openTwice ++ .call (.send 0 (some 0x800000) 2) :: List.replicate 2 .statement)) ∧
      k.pcbs.cpuState 0x400000 = .transferFind ⟨.send, 0, some 0x800000, 2⟩ 0x1900000 ∧
      [Role.reader, .writer, .nonBlock].map (fun role ↦ k.userNodes (0x1900000, role)) =
        [[0x1F00000], [0x1F00018], [0x1F00030]] := by
  have hends : ∃ k ∈ Runs.run Kernel.step sampleLayout.boot
      (openTwice ++ .call (.send 0 (some 0x800000) 2) :: List.replicate 2 .statement),
      k.pcbs.cpuState 0x400000 = .transferFind ⟨.send, 0, some 0x800000, 2⟩ 0x1900000 ∧
      [Role.reader, .writer, .nonBlock].map (fun role ↦ k.userNodes (0x1900000, role)) =
        [[0x1F00000], [0x1F00018], [0x1F00030]] := by
    decide +kernel
  obtain ⟨k, hrun, hcontext, husers⟩ := hends
  exact ⟨k, hrun, membersMatch_of_safe sampleLayout (by decide +kernel) hrun, hcontext, husers⟩

end DisastrOS
