import DisastrOS.Renumbering

/-!
# `dmq_close` undoes `dmq_open`

A process opens a queue, others open and close descriptors of it, and the process closes its own. The run
is compared with the same run without the open and the close (`SideBySide`). What the process has besides
in the first run are `ownBlocks`; `dmq_open` takes them (`Consistent.dmqOpen`), the steps of the others
leave them where they are (`SideBySide.othersStep`), and `dmq_close` gives them back
(`Alike.ownDmqClose`), so that no difference is left but which blocks the others got
(`dmqClose_undoes_dmqOpen`).
-/

set_option autoImplicit false
set_option relaxedAutoImplicit false

namespace DisastrOS

open LinkedLists PoolAllocator Renamings
open Function (update)

/-- The roles that `dmq_close` goes through after a role. -/
def Role.after : Role → List Role
  | .reader => [.writer, .nonBlock]
  | .writer => [.nonBlock]
  | .nonBlock => []

theorem Role.notMem_after (role : Role) : role ∉ role.after := by
  cases role <;> decide

theorem Role.notMem_before_of_mem_after (role : Role) {role' : Role} (hrole : role' ∈ role.after) :
    role' ∉ role.before := by
  revert hrole
  cases role <;> cases role' <;> decide

namespace Kernel

variable {layout : Layout} {k k' k₁ k₁' : Kernel} {p o d q r u : Addr} {role : Role} {id fd : ℤ}
  {ρ : Renaming} {hidden : Blocks} {n : ℤ}

/-! ### The steps of the others -/

/-- A statement of `dmq_open` or `dmq_close` in both runs. -/
theorem Alike.statement (h : Alike p r q hidden n ρ k k') (hk : k.Consistent layout)
    (hk' : k'.Consistent layout) (hp : k.running = some o) (hne : o ≠ p)
    (hidle : ∀ fd role, ¬ (k'.pcbs.cpuState p).Left fd role)
    (howned : ∀ d ∈ hidden.descriptors, d ∈ k.files.descriptorNodes p) (hqueue' : k'.HoldsQueue r q)
    (hshares : k.SharesQueue r (k.pcbs.cpuState o)) (hstep : k.step .statement = some k₁) :
    ∃ k₁' ρ₁, k'.step .statement = some k₁' ∧ Alike p r q hidden n ρ₁ k₁ k₁' := by
  have hp' : k'.running = some o := h.processes.rest.running.symm.trans hp
  have hcontext := h.processes.context o hne
  have hret : k.pcbs.syscallRetvalue o = k'.pcbs.syscallRetvalue o := h.processes.retvalue o hne
  have hids : k.resources.id = k'.resources.id := by rw [h.processes.rest.resources]
  have hleft : ∀ {c' : Context}, k'.pcbs.cpuState o = c' → (∀ fd role, ¬ c'.Left fd role) →
      ∀ (c : Context) (fd : ℤ) (role : Role), (k'.pcbs.cpuState o).Left fd role → c.Left fd role := by
    intro c' hc' hout c fd role hbefore
    rw [hc'] at hbefore
    exact (hout fd role hbefore).elim
  rw [hcontext] at hshares
  cases hcontext' : k'.pcbs.cpuState o with
  | openResource id mode =>
    rw [hcontext'] at hcontext hshares
    rw [step_request hp hcontext rfl] at hstep
    have hid : k'.resources.id r = id := (congrFun hids r).symm.trans hshares.1.symm
    obtain ⟨k₁', ρ₁, hopen', halike⟩ :=
      h.openResource hk hk' hp hne hcontext' hqueue' hid hshares.2 hstep
    refine ⟨k₁', ρ₁, ?_, halike⟩
    rw [step_request hp' hcontext' rfl]
    exact hopen'
  | openResult id mode =>
    rw [hcontext'] at hcontext
    have hleft' := hleft hcontext' fun _ _ hfalse ↦ hfalse
    rw [step_statement hp hcontext rfl] at hstep
    rw [step_statement hp' hcontext' rfl]
    by_cases hneg : k.pcbs.syscallRetvalue o < 0
    · have hrun : k.runStatement o (.openResult id mode) =
          some (k.setContext o (.user (k.pcbs.syscallRetvalue o))) := if_pos hneg
      have hrun' : k'.runStatement o (.openResult id mode) =
          some (k'.setContext o (.user (k'.pcbs.syscallRetvalue o))) := if_pos (hret ▸ hneg)
      rw [← Option.some.inj (hrun.symm.trans hstep), hret]
      exact ⟨_, ρ, hrun', h.setContext rfl h.openings (hleft' _)⟩
    · have hrun : k.runStatement o (.openResult id mode) =
          some (k.setContext o (.openQueue id (k.pcbs.syscallRetvalue o) mode)) := if_neg hneg
      have hrun' : k'.runStatement o (.openResult id mode) =
          some (k'.setContext o (.openQueue id (k'.pcbs.syscallRetvalue o) mode)) :=
        if_neg (hret ▸ hneg)
      rw [← Option.some.inj (hrun.symm.trans hstep), hret]
      exact ⟨_, ρ, hrun', h.setContext rfl h.openings (hleft' _)⟩
  | openQueue id fd mode =>
    rw [hcontext'] at hcontext hshares
    rw [step_request hp hcontext rfl] at hstep
    have hid : k'.resources.id r = id := (congrFun hids r).symm.trans hshares.1.symm
    obtain ⟨k₁', ρ₁, hopen', halike⟩ :=
      h.openQueue hk hk' hp hne hidle hcontext' hqueue' hid hshares.2 hstep
    refine ⟨k₁', ρ₁, ?_, halike⟩
    rw [step_request hp' hcontext' rfl]
    exact hopen'
  | openReturn =>
    rw [hcontext'] at hcontext
    rw [step_statement hp hcontext rfl] at hstep
    rw [step_statement hp' hcontext' rfl]
    refine ⟨_, ρ, rfl, ?_⟩
    rw [← Option.some.inj hstep, hret]
    exact h.setContext rfl h.openings (hleft hcontext' (fun _ _ ↦ id) _)
  | close fd =>
    rw [hcontext'] at hcontext
    rw [step_statement hp hcontext rfl] at hstep
    rw [step_statement hp' hcontext' rfl]
    obtain ⟨k₁', hrun', halike⟩ := h.close hk hk' hne howned hcontext' hstep
    exact ⟨k₁', ρ, hrun', halike⟩
  | closeDetach fd q' d role =>
    rw [hcontext'] at hcontext
    rw [step_statement hp hcontext rfl] at hstep
    rw [step_statement hp' hcontext' rfl]
    refine ⟨_, ρ, rfl, ?_⟩
    rw [← Option.some.inj hstep]
    exact h.closeDetach hk hk' hne hcontext'
  | closeFree fd q' d role entry =>
    rw [hcontext', Context.rename] at hcontext
    rw [step_statement hp hcontext rfl, runStatement_closeFree] at hstep
    rw [step_statement hp' hcontext' rfl, runStatement_closeFree]
    refine ⟨_, ρ, rfl, ?_⟩
    rw [← Option.some.inj hstep]
    exact h.closeFree hk hk' hne hcontext'
  | closeResource fd q' =>
    rw [hcontext'] at hcontext
    rw [step_request hp hcontext rfl] at hstep
    obtain ⟨k₁', hclose', halike⟩ := h.closeResource hk hk' hp hne hcontext' hstep
    refine ⟨k₁', ρ, ?_, halike⟩
    rw [step_request hp' hcontext' rfl]
    exact hclose'
  | closeResult q' =>
    rw [hcontext'] at hcontext
    have hleft' := hleft hcontext' fun _ _ ↦ id
    rw [step_statement hp hcontext rfl] at hstep
    rw [step_statement hp' hcontext' rfl]
    by_cases hfailed : k.pcbs.syscallRetvalue o ≠ 0
    · have hrun : k.runStatement o (.closeResult q') =
          some (k.setContext o (.user (k.pcbs.syscallRetvalue o))) := if_pos hfailed
      have hrun' : k'.runStatement o (.closeResult q') =
          some (k'.setContext o (.user (k'.pcbs.syscallRetvalue o))) := if_pos (hret ▸ hfailed)
      rw [← Option.some.inj (hrun.symm.trans hstep), hret]
      exact ⟨_, ρ, hrun', h.setContext rfl h.openings (hleft' _)⟩
    · have hrun : k.runStatement o (.closeResult q') = some ({ k with
          queues.openings := update k.queues.openings q' (k.queues.openings q' - 1) }.setContext o
            (.user 0)) := if_neg hfailed
      have hrun' : k'.runStatement o (.closeResult q') = some ({ k' with
          queues.openings := update k'.queues.openings q' (k'.queues.openings q' - 1) }.setContext o
            (.user 0)) := if_neg (hret ▸ hfailed)
      rw [← Option.some.inj (hrun.symm.trans hstep)]
      exact ⟨_, ρ, hrun', h.setContext rfl (h.openings_add q' (-1)) (hleft' _)⟩
  | _ =>
    rw [hcontext'] at hshares
    exact hshares.elim

/-- The others may take the same step in the second run. -/
theorem Alike.allows {a : Action} (h : Alike p r q hidden n ρ k k')
    (hother : k.OthersStep p r a) : k'.OthersStep p r a := by
  have hrunning : k.running = k'.running := h.processes.rest.running
  have hids : k.resources.id = k'.resources.id := by rw [h.processes.rest.resources]
  cases a with
  | call c =>
    cases c with
    | openQueue id mode => exact ⟨hrunning ▸ hother.1, hids ▸ hother.2⟩
    | close fd =>
      have hstill : k.running ≠ some p := hother
      rw [hrunning] at hstill
      exact hstill
    | _ => exact hother
  | statement =>
    obtain ⟨hne, hshares⟩ := hother
    refine ⟨hrunning ▸ hne, fun c hc ↦ ?_⟩
    obtain ⟨o, hp', rfl⟩ := Option.map_eq_some_iff.mp hc
    have hp : k.running = some o := hrunning.trans hp'
    have hop : o ≠ p := fun hsame ↦ hne (hsame ▸ hp)
    have hpoint := hshares (k.pcbs.cpuState o) (by rw [context, hp]; rfl)
    rw [h.processes.context o hop] at hpoint
    revert hpoint
    cases k'.pcbs.cpuState o with
    | openResource id mode =>
      exact fun hpoint ↦ ⟨hpoint.1.trans (congrFun hids r), hpoint.2.trans_le h.descriptor_room⟩
    | openQueue id fd mode =>
      exact fun hpoint ↦ ⟨hpoint.1.trans (congrFun hids r), hpoint.2.trans h.user_room⟩
    | _ => exact fun hpoint ↦ hpoint
  | _ => exact hother

/-- A step of the others in both runs. -/
theorem Alike.othersStep {a : Action} {ret : ℤ} (h : Alike p r q hidden n ρ k k')
    (hk : k.Consistent layout) (hk' : k'.Consistent layout)
    (huser : k'.pcbs.cpuState p = .user ret)
    (howned : ∀ d ∈ hidden.descriptors, d ∈ k.files.descriptorNodes p) (hqueue' : k'.HoldsQueue r q)
    (hother : k.OthersStep p r a) (hstep : k.step a = some k₁) :
    ∃ k₁' ρ₁, k'.step a = some k₁' ∧ Alike p r q hidden n ρ₁ k₁ k₁' := by
  have hrunning : k.running = k'.running := h.processes.rest.running
  have hidle : ∀ fd role, ¬ (k'.pcbs.cpuState p).Left fd role := by
    rw [huser]
    exact fun _ _ hfalse ↦ hfalse
  -- a process in the user code is there in the second run too
  have hback : ∀ {o ret}, k.pcbs.cpuState o = .user ret → ∃ ret', k'.pcbs.cpuState o = .user ret' := by
    intro o ret' hcontext
    by_cases hop : o = p
    · exact ⟨ret, hop ▸ huser⟩
    · rw [h.processes.context o hop] at hcontext
      revert hcontext
      cases k'.pcbs.cpuState o with
      | user ret'' => exact fun _ ↦ ⟨ret'', rfl⟩
      | _ => exact Context.noConfusion
  cases a with
  | start => exact hother.elim
  | write x byte => exact hother.elim
  | timer =>
    obtain ⟨k₁', hstep', halike⟩ := h.timer hstep
    exact ⟨k₁', ρ, hstep', halike⟩
  | syscall c =>
    obtain rfl : c = .preempt := hother
    have hat : k'.atUser = true := by
      have hatk : k.atUser = true := by
        rw [step, Option.ite_none_right_eq_some] at hstep
        exact hstep.1
      obtain ⟨o, ret', hp, hcontext⟩ := atUser_iff.mp hatk
      obtain ⟨ret'', hcontext'⟩ := hback hcontext
      exact atUser_iff.mpr ⟨o, ret'', hrunning ▸ hp, hcontext'⟩
    obtain ⟨k₁', hstep', halike⟩ := h.preempt hat hstep
    exact ⟨k₁', ρ, hstep', halike⟩
  | call c =>
    rw [step, Option.ite_none_right_eq_some] at hstep
    obtain ⟨hatk, hcall⟩ := hstep
    obtain ⟨o, ret', hp, hcontext⟩ := atUser_iff.mp hatk
    obtain ⟨ret'', hcontext'⟩ := hback hcontext
    have hp' : k'.running = some o := hrunning ▸ hp
    have hat : k'.atUser = true := atUser_iff.mpr ⟨o, ret'', hp', hcontext'⟩
    rw [hp] at hcall
    refine ⟨k'.setContext o c.entry, ρ, ?_, ?_⟩
    · rw [step, if_pos hat, hp']
      rfl
    · rw [← Option.some.inj hcall]
      have hentry : c.entry = c.entry.rename ρ := by cases c <;> rfl
      refine h.setContext hentry h.openings fun fd role hbefore ↦ ?_
      rw [hcontext'] at hbefore
      exact hbefore.elim
  | statement =>
    obtain ⟨hne, hshares⟩ := hother
    obtain ⟨o, hp, -⟩ := Option.bind_eq_some_iff.mp hstep
    have hop : o ≠ p := fun hsame ↦ hne (hsame ▸ hp)
    have hpoint := hshares (k.pcbs.cpuState o) (by rw [context, hp]; rfl)
    exact h.statement hk hk' hp hop hidle howned hqueue' hpoint hstep

/-- Process `p` stands where it stood, with its descriptors as they were. -/
structure Waits (p : Addr) (k k₁ : Kernel) : Prop where
  sameFor : k.files.SameFor k₁.files p
  ptr : ∀ d ∈ k.files.descriptorNodes p, k₁.descriptors.ptr d = k.descriptors.ptr d
  context : k₁.pcbs.cpuState p = k.pcbs.cpuState p

theorem Waits.refl (p : Addr) (k : Kernel) : Waits p k k := ⟨.refl _ _, fun _ _ ↦ rfl, rfl⟩

theorem Waits.onlyAbout {k₂ : Kernel} (h : Waits p k k₁) (hne : p ≠ o) (habout : OnlyAbout o k₁ k₂) :
    Waits p k k₂ where
  sameFor := h.sameFor.trans (habout.sameFor p hne)
  ptr d hd := (habout.ptr p hne d (by rw [h.sameFor.nodes]; exact hd)).trans (h.ptr d hd)
  context := (habout.context p hne).trans h.context

/-- Two runs in which the others do the same, from `k₀` and `k₀'` on. -/
structure SideBySide (layout : Layout) (p r q : Addr) (hidden : Blocks) (n : ℤ)
    (k₀ k₀' k k' : Kernel) : Prop where
  consistent : k.Consistent layout
  consistent' : k'.Consistent layout
  waits : Waits p k₀ k
  waits' : Waits p k₀' k'
  holdsQueue : k'.HoldsQueue r q
  alike : ∃ ρ, Alike p r q hidden n ρ k k'

theorem SideBySide.othersStep {k₀ k₀' : Kernel} {a : Action} {ret : ℤ}
    (h : SideBySide layout p r q hidden n k₀ k₀' k k') (huser : k₀'.pcbs.cpuState p = .user ret)
    (howned : ∀ d ∈ hidden.descriptors, d ∈ k₀.files.descriptorNodes p)
    (hother : k.OthersStep p r a) (hstep : k.step a = some k₁) :
    ∃ k₁', k'.step a = some k₁' ∧ SideBySide layout p r q hidden n k₀ k₀' k₁ k₁' := by
  obtain ⟨ρ, halike⟩ := h.alike
  have howned' : ∀ d ∈ hidden.descriptors, d ∈ k.files.descriptorNodes p := by
    rw [h.waits.sameFor.nodes]
    exact howned
  obtain ⟨k₁', ρ₁, hstep', hafter⟩ := halike.othersStep h.consistent h.consistent'
    (h.waits'.context.trans huser) howned' h.holdsQueue hother hstep
  obtain ⟨hk₁, o, hne, habout⟩ :=
    h.consistent.othersStep (halike.holdsQueue h.holdsQueue) hother hstep
  obtain ⟨hk₁', o', hne', habout'⟩ :=
    h.consistent'.othersStep h.holdsQueue (halike.allows hother) hstep'
  exact ⟨k₁', hstep', hk₁, hk₁', h.waits.onlyAbout (Ne.symm hne) habout,
    h.waits'.onlyAbout (Ne.symm hne') habout', habout'.holdsQueue h.holdsQueue, ρ₁, hafter⟩

/-! ### What the process itself does -/

/-- The other processes are where they were. -/
theorem AlikeProcesses.own (h : AlikeProcesses p ρ k k') (hrest : k.SameRest k₁)
    (hcontext : ∀ o, o ≠ p → k₁.pcbs.cpuState o = k.pcbs.cpuState o)
    (hsyscall : ∀ o, o ≠ p → k₁.pcbs.syscall o = k.pcbs.syscall o)
    (hretvalue : ∀ o, o ≠ p → k₁.pcbs.syscallRetvalue o = k.pcbs.syscallRetvalue o)
    (hlastFd : k₁.pcbs.lastFd = k.pcbs.lastFd) : AlikeProcesses p ρ k₁ k' where
  rest := hrest.symm.trans h.rest
  context o hne := (hcontext o hne).trans (h.context o hne)
  syscall o hne := (hsyscall o hne).trans (h.syscall o hne)
  retvalue o hne := (hretvalue o hne).trans (h.retvalue o hne)
  lastFd := hlastFd.trans h.lastFd

/-- The process goes on, makes system calls and gets their results. -/
theorem Alike.own (h : Alike p r q hidden n ρ k k') (hfiles : k₁.files = k.files)
    (husers : k₁.queueUsers = k.queueUsers) (hqueues : k₁.queues = k.queues)
    (hprocesses : AlikeProcesses p ρ k₁ k') : Alike p r q hidden n ρ k₁ k' := by
  refine h.of_sameTables hfiles husers (congrArg Queues.users hqueues) rfl rfl rfl hprocesses ?_
    fun _ _ _ _ hbefore ↦ hbefore
  rw [hqueues]
  exact h.openings

theorem Alike.ownContext (h : Alike p r q hidden n ρ k k') (c : Context) :
    Alike p r q hidden n ρ (k.setContext p c) k' := by
  refine h.own rfl rfl rfl (h.processes.own rfl (fun o hne ↦ ?_) (fun _ _ ↦ rfl) (fun _ _ ↦ rfl) rfl)
  exact Function.update_of_ne hne ..

theorem Alike.ownTrap (h : Alike p r q hidden n ρ k k') (c : Context) (s : Syscall) :
    Alike p r q hidden n ρ (k.trap p c s) k' := by
  refine h.own rfl rfl rfl (h.processes.own rfl (fun o hne ↦ ?_) (fun o hne ↦ ?_) (fun _ _ ↦ rfl) rfl)
  · exact Function.update_of_ne hne ..
  · exact Function.update_of_ne hne ..

theorem Alike.ownRetvalue (h : Alike p r q hidden n ρ k k') (ret : ℤ) :
    Alike p r q hidden n ρ (k.setRetvalue p ret) k' := by
  refine h.own rfl rfl rfl (h.processes.own rfl (fun _ _ ↦ rfl) (fun _ _ ↦ rfl) (fun o hne ↦ ?_) rfl)
  exact Function.update_of_ne hne ..

/-- The process counts openings of the queue on or off. -/
theorem Alike.ownOpenings (h : Alike p r q hidden n ρ k k') (m : ℤ) :
    Alike p r q hidden (n + m) ρ
      { k with queues.openings := update k.queues.openings q (k.queues.openings q + m) } k' := by
  refine h.of_sameTables rfl rfl rfl rfl rfl rfl
    (h.processes.own rfl (fun _ _ ↦ rfl) (fun _ _ ↦ rfl) (fun _ _ ↦ rfl) rfl) ?_
    fun _ _ _ _ hbefore ↦ hbefore
  change update k.queues.openings q (k.queues.openings q + m) = _
  rw [h.openings, Function.update_self, Function.update_idem, add_assoc]

/-- The process has taken a descriptor, and that is the only difference. -/
theorem Joins.alike {x : Addr} (hk : k.Consistent layout) (hjoin : k.Joins p r d x k₁)
    (hprocesses : AlikeProcesses p .same k₁ k) :
    Alike p r q ⟨{d}, {x}, ∅, 1, 0⟩ 0 .same k₁ k := by
  have hlisted : ∀ o, ∀ d' ∈ k.descriptorStore.lists o, k.descriptorStore.taken d' :=
    fun o d' ↦ hk.files.descriptor_allocated o d'
  have hlistedPtr : ∀ r', ∀ x' ∈ k.pointerStore.lists r', k.pointerStore.taken x' :=
    fun r' x' ↦ hk.files.pointer_allocated r' x'
  refine ⟨hprocesses, ?_, ?_, ?_, ?_, ?_, ?_, fun o d' hd' ↦ ?_, fun v _ ↦ ?_, ⟨?_, ?_, ?_⟩⟩
  · have htake := ((renames_refl hlisted).takeHidden hjoin.free).appendHidden (Set.mem_insert _ _) p
    rw [insert_empty_eq] at htake
    rw [hjoin.descriptorStore]
    exact htake
  · have htake :=
      ((renames_refl hlistedPtr).takeHidden hjoin.freePtr).appendHidden (Set.mem_insert _ _) r
    rw [insert_empty_eq] at htake
    rw [hjoin.pointerStore]
    exact htake
  · rw [userStore_congr hjoin.queueUsers (congrArg Queues.users hjoin.queues)]
    exact renames_refl hk.ordered.allocated
  · rw [hjoin.size]
    exact Int.sub_add_cancel _ _
  · rw [hjoin.queueUsers]
    exact add_zero _
  · rw [hjoin.queues, add_zero, Function.update_eq_self]
  · have hne : d' ≠ d := by
      rintro rfl
      exact hjoin.free (hk.files.descriptor_allocated o d' hd')
    obtain ⟨hfd, hresource, hpcb, hptr, hrwn⟩ := hjoin.kept hne
    constructor
    · exact hfd
    · exact hresource
    · exact hpcb
    · exact hptr.trans Option.map_id'.symm
    · exact fun role _ ↦ (congrFun hrwn role).trans Option.map_id'.symm
  · rw [hjoin.queueUsers]
    exact ⟨rfl, rfl⟩
  · exact fun d' _ hmoved ↦ absurd rfl hmoved
  · exact fun x' _ hmoved ↦ absurd rfl hmoved
  · exact fun v _ hmoved ↦ absurd rfl hmoved

/-- A hidden descriptor is the counterpart of none. -/
theorem Alike.ne_hidden (h : Alike p r q hidden n ρ k k') (hok' : k'.files.Ok)
    (hd : d ∈ hidden.descriptors) {d' : Addr} (hd' : d' ∈ k'.files.descriptorNodes o) :
    ρ.descriptors d' ≠ d := by
  rintro rfl
  exact h.descriptors.not_hidden (hok'.descriptor_allocated o d' hd') hd

/-- The process enters the list of a role. -/
theorem Alike.ownEnterUser {q₁ : Addr} {pid : ℤ} (h : Alike p r q hidden n ρ k k')
    (hordered : k.UsersOrdered k.userNodes) (hok' : k'.files.Ok) (hd : d ∈ hidden.descriptors)
    (hentered : k.Entered k.userNodes q₁ d pid role u (k.enterUser q₁ d pid role u)) :
    Alike p r q { hidden with
      users := insert u hidden.users
      userCount := hidden.userCount + 1 } n ρ (k.enterUser q₁ d pid role u) k' := by
  have hstatus := hentered.status hordered
  have hstore := hentered.userStore_eq
  set k₁ := k.enterUser q₁ d pid role u with hk₁
  have hframe : k₁ = { k with
      queueUsers := k₁.queueUsers
      queues := { k.queues with users := k₁.queues.users }
      descriptors := { k.descriptors with rwn := k₁.descriptors.rwn } } := hentered.frame
  have hpcbs : k₁.pcbs = k.pcbs := by rw [hframe]
  refine ⟨?_, ?_, ?_, ?_, ?_, ?_, ?_, fun o d' hd' ↦ ?_, fun v hv ↦ ?_, h.moves⟩
  · refine h.processes.own ?_ ?_ ?_ ?_ ?_
    · rw [hframe]
      rfl
    · rw [hpcbs]
      exact fun _ _ ↦ rfl
    · rw [hpcbs]
      exact fun _ _ ↦ rfl
    · rw [hpcbs]
      exact fun _ _ ↦ rfl
    · rw [hpcbs]
  · have hsame : k₁.descriptorStore = k.descriptorStore := by
      rw [hframe]
      rfl
    rw [hsame]
    exact h.descriptors
  · have hsame : k₁.pointerStore = k.pointerStore := by
      rw [hframe]
      rfl
    rw [hsame]
    exact h.pointers
  · rw [hstore]
    exact (h.users.takeHidden hentered.free).appendHidden (Set.mem_insert _ _) (q₁, role)
  · have hpool : k₁.descriptors.allocator = k.descriptors.allocator := by rw [hframe]
    rw [hpool]
    exact h.descriptorSize
  · have hsize := h.userSize
    rw [hentered.size]
    push_cast
    omega
  · have hsame : k₁.queues.openings = k.queues.openings := by rw [hframe]
    rw [hsame]
    exact h.openings
  · have hsame := h.same o d' hd'
    constructor
    · rw [hframe]
      exact hsame.fd
    · rw [hframe]
      exact hsame.resource
    · rw [hframe]
      exact hsame.pcb
    · rw [hframe]
      exact hsame.ptr
    · intro role' hinside
      rw [hentered.rwn, Function.update_of_ne (h.ne_hidden hok' hd hd')]
      exact hsame.entry role' hinside
  · have hne : ρ.users v ≠ u := by
      rintro rfl
      exact hentered.free (h.users.taken hv)
    rw [hentered.pid, hstatus, Function.update_of_ne hne, Function.update_of_ne hne]
    exact h.userPid v hv

/-- The process leaves the list of a role. -/
theorem Alike.ownDetach {i : Addr × Role} (h : Alike p r q hidden n ρ k k')
    (hordered : k.UsersOrdered k.userNodes) (hu : u ∈ k.userNodes i) (hhidden : u ∈ hidden.users) :
    Alike p r q hidden n ρ (k.detachUser i (some u)) k' := by
  refine ⟨?_, h.descriptors, h.pointers, ?_, h.descriptorSize, h.userSize, h.openings,
    fun o d' hd' ↦ ?_, h.userPid, h.moves⟩
  · exact h.processes.own rfl (fun _ _ ↦ rfl) (fun _ _ ↦ rfl) (fun _ _ ↦ rfl) rfl
  · rw [hordered.userStore_detach hu]
    exact h.users.eraseHidden hhidden i
  · exact (h.same o d' hd').congr rfl rfl fun _ hbefore ↦ hbefore

/-- The process frees the user that it has set aside. -/
theorem Alike.ownFree {m : ℕ} (h : Alike p r q hidden n ρ k k')
    (hordered : k.UsersOrdered k.userNodes) (haside : k.Aside k.userNodes u)
    (hhidden : u ∈ hidden.users) (hcount : hidden.userCount = m + 1) :
    Alike p r q { hidden with
      users := hidden.users \ {u}
      userCount := m } n ρ (k.queueUserFree (some u)) k' := by
  obtain ⟨-, hsize, -⟩ := hordered.pool.release haside.allocated
  refine ⟨?_, h.descriptors, h.pointers, ?_, h.descriptorSize, ?_, h.openings,
    fun o d' hd' ↦ ?_, h.userPid, h.moves⟩
  · exact h.processes.own rfl (fun _ _ ↦ rfl) (fun _ _ ↦ rfl) (fun _ _ ↦ rfl) rfl
  · rw [hordered.userStore_free haside.allocated]
    exact h.users.releaseHidden hhidden haside.notMem
  · have hbefore := h.userSize
    rw [hcount] at hbefore
    change (k.queueUsers.allocator.releaseBlock u).2.size + (m : ℤ) = _
    rw [hsize]
    push_cast at hbefore
    omega
  · exact (h.same o d' hd').congr rfl rfl fun _ hbefore ↦ hbefore

/-- The process closes the resource. -/
theorem Alike.ownClose {x : Addr} {m : ℕ} (h : Alike p r q hidden n ρ k k') (hok : k.files.Ok)
    (hp : k.running = some p) (hfound : k.descriptorByFd p fd = some (some d))
    (hd : d ∈ hidden.descriptors) (hptr : k.descriptors.ptr d = some x) (hx : x ∈ hidden.pointers)
    (hcount : hidden.descriptorCount = m + 1) :
    ∃ k₁, internalCloseResource fd k = some k₁ ∧ k₁.pcbs.syscallRetvalue p = 0 ∧
      Alike p r q { hidden with
        descriptors := hidden.descriptors \ {d}
        pointers := hidden.pointers \ {x}
        descriptorCount := m } n ρ k₁ k' := by
  obtain ⟨k₁, hclose, hfiles, hret⟩ := internalCloseResource_found hp hfound hptr
  have hframe := internalCloseResource_eq hclose
  obtain ⟨hmem, -⟩ := descriptorByFd_some hok hfound
  obtain ⟨hstore, hstorePtr⟩ := stores_drop hok hmem hptr hfiles
  obtain ⟨x', hx', hptr', -⟩ := hok.pointer p d hmem
  obtain rfl := Option.some.inj (hptr'.symm.trans hptr)
  have hqueues : k₁.queues = k.queues := by rw [hframe]
  have husers : k₁.queueUsers = k.queueUsers := by rw [hframe]
  refine ⟨k₁, hclose, ?_, ⟨?_, ?_, ?_, ?_, ?_, ?_, ?_, fun o d' hd' ↦ ?_, ?_, h.moves⟩⟩
  · rw [hret, Function.update_self]
  · refine h.processes.own ?_ ?_ ?_ ?_ ?_
    · rw [hframe]
      rfl
    · rw [hframe]
      exact fun _ _ ↦ rfl
    · rw [hframe]
      exact fun _ _ ↦ rfl
    · rw [hret]
      exact fun o hne ↦ Function.update_of_ne hne ..
    · rw [hframe]
  · rw [hstore]
    refine (h.descriptors.eraseHidden hd p).releaseHidden hd fun o hd' ↦ ?_
    exact ((hok.descriptorLists.mem_update_erase hmem).mp hd').2 rfl
  · rw [hstorePtr]
    refine (h.pointers.eraseHidden hx _).releaseHidden hx fun r' hx'' ↦ ?_
    exact ((hok.pointerLists.mem_update_erase hx').mp hx'').2 rfl
  · rw [userStore_congr husers (congrArg Queues.users hqueues)]
    exact h.users
  · have hpool : k₁.descriptors.allocator = (k.descriptors.allocator.releaseBlock d).2 :=
      congrArg (fun f : Files ↦ f.descriptors.allocator) hfiles
    obtain ⟨-, hsize, -⟩ := hok.descriptorPool.release (hok.descriptor_allocated p d hmem)
    have hbefore := h.descriptorSize
    change (k.descriptors.allocator.releaseBlock d).2.size = k.descriptors.allocator.size + 1 at hsize
    rw [hcount] at hbefore
    rw [hpool, hsize]
    change _ + (m : ℤ) = _
    push_cast at hbefore
    omega
  · rw [husers]
    exact h.userSize
  · rw [hqueues]
    exact h.openings
  · exact (h.same o d' hd').congr (by rw [hframe]) rfl fun _ hbefore ↦ hbefore
  · rw [husers]
    exact h.userPid

/-- The process enters the lists of some roles. -/
theorem Alike.ownEntersRoles {q₁ : Addr} {pid : ℤ} {roles : List Role}
    (h : Alike p r q hidden n ρ k k') (hordered : k.UsersOrdered k.userNodes) (hok' : k'.files.Ok)
    (hd : d ∈ hidden.descriptors) (hnodup : roles.Nodup)
    (henters : EntersRoles q₁ d pid k roles k₁) :
    Alike p r q { hidden with
        users := { u | ∃ role ∈ roles, k₁.descriptors.rwn d role = some u } ∪ hidden.users
        userCount := hidden.userCount + roles.length } n ρ k₁ k' ∧
      (∀ role ∉ roles, k₁.descriptors.rwn d role = k.descriptors.rwn d role) ∧
      ∀ role ∈ roles, (k₁.descriptors.rwn d role).isSome := by
  induction henters generalizing hidden with
  | nil k =>
    refine ⟨?_, fun _ _ ↦ rfl, fun role hrole ↦ (List.not_mem_nil hrole).elim⟩
    have hblocks : { hidden with
        users := { u | ∃ role ∈ ([] : List Role), k.descriptors.rwn d role = some u } ∪ hidden.users
        userCount := hidden.userCount + ([] : List Role).length } = hidden := by
      ext v
      · rfl
      · rfl
      · simp
      · rfl
      · rfl
    rw [hblocks]
    exact h
  | @cons k k₁ role roles u hentered hrest ih =>
    obtain ⟨hnotMem, hnodup⟩ := List.nodup_cons.mp hnodup
    have hordered' : (k.enterUser q₁ d pid role u).UsersOrdered
        (k.enterUser q₁ d pid role u).userNodes := by
      rw [hentered.listed.userNodes_eq]
      exact hentered.listed
    obtain ⟨halike, hkept, hsome⟩ :=
      ih (h.ownEnterUser hordered hok' hd hentered) hordered' hd hnodup
    have hentry : k₁.descriptors.rwn d role = some u := by
      rw [hkept role hnotMem, hentered.rwn, Function.update_self, Function.update_self]
    refine ⟨?_, fun role' hrole' ↦ ?_, fun role' hrole' ↦ ?_⟩
    · have hblocks : ({ hidden with
          users := { v | ∃ role ∈ roles, k₁.descriptors.rwn d role = some v } ∪ insert u hidden.users
          userCount := hidden.userCount + 1 + roles.length } : Blocks) = { hidden with
          users := { v | ∃ role' ∈ role :: roles, k₁.descriptors.rwn d role' = some v } ∪ hidden.users
          userCount := hidden.userCount + (role :: roles).length } := by
        ext v
        · rfl
        · rfl
        · constructor
          · rintro (⟨role', hrole', hv⟩ | rfl | hv)
            · exact Or.inl ⟨role', List.mem_cons_of_mem _ hrole', hv⟩
            · exact Or.inl ⟨role, List.mem_cons_self, hentry⟩
            · exact Or.inr hv
          · rintro (⟨role', hrole', hv⟩ | hv)
            · obtain rfl | hrole' := List.mem_cons.mp hrole'
              · exact Or.inr (Or.inl (Option.some.inj (hv.symm.trans hentry)))
              · exact Or.inl ⟨role', hrole', hv⟩
            · exact Or.inr (Or.inr hv)
        · rfl
        · change hidden.userCount + 1 + roles.length = hidden.userCount + (roles.length + 1)
          omega
      rw [← hblocks]
      exact halike
    · obtain ⟨hne, hrest'⟩ := not_or.mp (List.mem_cons.not.mp hrole')
      rw [hkept role' hrest', hentered.rwn, Function.update_self, Function.update_of_ne hne]
    · obtain rfl | hrole' := List.mem_cons.mp hrole'
      · rw [hentry]
        rfl
      · exact hsome role' hrole'

/-! ### Leaving the lists -/

/-- What a process has besides by an open descriptor: the descriptor, the pointer to it, and the users
of the given roles. -/
def ownBlocks (d x : Addr) (entries : Role → Option Addr) (roles : List Role) : Blocks where
  descriptors := {d}
  pointers := {x}
  users := { u | ∃ role ∈ roles, entries role = some u }
  descriptorCount := 1
  userCount := (roles.filter fun role ↦ (entries role).isSome).length

theorem Consistent.leaveRole (hk : k.Consistent layout)
    (hcontext : k.pcbs.cpuState o = .closeDetach fd q d role) :
    ((k.leaveRole q d role).setContext o (afterRole fd q d role)).Consistent layout := by
  obtain ⟨hdetach, -⟩ := hk.closeDetach hcontext
  obtain ⟨hfree, -⟩ := hdetach.closeFree (Function.update_self ..)
  have hsame : ((((k.detachUser (q, role) (k.descriptors.rwn d role)).setContext o
      (.closeFree fd q d role (k.descriptors.rwn d role))).queueUserFree
        (k.descriptors.rwn d role)).setContext o (afterRole fd q d role)) =
      (k.leaveRole q d role).setContext o (afterRole fd q d role) :=
    setContext_setContext (k.leaveRole q d role) o _ _
  rw [← hsame]
  exact hfree

/-- The process leaves the list of a role and frees the user that it had there. -/
theorem Alike.ownLeaveRole {x q' : Addr} {entries : Role → Option Addr}
    (h : Alike p r q (ownBlocks d x entries (role :: role.after)) n ρ k k')
    (hk : k.Consistent layout) (hcontext : k.pcbs.cpuState p = .closeDetach fd q' d role)
    (hentries : k.descriptors.rwn d = entries) :
    Alike p r q (ownBlocks d x entries role.after) n ρ
      ((k.leaveRole q' d role).setContext p (afterRole fd q' d role)) k' := by
  apply Alike.ownContext
  rw [Kernel.leaveRole, hentries]
  cases hentry : entries role with
  | none =>
    rw [detachUser_null, queueUserFree_null hk.samePool]
    have hblocks : ownBlocks d x entries (role :: role.after) = ownBlocks d x entries role.after := by
      ext v
      · rfl
      · rfl
      · refine ⟨?_, fun ⟨role', hrole', hv⟩ ↦ ⟨role', List.mem_cons_of_mem _ hrole', hv⟩⟩
        rintro ⟨role', hrole', hv⟩
        obtain rfl | hrole' := List.mem_cons.mp hrole'
        · rw [hentry] at hv
          cases hv
        · exact ⟨role', hrole', hv⟩
      · rfl
      · change ((role :: role.after).filter fun role ↦ (entries role).isSome).length = _
        rw [List.filter_cons_of_neg (by rw [hentry]; simp)]
        rfl
    rw [← hblocks]
    exact h
  | some u =>
    have hentryk : k.descriptors.rwn d role = some u := by rw [hentries, hentry]
    obtain ⟨henlists, hu⟩ := hk.enlists_closeDetach hcontext hentryk
    have hhidden : u ∈ (ownBlocks d x entries (role :: role.after)).users :=
      ⟨role, List.mem_cons_self, hentry⟩
    have hordered : (k.detachUser (q', role) (some u)).UsersOrdered _ := hk.ordered.leave hu
    have haside : (k.detachUser (q', role) (some u)).Aside _ u := hk.ordered.aside hu
    have hnodes := hordered.userNodes_eq
    rw [← hnodes] at hordered haside
    have hcount : (ownBlocks d x entries (role :: role.after)).userCount =
        (ownBlocks d x entries role.after).userCount + 1 := by
      change ((role :: role.after).filter fun role ↦ (entries role).isSome).length = _
      rw [List.filter_cons_of_pos (by rw [hentry]; rfl)]
      rfl
    have hfree := (h.ownDetach hk.ordered hu hhidden).ownFree hordered haside hhidden hcount
    have hblocks : ({ ownBlocks d x entries (role :: role.after) with
        users := (ownBlocks d x entries (role :: role.after)).users \ {u}
        userCount := (ownBlocks d x entries role.after).userCount } : Blocks) =
          ownBlocks d x entries role.after := by
      ext v
      · rfl
      · rfl
      · constructor
        · rintro ⟨⟨role', hrole', hv⟩, hne⟩
          obtain rfl | hrole' := List.mem_cons.mp hrole'
          · exact absurd (Option.some.inj (hv.symm.trans hentry)) hne
          · exact ⟨role', hrole', hv⟩
        · rintro ⟨role', hrole', hv⟩
          refine ⟨⟨role', List.mem_cons_of_mem _ hrole', hv⟩, ?_⟩
          rintro rfl
          -- no user is in two lists
          have henlists' : k.Enlists p d role' v := by
            refine ⟨henlists.mem, by rw [hentries, hv], ?_⟩
            rw [hcontext]
            exact fun hleft ↦ role.notMem_before_of_mem_after hrole' hleft.2
          obtain ⟨q'', -, hv'⟩ := hk.listed henlists'
          obtain ⟨-, rfl⟩ := Prod.mk.inj (hk.ordered.lists.disjoint _ _ v hv' hu)
          exact role'.notMem_after hrole'
      · rfl
      · rfl
    rw [hblocks] at hfree
    exact hfree

/-- One role of `dmq_close`. -/
theorem Alike.ownLeaves {x q' : Addr} {entries : Role → Option Addr}
    (h : Alike p r q (ownBlocks d x entries (role :: role.after)) n ρ
      (k.setContext p (.closeDetach fd q' d role)) k')
    (hk : (k.setContext p (.closeDetach fd q' d role)).Consistent layout)
    (hentries : k.descriptors.rwn d = entries) :
    Alike p r q (ownBlocks d x entries role.after) n ρ
        ((k.leaveRole q' d role).setContext p (afterRole fd q' d role)) k' ∧
      ((k.leaveRole q' d role).setContext p (afterRole fd q' d role)).Consistent layout := by
  have hsame : ((k.setContext p (.closeDetach fd q' d role)).leaveRole q' d role).setContext p
      (afterRole fd q' d role) = (k.leaveRole q' d role).setContext p (afterRole fd q' d role) :=
    setContext_setContext (k.leaveRole q' d role) p _ _
  have hcontext : (k.setContext p (.closeDetach fd q' d role)).pcbs.cpuState p =
      .closeDetach fd q' d role := Function.update_self ..
  have halike := h.ownLeaveRole hk hcontext hentries
  have hconsistent := hk.leaveRole hcontext
  rw [hsame] at halike hconsistent
  exact ⟨halike, hconsistent⟩

/-! ### The two calls -/

theorem leaveRole_files (k : Kernel) (q d : Addr) (role : Role) :
    (k.leaveRole q d role).files = k.files := rfl

/-- Leaving the lists has nothing to do with the tables of descriptors. -/
theorem closeCall_files (k : Kernel) (p q d : Addr) (fd : ℤ) :
    (k.closeCall p q d fd).files = k.files := by
  change (k.leaveRoles q d).files = k.files
  rw [leaveRoles, leaveRole_files, leaveRole_files, leaveRole_files]

/-- No blocks. -/
def noBlocks : Blocks := ⟨∅, ∅, ∅, 0, 0⟩

/-- `dmq_close` takes away what the process has besides. -/
theorem Alike.ownDmqClose {x : Addr} {ret : ℤ}
    (h : Alike p r q (ownBlocks d x (k.descriptors.rwn d) allRoles) 1 ρ k k')
    (hk : k.Consistent layout) (hat : k.At p (.user ret)) (hcloses : k.Closes p fd q d)
    (hptr : k.descriptors.ptr d = some x) :
    ∃ k₁, dmqCall (.close fd) k = some k₁ ∧ k₁.At p (.user 0) ∧ Alike p r q noBlocks 0 ρ k₁ k' := by
  have hfound := hk.descriptorByFd hcloses
  have hqueue : k.queueByFd p fd = some (some q) := by
    rw [queueByFd, hfound]
    exact congrArg some hcloses.value
  have hentries : k.queueEntries p fd = some (some d) := hfound
  have hleft : ∀ {c : Context}, ∀ fd role, (k.pcbs.cpuState p).Left fd role → c.Left fd role := by
    rw [hat.context]
    exact fun _ _ hleft ↦ hleft.elim
  have hstart : (k.setContext p (.closeDetach fd q d .reader)).Consistent layout :=
    (hk.setContext (c := .closeDetach fd q d .reader) k.queues.openings hleft hcloses rfl).1
  -- one role after the other
  obtain ⟨hreader, hconsistent₁⟩ := (h.ownContext _).ownLeaves hstart rfl
  obtain ⟨hwriter, hconsistent₂⟩ := hreader.ownLeaves hconsistent₁ rfl
  obtain ⟨hnonBlock, hconsistent₃⟩ := hwriter.ownLeaves hconsistent₂ rfl
  have hcall : Alike p r q (ownBlocks d x (k.descriptors.rwn d) []) 1 ρ (k.closeCall p q d fd) k' := by
    have htrap := hnonBlock.ownTrap (.closeResult q) (.closeResource fd)
    rw [trap_setContext] at htrap
    exact htrap
  have hfiles : (k.closeCall p q d fd).files = k.files := closeCall_files k p q d fd
  have hok : (k.closeCall p q d fd).files.Ok := by
    rw [hfiles]
    exact hk.files
  have hsized : (k.closeCall p q d fd).files.Sized := by
    rw [hfiles]
    exact hk.sized
  have hrunning : (k.closeCall p q d fd).running = some p := by
    change (k.leaveRoles q d).running = some p
    rw [leaveRoles_running, hat.running]
  have hfound₃ : (k.closeCall p q d fd).descriptorByFd p fd = some (some d) := by
    rw [← hcloses.fd_eq]
    have hmem : d ∈ (k.closeCall p q d fd).files.descriptorNodes p := by
      rw [hfiles]
      exact hcloses.mem
    have hfd : (k.closeCall p q d fd).descriptors.fd d = k.descriptors.fd d :=
      congrArg (fun f : Files ↦ f.descriptors.fd d) hfiles
    rw [← hfd]
    exact descriptorByFd_of_mem hok hsized hmem
  have hptr₃ : (k.closeCall p q d fd).descriptors.ptr d = some x :=
    (congrArg (fun f : Files ↦ f.descriptors.ptr d) hfiles).trans hptr
  have hd : d ∈ (ownBlocks d x (k.descriptors.rwn d) []).descriptors := Set.mem_singleton d
  have hx : x ∈ (ownBlocks d x (k.descriptors.rwn d) []).pointers := Set.mem_singleton x
  obtain ⟨k₁, hclose, hret, hclosed⟩ :=
    hcall.ownClose (m := 0) hok hrunning hfound₃ hd hptr₃ hx rfl
  have hat₁ : k₁.At p (.closeResult q) := by
    have hcontext : (k.closeCall p q d fd).At p (.closeResult q) := ⟨hrunning, Function.update_self ..⟩
    exact hcontext.internalCloseResource hclose
  have hend : dmqCall (.close fd) k = some ({ k₁ with
      queues.openings := update k₁.queues.openings q (k₁.queues.openings q - 1) }.setContext p
        (.user 0)) := by
    rw [dmqCall_close hat hqueue hentries, hclose, Option.bind_some,
      if_neg (not_not_intro hret)]
  have hblocks : ({ ownBlocks d x (k.descriptors.rwn d) [] with
      descriptors := (ownBlocks d x (k.descriptors.rwn d) []).descriptors \ {d}
      pointers := (ownBlocks d x (k.descriptors.rwn d) []).pointers \ {x}
      descriptorCount := 0 } : Blocks) = noBlocks := by
    ext v
    · exact iff_of_false (fun h ↦ h.2 h.1) (Set.notMem_empty v)
    · exact iff_of_false (fun h ↦ h.2 h.1) (Set.notMem_empty v)
    · refine iff_of_false ?_ (Set.notMem_empty v)
      rintro ⟨role, hrole, -⟩
      exact List.not_mem_nil hrole
    · rfl
    · rfl
  rw [hblocks] at hclosed
  have hcounted := (hclosed.ownOpenings (-1)).ownContext (.user 0)
  rw [add_neg_cancel] at hcounted
  exact ⟨_, hend, ⟨hat₁.running, Function.update_self ..⟩, hcounted⟩

/-- The first call of a `dmq_open` that does not fail gives the process a descriptor. -/
theorem Consistent.firstCall_joins {mode : BitVec 32} (hk : k.Consistent layout)
    (hp : k.running = some p) (hqueue : k.HoldsQueue r q) (hid : k.resources.id r = id)
    (hfree : 0 < k.descriptors.allocator.size)
    (hopen : internalOpenResource id 2 (resourceFlags mode) (k.firstCall p id mode) = some k₁)
    (hret : ¬ k₁.pcbs.syscallRetvalue p < 0) :
    ∃ d x, k.Joins p r d x k₁ ∧ k₁.pcbs.syscallRetvalue p = k.pcbs.lastFd p ∧
      AlikeProcesses p .same k₁ k := by
  have hfound : (k.firstCall p id mode).resourceById id = some (some r) := by
    rw [← hid]
    exact resourceById_of_mem (k := k) hk.files hk.sized hqueue.mem
  rw [internalOpenResource_existing (k := k.firstCall p id mode) hp hfound hqueue.type] at hopen
  split_ifs at hopen with hexcl
  · rw [← Option.some.inj hopen] at hret
    have hself : ((k.firstCall p id mode).setRetvalue p dsosEresourcenoexcl).pcbs.syscallRetvalue p =
        dsosEresourcenoexcl := Function.update_self ..
    rw [hself] at hret
    exact absurd (by decide) hret
  · have hfd : (k.firstCall p id mode).pcbs.lastFd p ≠ intMax := by
      intro hmax
      rw [openDescriptor_overflow (k := k.firstCall p id mode) ?_ hmax] at hopen
      · cases hopen
      · exact fun hnone ↦ hfree.ne' (hk.files.descriptorPool.getBlock_eq_none_iff.mp hnone)
    obtain ⟨d, x, pool, ptrPool, k₂, hget, hgetPtr, hopen₂, hfiles, hret₂⟩ :=
      openDescriptor_joins (k := k.firstCall p id mode) hk.files hfree hfd r
    obtain rfl := Option.some.inj (hopen.symm.trans hopen₂)
    have hframe := openDescriptor_eq hopen
    have hjoin : k.Joins p r d x k₁ :=
      joins_of_files hk.files hqueue.mem hget hgetPtr hfiles (by rw [hframe]; rfl)
        (by rw [hframe]; rfl)
    refine ⟨d, x, hjoin, ?_, ?_, fun o hne ↦ ?_, fun o hne ↦ ?_, fun o hne ↦ ?_, hjoin.lastFd⟩
    · rw [hret₂]
      exact Function.update_self ..
    · rw [hframe]
      rfl
    · rw [hframe]
      exact (Function.update_of_ne hne ..).trans (Context.rename_same _).symm
    · rw [hframe]
      exact Function.update_of_ne hne ..
    · rw [hret₂]
      exact Function.update_of_ne hne ..

/-- The users that the process has asked for are all that its descriptor has. -/
theorem ownBlocks_asked {x : Addr} {entries : Role → Option Addr} {mode : BitVec 32}
    (hsome : ∀ role ∈ askedRoles mode allRoles, (entries role).isSome)
    (hnone : ∀ role ∉ askedRoles mode allRoles, entries role = none) :
    (⟨{d}, {x}, { u | ∃ role ∈ askedRoles mode allRoles, entries role = some u } ∪ ∅, 1,
      0 + (askedRoles mode allRoles).length⟩ : Blocks) = ownBlocks d x entries allRoles := by
  ext u
  · rfl
  · rfl
  · rw [Set.union_empty]
    constructor
    · rintro ⟨role, -, hu⟩
      exact ⟨role, by cases role <;> decide, hu⟩
    · rintro ⟨role, -, hu⟩
      refine ⟨role, ?_, hu⟩
      by_contra hrole
      rw [hnone role hrole] at hu
      cases hu
  · rfl
  · rw [zero_add, ownBlocks, askedRoles]
    refine congrArg List.length (List.filter_congr fun role hrole ↦ ?_)
    by_cases hasked : role ∈ askedRoles mode allRoles
    · rw [hsome role hasked]
      exact (List.mem_filter.mp hasked).2
    · have hbit : hasBit mode (roleBit role) ≠ true := fun hbit ↦
        hasked (List.mem_filter.mpr ⟨hrole, hbit⟩)
      rw [hnone role hasked, Bool.eq_false_iff.mpr hbit]
      rfl

/-- `dmq_open` is what the process has besides. -/
theorem Consistent.dmqOpen {mode : BitVec 32} {ret : ℤ} (hk : k.Consistent layout)
    (hat : k.At p (.user ret)) (hqueue : k.HoldsQueue r q) (hid : k.resources.id r = id)
    (hdescriptors : 0 < k.descriptors.allocator.size)
    (husers : (askedRoles mode allRoles).length ≤ k.queueUsers.allocator.size)
    (hopen : dmqCall (.openQueue id mode) k = some k₁) (hat₁ : k₁.At p (.user fd)) (hfd : 0 ≤ fd) :
    ∃ d x, k₁.Consistent layout ∧ k₁.Closes p fd q d ∧ k₁.descriptors.ptr d = some x ∧
      Alike p r q (ownBlocks d x (k₁.descriptors.rwn d) allRoles) 1 .same k₁ k := by
  rw [dmqCall_open hat] at hopen
  obtain ⟨k₂, hfirst, hrest⟩ := Option.bind_eq_some_iff.mp hopen
  split_ifs at hrest with hneg
  · -- the first call would have failed
    rw [← Option.some.inj hrest] at hat₁
    have hsame : (Context.user (k₂.pcbs.syscallRetvalue p)) = .user fd :=
      (Function.update_self ..).symm.trans hat₁.context
    rw [Context.user.inj hsame] at hneg
    exact absurd hfd (not_le.mpr hneg)
  obtain ⟨k₃, hsecond, hreturn⟩ := Option.bind_eq_some_iff.mp hrest
  have hp := hat.running
  have hleft : ∀ {c : Context}, ∀ fd role, (k.pcbs.cpuState p).Left fd role → c.Left fd role := by
    rw [hat.context]
    exact fun _ _ hleft ↦ hleft.elim
  obtain ⟨d, x, hjoin, hret, hprocesses⟩ :=
    hk.firstCall_joins hp hqueue hid hdescriptors hfirst hneg
  obtain ⟨hfdNew, hresourceNew, -, hptrNew, hnoneNew⟩ := hjoin.new
  -- the state after the first call
  have hs : (k.setContext p (.openResource id mode)).Consistent layout :=
    (hk.setContext (c := .openResource id mode) k.queues.openings hleft trivial rfl).1
  have hfirst' : internalOpenResource id 2 (resourceFlags mode)
      ((k.setContext p (.openResource id mode)).firstCall p id mode) = some k₂ := by
    rw [firstCall, trap_setContext]
    exact hfirst
  obtain ⟨hk₂, habout₂⟩ := hs.openResource hp (Function.update_self ..) hqueue.mem hid hqueue.type
    hdescriptors hfirst'
  have hat₂ : k₂.At p (.openResult id mode) := (At.trap hp _ _).internalOpenResource hfirst
  have hqueueStart : (k.setContext p (.openResource id mode)).HoldsQueue r q :=
    ⟨hqueue.mem, hqueue.type, hqueue.value⟩
  have hqueue₂ := habout₂.holdsQueue hqueueStart
  have hid₂ : k₂.resources.id r = id := by
    rw [habout₂.resources]
    exact hid
  have husers₂ : (askedRoles mode allRoles).length ≤ k₂.queueUsers.allocator.size := by
    rw [hjoin.queueUsers]
    exact husers
  have hopened := hk₂.sound p
  rw [hat₂.context] at hopened
  have hleft₂ : ∀ {c : Context}, ∀ fd role, (k₂.pcbs.cpuState p).Left fd role → c.Left fd role := by
    rw [hat₂.context]
    exact fun _ _ hleft ↦ hleft.elim
  -- the second call
  have ht : (k₂.setContext p
      (.openQueue id (k₂.pcbs.syscallRetvalue p) mode)).Consistent layout :=
    (hk₂.setContext (c := .openQueue id (k₂.pcbs.syscallRetvalue p) mode) k₂.queues.openings hleft₂
      (hopened (not_lt.mp hneg)) rfl).1
  have hsecond' : internalOpenQueue id (k₂.pcbs.syscallRetvalue p) mode
      ((k₂.setContext p (.openQueue id (k₂.pcbs.syscallRetvalue p) mode)).trap p .openReturn
        (.openQueue id (k₂.pcbs.syscallRetvalue p) mode)) = some k₃ := by
    rw [trap_setContext]
    exact hsecond
  obtain ⟨hk₃, -⟩ := ht.openQueue hat₂.running (Function.update_self ..) hqueue₂.mem hid₂
    hqueue₂.type hqueue₂.value husers₂ hsecond'
  obtain ⟨d', k', hd', hfd', -, -, henters, hopen'⟩ := ht.joins hat₂.running
    (Function.update_self ..) hqueue₂.mem hid₂ hqueue₂.type hqueue₂.value husers₂
  have hk₃' := Option.some.inj (hsecond'.symm.trans hopen')
  have hd : d ∈ k₂.files.descriptorNodes p := hjoin.mem_iff.mpr (Or.inr ⟨rfl, rfl⟩)
  obtain rfl : d' = d :=
    hk₂.files.fd_inj p d' hd' d hd (hfd'.trans (hret.trans hfdNew.symm))
  rw [trap_setContext] at henters
  have hframe := henters.frame
  -- all that the process has got
  have hordered : (k₂.trap p .openReturn
      (.openQueue id (k₂.pcbs.syscallRetvalue p) mode)).UsersOrdered k₂.userNodes :=
    hk₂.ordered.congr rfl rfl
  have hnodup : (askedRoles mode allRoles).Nodup := List.Nodup.filter _ (by decide)
  have hjoined := hjoin.alike (q := q) hk hprocesses
  obtain ⟨hentered, hkept, hsome⟩ :=
    (hjoined.ownTrap .openReturn (.openQueue id (k₂.pcbs.syscallRetvalue p) mode)).ownEntersRoles
      hordered hk.files (Set.mem_singleton d') hnodup henters
  have hnone : ∀ role ∉ askedRoles mode allRoles, k'.descriptors.rwn d' role = none :=
    fun role hrole ↦ (hkept role hrole).trans (hnoneNew role)
  rw [ownBlocks_asked hsome hnone] at hentered
  have halike := ((hentered.ownOpenings 1).ownRetvalue (k₂.pcbs.syscallRetvalue p)).ownContext
    (.user (k₃.pcbs.syscallRetvalue p))
  rw [zero_add] at halike
  rw [← hk₃'] at halike
  obtain rfl := Option.some.inj hreturn
  have hcontext : Context.user (k₃.pcbs.syscallRetvalue p) = .user fd :=
    (Function.update_self ..).symm.trans hat₁.context
  obtain rfl := Context.user.inj hcontext
  have hret₃ : k₃.pcbs.syscallRetvalue p = k₂.pcbs.syscallRetvalue p := by
    rw [hk₃']
    exact Function.update_self ..
  have hat₃ : k₃.At p .openReturn := (At.trap hat₂.running _ _).internalOpenQueue hsecond
  have hleft₃ : ∀ {c : Context}, ∀ fd role, (k₃.pcbs.cpuState p).Left fd role → c.Left fd role := by
    rw [hat₃.context]
    exact fun _ _ hleft ↦ hleft.elim
  have hconsistent : (k₃.setContext p (.user (k₃.pcbs.syscallRetvalue p))).Consistent layout :=
    (hk₃.setContext (c := .user (k₃.pcbs.syscallRetvalue p)) k₃.queues.openings hleft₃ trivial rfl).1
  -- the descriptor is as it was after the first call, but for its entries
  have hfiles : k₃.files = { k₂.files with descriptors.rwn := k'.descriptors.rwn } := by
    rw [hk₃', hframe]
    rfl
  have hentries : k₃.descriptors.rwn = k'.descriptors.rwn :=
    congrArg (fun f : Files ↦ f.descriptors.rwn) hfiles
  have hvalue : k₂.resources.value (k₂.descriptors.resource d') = some q := by
    rw [hresourceNew]
    exact hqueue₂.value
  refine ⟨d', x, hconsistent, ⟨?_, ?_, ?_⟩, ?_, ?_⟩
  · change d' ∈ k₃.files.descriptorNodes p
    rw [hfiles]
    exact hd
  · rw [hret₃, hret, ← hfdNew]
    exact congrArg (fun f : Files ↦ f.descriptors.fd d') hfiles
  · have hvalue₃ : k₃.resources.value (k₃.descriptors.resource d') =
        k₂.resources.value (k₂.descriptors.resource d') :=
      congrArg (fun f : Files ↦ f.resources.value (f.descriptors.resource d')) hfiles
    exact hvalue₃.trans hvalue
  · have hptr₃ : k₃.descriptors.ptr d' = k₂.descriptors.ptr d' :=
      congrArg (fun f : Files ↦ f.descriptors.ptr d') hfiles
    exact hptr₃.trans hptrNew
  · change Alike p r q (ownBlocks d' x (k₃.descriptors.rwn d') allRoles) 1 .same _ k
    rw [hentries]
    exact halike

/-! ### The round trip -/

/-- Kernel `k` is `k'` but for the last file descriptor number of process `p`, and but for which blocks
the entries of the other processes in queue `q` of resource `r` have: a block of `k'` stands for its
image under `ρ`. -/
structure Undone (p r q : Addr) (ρ : Renaming) (k k' : Kernel) : Prop where
  users : ∀ i, k.userNodes i = (k'.userNodes i).map ρ.users
  pointers : ∀ r, k.files.pointerNodes r = (k'.files.pointerNodes r).map ρ.pointers
  descriptors : ∀ o, k.files.descriptorNodes o = (k'.files.descriptorNodes o).map ρ.descriptors
  openings : k.queues.openings = k'.queues.openings
  allocatedUsers : ∀ u,
    k.queueUsers.allocator.Allocated (ρ.users u) ↔ k'.queueUsers.allocator.Allocated u
  allocatedDescriptors : ∀ d,
    k.descriptors.allocator.Allocated (ρ.descriptors d) ↔ k'.descriptors.allocator.Allocated d
  allocatedPointers : ∀ x,
    k.descriptorPtrs.allocator.Allocated (ρ.pointers x) ↔ k'.descriptorPtrs.allocator.Allocated x
  same : ∀ o, ∀ d ∈ k'.files.descriptorNodes o, SameDescriptor ρ k k' o d
  userPid : ∀ u, k'.queueUsers.allocator.Allocated u →
    k.queueUsers.pid (ρ.users u) = k'.queueUsers.pid u ∧
      k.queueUsers.status (ρ.users u) = k'.queueUsers.status u
  processes : AlikeProcesses p ρ k k'
  moves : OnlyMoves p r q ρ k'

theorem Alike.undone (h : Alike p r q noBlocks 0 ρ k k') : Undone p r q ρ k k' where
  users i := h.users.lists_eq i
  pointers r := h.pointers.lists_eq r
  descriptors o := h.descriptors.lists_eq o
  openings := by
    rw [h.openings, add_zero, Function.update_eq_self]
  allocatedUsers u := (h.users.taken_iff u).trans (or_iff_left (Set.notMem_empty _))
  allocatedDescriptors d := (h.descriptors.taken_iff d).trans (or_iff_left (Set.notMem_empty _))
  allocatedPointers x := (h.pointers.taken_iff x).trans (or_iff_left (Set.notMem_empty _))
  same := h.same
  userPid := h.userPid
  processes := h.processes
  moves := h.moves

/-- The process has the same descriptors. -/
theorem Undone.sameFor {ret : ℤ} (h : Undone p r q ρ k k') (hk' : k'.Consistent layout)
    (huser : k'.pcbs.cpuState p = .user ret) : k'.files.SameFor k.files p := by
  have hfixed : ∀ d ∈ k'.files.descriptorNodes p, ρ.descriptors d = d := by
    intro d hd
    by_contra hmoved
    exact (h.moves.descriptor d (hk'.files.descriptor_allocated p d hd) hmoved).1 hd
  have hresources := h.processes.rest.resources
  refine ⟨?_, fun d hd ↦ ?_, fun d hd ↦ ?_⟩
  · rw [h.descriptors p]
    exact (List.map_congr_left hfixed).trans (List.map_id _)
  · have hsame := h.same p d hd
    have hfd := hsame.fd
    have hresource := hsame.resource
    rw [hfixed d hd] at hfd hresource
    constructor
    · exact hfd
    · exact hresource
    · exact congrFun (congrArg Resources.id hresources) _
    · exact congrFun (congrArg Resources.type hresources) _
    · exact fun q hq ↦ (congrFun (congrArg Resources.value hresources) _).trans hq
  · funext role
    have hinside : ¬ (k'.pcbs.cpuState p).Left (k'.descriptors.fd d) role := by
      rw [huser]
      exact fun hfalse ↦ hfalse
    have hentry := (h.same p d hd).entry role hinside
    rw [hfixed d hd] at hentry
    change k.descriptors.rwn d role = k'.descriptors.rwn d role
    rw [hentry]
    cases hu : k'.descriptors.rwn d role with
    | none => rfl
    | some u =>
      have hallocated := hk'.allocated ⟨hd, hu, hinside⟩
      have hkept : ρ.users u = u := by
        by_contra hmoved
        exact (h.moves.user u hallocated hmoved).1 d hd role hu
      rw [Option.map_some, hkept]

/-- `dmq_close` undoes `dmq_open`, whatever the other processes have opened and closed in between. -/
theorem dmqClose_undoes_dmqOpen {k₂ : Kernel} {mode : BitVec 32} {ret : ℤ} {actions : List Action}
    (hk : k.Consistent layout) (hat : k.At p (.user ret)) (hqueue : k.HoldsQueue r q)
    (hid : k.resources.id r = id) (hdescriptors : 0 < k.descriptors.allocator.size)
    (husers : (askedRoles mode allRoles).length ≤ k.queueUsers.allocator.size)
    (hopen : dmqCall (.openQueue id mode) k = some k₁) (hat₁ : k₁.At p (.user fd)) (hfd : 0 ≤ fd)
    (hothers : Runs.Meets Kernel.step (fun k a ↦ k.OthersStep p r a) k₁ actions)
    (hrun : Runs.run Kernel.step k₁ actions = some k₂) (hback : k₂.running = some p) :
    ∃ k₃ k' ρ, dmqCall (.close fd) k₂ = some k₃ ∧ k₃.At p (.user 0) ∧
      Runs.run Kernel.step k actions = some k' ∧ Undone p r q ρ k₃ k' ∧
      k.files.SameFor k₃.files p := by
  obtain ⟨d, x, hk₁, hcloses, hptr, halike⟩ :=
    hk.dmqOpen hat hqueue hid hdescriptors husers hopen hat₁ hfd
  have hstart : SideBySide layout p r q (ownBlocks d x (k₁.descriptors.rwn d) allRoles) 1 k₁ k k₁ k :=
    ⟨hk₁, hk, .refl p k₁, .refl p k, hqueue, .same, halike⟩
  have howned : ∀ d' ∈ (ownBlocks d x (k₁.descriptors.rwn d) allRoles).descriptors,
      d' ∈ k₁.files.descriptorNodes p := by
    rintro d' rfl
    exact hcloses.mem
  obtain ⟨k', hrun', hside⟩ := Runs.run_simulates
    (fun _ _ _ _ hside hother hstep ↦ hside.othersStep hat.context howned hother hstep)
    hstart hothers hrun
  -- the process still has its descriptor
  have hat₂ : k₂.At p (.user fd) := ⟨hback, hside.waits.context.trans hat₁.context⟩
  have hkept := hside.waits.sameFor.kept d hcloses.mem
  have hcloses₂ : k₂.Closes p fd q d := by
    refine ⟨?_, hkept.fd.trans hcloses.fd_eq, ?_⟩
    · rw [hside.waits.sameFor.nodes]
      exact hcloses.mem
    · have hresource : k₂.descriptors.resource d = k₁.descriptors.resource d := hkept.resource
      rw [hresource]
      exact hkept.value q hcloses.value
  have hptr₂ : k₂.descriptors.ptr d = some x := (hside.waits.ptr d hcloses.mem).trans hptr
  have hentries : k₂.descriptors.rwn d = k₁.descriptors.rwn d :=
    hside.waits.sameFor.rwn d hcloses.mem
  obtain ⟨ρ, halike₂⟩ := hside.alike
  rw [← hentries] at halike₂
  obtain ⟨k₃, hclose, hat₃, hend⟩ := halike₂.ownDmqClose hside.consistent hat₂ hcloses₂ hptr₂
  have huser' : k'.pcbs.cpuState p = .user ret := hside.waits'.context.trans hat.context
  refine ⟨k₃, k', ρ, hclose, hat₃, hrun', hend.undone, ?_⟩
  exact hside.waits'.sameFor.trans (hend.undone.sameFor hside.consistent' huser')

end Kernel

/-! ### Reaching a consistent state -/

/-- The first process starts another one and makes a queue, which it does not keep open. -/
def madeQueue : List Action :=
  [.start, .syscall .spawn, .syscall (.openResource 0 2 dsosCreate), .syscall (.openQueue 0 0 0),
    .syscall (.closeResource 0)]

/-- The other process opens the queue for writing, and yields. -/
def otherOpens : List Action :=
  [.syscall .preempt, .call (.openQueue 0 0o2), .statement, .statement, .statement, .statement,
    .syscall .preempt]

theorem Kernel.QueuesInOrder.syscall {k k' : Kernel} {c : Syscall} (h : k.QueuesInOrder)
    (hc : c ≠ .shutdown) (hstep : k.step (.syscall c) = some k')
    (husers : k'.queueUsers = k.queueUsers) (hqueues : k'.queues.users = k.queues.users) :
    k'.QueuesInOrder := by
  obtain ⟨users, husers'⟩ := h.users
  have hrequest : k.request (.syscall c) ≠ some .shutdown := by
    unfold Kernel.request
    simp [hc]
  exact ⟨Kernel.filesOk_step h.files hrequest hstep, users, husers'.congr husers hqueues⟩

theorem Kernel.QueuesInOrder.spawn {k k' : Kernel} (h : k.QueuesInOrder)
    (hstep : k.step (.syscall .spawn) = some k') : k'.QueuesInOrder := by
  have hcall : k.disastrOSSyscall .spawn = some k' := by
    rw [Kernel.step, Option.ite_none_right_eq_some] at hstep
    exact hstep.2
  obtain ⟨p, -, hspawn⟩ := Option.bind_eq_some_iff.mp hcall
  obtain ⟨⟨child, k₁⟩, hnew, hlast⟩ := Option.bind_eq_some_iff.mp hspawn
  obtain ⟨_, pool, _, _, -, -, -, -, rfl⟩ := Kernel.newProcess_cases hnew
  rw [← Option.some.inj hlast] at hstep ⊢
  exact h.syscall (by decide) hstep rfl rfl

theorem Kernel.QueuesInOrder.closeResource {k k' : Kernel} {fd : ℤ} (h : k.QueuesInOrder)
    (hstep : k.step (.syscall (.closeResource fd)) = some k') : k'.QueuesInOrder := by
  have hcall : k.disastrOSSyscall (.closeResource fd) = some k' := by
    rw [Kernel.step, Option.ite_none_right_eq_some] at hstep
    exact hstep.2
  obtain ⟨p, -, hclose⟩ := Option.bind_eq_some_iff.mp hcall
  have hframe := Kernel.internalCloseResource_eq hclose
  refine h.syscall Syscall.noConfusion hstep ?_ ?_
  · rw [hframe]
  · rw [hframe]

/-- After the first steps, nothing is open and no process is inside a queue function. -/
theorem madeQueue_consistent {k : Kernel}
    (hrun : Runs.run Kernel.step sampleLayout.boot madeQueue = some k) :
    k.Consistent sampleLayout := by
  have hends : ((Runs.run Kernel.step sampleLayout.boot madeQueue).all fun k ↦
      decide (k.descriptors.allocator.allocatedBlocks = ∅ ∧
        k.queueUsers.allocator.buffer = sampleLayout.boot.queueUsers.allocator.buffer ∧
        k.queueUsers.allocator.freeListAddr =
          sampleLayout.boot.queueUsers.allocator.freeListAddr ∧
        k.queueUsers.allocator.sizeMax = sampleLayout.boot.queueUsers.allocator.sizeMax ∧
        k.queueUsers.allocator.itemSize = sampleLayout.boot.queueUsers.allocator.itemSize)) = true := by
    decide +kernel
  rw [hrun, Option.all_some] at hends
  obtain ⟨hnone, hbuffer, haddr, hmax, hitem⟩ := of_decide_eq_true hends
  have hsteps : Runs.Meets Kernel.step (fun _ a ↦ a = .start ∨ ∃ c, a = .syscall c ∧ c ≠ .shutdown)
      sampleLayout.boot madeQueue := by
    refine Runs.Meets.of_forall _ fun a ha ↦ ?_
    simp only [madeQueue, List.mem_cons, List.not_mem_nil, or_false] at ha
    obtain rfl | rfl | rfl | rfl | rfl := ha <;> simp
  have hinv : k.files.Ok ∧ k.files.Sized ∧ ∀ o, ∃ ret, k.pcbs.cpuState o = .user ret := by
    refine Runs.run_invariant
      (P := fun k ↦ k.files.Ok ∧ k.files.Sized ∧ ∀ o, ∃ ret, k.pcbs.cpuState o = .user ret) ?_
      ⟨sampleLayout.boot_filesOk, ⟨rfl, rfl⟩, fun _ ↦ ⟨0, rfl⟩⟩ hsteps hrun
    rintro k a k' ⟨hok, hsized, huser⟩ haction hstep
    have hset : ∀ {p : Addr}, k'.pcbs.cpuState = update k.pcbs.cpuState p (.user 0) →
        ∀ o, ∃ ret, k'.pcbs.cpuState o = .user ret := by
      intro p hsame o
      rw [hsame]
      by_cases ho : o = p
      · exact ⟨0, by rw [ho, Function.update_self]⟩
      · rw [Function.update_of_ne ho]
        exact huser o
    obtain rfl | ⟨c, rfl, hc⟩ := haction
    · have hrequest : k.request .start ≠ some .shutdown := by
        unfold Kernel.request
        simp
      refine ⟨Kernel.filesOk_step hok hrequest hstep,
        Kernel.filesSized_step hok hsized hrequest hstep, ?_⟩
      obtain ⟨-, p, pool, -, rfl⟩ := Kernel.startProcess_cases hstep
      exact hset (p := p) rfl
    · have hrequest : k.request (.syscall c) ≠ some .shutdown := by
        unfold Kernel.request
        simp [hc]
      refine ⟨Kernel.filesOk_step hok hrequest hstep,
        Kernel.filesSized_step hok hsized hrequest hstep, ?_⟩
      rw [Kernel.step, Option.ite_none_right_eq_some] at hstep
      obtain ⟨p, -, hcall⟩ := Option.bind_eq_some_iff.mp hstep.2
      obtain hsame | ⟨-, child, -, hsame⟩ := Kernel.syscallVector_cpuState hc hcall
      · rw [hsame]
        exact huser
      · exact hset hsame
  obtain ⟨hok, hsized, huser⟩ := hinv
  have hordered : k.QueuesInOrder := by
    obtain ⟨k₁, hstart, hrest⟩ := Runs.run_cons_eq_some.mp hrun
    obtain ⟨k₂, hspawn, hrest⟩ := Runs.run_cons_eq_some.mp hrest
    obtain ⟨k₃, hcreate, hrest⟩ := Runs.run_cons_eq_some.mp hrest
    obtain ⟨k₄, hqueue, hrest⟩ := Runs.run_cons_eq_some.mp hrest
    obtain ⟨k₅, hclose, hlast⟩ := Runs.run_cons_eq_some.mp hrest
    obtain rfl := Option.some.inj hlast
    have h₁ := sampleLayout.boot_queuesInOrder.start hstart
    have h₃ := (h₁.spawn hspawn).openResource hcreate
    obtain ⟨users, husers⟩ := h₃.users
    exact (h₃.openQueue hqueue husers.pool.size_nonneg).closeResource hclose
  refine Kernel.consistent_of_closed hok hsized hordered.users ⟨hbuffer, haddr, hmax, hitem⟩
    (fun d hd ↦ ?_) huser
  rw [← PoolAllocator.mem_allocatedBlocks, hnone] at hd
  exact Finset.notMem_empty d hd

/-- Process 0 opens the queue for reading, waits while the other one opens it for writing, and closes
it. -/
theorem dmqClose_undoes_dmqOpen_madeQueue : ∃ k k₁ k₂ k₃ k' ρ,
    Runs.run Kernel.step sampleLayout.boot madeQueue = some k ∧
      Kernel.dmqCall (.openQueue 0 0o41) k = some k₁ ∧
      Runs.run Kernel.step k₁ otherOpens = some k₂ ∧ Kernel.dmqCall (.close 1) k₂ = some k₃ ∧
      Runs.run Kernel.step k otherOpens = some k' ∧
      Kernel.Undone 0x400000 0x1800000 0x1900000 ρ k₃ k' := by
  have hends : ((Runs.run Kernel.step sampleLayout.boot madeQueue).any fun k ↦
      decide (k.running = some 0x400000 ∧ k.pcbs.cpuState 0x400000 = .user 0 ∧
        k.resourceById 0 = some (some 0x1800000) ∧ k.resources.type 0x1800000 = 2 ∧
        k.resources.value 0x1800000 = some 0x1900000 ∧
        0 < k.descriptors.allocator.size ∧ 3 ≤ k.queueUsers.allocator.size ∧
        ((Kernel.dmqCall (.openQueue 0 0o41) k).any fun k₁ ↦
          decide (k₁.running = some 0x400000 ∧ k₁.pcbs.cpuState 0x400000 = .user 1 ∧
            Runs.Meets Kernel.step (fun k a ↦ k.OthersStep 0x400000 0x1800000 a) k₁ otherOpens ∧
            ((Runs.run Kernel.step k₁ otherOpens).any fun k₂ ↦
              decide (k₂.running = some 0x400000)) = true)) = true)) = true := by
    decide +kernel
  obtain ⟨k, hk, hstate⟩ := (Option.any_eq_true _ _).mp hends
  obtain ⟨hp, huser, hfound, htype, hvalue, hdescriptors, husers, hopened⟩ := of_decide_eq_true hstate
  obtain ⟨k₁, hopen, hstate₁⟩ := (Option.any_eq_true _ _).mp hopened
  obtain ⟨hp₁, huser₁, hothers, hback⟩ := of_decide_eq_true hstate₁
  obtain ⟨k₂, hrun, hstate₂⟩ := (Option.any_eq_true _ _).mp hback
  have hconsistent := madeQueue_consistent hk
  obtain ⟨hmem, hid⟩ := Kernel.resourceById_some hconsistent.files hfound
  obtain ⟨k₃, k', ρ, hclose, -, hrun', hundone, -⟩ :=
    Kernel.dmqClose_undoes_dmqOpen hconsistent ⟨hp, huser⟩ ⟨hmem, htype, hvalue⟩ hid hdescriptors
      ((by decide : ((Kernel.askedRoles 0o41 Kernel.allRoles).length : ℤ) ≤ 3).trans husers) hopen
      ⟨hp₁, huser₁⟩ (by decide) hothers hrun (of_decide_eq_true hstate₂)
  exact ⟨k, k₁, k₂, k₃, k', ρ, hk, hopen, hrun, hclose, hrun', hundone⟩

end DisastrOS
