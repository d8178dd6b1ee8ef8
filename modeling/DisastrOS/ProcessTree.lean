import DisastrOS.ProcessSteps

/-!
# The tree of processes

The parent of a process and the children lists are two records of one tree. `Processes.Tree` says that
they agree, and `treeConsistent_of_childless` that they do in every run in which only processes without
children exit. `internal_exit` hands the children of the exiting process to the first one in the
children lists and leaves their `parent` as it is: after the exit of `middleExits` the grandchild still
names its dead parent.
-/

set_option autoImplicit false
set_option relaxedAutoImplicit false

namespace DisastrOS

open LinkedLists
open Function (update)

namespace Processes

variable {v v' : Processes} {e : Event} {p q r c x y : Addr}

/-! ### The tree -/

/-- Every process but the first has a parent that is there and no zombie, with one pointer to it, and
every pointer is one of these. -/
structure Tree (v : Processes) : Prop where
  parent : ∀ p ∈ v.all, v.init ≠ some p → ∃ q ∈ v.all, v.parent p = some q ∧ q ∉ v.queue .zombie ∧
    ∃ x ∈ v.children q, v.child x = p
  pointer : ∀ q, ∀ x ∈ v.children q, v.child x ∈ v.all ∧ v.parent (v.child x) = some q
  unique : ∀ q, ∀ x ∈ v.children q, ∀ y ∈ v.children q, v.child x = v.child y → x = y
  nodup : ∀ q, (v.children q).Nodup
  unstarted : v.init = none → v.all = []

/-- A process without children is the parent of nobody. -/
theorem Tree.parent_ne (h : v.Tree) (hv : v.Consistent) (hnone : v.children p = []) (hq : q ∈ v.all) :
    v.parent q ≠ some p := by
  intro hparent
  by_cases hinit : v.init = some q
  · exact absurd ((hv.init_live q hinit).2.symm.trans hparent) (by simp)
  · obtain ⟨p', -, hp', -, x, hx, -⟩ := h.parent q hq hinit
    obtain rfl := Option.some.inj (hparent.symm.trans hp')
    rw [hnone] at hx
    exact List.not_mem_nil hx

/-- The search for a process among the children of its parent finds it. -/
theorem Tree.find_child (h : v.Tree) (hv : v.Consistent) (hp : p ∈ v.all)
    (hparent : v.parent p = some q) :
    ∃ x ∈ v.children q, v.child x = p ∧
      (v.children q).find? (fun y ↦ v.pid (v.child y) = v.pid p) = some x := by
  have hinit : v.init ≠ some p := fun hinit ↦
    absurd ((hv.init_live p hinit).2.symm.trans hparent) (by simp)
  obtain ⟨q', -, hq', -, x, hx, rfl⟩ := h.parent p hp hinit
  obtain rfl := Option.some.inj (hparent.symm.trans hq')
  cases hfind : (v.children q).find? fun y ↦ v.pid (v.child y) = v.pid (v.child x) with
  | none =>
    have hnot := List.find?_eq_none.mp hfind x hx
    exact absurd (decide_eq_true rfl) hnot
  | some y =>
    have hy := List.mem_of_find?_eq_some hfind
    have hpid := List.find?_some hfind
    have hsame := hv.pid_inj _ (h.pointer q y hy).1 _ hp (by simpa using hpid)
    obtain rfl := h.unique q y hy x hx hsame
    exact ⟨y, hy, rfl, rfl⟩

/-! ### The steps keep the tree -/

/-- A step that creates and frees no process, and makes a zombie only of one without children. -/
theorem Tree.congr (h : v.Tree) (hall : ∀ p, p ∈ v'.all ↔ p ∈ v.all) (hinit : v'.init = v.init)
    (hparent : v'.parent = v.parent) (hchildren : v'.children = v.children)
    (hchild : v'.child = v.child)
    (hzombie : ∀ p ∈ v'.queue .zombie, p ∈ v.queue .zombie ∨ v.children p = []) : v'.Tree where
  parent p hp hne := by
    obtain ⟨q, hq, hpq, hnot, x, hx, hxp⟩ := h.parent p ((hall p).mp hp) (hinit ▸ hne)
    rw [hparent, hchildren, hchild]
    refine ⟨q, (hall q).mpr hq, hpq, fun hmem ↦ ?_, x, hx, hxp⟩
    rcases hzombie q hmem with hold | hnone
    · exact hnot hold
    · exact absurd (hnone ▸ hx) List.not_mem_nil
  pointer q x hx := by
    rw [hchildren] at hx
    rw [hparent, hchild, hall]
    exact h.pointer q x hx
  unique := by
    rw [hchildren, hchild]
    exact h.unique
  nodup := by
    rw [hchildren]
    exact h.nodup
  unstarted hnone := by
    have hold := h.unstarted (hinit ▸ hnone)
    refine List.eq_nil_iff_forall_not_mem.mpr fun p hp ↦ ?_
    exact absurd ((hall p).mp hp) (hold ▸ List.not_mem_nil)

/-- A step that frees process `c`, which has no children, and takes the pointer `x` to it out of the
children of its parent. -/
theorem Tree.remove (h : v.Tree) (hv : v.Consistent) (hnone : v.children c = [])
    (hx : x ∈ v.children q) (hxc : v.child x = c) (hall : ∀ p, p ∈ v'.all ↔ p ∈ v.all ∧ p ≠ c)
    (hinit : v'.init = v.init) (hparent : v'.parent = v.parent) (hchild : v'.child = v.child)
    (hchildren : v'.children = update v.children q ((v.children q).erase x))
    (hzombie : ∀ p ∈ v'.queue .zombie, p ∈ v.queue .zombie) : v'.Tree := by
  have hsub : ∀ r y, y ∈ v'.children r ↔ y ∈ v.children r ∧ (r = q → y ≠ x) := by
    intro r y
    rw [hchildren, Function.update_apply]
    split_ifs with hrq
    · rw [hrq, (h.nodup q).mem_erase_iff]
      tauto
    · tauto
  constructor
  · intro p hp hne
    obtain ⟨hp, hpc⟩ := (hall p).mp hp
    obtain ⟨r, hr, hpr, hnot, y, hy, hyp⟩ := h.parent p hp (hinit ▸ hne)
    refine ⟨r, (hall r).mpr ⟨hr, ?_⟩, hparent ▸ hpr, fun hmem ↦ hnot (hzombie r hmem), y, ?_,
      hchild ▸ hyp⟩
    · rintro rfl
      exact h.parent_ne hv hnone hp hpr
    · rw [hsub]
      exact ⟨hy, fun _ hyx ↦ hpc (hyp.symm.trans ((congrArg v.child hyx).trans hxc))⟩
  · intro r y hy
    obtain ⟨hy, hne⟩ := (hsub r y).mp hy
    obtain ⟨hmem, hpr⟩ := h.pointer r y hy
    rw [hparent, hchild, hall]
    refine ⟨⟨hmem, fun hyc ↦ ?_⟩, hpr⟩
    have hsame : v.child y = v.child x := hyc.trans hxc.symm
    obtain rfl : r = q := Option.some.inj (hpr.symm.trans (hsame ▸ (h.pointer q x hx).2))
    exact hne rfl (h.unique r y hy x hx hsame)
  · intro r y hy z hz
    rw [hchild]
    exact h.unique r y ((hsub r y).mp hy).1 z ((hsub r z).mp hz).1
  · intro r
    rw [hchildren, Function.update_apply]
    split_ifs
    · exact (h.nodup q).erase x
    · exact h.nodup r
  · intro hnone'
    have hold := h.unstarted (hinit ▸ hnone')
    refine List.eq_nil_iff_forall_not_mem.mpr fun p hp ↦ ?_
    exact absurd ((hall p).mp hp).1 (hold ▸ List.not_mem_nil)

theorem Tree.start (h : v.Tree) (hidle : v.running = none) (hfirst : v.init = none) (p : Addr) :
    (v.start p).Tree := by
  have hnone := h.unstarted hfirst
  have hall : ∀ q, q ∈ (v.start p).all ↔ q = p := by
    intro q
    rw [(start_perm hidle p).mem_iff, hnone, List.mem_singleton]
  have hchildren : ∀ q, (v.start p).children q = [] := by
    intro q
    change update v.children p [] q = []
    rw [Function.update_apply]
    split_ifs
    · rfl
    · refine List.eq_nil_iff_forall_not_mem.mpr fun x hx ↦ ?_
      exact absurd (h.pointer q x hx).1 (hnone ▸ List.not_mem_nil)
  constructor
  · intro q hq hne
    exact absurd (congrArg some ((hall q).mp hq).symm) hne
  · intro q x hx
    exact absurd (hchildren q ▸ hx) List.not_mem_nil
  · intro q x hx
    exact absurd (hchildren q ▸ hx) List.not_mem_nil
  · intro q
    rw [hchildren]
    exact List.nodup_nil
  · exact fun hsome ↦ absurd hsome (Option.some_ne_none p)

theorem Tree.create (h : v.Tree) (hv : v.Consistent) (hp : v.running = some p) (hfresh : c ∉ v.all)
    (hpointer : ∀ q, x ∉ v.children q) : (v.create p c x).Tree := by
  have hall : ∀ q, q ∈ (v.create p c x).all ↔ q = c ∨ q ∈ v.all := by
    intro q
    rw [(create_perm v p c x).mem_iff, List.mem_cons]
  have hpc : p ≠ c := fun hsame ↦ hfresh (hsame ▸ mem_all_of_running hp)
  have hnone : v.children c = [] := by
    refine List.eq_nil_iff_forall_not_mem.mpr fun y hy ↦ ?_
    obtain ⟨hmem, hparent⟩ := h.pointer c y hy
    have hinit : v.init ≠ some (v.child y) := fun hinit ↦
      absurd ((hv.init_live _ hinit).2.symm.trans hparent) (by simp)
    obtain ⟨q, hq, hqc, -⟩ := h.parent _ hmem hinit
    exact hfresh (Option.some.inj (hqc.symm.trans hparent) ▸ hq)
  have hchildren : ∀ q y, y ∈ (v.create p c x).children q ↔ y ∈ v.children q ∨ q = p ∧ y = x := by
    intro q y
    change y ∈ update (update v.children c []) p (v.children p ++ [x]) q ↔ _
    by_cases hqp : q = p
    · rw [hqp, Function.update_self, List.mem_append, List.mem_singleton]
      tauto
    · rw [Function.update_of_ne hqp, Function.update_apply]
      split_ifs with hqc
      · rw [hqc, hnone]
        simp only [List.not_mem_nil, false_or, false_iff]
        exact fun hsame ↦ hqp (hqc.trans hsame.1)
      · tauto
  have hchild : ∀ y, y ≠ x → (v.create p c x).child y = v.child y := fun y hne ↦
    Function.update_of_ne hne _ _
  have hchildNew : (v.create p c x).child x = c := Function.update_self ..
  have hparent : ∀ q, q ≠ c → (v.create p c x).parent q = v.parent q := fun q hne ↦
    Function.update_of_ne hne _ _
  have hold : ∀ q y, y ∈ v.children q → y ≠ x := fun q y hy hsame ↦ hpointer q (hsame ▸ hy)
  have hzombie : (v.create p c x).queue .zombie = v.queue .zombie :=
    Function.update_of_ne (by decide : PcbList.zombie ≠ .ready) (v.queue .ready ++ [c]) v.queue
  constructor
  · intro q hq hne
    rcases (hall q).mp hq with rfl | hq
    · refine ⟨p, (hall p).mpr (Or.inr (mem_all_of_running hp)), Function.update_self .., ?_, x,
        (hchildren p x).mpr (Or.inr ⟨rfl, rfl⟩), hchildNew⟩
      rw [hzombie]
      exact hv.unlisted hp .zombie
    · obtain ⟨r, hr, hqr, hnot, y, hy, hyq⟩ := h.parent q hq hne
      refine ⟨r, (hall r).mpr (Or.inr hr), ?_, hzombie ▸ hnot, y, (hchildren r y).mpr (Or.inl hy), ?_⟩
      · rw [hparent q fun hsame ↦ hfresh (hsame ▸ hq)]
        exact hqr
      · rw [hchild y (hold r y hy)]
        exact hyq
  · intro q y hy
    rcases (hchildren q y).mp hy with hy | ⟨rfl, rfl⟩
    · obtain ⟨hmem, hq⟩ := h.pointer q y hy
      rw [hchild y (hold q y hy), hparent _ fun hsame ↦ hfresh (hsame ▸ hmem), hall]
      exact ⟨Or.inr hmem, hq⟩
    · rw [hchildNew, hall]
      exact ⟨Or.inl rfl, Function.update_self ..⟩
  · intro q y hy z hz hsame
    have hnew : ∀ y, y ∈ v.children q → (v.create p c x).child y ≠ c := by
      intro y hy hyc
      rw [hchild y (hold q y hy)] at hyc
      exact hfresh (hyc ▸ (h.pointer q y hy).1)
    rcases (hchildren q y).mp hy with hy | ⟨-, hyx⟩ <;> rcases (hchildren q z).mp hz with hz | ⟨-, hzx⟩
    · rw [hchild y (hold q y hy), hchild z (hold q z hz)] at hsame
      exact h.unique q y hy z hz hsame
    · exact absurd (hsame.trans (hzx ▸ hchildNew)) (hnew y hy)
    · exact absurd (hsame.symm.trans (hyx ▸ hchildNew)) (hnew z hz)
    · rw [hyx, hzx]
  · intro q
    change (update (update v.children c []) p (v.children p ++ [x]) q).Nodup
    by_cases hqp : q = p
    · rw [hqp, Function.update_self, List.nodup_append]
      refine ⟨h.nodup p, List.nodup_singleton x, fun y hy z hz ↦ ?_⟩
      rw [List.mem_singleton] at hz
      exact hz ▸ hold p y hy
    · rw [Function.update_of_ne hqp, Function.update_apply]
      split_ifs
      · exact List.nodup_nil
      · exact h.nodup q
  · intro hinit
    exact absurd (h.unstarted hinit ▸ mem_all_of_running hp) List.not_mem_nil

theorem Tree.schedule (h : v.Tree) (hv : v.Consistent) (hp : v.running = some p) :
    (v.schedule p).Tree := by
  refine h.congr (fun q ↦ (hv.schedule_perm hp).mem_iff) ?_ ?_ ?_ ?_ fun q hq ↦ ?_
  · rw [schedule_eq]
  · rw [schedule_eq]
  · rw [schedule_eq]
  · rw [schedule_eq]
  · rw [schedule_zombie] at hq
    exact Or.inl hq

/-- Without children there is nothing to hand over. -/
theorem hand_nil (hnone : v.children p = []) (i : Addr) : v.hand p i = v.children := by
  rw [hand, hnone, List.append_nil, ← hnone, Function.update_eq_self, Function.update_eq_self]

theorem Tree.reap (h : v.Tree) (hv : v.Consistent) (hx : x ∈ v.children p)
    (hzombie : v.status (v.child x) = .zombie) : (v.reap p x).Tree := by
  have hmem := hv.zombie_of_status (h.pointer p x hx).1 hzombie
  have hnone : v.children (v.child x) = [] := by
    refine List.eq_nil_iff_forall_not_mem.mpr fun y hy ↦ ?_
    obtain ⟨hy', hparent⟩ := h.pointer _ y hy
    have hinit : v.init ≠ some (v.child y) := fun hinit ↦
      absurd ((hv.init_live _ hinit).2.symm.trans hparent) (by simp)
    obtain ⟨q, -, hq, hnot, -⟩ := h.parent _ hy' hinit
    exact hnot (Option.some.inj (hparent.symm.trans hq) ▸ hmem)
  refine h.remove hv hnone hx rfl (fun q ↦ hv.mem_reap hmem) rfl rfl rfl rfl fun q hq ↦ ?_
  rw [reap_queue, Function.update_self] at hq
  exact List.mem_of_mem_erase hq

theorem Tree.exitToReady (h : v.Tree) (hp : v.running = some p) (hnone : v.children p = [])
    (hnext : (v.queue .ready).head? = some q) (i : Addr) (value : ℤ) :
    (v.exitToReady p i q value).Tree := by
  have hperm := exitToReady_perm hp hnext i value
  refine h.congr (fun r ↦ hperm.mem_iff) rfl rfl (hand_nil hnone i) rfl fun r hr ↦ ?_
  have hcases : r ∈ v.queue .zombie ∨ r = p := by simpa [Processes.exitToReady] using hr
  rcases hcases with hr | rfl
  · exact Or.inl hr
  · exact Or.inr hnone

theorem Tree.exitToParent (h : v.Tree) (hv : v.Consistent) (hp : v.running = some p)
    (hnone : v.children p = []) (hparent : v.parent p = some q) (hawaits : v.Awaits q p) (i : Addr)
    (value : ℤ) : (v.exitToParent p i q value).Tree := by
  have hperm := hv.exitToParent_perm hp hawaits i value
  obtain ⟨hnotMem, -⟩ := List.nodup_cons.mp (hperm.nodup_iff.mp hv.distinct)
  obtain ⟨x, hx, hxp, hfind⟩ := h.find_child hv (mem_all_of_running hp) hparent
  refine h.remove hv hnone hx hxp (fun r ↦ ?_) rfl rfl rfl ?_ fun r hr ↦ ?_
  · rw [hperm.mem_iff, List.mem_cons]
    constructor
    · exact fun hr ↦ ⟨Or.inr hr, fun hrp ↦ hnotMem (hrp ▸ hr)⟩
    · rintro ⟨hr, hne⟩
      exact hr.resolve_left hne
  · rw [exitToParent_children, hand_nil hnone, hfind]
  · rw [exitToParent_queue, Function.update_of_ne (by decide)] at hr
    exact hr

/-- Every step keeps the tree, if the first process is the only one of its kind and an exiting process
has no children. -/
theorem Tree.step (h : v.Tree) (hv : v.Consistent) (hstep : v.Step e v')
    (hstart : e = .start → v.init = none)
    (hexit : ∀ call p, e = .call call → call.exits = true → v.running = some p → v.children p = []) :
    v'.Tree := by
  cases hstep with
  | quiet => exact h
  | start p hidle _ => exact h.start hidle (hstart rfl) p
  | tick p hp =>
    have htick : ({ v with time := toInt (v.time + 1) } : Processes).Tree := { h with }
    exact htick.schedule { hv with } hp
  | preempt p hp =>
    have htrap : (v.trap p .preempt).Tree := { h with }
    exact htrap.schedule (hv.trap hp _) hp
  | create p c x call _ hp hfresh hpointer =>
    have htrap : (v.trap p call).Tree := { h with }
    exact htrap.create (hv.trap hp call) hp hfresh hpointer
  | sleepFails | waitFails | other => exact { h with }
  | sleep p t cycles hp _ =>
    exact h.congr (fun q ↦ (block_perm hp).mem_iff) rfl rfl rfl rfl fun q hq ↦ Or.inl hq
  | wait p x pid result hp _ _ =>
    exact h.congr (fun q ↦ (block_perm hp).mem_iff) rfl rfl rfl rfl fun q hq ↦ Or.inl hq
  | reap p x pid result hp hawaited hzombie =>
    have htrap : (v.trap p (.wait pid result)).Tree := { h with }
    exact htrap.reap (hv.trap hp _) (mem_of_awaited hawaited) hzombie
  | exitToParent p i parent value hp _ hparent hawaits =>
    have htrap : (v.trap p (.exit value)).Tree := { h with }
    exact htrap.exitToParent (hv.trap hp _) hp (hexit _ p rfl rfl hp) hparent
      ((hv.trap_awaits hp).mpr hawaits) i value
  | exitToReady p i parent next value hp _ _ _ hnext =>
    have htrap : (v.trap p (.exit value)).Tree := { h with }
    exact htrap.exitToReady hp (hexit _ p rfl rfl hp) hnext i value

end Processes

namespace Kernel

variable {k k' : Kernel} {v v' : Processes} {a : Action}

/-! ### The tree of a kernel -/

/-- A step of the processes in which nobody with children exits. The system is started once. -/
def TreeSafe (k : Kernel) (a : Action) : Prop :=
  a.ofProcesses = true ∧ (a = .start → k.initPcb = none) ∧
    ∀ p ∈ k.running, ∀ c ∈ k.request a, c.exits = true → (k.pcbs.children p).first = none

instance (k : Kernel) (a : Action) : Decidable (k.TreeSafe a) :=
  inferInstanceAs (Decidable (_ ∧ _ ∧ ∀ p ∈ k.running, ∀ c ∈ k.request a, _))

/-- The parent of every process but the first is allocated and no zombie, and has exactly one pointer to
it among its children; no other process has one; and the pointers refer to allocated processes. -/
def TreeConsistent (k : Kernel) : Prop :=
  (∀ p, k.pcbs.allocator.Allocated p → k.initPcb ≠ some p →
    ∃ q, k.pcbs.parent p = some q ∧ k.pcbs.allocator.Allocated q ∧ k.pcbs.status q ≠ .zombie ∧
      (∃! x, Reaches k.pcbPtrs.list (k.pcbs.children q).first x ∧ k.pcbPtrs.pcb x = p) ∧
        ∀ r x, Reaches k.pcbPtrs.list (k.pcbs.children r).first x → k.pcbPtrs.pcb x = p → r = q) ∧
  ∀ q x, Reaches k.pcbPtrs.list (k.pcbs.children q).first x →
    k.pcbs.allocator.Allocated (k.pcbPtrs.pcb x)

theorem Shows.treeConsistent (h : k.Shows v) (hv : v.Consistent) (htree : v.Tree) :
    k.TreeConsistent := by
  simp only [TreeConsistent, h.allocated_iff, h.children_reaches_iff, h.status, h.parent, h.child,
    h.initPcb]
  constructor
  · intro p hp hinit
    obtain ⟨q, hq, hparent, hnot, x, hx, hxp⟩ := htree.parent p hp hinit
    refine ⟨q, hparent, hq, fun hzombie ↦ hnot (hv.zombie_of_status hq hzombie), ⟨x, ⟨hx, hxp⟩, ?_⟩, ?_⟩
    · rintro y ⟨hy, hyp⟩
      exact htree.unique q y hy x hx (hyp.trans hxp.symm)
    · intro r y hy hyp
      have hr := (htree.pointer r y hy).2
      rw [hyp] at hr
      exact Option.some.inj (hr.symm.trans hparent)
  · exact fun q x hx ↦ (htree.pointer q x hx).1

theorem TreeSafe.start (h : k.TreeSafe a) (hshows : k.Shows v) (hevent : k.event a = .start) :
    v.init = none :=
  hshows.initPcb.symm.trans (h.2.1 (event_eq_start.mp hevent))

theorem TreeSafe.childless (h : k.TreeSafe a) (hshows : k.Shows v) (call : Syscall) (p : Addr)
    (hevent : k.event a = .call call) (hexits : call.exits = true) (hp : v.running = some p) :
    v.children p = [] :=
  hshows.children_eq_nil.mp
    (h.2.2 p (hshows.running.trans hp) call (event_eq_call.mp hevent) hexits)

theorem TreeSafe.concernsUsers (h : k.TreeSafe a) {c : Syscall} (hrequest : k.request a = some c) :
    c.concernsUsers = false :=
  concernsUsers_of_processes (concernsProcesses_of_request h.1 hrequest)

end Kernel

/-- Before the first process there is no tree. -/
theorem Layout.boot_tree (layout : Layout) :
    (layout.boot.processes (fun _ ↦ []) [] fun _ ↦ []).Tree := by
  constructor
  · intro p hp
    exact absurd hp (layout.boot_noProcess p)
  · exact fun q x hx ↦ absurd hx List.not_mem_nil
  · exact fun q x hx ↦ absurd hx List.not_mem_nil
  · exact fun q ↦ List.nodup_nil
  · exact fun _ ↦ List.eq_nil_iff_forall_not_mem.mpr layout.boot_noProcess

/-- In every run in which only processes without children exit, the tree is consistent. -/
theorem treeConsistent_of_childless (layout : Layout) {actions : List Action} {k : Kernel}
    (hsafe : Runs.Meets Kernel.step Kernel.TreeSafe layout.boot actions)
    (hrun : Runs.run Kernel.step layout.boot actions = some k) : k.TreeConsistent := by
  obtain ⟨-, v, hshows, hv, htree⟩ := Kernel.satisfies_run (P := fun _ v ↦ v.Tree)
    (fun k a hsafe c hrequest ↦ hsafe.concernsUsers hrequest)
    (fun k k' a v v' hsafe _ hshows hv htree hstep' _ ↦
      htree.step hv hstep' (hsafe.start hshows) (hsafe.childless hshows))
    (layout.boot_satisfies layout.boot_tree) hsafe hrun
  exact hshows.treeConsistent hv htree

/-- The first process has a child that exits and is taken away, and another child that exits while it is
waited for. -/
theorem treeConsistent_of_childless_twoChildren : ∃ k,
    Runs.run Kernel.step sampleLayout.boot
      [.start, .syscall .spawn, .timer, .syscall (.exit 7), .syscall (.wait 0 none), .syscall .spawn,
        .syscall (.wait 0 none), .syscall (.exit 3)] = some k ∧ k.TreeConsistent := by
  have hruns : (Runs.run Kernel.step sampleLayout.boot
      [.start, .syscall .spawn, .timer, .syscall (.exit 7), .syscall (.wait 0 none), .syscall .spawn,
        .syscall (.wait 0 none), .syscall (.exit 3)]).isSome := by decide +kernel
  obtain ⟨k, hk⟩ := Option.isSome_iff_exists.mp hruns
  exact ⟨k, hk, treeConsistent_of_childless sampleLayout (by decide +kernel) hk⟩

/-- The first process has a child, which has a child of its own and exits. -/
def middleExits : List Action :=
  [.start, .syscall .spawn, .timer, .syscall .spawn, .syscall (.exit 0)]

/-- The parent of the grandchild is a zombie. -/
theorem middleExits_not_treeConsistent : ∃ k,
    (∀ a ∈ middleExits, a.ofProcesses = true) ∧
      Runs.run Kernel.step sampleLayout.boot middleExits = some k ∧ ¬ k.TreeConsistent := by
  have hends : ∃ k ∈ Runs.run Kernel.step sampleLayout.boot middleExits,
      k.pcbs.parent (0x400000 + 2 * 17544) = some (0x400000 + 17544) ∧
        k.pcbs.status (0x400000 + 17544) = .zombie ∧ k.initPcb = some 0x400000 ∧
          k.pcbs.allocator.freeList 2 = -2 ∧ k.pcbs.allocator.sizeMax = 1024 ∧
            k.pcbs.allocator.buffer = 0x400000 ∧ k.pcbs.allocator.itemSize = 17544 := by
    decide +kernel
  obtain ⟨k, hk, hparent, hzombie, hinit, hlist, hmax, hbuffer, hsize⟩ := hends
  refine ⟨k, by decide, hk, fun htree ↦ ?_⟩
  have hallocated : k.pcbs.allocator.Allocated (0x400000 + 2 * 17544) :=
    ⟨2, by decide, by rw [hmax]; decide, by rw [hbuffer, hsize], hlist⟩
  obtain ⟨q, hq, -, hnot, -⟩ := htree.1 _ hallocated (by rw [hinit]; decide)
  rw [hparent] at hq
  obtain rfl := Option.some.inj hq
  exact hnot hzombie

end DisastrOS
