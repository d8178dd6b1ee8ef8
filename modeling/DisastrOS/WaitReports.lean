import DisastrOS.ProcessTree

/-!
# What wait reports

A wait ends in one of two places: in `internal_wait`, if there is a zombie to take, and in the
`internal_exit` of the child, if the parent is blocked. `Processes.Takes` names both. The exits and the
pids that waits have returned are observed along the run (`Reports`), and `Processes.Accounted` ties
them to the processes: a zombie has exited, a process that has exited and is still there is a zombie,
and no process that is there has been reported. `waits_report_exits` puts it together: in every run in
which only processes without children exit, a wait reports a child that has exited, with its value,
and takes it away; nobody is reported twice; and nobody waits for a child that is a zombie.
-/

set_option autoImplicit false
set_option relaxedAutoImplicit false

namespace DisastrOS

open LinkedLists
open Function (update)

/-- The pid and the argument of each exit, and the pids that waits have returned, the last ones
first. -/
structure Reports where
  exits : List (ℤ × ℤ)
  reported : List ℤ

namespace Processes

variable {v v' : Processes} {e : Event} {p q c i x : Addr} {result : Option Addr} {value : ℤ}

/-! ### Nobody waits for a zombie -/

/-- No parent waits for a child that is a zombie. -/
def NoneMissed (v : Processes) : Prop :=
  ∀ q, ∀ x ∈ v.children q, v.child x ∈ v.queue .zombie → ¬ v.Awaits q (v.child x)

/-- A step that makes no zombie and lets nobody wait. -/
theorem NoneMissed.keep (h : v.NoneMissed) (hchildren : ∀ q, ∀ x ∈ v'.children q, x ∈ v.children q)
    (hchild : v'.child = v.child) (hzombie : ∀ p ∈ v'.queue .zombie, p ∈ v.queue .zombie)
    (hawaits : ∀ q c, v'.Awaits q c → v.Awaits q c) : v'.NoneMissed := by
  intro q x hx hmem hwaits
  rw [hchild] at hmem hwaits
  exact h q x (hchildren q x hx) (hzombie _ hmem) (hawaits q _ hwaits)

/-- A process waits after a step only if it did before, or the step let it. -/
theorem Awaits.of_status (h : v'.Awaits q c) (hstatus : v'.status q = .waiting → v.status q = .waiting)
    (hcall : v'.syscall q = v.syscall q) (hpid : v'.pid c = v.pid c) : v.Awaits q c := by
  obtain ⟨hwaiting, pid, result, hwait, hor⟩ := h
  exact ⟨hstatus hwaiting, pid, result, hcall ▸ hwait, hpid ▸ hor⟩

theorem NoneMissed.trap (h : v.NoneMissed) (hv : v.Consistent) (hp : v.running = some p)
    (call : Syscall) : (v.trap p call).NoneMissed := by
  refine h.keep (fun q x hx ↦ hx) rfl (fun q hq ↦ hq) fun q c hwaits ↦ ?_
  have hqp : q ≠ p := fun hsame ↦
    hv.unlisted hp .waiting (hsame ▸ hv.waiting_of_status hwaits.1)
  exact hwaits.of_status id (Function.update_of_ne hqp _ _) rfl

theorem NoneMissed.schedule (h : v.NoneMissed) (p : Addr) : (v.schedule p).NoneMissed := by
  refine h.keep (fun q x hx ↦ ?_) ?_ (fun q hq ↦ ?_) fun q c hwaits ↦ ?_
  · rwa [schedule_eq] at hx
  · rw [schedule_eq]
  · rwa [schedule_zombie] at hq
  · refine hwaits.of_status (fun hwaiting ↦ ?_) (by rw [schedule_eq]) (by rw [schedule_eq])
    cases hnext : v.due ++ v.queue .ready with
    | nil => rwa [schedule_nil hnext] at hwaiting
    | cons next rest =>
      rw [schedule_cons hnext] at hwaiting
      simp only [Function.update_apply] at hwaiting
      split_ifs at hwaiting
      exact hwaiting

theorem NoneMissed.create (h : v.NoneMissed) (hv : v.Consistent) (hp : v.running = some p)
    (hfresh : c ∉ v.all) (hpointer : ∀ q, x ∉ v.children q) (htree : v.Tree) :
    (v.create p c x).NoneMissed := by
  have hzombie : (v.create p c x).queue .zombie = v.queue .zombie :=
    Function.update_of_ne (by decide : PcbList.zombie ≠ .ready) (v.queue .ready ++ [c]) v.queue
  intro q y hy hmem hwaits
  have hwaiting : (v.create p c x).status q = .waiting := hwaits.1
  have hqc : q ≠ c := by
    rintro rfl
    exact absurd ((Function.update_self ..).symm.trans hwaiting) (by decide)
  have hstatus : v.status q = .waiting := (Function.update_of_ne hqc _ _).symm.trans hwaiting
  -- the parent of the new process runs, the others keep their children
  have hqp : q ≠ p := fun hsame ↦
    hv.unlisted hp .waiting (hsame ▸ hv.waiting_of_status hstatus)
  have hold : y ∈ v.children q := by
    have hchildren : (v.create p c x).children q = v.children q :=
      (Function.update_of_ne hqp _ _).trans (Function.update_of_ne hqc _ _)
    rwa [hchildren] at hy
  have hchild : (v.create p c x).child y = v.child y :=
    Function.update_of_ne (fun hyx : y = x ↦ hpointer q (hyx ▸ hold)) _ _
  have hne : v.child y ≠ c := fun hsame ↦ hfresh (hsame ▸ (htree.pointer q y hold).1)
  rw [hzombie, hchild] at hmem
  rw [hchild] at hwaits
  exact h q y hold hmem
    (hwaits.of_status (fun _ ↦ hstatus) rfl (Function.update_of_ne hne _ _))

/-- A process that blocks does not wait for a child that is a zombie. -/
theorem NoneMissed.block (h : v.NoneMissed)
    (hnone : ∀ x ∈ v.children p, v.child x ∈ v.queue .zombie → ∀ pid result,
      v.syscall p = some (.wait pid result) → pid ≠ 0 ∧ pid ≠ v.pid (v.child x)) :
    (v.block p).NoneMissed := by
  intro q x hx hmem hwaits
  have hzombie : v.child x ∈ v.queue .zombie := by simpa [Processes.block] using hmem
  by_cases hqp : q = p
  · subst hqp
    obtain ⟨-, pid, result, hwait, hor⟩ := hwaits
    obtain ⟨hzero, hpid⟩ := hnone x hx hzombie pid result hwait
    exact hor.elim hzero hpid
  · exact h q x hx hzombie
      (hwaits.of_status (fun hw ↦ (Function.update_of_ne hqp _ _).symm.trans hw) rfl rfl)

/-- The search of a wait that blocks has passed no zombie it could have taken. -/
theorem notZombie_of_awaited (htree : v.Tree) (hv : v.Consistent) {pid : ℤ}
    (hawaited : v.awaited p pid = some x) (hnot : v.status (v.child x) ≠ .zombie) {y : Addr}
    (hy : y ∈ v.children p) (hmem : v.child y ∈ v.queue .zombie) :
    pid ≠ 0 ∧ pid ≠ v.pid (v.child y) := by
  have hstatus : v.status (v.child y) = .zombie := hv.listed .zombie _ hmem
  rw [awaited, Option.or_eq_some_iff] at hawaited
  rcases hawaited with hfind | ⟨hnone, -⟩
  · have hfound := List.find?_some hfind
    by_cases hpid : pid = 0
    · rw [if_pos hpid, decide_eq_true_iff] at hfound
      exact absurd hfound hnot
    · rw [if_neg hpid, decide_eq_true_iff] at hfound
      refine ⟨hpid, fun hsame ↦ hnot ?_⟩
      have hx := (htree.pointer p x (List.mem_of_find?_eq_some hfind)).1
      rw [hv.pid_inj _ hx _ (htree.pointer p y hy).1 (hfound.trans hsame)]
      exact hstatus
  · have htest := List.find?_eq_none.mp hnone y hy
    by_cases hpid : pid = 0
    · rw [if_pos hpid] at htest
      exact absurd (decide_eq_true hstatus) htest
    · rw [if_neg hpid, decide_eq_true_iff] at htest
      exact ⟨hpid, fun hsame ↦ htest hsame.symm⟩

theorem NoneMissed.exitToParent (h : v.NoneMissed) (hnone : v.children p = []) (i : Addr)
    (value : ℤ) : (v.exitToParent p i q value).NoneMissed := by
  refine h.keep (fun r x hx ↦ ?_) rfl (fun r hr ↦ ?_) fun r c hwaits ↦ ?_
  · rw [exitToParent_children, hand_nil hnone] at hx
    split at hx
    · exact hx
    · rw [Function.update_apply] at hx
      split_ifs at hx with hrq
      · exact hrq ▸ List.mem_of_mem_erase hx
      · exact hx
  · rwa [exitToParent_queue, Function.update_of_ne (by decide)] at hr
  · refine hwaits.of_status (fun hwaiting ↦ ?_) rfl rfl
    rw [exitToParent_status, Function.update_apply, Function.update_apply] at hwaiting
    split_ifs at hwaiting
    exact hwaiting

theorem NoneMissed.exitToReady (h : v.NoneMissed) (htree : v.Tree) (hnone : v.children p = [])
    (hparent : v.parent p = some q) (hawaits : ¬ v.Awaits q p) (i next : Addr) (value : ℤ) :
    (v.exitToReady p i next value).NoneMissed := by
  intro r x hx hmem hwaits
  have hold : x ∈ v.children r := by
    have hchildren : (v.exitToReady p i next value).children = v.children := hand_nil hnone i
    rwa [hchildren] at hx
  have hbefore : v.Awaits r (v.child x) := by
    refine hwaits.of_status (fun hwaiting ↦ ?_) rfl rfl
    change update (update v.status p .zombie) next .running r = .waiting at hwaiting
    rw [Function.update_apply, Function.update_apply] at hwaiting
    split_ifs at hwaiting
    exact hwaiting
  have hcases : v.child x ∈ v.queue .zombie ∨ v.child x = p := by
    simpa [Processes.exitToReady] using hmem
  rcases hcases with hzombie | hexits
  · exact h r x hold hzombie hbefore
  · have hr := (htree.pointer r x hold).2
    rw [hexits, hparent] at hr
    rw [hexits, ← Option.some.inj hr] at hbefore
    exact hawaits hbefore

/-- Every step in which nobody with children exits misses no zombie. -/
theorem NoneMissed.step (h : v.NoneMissed) (hv : v.Consistent) (htree : v.Tree)
    (hstep : v.Step e v') (hstart : e = .start → v.init = none)
    (hexit : ∀ call p, e = .call call → call.exits = true → v.running = some p → v.children p = []) :
    v'.NoneMissed := by
  cases hstep with
  | quiet => exact h
  | start p hidle _ =>
    intro q x hx hmem
    have hold : v.child x ∈ v.all := mem_all_of_queue hmem
    rw [htree.unstarted (hstart rfl)] at hold
    exact absurd hold List.not_mem_nil
  | tick p _ =>
    have htick : ({ v with time := toInt (v.time + 1) } : Processes).NoneMissed := h
    exact htick.schedule p
  | preempt p hp => exact (h.trap hv hp _).schedule p
  | create p c x call _ hp hfresh hpointer =>
    exact (h.trap hv hp call).create (hv.trap hp call) hp hfresh hpointer { htree with }
  | sleepFails p _ hp | waitFails p _ _ hp | other p _ hp => exact h.trap hv hp _
  | sleep p t cycles hp _ =>
    refine NoneMissed.block (h.trap hv hp (.sleep cycles)) fun x _ _ pid result hcall ↦ ?_
    have hsleep : update v.syscall p (some (.sleep cycles)) p = some (.wait pid result) := hcall
    rw [Function.update_self] at hsleep
    exact absurd hsleep (by simp)
  | wait p x pid result hp hawaited hnotZombie =>
    refine (h.trap hv hp _).block fun y hy hmem pid' result' hcall ↦ ?_
    have hwait : update v.syscall p (some (.wait pid result)) p = some (.wait pid' result') := hcall
    rw [Function.update_self, Option.some.injEq, Syscall.wait.injEq] at hwait
    rw [← hwait.1]
    exact notZombie_of_awaited htree hv hawaited hnotZombie hy hmem
  | reap p x pid result hp _ _ =>
    refine (h.trap hv hp (.wait pid result)).keep (fun q y hy ↦ ?_) rfl (fun q hq ↦ ?_)
      fun q c hwaits ↦ hwaits
    · change y ∈ update v.children p ((v.children p).erase x) q at hy
      rw [Function.update_apply] at hy
      split_ifs at hy with hqp
      · rw [hqp]
        exact List.mem_of_mem_erase hy
      · exact hy
    · rw [reap_queue, Function.update_self] at hq
      exact List.mem_of_mem_erase hq
  | exitToParent p i parent value hp _ _ _ =>
    exact (h.trap hv hp _).exitToParent (hexit _ p rfl rfl hp) i value
  | exitToReady p i parent next value hp _ hparent hawaits _ =>
    refine (h.trap hv hp (.exit value)).exitToReady { htree with } (hexit _ p rfl rfl hp) hparent ?_
      i next value
    rwa [hv.trap_awaits hp]

/-! ### The account of the exits -/

/-- The exits after a step. -/
def noteExit (v : Processes) (e : Event) (exits : List (ℤ × ℤ)) : List (ℤ × ℤ) :=
  match v.running, e with
  | some p, .call (.exit value) => (v.pid p, value) :: exits
  | _, _ => exits

/-- The exits are those of the zombies and of processes that are gone, once each, and only processes
that are gone have been reported, once each. -/
structure Accounted (m : Reports) (v : Processes) : Prop where
  zombie_exited : ∀ p ∈ v.queue .zombie, (v.pid p, v.returnValue p) ∈ m.exits
  exited_zombie : ∀ p ∈ v.all, v.pid p ∈ m.exits.map Prod.fst → p ∈ v.queue .zombie
  exits_lt : ∀ pid ∈ m.exits.map Prod.fst, pid < v.nextPid
  exits_nodup : (m.exits.map Prod.fst).Nodup
  reported_exited : ∀ pid ∈ m.reported, pid ∈ m.exits.map Prod.fst
  reported_gone : ∀ p ∈ v.all, v.pid p ∉ m.reported
  reported_nodup : m.reported.Nodup

variable {m : Reports}

/-- A step in which nobody is created and nobody exits. -/
theorem Accounted.keep (h : v.Accounted m) (hall : ∀ p ∈ v'.all, p ∈ v.all)
    (hzombie : ∀ p ∈ v'.all, p ∈ v'.queue .zombie ↔ p ∈ v.queue .zombie) (hpid : v'.pid = v.pid)
    (hvalue : v'.returnValue = v.returnValue) (hnextPid : v'.nextPid = v.nextPid) :
    v'.Accounted m where
  zombie_exited p hp := by
    rw [hpid, hvalue]
    exact h.zombie_exited p ((hzombie p (mem_all_of_queue hp)).mp hp)
  exited_zombie p hp hexited := by
    rw [hpid] at hexited
    exact (hzombie p hp).mpr (h.exited_zombie p (hall p hp) hexited)
  exits_lt := by
    rw [hnextPid]
    exact h.exits_lt
  exits_nodup := h.exits_nodup
  reported_exited := h.reported_exited
  reported_gone p hp := by
    rw [hpid]
    exact h.reported_gone p (hall p hp)
  reported_nodup := h.reported_nodup

/-- A step that creates process `c`, whose pid is new. -/
theorem Accounted.grow (h : v.Accounted m) (hall : ∀ p ∈ v'.all, p = c ∨ p ∈ v.all)
    (hfresh : c ∉ v.all) (hzombie : v'.queue .zombie = v.queue .zombie)
    (hpid : v'.pid = update v.pid c v.nextPid) (hvalue : v'.returnValue = update v.returnValue c 0)
    (hnextPid : v'.nextPid = v.nextPid + 1) : v'.Accounted m := by
  have hold : ∀ p ∈ v.all, v'.pid p = v.pid p := by
    intro p hp
    rw [hpid]
    exact Function.update_of_ne (fun hsame : p = c ↦ hfresh (hsame ▸ hp)) _ _
  have hnotExited : v'.pid c ∉ m.exits.map Prod.fst := by
    rw [hpid, Function.update_self]
    exact fun hexited ↦ absurd (h.exits_lt _ hexited) (by omega)
  constructor
  · intro p hp
    rw [hzombie] at hp
    have hmem := mem_all_of_queue hp
    have hne : p ≠ c := fun hsame ↦ hfresh (hsame ▸ hmem)
    rw [hold p hmem, hvalue, Function.update_of_ne hne]
    exact h.zombie_exited p hp
  · intro p hp hexited
    rcases hall p hp with rfl | hmem
    · exact absurd hexited hnotExited
    · rw [hold p hmem] at hexited
      rw [hzombie]
      exact h.exited_zombie p hmem hexited
  · intro pid hexited
    have hlt := h.exits_lt pid hexited
    omega
  · exact h.exits_nodup
  · exact h.reported_exited
  · intro p hp hreported
    rcases hall p hp with rfl | hmem
    · exact hnotExited (h.reported_exited _ hreported)
    · rw [hold p hmem] at hreported
      exact h.reported_gone p hmem hreported
  · exact h.reported_nodup

/-- A step in which process `p` exits. It is a zombie afterwards, if it is there. -/
theorem Accounted.exit (h : v.Accounted m) (hv : v.Consistent) (hp : v.running = some p)
    (hall : ∀ q ∈ v'.all, q ∈ v.all)
    (hzombie : ∀ q ∈ v'.all, q ∈ v'.queue .zombie ↔ q ∈ v.queue .zombie ∨ q = p)
    (hpid : v'.pid = v.pid) (hvalue : v'.returnValue = update v.returnValue p value)
    (hnextPid : v'.nextPid = v.nextPid) :
    v'.Accounted ⟨(v.pid p, value) :: m.exits, m.reported⟩ := by
  have hmem := mem_all_of_running hp
  have hnotZombie := hv.unlisted hp .zombie
  constructor
  · intro q hq
    rw [hpid, hvalue]
    rcases (hzombie q (mem_all_of_queue hq)).mp hq with hold | rfl
    · rw [Function.update_of_ne fun hsame : q = p ↦ hnotZombie (hsame ▸ hold)]
      exact List.mem_cons_of_mem _ (h.zombie_exited q hold)
    · rw [Function.update_self]
      exact List.mem_cons_self
  · intro q hq hexited
    rw [hzombie q hq]
    rw [hpid, List.map_cons, List.mem_cons] at hexited
    rcases hexited with hsame | hexited
    · exact Or.inr (hv.pid_inj q (hall q hq) p hmem hsame)
    · exact Or.inl (h.exited_zombie q (hall q hq) hexited)
  · intro pid hexited
    rw [hnextPid]
    rcases List.mem_cons.mp hexited with rfl | hexited
    · exact hv.pid_lt p hmem
    · exact h.exits_lt pid hexited
  · refine List.nodup_cons.mpr ⟨fun hexited ↦ ?_, h.exits_nodup⟩
    exact hnotZombie (h.exited_zombie p hmem hexited)
  · exact fun pid hreported ↦ List.mem_cons_of_mem _ (h.reported_exited pid hreported)
  · intro q hq
    rw [hpid]
    exact h.reported_gone q (hall q hq)
  · exact h.reported_nodup

/-- The pid of a process that is gone is reported. -/
theorem Accounted.report {pid : ℤ} (h : v.Accounted m) (hexited : pid ∈ m.exits.map Prod.fst)
    (hgone : ∀ p ∈ v.all, v.pid p ≠ pid) (hnew : pid ∉ m.reported) :
    v.Accounted ⟨m.exits, pid :: m.reported⟩ where
  zombie_exited := h.zombie_exited
  exited_zombie := h.exited_zombie
  exits_lt := h.exits_lt
  exits_nodup := h.exits_nodup
  reported_exited p hp := by
    rcases List.mem_cons.mp hp with rfl | hp
    · exact hexited
    · exact h.reported_exited p hp
  reported_gone p hp := by
    rw [List.mem_cons, not_or]
    exact ⟨hgone p hp, h.reported_gone p hp⟩
  reported_nodup := List.nodup_cons.mpr ⟨hnew, h.reported_nodup⟩

theorem Accounted.schedule (h : v.Accounted m) (hv : v.Consistent) (hp : v.running = some p) :
    (v.schedule p).Accounted m := by
  refine h.keep (fun q hq ↦ (hv.schedule_perm hp).mem_iff.mp hq) (fun q _ ↦ ?_) ?_ ?_ ?_
  · rw [schedule_zombie]
  · rw [schedule_eq]
  · rw [schedule_eq]
  · rw [schedule_eq]

/-- Only an exit is noted. -/
theorem noteExit_eq (hnone : ∀ value, e ≠ .call (.exit value)) (exits : List (ℤ × ℤ)) :
    v.noteExit e exits = exits := by
  unfold noteExit
  split
  · exact absurd rfl (hnone _)
  · rfl

theorem noteExit_exit (hp : v.running = some p) (value : ℤ) (exits : List (ℤ × ℤ)) :
    v.noteExit (.call (.exit value)) exits = (v.pid p, value) :: exits := by
  simp [noteExit, hp]

/-- The account of the exits after a step. -/
theorem Accounted.step (h : v.Accounted m) (hv : v.Consistent) (htree : v.Tree)
    (hstep : v.Step e v') : v'.Accounted ⟨v.noteExit e m.exits, m.reported⟩ := by
  have htrap : ∀ p call, (v.trap p call).Accounted m := fun p call ↦ { h with }
  cases hstep with
  | quiet =>
    rw [noteExit_eq (by simp)]
    exact h
  | start p hidle hfresh =>
    rw [noteExit_eq (by simp)]
    refine h.grow (c := p) (fun q hq ↦ ?_) hfresh rfl rfl rfl rfl
    exact List.mem_cons.mp ((start_perm hidle p).mem_iff.mp hq)
  | tick p hp =>
    rw [noteExit_eq (by simp)]
    have htick : ({ v with time := toInt (v.time + 1) } : Processes).Accounted m := { h with }
    exact htick.schedule { hv with } hp
  | preempt p hp =>
    rw [noteExit_eq (by simp)]
    exact (htrap p _).schedule (hv.trap hp _) hp
  | create p c x call hcall hp hfresh _ =>
    have hnotExit : ∀ value, Event.call call ≠ .call (.exit value) := by
      rcases hcall with rfl | rfl <;> simp
    rw [noteExit_eq hnotExit]
    refine (htrap p call).grow (c := c) (fun q hq ↦ ?_) hfresh ?_ rfl rfl rfl
    · exact List.mem_cons.mp ((create_perm _ p c x).mem_iff.mp hq)
    · exact Function.update_of_ne (by decide : PcbList.zombie ≠ .ready) (v.queue .ready ++ [c])
        v.queue
  | sleepFails p cycles _ =>
    rw [noteExit_eq (by simp)]
    exact htrap p _
  | waitFails p pid result _ _ =>
    rw [noteExit_eq (by simp)]
    exact htrap p _
  | other p c _ hother =>
    have hnotExit : ∀ value, Event.call c ≠ .call (.exit value) := by
      rintro value hsame
      rw [Event.call.inj hsame] at hother
      exact Bool.noConfusion hother
    rw [noteExit_eq hnotExit]
    exact htrap p c
  | sleep p t cycles hp _ =>
    rw [noteExit_eq (by simp)]
    refine h.keep (fun q hq ↦ (block_perm hp).mem_iff.mp hq) (fun q _ ↦ ?_) rfl rfl rfl
    exact Iff.rfl
  | wait p x pid result hp _ _ =>
    rw [noteExit_eq (by simp)]
    refine h.keep (fun q hq ↦ (block_perm hp).mem_iff.mp hq) (fun q _ ↦ ?_) rfl rfl rfl
    exact Iff.rfl
  | reap p x pid result hp hawaited hzombie =>
    rw [noteExit_eq (by simp)]
    have hmem : v.child x ∈ v.queue .zombie :=
      hv.zombie_of_status (htree.pointer p x (mem_of_awaited hawaited)).1 hzombie
    refine (htrap p (.wait pid result)).keep (fun q hq ↦ ?_) (fun q hq ↦ ?_) rfl rfl rfl
    · exact (reap_subperm _ p x).subset hq
    · rw [reap_queue, Function.update_self]
      exact List.mem_erase_of_ne (((hv.trap hp (.wait pid result)).mem_reap hmem).mp hq).2
  | exitToParent p i parent value hp _ hparent hawaits =>
    rw [noteExit_exit hp]
    have hperm := (hv.trap hp (.exit value)).exitToParent_perm hp ((hv.trap_awaits hp).mpr hawaits) i
      value
    obtain ⟨hnotMem, -⟩ := List.nodup_cons.mp (hperm.nodup_iff.mp hv.distinct)
    refine (htrap p (.exit value)).exit (hv.trap hp _) hp
      (fun q hq ↦ hperm.mem_iff.mpr (List.mem_cons_of_mem _ hq)) (fun q hq ↦ ?_) rfl rfl rfl
    rw [exitToParent_queue, Function.update_of_ne (by decide)]
    exact (or_iff_left fun hsame : q = p ↦ hnotMem (hsame ▸ hq)).symm
  | exitToReady p i parent next value hp _ _ _ hnext =>
    rw [noteExit_exit hp]
    refine (htrap p (.exit value)).exit (hv.trap hp _) hp
      (fun q hq ↦ (exitToReady_perm hp hnext i value).mem_iff.mp hq) (fun q _ ↦ ?_) rfl rfl rfl
    simp [Processes.exitToReady]

/-! ### The end of a wait -/

/-- A step ends the wait of process `q`, which gets the pid and the value of process `c`: a zombie that
it takes, or a child that exits while it is waited for. -/
inductive Takes (v : Processes) : Event → Addr → Option Addr → Addr → ℤ → Prop
  | zombie (q x : Addr) (pid : ℤ) (result : Option Addr) (hrunning : v.running = some q)
    (hawaited : v.awaited q pid = some x) (hzombie : v.status (v.child x) = .zombie) :
    Takes v (.call (.wait pid result)) q result (v.child x) (v.returnValue (v.child x))
  | exiting (p q : Addr) (pid value : ℤ) (result : Option Addr) (hrunning : v.running = some p)
    (hparent : v.parent p = some q) (hawaits : v.Awaits q p)
    (hwait : v.syscall q = some (.wait pid result)) : Takes v (.call (.exit value)) q result p value

/-- The process that is taken is a child. -/
theorem Takes.child (h : v.Takes e q result c value) (hv : v.Consistent) (htree : v.Tree) :
    c ∈ v.all ∧ ∃ x ∈ v.children q, v.child x = c := by
  cases h with
  | zombie q x pid result _ hawaited _ =>
    have hx := mem_of_awaited hawaited
    exact ⟨(htree.pointer q x hx).1, x, hx, rfl⟩
  | exiting p q pid value result hp hparent _ _ =>
    obtain ⟨x, hx, hxp, -⟩ := htree.find_child hv (mem_all_of_running hp) hparent
    exact ⟨mem_all_of_running hp, x, hx, hxp⟩

/-- The process that is taken has exited with the value. -/
theorem Takes.exited (h : v.Takes e q result c value) (hv : v.Consistent) (htree : v.Tree)
    (haccounted : v.Accounted m) : (v.pid c, value) ∈ v.noteExit e m.exits := by
  cases h with
  | zombie q x pid result _ hawaited hzombie =>
    rw [noteExit_eq (by simp)]
    have hmem := (htree.pointer q x (mem_of_awaited hawaited)).1
    exact haccounted.zombie_exited _ (hv.zombie_of_status hmem hzombie)
  | exiting p q pid value result hp _ _ _ =>
    rw [noteExit_exit hp]
    exact List.mem_cons_self

/-- The process that is taken is gone afterwards, and nobody else is. -/
theorem Takes.gone (h : v.Takes e q result c value) (hv : v.Consistent) (htree : v.Tree)
    (hstep : v.Step e v') : v'.pid = v.pid ∧ ∀ p, p ∈ v'.all ↔ p ∈ v.all ∧ p ≠ c := by
  cases h with
  | zombie q x pid result hq hawaited hzombie =>
    have hx := mem_of_awaited hawaited
    cases hstep with
    | create _ _ _ _ hcall => exact absurd hcall (by simp)
    | waitFails p _ _ hp hnone =>
      obtain rfl := Option.some.inj (hq.symm.trans hp)
      exact absurd (hnone ▸ hx) List.not_mem_nil
    | reap p y _ _ hp hawaited' _ =>
      obtain rfl := Option.some.inj (hq.symm.trans hp)
      obtain rfl := Option.some.inj (hawaited.symm.trans hawaited')
      have hmem := hv.zombie_of_status (htree.pointer q x hx).1 hzombie
      exact ⟨rfl, fun p ↦ (hv.trap hp (.wait pid result)).mem_reap hmem⟩
    | wait p y _ _ hp hawaited' hnotZombie =>
      obtain rfl := Option.some.inj (hq.symm.trans hp)
      obtain rfl := Option.some.inj (hawaited.symm.trans hawaited')
      exact absurd hzombie hnotZombie
    | other _ _ _ hother => exact Bool.noConfusion hother
  | exiting p q pid value result hp hparent hawaits _ =>
    cases hstep with
    | create _ _ _ _ hcall => exact absurd hcall (by simp)
    | exitToParent p' i parent _ hp' _ hparent' _ =>
      obtain rfl := Option.some.inj (hp.symm.trans hp')
      obtain rfl := Option.some.inj (hparent.symm.trans hparent')
      have hperm := (hv.trap hp (.exit value)).exitToParent_perm hp ((hv.trap_awaits hp).mpr hawaits)
        i value
      obtain ⟨hnotMem, -⟩ := List.nodup_cons.mp (hperm.nodup_iff.mp hv.distinct)
      refine ⟨rfl, fun r ↦ ⟨fun hr ↦ ?_, ?_⟩⟩
      · exact ⟨hperm.mem_iff.mpr (List.mem_cons_of_mem _ hr), fun hsame ↦ hnotMem (hsame ▸ hr)⟩
      · rintro ⟨hr, hne⟩
        exact (List.mem_cons.mp (hperm.mem_iff.mp hr)).resolve_left hne
    | exitToReady p' i parent _ _ hp' _ hparent' hawaits' _ =>
      obtain rfl := Option.some.inj (hp.symm.trans hp')
      obtain rfl := Option.some.inj (hparent.symm.trans hparent')
      exact absurd hawaits hawaits'
    | other _ _ _ hother => exact Bool.noConfusion hother

/-- The account of a step that ends a wait. -/
theorem Takes.accounted (h : v.Takes e q result c value) (hv : v.Consistent) (htree : v.Tree)
    (haccounted : v.Accounted m) (hstep : v.Step e v') :
    v'.Accounted ⟨v.noteExit e m.exits, v.pid c :: m.reported⟩ := by
  obtain ⟨hpid, hgone⟩ := h.gone hv htree hstep
  obtain ⟨hmem, -⟩ := h.child hv htree
  refine (haccounted.step hv htree hstep).report ?_ (fun p hp ↦ ?_) (haccounted.reported_gone c hmem)
  · exact List.mem_map_of_mem (f := Prod.fst) (h.exited hv htree haccounted)
  · obtain ⟨hp, hne⟩ := (hgone p).mp hp
    rw [hpid]
    exact fun hsame ↦ hne (hv.pid_inj p hp c hmem hsame)

/-- A process that waits for a child is not woken by the clock. -/
theorem Consistent.notMem_due_of_wait {pid : ℤ} (hv : v.Consistent)
    (hcall : v.syscall q = some (.wait pid result)) : q ∉ v.due := by
  intro hdue
  obtain ⟨t, ht, rfl⟩ := List.mem_map.mp hdue
  obtain ⟨-, cycles, hsleep⟩ := hv.sleeps t ((List.takeWhile_sublist _).subset ht)
  exact absurd (hcall.symm.trans hsleep) (by simp)

theorem mem_of_schedule_running (hruns : (v.schedule p).running = some q) :
    v.running = some q ∨ q ∈ v.due ++ v.queue .ready := by
  cases hnext : v.due ++ v.queue .ready with
  | nil =>
    rw [schedule_nil hnext] at hruns
    exact Or.inl hruns
  | cons next rest =>
    rw [schedule_cons hnext] at hruns
    obtain rfl := Option.some.inj hruns
    exact Or.inr List.mem_cons_self

/-- Only a process that exits ends the wait of another one. -/
theorem Consistent.exiting_of_waits {pid : ℤ} (hv : v.Consistent) (hstep : v.Step e v')
    (hruns : v'.running = some q) (hwaiting : v.status q = .waiting)
    (hcall : v.syscall q = some (.wait pid result)) :
    ∃ p value, e = .call (.exit value) ∧ v.running = some p ∧ v.parent p = some q ∧
      v.Awaits q p := by
  have hmem := hv.waiting_of_status hwaiting
  have hnotRuns : v.running ≠ some q := fun hq ↦ hv.unlisted hq .waiting hmem
  have hnotReady : q ∉ v.queue .ready := fun hready ↦
    PcbList.noConfusion (hv.queue_unique hready hmem)
  cases hstep with
  | quiet | create | sleepFails | waitFails | reap | other => exact absurd hruns hnotRuns
  | start p _ hfresh =>
    obtain rfl := Option.some.inj hruns
    exact absurd (mem_all_of_queue hmem) hfresh
  | tick p _ =>
    have htick : ({ v with time := toInt (v.time + 1) } : Processes).Consistent := { hv with }
    have hnotDue := htick.notMem_due_of_wait hcall
    rcases mem_of_schedule_running hruns with hruns | hnext
    · exact absurd hruns hnotRuns
    · exact absurd hnext (by simp [hnotDue, hnotReady])
  | preempt p hp =>
    have hne : q ≠ p := fun hsame ↦ hnotRuns (hsame ▸ hp)
    have hnotDue := (hv.trap hp .preempt).notMem_due_of_wait
      ((Function.update_of_ne hne _ _).trans hcall)
    rcases mem_of_schedule_running hruns with hruns | hnext
    · exact absurd hruns hnotRuns
    · exact absurd hnext (List.not_mem_append hnotDue hnotReady)
  | sleep | wait => exact absurd (List.mem_of_head? hruns) hnotReady
  | exitToParent p i parent value hp _ hparent hawaits =>
    obtain rfl := Option.some.inj hruns
    exact ⟨p, value, rfl, hp, hparent, hawaits⟩
  | exitToReady p i parent next value _ _ _ _ hnext =>
    obtain rfl := Option.some.inj hruns
    exact absurd (List.mem_of_head? hnext) hnotReady

end Processes

namespace Kernel

variable {k k' : Kernel} {v v' : Processes} {a : Action} {m : Reports} {p q c : Addr}
  {result : Option Addr} {value : ℤ}

/-! ### The results of the calls -/

theorem storeResult_userInts {r : Addr} (hr : r ∈ result) (value : ℤ) :
    (k.storeResult result value).userInts r = value := by
  obtain rfl := Option.mem_def.mp hr
  exact Function.update_self ..

/-- A wait that returns a pid has taken a zombie. -/
theorem Lists.internalWait_result (h : k.Lists v) (hv : v.Consistent) (hp : v.running = some p)
    {pid : ℤ} (hwait : Kernel.internalWait pid result k = some k') (hruns : k'.running = some p)
    (hnonneg : 0 ≤ k'.pcbs.syscallRetvalue p) :
    ∃ x, v.awaited p pid = some x ∧ v.status (v.child x) = .zombie ∧
      k'.pcbs.syscallRetvalue p = v.pid (v.child x) ∧
        ∀ r ∈ result, k'.userInts r = v.returnValue (v.child x) := by
  have hfails : (k.setRetvalue p dsosEwait).pcbs.syscallRetvalue p = dsosEwait :=
    Function.update_self ..
  obtain ⟨p', hp', ⟨-, rfl⟩ | ⟨awaited, -, hsearch, hcases⟩⟩ := internalWait_cases hwait
  · obtain rfl : p = p' := Option.some.inj ((h.running.trans hp).symm.trans hp')
    rw [hfails] at hnonneg
    exact absurd hnonneg (by decide)
  · obtain rfl : p = p' := Option.some.inj ((h.running.trans hp).symm.trans hp')
    have hawaited := h.awaitedPcbPtr hsearch
    obtain ⟨x, rfl, hzombie, rfl⟩ | ⟨-, ⟨-, rfl⟩ | ⟨-, -, rfl⟩⟩ := hcases
    · refine ⟨x, hawaited.symm, ?_, ?_, fun r hr ↦ ?_⟩
      · rw [← h.status, ← h.child]
        exact hzombie
      · rw [← h.pid, ← h.child]
        exact Function.update_self ..
      · rw [← h.returnValue, ← h.child]
        exact storeResult_userInts hr _
    · -- the next process is another one
      have hfirst : (k.lists .ready).first = some p := hruns
      rw [(h.scheduled.threads.represents .ready).first] at hfirst
      exact absurd (List.mem_of_head? hfirst) (hv.unlisted hp .ready)
    · rw [hfails] at hnonneg
      exact absurd hnonneg (by decide)

/-- A parent that waits gets the pid and the value of the process that exits. -/
theorem Lists.internalExit_result (h : k.Lists v) (hv : v.Consistent) (hp : v.running = some p)
    (hexit : Kernel.internalExit value k = some k') (hparent : v.parent p = some q)
    (hawaits : v.Awaits q p) {pid : ℤ} (hcall : v.syscall q = some (.wait pid result)) :
    k'.pcbs.syscallRetvalue q = v.pid p ∧ ∀ r ∈ result, k'.userInts r = value := by
  obtain ⟨p', k₁, parent, hp', hzombie, hparent', hcases⟩ := internalExit_cases hexit
  obtain rfl : p = p' := Option.some.inj ((h.running.trans hp).symm.trans hp')
  have hframe := becomeZombie_eq hzombie
  obtain rfl : q = parent := by
    rw [hframe] at hparent'
    exact Option.some.inj (hparent.symm.trans ((congrFun h.parent p).symm.trans hparent'))
  have hwaits : (k₁.sendSignal q dsosSigchld).awaits q p = true := by
    rw [becomeZombie_awaits hzombie, Bool.and_eq_true, decide_eq_true_iff, h.awaits_iff]
    exact ⟨fun hsame ↦ hv.not_awaits_self hp (hsame ▸ hawaits), hawaits⟩
  rcases hcases with ⟨-, hexit⟩ | ⟨hnot, -⟩
  · have hresult : (k₁.sendSignal q dsosSigchld).waitResult q = result := by
      have hsyscall : k₁.pcbs.syscall = v.syscall := by
        rw [hframe]
        exact h.syscall
      simp only [waitResult, sendSignal, hsyscall, hcall]
    have hvalue : (k₁.sendSignal q dsosSigchld).pcbs.returnValue p = value := by
      rw [hframe]
      exact Function.update_self ..
    have hpid : (k₁.sendSignal q dsosSigchld).pcbs.pid p = v.pid p := by
      rw [hframe]
      exact congrFun h.pid p
    rw [exitToParent_eq hexit, hresult, hvalue, hpid]
    exact ⟨Function.update_self .., fun r hr ↦ storeResult_userInts hr value⟩
  · exact absurd hwaits (by simp [hnot])

/-! ### Reports -/

/-- The system call of process `q` when a step lets it run: the call that it makes in this step, or the
one in which it was blocked. -/
def callOf (k : Kernel) (a : Action) (q : Addr) : Option Syscall :=
  if k.running = some q then k.request a
  else if k.pcbs.status q = .waiting then k.pcbs.syscall q
  else none

/-- The process whose wait a step ends, with its pointer for the value of the child. -/
def waitReturn (k : Kernel) (a : Action) (k' : Kernel) : Option (Addr × Option Addr) :=
  k'.running.bind fun q ↦
    match k.callOf a q with
    | some (.wait _ result) => some (q, result)
    | _ => none

/-- The exit that a step makes, and the pid that a wait returns in it, are noted. -/
def noteReports (m : Reports) (k : Kernel) (a : Action) (k' : Kernel) : Reports where
  exits :=
    match k.running, k.request a with
    | some p, some (.exit value) => (k.pcbs.pid p, value) :: m.exits
    | _, _ => m.exits
  reported :=
    match k.waitReturn a k' with
    | some (q, _) =>
      if 0 ≤ k'.pcbs.syscallRetvalue q then k'.pcbs.syscallRetvalue q :: m.reported else m.reported
    | none => m.reported

theorem waitReturn_eq_some : k.waitReturn a k' = some (q, result) ↔
    k'.running = some q ∧ ∃ pid, k.callOf a q = some (.wait pid result) := by
  rw [waitReturn, Option.bind_eq_some_iff]
  constructor
  · rintro ⟨q', hruns, hmatch⟩
    split at hmatch
    · next pid result' hcall =>
      obtain ⟨rfl, rfl⟩ := Prod.mk.inj (Option.some.inj hmatch)
      exact ⟨hruns, pid, hcall⟩
    · exact absurd hmatch (by simp)
  · rintro ⟨hruns, pid, hcall⟩
    exact ⟨q, hruns, by rw [hcall]⟩

/-- A call of a process, made in a kernel whose lists show the processes. -/
theorem Shows.exists_syscallVector {call : Syscall} (h : k.Shows v) (hp : k.running = some p)
    (hrequest : k.request a = some call) (hprocesses : call.concernsProcesses = true)
    (hstep : k.step a = some k') : ∃ k₁ s, Lists k₁ (v.trap p call) ∧
      Kernel.syscallVector call k₁ = some (k'.recount s) := by
  obtain ⟨s, hlists⟩ := h
  obtain ⟨next, -, hcall⟩ := step_syscall hp hrequest hstep
  have hrecount := recount_syscallVector (k := k.trap p next call) (s := s) hprocesses
  rw [hcall] at hrecount
  exact ⟨_, s, hlists.trap p next call, hrecount⟩

/-- A wait that returns a pid takes a process away. -/
theorem Shows.takes (h : k.Shows v) (hv : v.Consistent) (hstep : k.step a = some k')
    (hstep' : v.Step (k.event a) v') (h' : k'.Shows v')
    (hreturn : k.waitReturn a k' = some (q, result)) (hnonneg : 0 ≤ k'.pcbs.syscallRetvalue q) :
    ∃ c value, v.Takes (k.event a) q result c value ∧ k'.pcbs.syscallRetvalue q = v.pid c ∧
      ∀ r ∈ result, k'.userInts r = value := by
  obtain ⟨hruns, pid, hcall⟩ := waitReturn_eq_some.mp hreturn
  rw [callOf] at hcall
  split_ifs at hcall with hrunning hwaiting
  · -- the process takes a zombie at once
    obtain ⟨k₁, s, hlists, hwait⟩ := h.exists_syscallVector hrunning hcall rfl hstep
    have hp : v.running = some q := h.running.symm.trans hrunning
    obtain ⟨x, hawaited, hzombie, hpid, hvalue⟩ :=
      hlists.internalWait_result (hv.trap hp _) hp hwait hruns hnonneg
    rw [event_eq_call.mpr hcall]
    exact ⟨v.child x, v.returnValue (v.child x), .zombie q x pid result hp hawaited hzombie, hpid,
      hvalue⟩
  · -- a child exits
    rw [h.status] at hwaiting
    rw [h.syscall] at hcall
    obtain ⟨p, value, hevent, hp, hparent, hawaits⟩ :=
      hv.exiting_of_waits hstep' (h'.running.symm.trans hruns) hwaiting hcall
    obtain ⟨k₁, s, hlists, hexit⟩ :=
      h.exists_syscallVector (h.running.trans hp) (event_eq_call.mp hevent) rfl hstep
    have hne : q ≠ p := fun hsame ↦ hv.not_awaits_self hp (hsame ▸ hawaits)
    obtain ⟨hpid, hvalue⟩ := hlists.internalExit_result (hv.trap hp _) hp hexit hparent
      ((hv.trap_awaits hp).mpr hawaits) ((Function.update_of_ne hne _ _).trans hcall)
    rw [hevent]
    exact ⟨p, value, .exiting p q pid value result hp hparent hawaits hcall, hpid, hvalue⟩

theorem Shows.noteReports_exits (h : k.Shows v) :
    (noteReports m k a k').exits = v.noteExit (k.event a) m.exits := by
  by_cases hexit : ∃ value, k.request a = some (.exit value)
  · obtain ⟨value, hrequest⟩ := hexit
    rw [event_eq_call.mpr hrequest]
    simp only [noteReports, Processes.noteExit, hrequest, h.running, h.pid]
    cases v.running <;> rfl
  · rw [Processes.noteExit_eq fun value hevent ↦ hexit ⟨value, event_eq_call.mp hevent⟩]
    simp only [noteReports]
    split
    · next hrequest => exact absurd ⟨_, hrequest⟩ hexit
    · rfl

/-- The account after a step. -/
theorem Shows.accounted (h : k.Shows v) (hv : v.Consistent) (htree : v.Tree)
    (haccounted : v.Accounted m) (hstep : k.step a = some k') (hstep' : v.Step (k.event a) v')
    (h' : k'.Shows v') : v'.Accounted (noteReports m k a k') := by
  have hexits : (noteReports m k a k').exits = v.noteExit (k.event a) m.exits :=
    h.noteReports_exits
  cases hreturn : k.waitReturn a k' with
  | none =>
    have hsame : noteReports m k a k' = ⟨v.noteExit (k.event a) m.exits, m.reported⟩ := by
      rw [← hexits]
      simp only [noteReports, hreturn]
    rw [hsame]
    exact haccounted.step hv htree hstep'
  | some returned =>
    obtain ⟨q, result⟩ := returned
    by_cases hnonneg : 0 ≤ k'.pcbs.syscallRetvalue q
    · obtain ⟨c, value, htakes, hpid, -⟩ := h.takes hv hstep hstep' h' hreturn hnonneg
      have hsame : noteReports m k a k' =
          ⟨v.noteExit (k.event a) m.exits, v.pid c :: m.reported⟩ := by
        rw [← hexits, ← hpid]
        simp only [noteReports, hreturn, if_pos hnonneg]
      rw [hsame]
      exact htakes.accounted hv htree haccounted hstep'
    · have hsame : noteReports m k a k' = ⟨v.noteExit (k.event a) m.exits, m.reported⟩ := by
        rw [← hexits]
        simp only [noteReports, hreturn, if_neg hnonneg]
      rw [hsame]
      exact haccounted.step hv htree hstep'

/-- No parent is blocked in a wait for any child, or for this one, while it is a zombie. -/
def NoZombieAwaited (k : Kernel) : Prop :=
  ∀ q pid result x, k.pcbs.status q = .waiting → k.pcbs.syscall q = some (.wait pid result) →
    Reaches k.pcbPtrs.list (k.pcbs.children q).first x →
      k.pcbs.status (k.pcbPtrs.pcb x) = .zombie → pid ≠ 0 ∧ pid ≠ k.pcbs.pid (k.pcbPtrs.pcb x)

/-- In a step from `k` to `k'` process `q` learns of its child `c`, which has exited with the value, and
the child is taken away. -/
structure ReportsChild (k : Kernel) (m : Reports) (k' : Kernel) (q : Addr) (result : Option Addr)
    (c : Addr) (value : ℤ) : Prop where
  child : ∃ x, Reaches k.pcbPtrs.list (k.pcbs.children q).first x ∧ k.pcbPtrs.pcb x = c
  allocated : k.pcbs.allocator.Allocated c
  pid : k'.pcbs.syscallRetvalue q = k.pcbs.pid c
  exited : (k.pcbs.pid c, value) ∈ m.exits
  stored : ∀ r ∈ result, k'.userInts r = value
  child_removed : ∀ x, Reaches k'.pcbPtrs.list (k'.pcbs.children q).first x → k'.pcbPtrs.pcb x ≠ c
  zombie_removed : ¬ Reaches k'.pcbs.list (k'.lists .zombie).first c
  freed : ¬ k'.pcbs.allocator.Allocated c

/-- What holds of the processes along a run. -/
structure Reporting (m : Reports) (v : Processes) : Prop where
  tree : v.Tree
  noneMissed : v.NoneMissed
  accounted : v.Accounted m

theorem Reporting.step (h : Reporting m v) (hshows : k.Shows v) (hv : v.Consistent)
    (hsafe : k.TreeSafe a) (hstep : k.step a = some k') (hstep' : v.Step (k.event a) v')
    (hshows' : k'.Shows v') : Reporting (noteReports m k a k') v' where
  tree := h.tree.step hv hstep' (hsafe.start hshows) (hsafe.childless hshows)
  noneMissed := h.noneMissed.step hv h.tree hstep' (hsafe.start hshows) (hsafe.childless hshows)
  accounted := hshows.accounted hv h.tree h.accounted hstep hstep' hshows'

theorem Shows.noZombieAwaited (h : k.Shows v) (hv : v.Consistent) (htree : v.Tree)
    (hmissed : v.NoneMissed) : k.NoZombieAwaited := by
  simp only [NoZombieAwaited, h.children_reaches_iff, h.status, h.child, h.syscall, h.pid]
  intro q pid result x hwaiting hcall hx hzombie
  have hmem := hv.zombie_of_status (htree.pointer q x hx).1 hzombie
  rw [← not_or]
  exact fun hor ↦ hmissed q x hx hmem ⟨hwaiting, pid, result, hcall, hor⟩

theorem Shows.reportsChild (h : k.Shows v) (hv : v.Consistent) (hreporting : Reporting m v)
    (hsafe : k.TreeSafe a) (hstep : k.step a = some k') (hstep' : v.Step (k.event a) v')
    (h' : k'.Shows v') (hreturn : k.waitReturn a k' = some (q, result))
    (hnonneg : 0 ≤ k'.pcbs.syscallRetvalue q) :
    ∃ c value, k.ReportsChild (noteReports m k a k') k' q result c value := by
  obtain ⟨c, value, htakes, hpid, hvalue⟩ := h.takes hv hstep hstep' h' hreturn hnonneg
  obtain ⟨hmem, x, hx, hxc⟩ := htakes.child hv hreporting.tree
  have hgone : c ∉ v'.all := fun hc ↦ (((htakes.gone hv hreporting.tree hstep').2 c).mp hc).2 rfl
  have htree' := (hreporting.step h hv hsafe hstep hstep' h').tree
  refine ⟨c, value, ?_⟩
  constructor
  · exact ⟨x, (h.children_reaches_iff q).mpr hx, (congrFun h.child x).trans hxc⟩
  · exact h.allocated_iff.mpr hmem
  · rw [hpid, h.pid]
  · rw [h.noteReports_exits, h.pid]
    exact htakes.exited hv hreporting.tree hreporting.accounted
  · exact hvalue
  · intro y hy hyc
    rw [h'.child] at hyc
    exact hgone (hyc ▸ (htree'.pointer q y ((h'.children_reaches_iff q).mp hy)).1)
  · exact fun hc ↦ hgone (Processes.mem_all_of_queue ((h'.reaches_iff .zombie).mp hc))
  · exact fun hc ↦ hgone (h'.allocated_iff.mp hc)

end Kernel

/-- In every run in which only processes without children exit, a wait that returns a pid reports a child
that has exited, with its value, and takes it away; no process is reported twice, and nobody is blocked
in a wait for a zombie. -/
theorem waits_report_exits (layout : Layout) {actions : List Action} {k : Kernel}
    (hsafe : Runs.Meets Kernel.step Kernel.TreeSafe layout.boot actions)
    (hrun : Runs.run Kernel.step layout.boot actions = some k) :
    let m := Runs.monitor Kernel.step Kernel.noteReports ⟨[], []⟩ layout.boot actions
    k.NoZombieAwaited ∧ (m.exits.map Prod.fst).Nodup ∧ m.reported.Nodup ∧
      ∀ a k' q result, k.TreeSafe a → k.step a = some k' → k.waitReturn a k' = some (q, result) →
        0 ≤ k'.pcbs.syscallRetvalue q →
          ∃ c value, k.ReportsChild (Kernel.noteReports m k a k') k' q result c value := by
  intro m
  have hstart : Kernel.Reporting ⟨[], []⟩ (layout.boot.processes (fun _ ↦ []) [] fun _ ↦ []) :=
    { tree := layout.boot_tree
      noneMissed := fun q x hx ↦ absurd hx List.not_mem_nil
      accounted :=
        { zombie_exited := fun p hp ↦ absurd hp List.not_mem_nil
          exited_zombie := fun p _ hp ↦ absurd hp List.not_mem_nil
          exits_lt := fun p hp ↦ absurd hp List.not_mem_nil
          exits_nodup := List.nodup_nil
          reported_exited := fun p hp ↦ absurd hp List.not_mem_nil
          reported_gone := fun p _ ↦ List.not_mem_nil
          reported_nodup := List.nodup_nil } }
  obtain ⟨hshutdown, v, hshows, hv, hreporting⟩ := Kernel.satisfies_monitor
    (P := fun m _ ↦ Kernel.Reporting m)
    (fun k a (hsafe : k.TreeSafe a) c hrequest ↦ hsafe.concernsUsers hrequest)
    (fun m k k' a v v' hsafe hstep hshows hv h hstep' hshows' ↦
      h.step hshows hv hsafe hstep hstep' hshows') (layout.boot_satisfies hstart) hsafe hrun
  refine ⟨hshows.noZombieAwaited hv hreporting.tree hreporting.noneMissed,
    hreporting.accounted.exits_nodup, hreporting.accounted.reported_nodup, ?_⟩
  intro a k' q result hallowed hstep hreturn hnonneg
  obtain ⟨v', hstep', hshows'⟩ := hshows.step hv hshutdown (fun c ↦ hallowed.concernsUsers) hstep
  exact hshows.reportsChild hv hreporting hallowed hstep hstep' hshows' hreturn hnonneg

/-- The first process takes a zombie and waits for another child, which then exits. -/
def twoWaits : List Action :=
  [.start, .syscall .spawn, .timer, .syscall (.exit 7), .syscall (.wait 0 (some 4096)),
    .syscall .spawn, .syscall (.wait 0 (some 4100))]

theorem waits_report_exits_twoWaits : ∃ k k',
    Runs.run Kernel.step sampleLayout.boot twoWaits = some k ∧
      k.step (.syscall (.exit 3)) = some k' ∧ k.NoZombieAwaited ∧
        ∃ c value, k.ReportsChild (Kernel.noteReports (Runs.monitor Kernel.step Kernel.noteReports
          ⟨[], []⟩ sampleLayout.boot twoWaits) k (.syscall (.exit 3)) k') k' 0x400000 (some 4100) c
            value := by
  have hruns : ∃ k ∈ Runs.run Kernel.step sampleLayout.boot twoWaits,
      k.TreeSafe (.syscall (.exit 3)) ∧ ∃ k' ∈ k.step (.syscall (.exit 3)),
        k.waitReturn (.syscall (.exit 3)) k' = some (0x400000, some 4100) ∧
          0 ≤ k'.pcbs.syscallRetvalue 0x400000 := by
    decide +kernel
  obtain ⟨k, hrun, hsafe, k', hstep, hreturn, hnonneg⟩ := hruns
  obtain ⟨hawaited, -, -, hreports⟩ :=
    waits_report_exits sampleLayout (by decide +kernel : Runs.Meets _ _ _ twoWaits) hrun
  exact ⟨k, k', hrun, hstep, hawaited, hreports _ k' _ _ hsafe hstep hreturn hnonneg⟩

end DisastrOS
