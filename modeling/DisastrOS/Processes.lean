import Mathlib.Data.List.Perm.Subperm
import DisastrOS.Kernel

/-!
# Processes, without the lists

An abstract model of the processes: the lists of PCBs, the children and the timers are sequences, and
a block that is handed out is one that was in no sequence. `Processes.Step` says what a system call or
an interrupt does to them. Calls that concern files only note themselves in the PCB.

`Processes.Consistent` is the invariant. The running process is in no sequence, and no process is in
two places; the status of a listed process names its list; every timer belongs to a process that
sleeps, and no two to one; the first process has no parent, and no process without one is a zombie.
It says nothing of the status `running`, which a process may run without, and nothing of the children,
who may outlive their parent: a parent that is gone and whose block is not in use again has not the
status of a process that waits, and one whose block is in use again waits in its own right.
-/

set_option autoImplicit false
set_option relaxedAutoImplicit false

namespace DisastrOS

open Function (update)

/-- The status of the processes of a list. -/
def PcbList.status : PcbList → ProcessStatus
  | .ready => .ready
  | .waiting => .waiting
  | .zombie => .zombie

/-- The system calls of the processes. -/
def Syscall.concernsProcesses : Syscall → Bool
  | .preempt | .fork | .wait .. | .exit _ | .spawn | .sleep _ => true
  | _ => false

/-- An exit. -/
def Syscall.exits : Syscall → Bool
  | .exit _ => true
  | _ => false

/-- The system calls that wait for a queue or end such a wait, and the shutdown. -/
def Syscall.concernsUsers : Syscall → Bool
  | .sendMsg .. | .recvMsg .. | .wakeupQueue .. | .shutdown => true
  | _ => false

/-- The processes, with the pointers to the children of each and the timers. -/
structure Processes where
  running : Option Addr
  init : Option Addr
  queue : PcbList → List Addr
  status : Addr → ProcessStatus
  pid : Addr → ℤ
  nextPid : ℤ
  returnValue : Addr → ℤ
  parent : Addr → Option Addr
  children : Addr → List Addr
  child : Addr → Addr
  syscall : Addr → Option Syscall
  timers : List Addr
  sleeper : Addr → Addr
  wakeTime : Addr → ℤ
  time : ℤ

namespace Processes

variable {v v' : Processes} {p q c i x t : Addr}

/-! ### The steps -/

/-- All processes: the running one and those in the lists. -/
def all (v : Processes) : List Addr :=
  v.running.toList ++ (v.queue .ready ++ (v.queue .waiting ++ v.queue .zombie))

/-- The call is noted in the PCB. -/
def trap (v : Processes) (p : Addr) (c : Syscall) : Processes :=
  { v with syscall := update v.syscall p (some c) }

/-- The first process. -/
def start (v : Processes) (p : Addr) : Processes :=
  { v with
    running := some p
    init := some p
    status := update v.status p .running
    pid := update v.pid p v.nextPid
    nextPid := v.nextPid + 1
    returnValue := update v.returnValue p 0
    parent := update v.parent p none
    children := update v.children p [] }

/-- The sleepers whose time has come, in the order of their timers. -/
def due (v : Processes) : List Addr :=
  (v.timers.takeWhile fun t ↦ v.wakeTime t ≤ v.time).map v.sleeper

/-- The sleepers whose time has come are ready, in front of the others, and the first ready process
takes the place of `p`. -/
def schedule (v : Processes) (p : Addr) : Processes :=
  match v.due ++ v.queue .ready with
  | [] => v
  | next :: rest =>
    { v with
      running := some next
      queue := update (update v.queue .waiting ((v.queue .waiting).filter (· ∉ v.due))) .ready
        (rest ++ [p])
      status := update (update (fun q ↦ if q ∈ v.due then .ready else v.status q) p .ready) next
        .running
      timers := v.timers.dropWhile fun t ↦ v.wakeTime t ≤ v.time }

/-- A child `c` of `p`, with the pointer `x` to it. -/
def create (v : Processes) (p c x : Addr) : Processes :=
  { v with
    queue := update v.queue .ready (v.queue .ready ++ [c])
    status := update v.status c .ready
    pid := update v.pid c v.nextPid
    nextPid := v.nextPid + 1
    returnValue := update v.returnValue c 0
    parent := update v.parent c (some p)
    children := update (update v.children c []) p (v.children p ++ [x])
    child := update v.child x c }

/-- A timer for `p`, after those that are due no later. -/
def addTimer (v : Processes) (t p : Addr) (time : ℤ) : Processes :=
  { v with
    timers := (v.timers.takeWhile fun t ↦ v.wakeTime t ≤ time) ++
      t :: v.timers.dropWhile fun t ↦ v.wakeTime t ≤ time
    sleeper := update v.sleeper t p
    wakeTime := update v.wakeTime t time }

/-- The running process `p` waits, and the first ready one runs with the status it has. -/
def block (v : Processes) (p : Addr) : Processes :=
  { v with
    running := (v.queue .ready).head?
    queue := update (update v.queue .waiting (v.queue .waiting ++ [p])) .ready
      (v.queue .ready).tail
    status := update v.status p .waiting }

/-- The pointer at which a search of `wait` ends: the first child that is a zombie or has the pid, and
otherwise the last one. -/
def awaited (v : Processes) (p : Addr) (pid : ℤ) : Option Addr :=
  ((v.children p).find? fun x ↦
    if pid = 0 then v.status (v.child x) = .zombie else v.pid (v.child x) = pid).or
      (v.children p).getLast?

/-- The zombie to which `x` points is taken away. -/
def reap (v : Processes) (p x : Addr) : Processes :=
  { v with
    queue := update v.queue .zombie ((v.queue .zombie).erase (v.child x))
    children := update v.children p ((v.children p).erase x) }

/-- The first process `i` gets the children of `p`. -/
def hand (v : Processes) (p i : Addr) : Addr → List Addr :=
  update (update v.children p []) i (v.children i ++ v.children p)

/-- The parent waits for `p`. -/
def Awaits (v : Processes) (parent p : Addr) : Prop :=
  v.status parent = .waiting ∧
    ∃ pid result, v.syscall parent = some (.wait pid result) ∧ (pid = 0 ∨ pid = v.pid p)

/-- Process `p` exits and its parent runs. -/
def exitToParent (v : Processes) (p i parent : Addr) (value : ℤ) : Processes :=
  { v with
    running := some parent
    queue := update v.queue .waiting ((v.queue .waiting).erase parent)
    status := update (update v.status p .zombie) parent .running
    returnValue := update v.returnValue p value
    children :=
      match (v.hand p i parent).find? fun x ↦ v.pid (v.child x) = v.pid p with
      | none => v.hand p i
      | some x => update (v.hand p i) parent ((v.hand p i parent).erase x)
    timers := v.timers.filter fun t ↦ v.sleeper t ≠ p }

/-- Process `p` exits, and the ready process `next` runs. -/
def exitToReady (v : Processes) (p i next : Addr) (value : ℤ) : Processes :=
  { v with
    running := some next
    queue := update (update v.queue .zombie (v.queue .zombie ++ [p])) .ready (v.queue .ready).tail
    status := update (update v.status p .zombie) next .running
    returnValue := update v.returnValue p value
    children := v.hand p i }

/-- What happens to the processes: nothing, the start of the first process, a timer interrupt, or a system call of
the running process. -/
inductive Event
  | quiet
  | start
  | tick
  | call (c : Syscall)

/-- One step. -/
inductive Step (v : Processes) : Event → Processes → Prop
  | quiet : Step v .quiet v
  | start (p : Addr) (hidle : v.running = none) (hfresh : p ∉ v.all) (hfirst : v.init = none) :
    Step v .start (v.start p)
  | tick (p : Addr) (hrunning : v.running = some p) :
    Step v .tick ({ v with time := toInt (v.time + 1) }.schedule p)
  | preempt (p : Addr) (hrunning : v.running = some p) :
    Step v (.call .preempt) ((v.trap p .preempt).schedule p)
  | create (p c x : Addr) (call : Syscall) (hcall : call = .fork ∨ call = .spawn)
    (hrunning : v.running = some p) (hfresh : c ∉ v.all) (hpointer : ∀ q, x ∉ v.children q) :
    Step v (.call call) ((v.trap p call).create p c x)
  | sleepFails (p : Addr) (cycles : ℤ) (hrunning : v.running = some p) :
    Step v (.call (.sleep cycles)) (v.trap p (.sleep cycles))
  | sleep (p t : Addr) (cycles : ℤ) (hrunning : v.running = some p) (hfresh : t ∉ v.timers) :
    Step v (.call (.sleep cycles))
      (((v.trap p (.sleep cycles)).addTimer t p (toInt (v.time + cycles))).block p)
  | waitFails (p : Addr) (pid : ℤ) (result : Option Addr) (hrunning : v.running = some p)
    (hnone : v.children p = []) : Step v (.call (.wait pid result)) (v.trap p (.wait pid result))
  | reap (p x : Addr) (pid : ℤ) (result : Option Addr) (hrunning : v.running = some p)
    (hawaited : v.awaited p pid = some x) (hzombie : v.status (v.child x) = .zombie) :
    Step v (.call (.wait pid result)) ((v.trap p (.wait pid result)).reap p x)
  | wait (p x : Addr) (pid : ℤ) (result : Option Addr) (hrunning : v.running = some p)
    (hawaited : v.awaited p pid = some x) (hnotZombie : v.status (v.child x) ≠ .zombie) :
    Step v (.call (.wait pid result)) ((v.trap p (.wait pid result)).block p)
  | exitToParent (p i parent : Addr) (value : ℤ) (hrunning : v.running = some p)
    (hinit : v.init = some i) (hparent : v.parent p = some parent) (hawaits : v.Awaits parent p) :
    Step v (.call (.exit value)) ((v.trap p (.exit value)).exitToParent p i parent value)
  | exitToReady (p i parent next : Addr) (value : ℤ) (hrunning : v.running = some p)
    (hinit : v.init = some i) (hparent : v.parent p = some parent) (hawaits : ¬ v.Awaits parent p)
    (hnext : (v.queue .ready).head? = some next) :
    Step v (.call (.exit value)) ((v.trap p (.exit value)).exitToReady p i next value)
  | other (p : Addr) (c : Syscall) (hrunning : v.running = some p)
    (hother : c.concernsProcesses = false) : Step v (.call c) (v.trap p c)

/-! ### The invariant -/

/-- The processes are in order. -/
structure Consistent (v : Processes) : Prop where
  distinct : v.all.Nodup
  listed : ∀ l, ∀ p ∈ v.queue l, v.status p = l.status
  status_running : ∀ p, v.running = some p → v.status p = .running ∨ v.status p = .ready
  status_gone : ∀ p, p ∉ v.all → v.status p ≠ .waiting
  sleeps : ∀ t ∈ v.timers, v.sleeper t ∈ v.queue .waiting ∧
    ∃ cycles, v.syscall (v.sleeper t) = some (.sleep cycles)
  oneTimer : (v.timers.map v.sleeper).Nodup
  init_live : ∀ p, v.init = some p → p ∈ v.all ∧ v.parent p = none
  zombie_parent : ∀ p ∈ v.queue .zombie, v.parent p ≠ none
  pid_lt : ∀ p ∈ v.all, v.pid p < v.nextPid
  pid_inj : ∀ p ∈ v.all, ∀ q ∈ v.all, v.pid p = v.pid q → p = q

theorem reap_queue (v : Processes) (p x : Addr) :
    (v.reap p x).queue = update v.queue .zombie ((v.queue .zombie).erase (v.child x)) := rfl

theorem exitToParent_queue (v : Processes) (p i parent : Addr) (value : ℤ) :
    (v.exitToParent p i parent value).queue =
      update v.queue .waiting ((v.queue .waiting).erase parent) := rfl

theorem exitToParent_status (v : Processes) (p i parent : Addr) (value : ℤ) :
    (v.exitToParent p i parent value).status =
      update (update v.status p .zombie) parent .running := rfl

theorem exitToParent_children (v : Processes) (p i parent : Addr) (value : ℤ) :
    (v.exitToParent p i parent value).children =
      match (v.hand p i parent).find? fun x ↦ v.pid (v.child x) = v.pid p with
      | none => v.hand p i
      | some x => update (v.hand p i) parent ((v.hand p i parent).erase x) := rfl

/-- No pointer is new when the children are handed over. -/
theorem exists_of_mem_hand (hx : x ∈ v.hand p i q) : ∃ q', x ∈ v.children q' := by
  by_cases hqi : q = i
  · rw [hqi, hand, Function.update_self, List.mem_append] at hx
    rcases hx with hx | hx
    · exact ⟨i, hx⟩
    · exact ⟨p, hx⟩
  · rw [hand, Function.update_of_ne hqi, Function.update_apply] at hx
    split_ifs at hx
    · exact absurd hx List.not_mem_nil
    · exact ⟨q, hx⟩

/-! ### Places -/

theorem mem_all : p ∈ v.all ↔ v.running = some p ∨ ∃ l, p ∈ v.queue l := by
  rw [all, List.mem_append, List.mem_append, List.mem_append, Option.mem_toList]
  constructor
  · rintro (h | h | h | h)
    · exact Or.inl h
    · exact Or.inr ⟨.ready, h⟩
    · exact Or.inr ⟨.waiting, h⟩
    · exact Or.inr ⟨.zombie, h⟩
  · rintro (h | ⟨_ | _ | _, h⟩)
    · exact Or.inl h
    · exact Or.inr (Or.inl h)
    · exact Or.inr (Or.inr (Or.inl h))
    · exact Or.inr (Or.inr (Or.inr h))

theorem mem_all_of_running (hp : v.running = some p) : p ∈ v.all := mem_all.mpr (Or.inl hp)

theorem mem_all_of_queue {l : PcbList} (hp : p ∈ v.queue l) : p ∈ v.all :=
  mem_all.mpr (Or.inr ⟨l, hp⟩)

theorem Consistent.unlisted (h : v.Consistent) (hp : v.running = some p) (l : PcbList) :
    p ∉ v.queue l := by
  have hdisjoint := List.disjoint_of_nodup_append h.distinct
  have hrunning : p ∈ v.running.toList := Option.mem_toList.mpr hp
  intro hmem
  refine hdisjoint hrunning ?_
  cases l with
  | ready => exact List.mem_append_left _ hmem
  | waiting => exact List.mem_append_right _ (List.mem_append_left _ hmem)
  | zombie => exact List.mem_append_right _ (List.mem_append_right _ hmem)

theorem Consistent.nodup (h : v.Consistent) (l : PcbList) : (v.queue l).Nodup := by
  have hqueues := (List.nodup_append.mp h.distinct).2.1
  cases l with
  | ready => exact (List.nodup_append.mp hqueues).1
  | waiting => exact (List.nodup_append.mp (List.nodup_append.mp hqueues).2.1).1
  | zombie => exact (List.nodup_append.mp (List.nodup_append.mp hqueues).2.1).2.1

/-- The status tells the list. -/
theorem Consistent.queue_unique (h : v.Consistent) {l m : PcbList} (hl : p ∈ v.queue l)
    (hm : p ∈ v.queue m) : l = m := by
  have hstatus := (h.listed l p hl).symm.trans (h.listed m p hm)
  cases l <;> cases m <;> simp_all [PcbList.status]

/-- A process that waits is in the list of those that wait. -/
theorem Consistent.waiting_of_status (h : v.Consistent) (hp : v.status p = .waiting) :
    p ∈ v.queue .waiting := by
  by_contra hnot
  refine h.status_gone p (fun hmem ↦ ?_) hp
  obtain hrunning | ⟨l, hl⟩ := mem_all.mp hmem
  · rcases h.status_running p hrunning with hstatus | hstatus <;> simp [hp] at hstatus
  · have hstatus := h.listed l p hl
    cases l with
    | waiting => exact hnot hl
    | ready | zombie => simp [hp, PcbList.status] at hstatus

/-- A process that is a zombie is in the list of them. -/
theorem Consistent.zombie_of_status (h : v.Consistent) (hmem : p ∈ v.all)
    (hp : v.status p = .zombie) : p ∈ v.queue .zombie := by
  obtain hrunning | ⟨l, hl⟩ := mem_all.mp hmem
  · rcases h.status_running p hrunning with hstatus | hstatus <;> simp [hp] at hstatus
  · have hstatus := h.listed l p hl
    cases l with
    | zombie => exact hl
    | ready | waiting => simp [hp, PcbList.status] at hstatus

/-- The search of `wait` ends at a child. -/
theorem mem_of_awaited {pid : ℤ} (h : v.awaited p pid = some x) : x ∈ v.children p := by
  rcases Option.or_eq_some_iff.mp h with hfind | ⟨-, hlast⟩
  · exact List.mem_of_find?_eq_some hfind
  · exact List.mem_of_getLast? hlast

/-- A parent that waits for a child has no timer. -/
theorem Consistent.awaits_sleeper (h : v.Consistent) (hawaits : v.Awaits q p) (ht : t ∈ v.timers) :
    v.sleeper t ≠ q := by
  rintro rfl
  obtain ⟨-, pid, result, hwait, -⟩ := hawaits
  obtain ⟨-, cycles, hsleep⟩ := h.sleeps t ht
  simp [hwait] at hsleep

theorem Consistent.not_awaits_self (h : v.Consistent) (hp : v.running = some p) : ¬ v.Awaits p p := by
  rintro ⟨hwaiting, -⟩
  rcases h.status_running p hp with hstatus | hstatus <;> simp [hwaiting] at hstatus

/-- A call of the running process does not make it awaited. -/
theorem Consistent.trap_awaits (h : v.Consistent) (hp : v.running = some p) {c : Syscall} :
    (v.trap p c).Awaits q p ↔ v.Awaits q p := by
  by_cases hqp : q = p
  · subst hqp
    refine iff_of_false ?_ (h.not_awaits_self hp)
    exact fun hawaits ↦ by
      rcases h.status_running q hp with hstatus | hstatus <;>
        exact absurd (hawaits.1.symm.trans hstatus) (by decide)
  · simp only [Awaits, trap, Function.update_of_ne hqp]

/-! ### The steps keep the invariant -/

/-- A step after which there are no processes but the old ones. -/
theorem Consistent.shrink (h : v.Consistent) (hdistinct : v'.all.Nodup)
    (hall : ∀ p ∈ v'.all, p ∈ v.all) (hpid : v'.pid = v.pid) (hnextPid : v'.nextPid = v.nextPid)
    (hinit : ∀ p, v'.init = some p → p ∈ v'.all ∧ v'.parent p = none)
    (hgone : ∀ p, p ∉ v'.all → v'.status p ≠ .waiting)
    (hlisted : ∀ l, ∀ p ∈ v'.queue l, v'.status p = l.status)
    (hrunning : ∀ p, v'.running = some p → v'.status p = .running ∨ v'.status p = .ready)
    (hsleeps : ∀ t ∈ v'.timers, v'.sleeper t ∈ v'.queue .waiting ∧
      ∃ cycles, v'.syscall (v'.sleeper t) = some (.sleep cycles))
    (honeTimer : (v'.timers.map v'.sleeper).Nodup)
    (hzombie : ∀ p ∈ v'.queue .zombie, v'.parent p ≠ none) : v'.Consistent where
  distinct := hdistinct
  listed := hlisted
  status_running := hrunning
  status_gone := hgone
  sleeps := hsleeps
  oneTimer := honeTimer
  init_live := hinit
  zombie_parent := hzombie
  pid_lt p hp := by
    rw [hpid, hnextPid]
    exact h.pid_lt p (hall p hp)
  pid_inj p hp q hq := by
    rw [hpid]
    exact h.pid_inj p (hall p hp) q (hall q hq)

/-- A step that moves processes and creates and frees none. -/
theorem Consistent.move (h : v.Consistent) (hall : v'.all.Perm v.all) (hpid : v'.pid = v.pid)
    (hnextPid : v'.nextPid = v.nextPid) (hparent : v'.parent = v.parent) (hinit : v'.init = v.init)
    (hgone : ∀ p, p ∉ v.all → v'.status p = v.status p)
    (hlisted : ∀ l, ∀ p ∈ v'.queue l, v'.status p = l.status)
    (hrunning : ∀ p, v'.running = some p → v'.status p = .running ∨ v'.status p = .ready)
    (hsleeps : ∀ t ∈ v'.timers, v'.sleeper t ∈ v'.queue .waiting ∧
      ∃ cycles, v'.syscall (v'.sleeper t) = some (.sleep cycles))
    (honeTimer : (v'.timers.map v'.sleeper).Nodup)
    (hzombie : ∀ p ∈ v'.queue .zombie, v'.parent p ≠ none) : v'.Consistent := by
  refine h.shrink (hall.nodup_iff.mpr h.distinct) (fun p hp ↦ hall.mem_iff.mp hp) hpid hnextPid ?_ ?_
    hlisted hrunning hsleeps honeTimer hzombie
  · intro p hp
    rw [hall.mem_iff, hparent]
    exact h.init_live p (hinit ▸ hp)
  · intro p hp
    rw [hall.mem_iff] at hp
    rw [hgone p hp]
    exact h.status_gone p hp

/-- The call of a process that does not sleep is noted. -/
theorem Consistent.trap (h : v.Consistent) (hp : v.running = some p) (c : Syscall) :
    (v.trap p c).Consistent := by
  refine { h with sleeps := ?_ }
  intro t ht
  obtain ⟨hmem, cycles, hsleep⟩ := h.sleeps t ht
  refine ⟨hmem, cycles, ?_⟩
  have hne : v.sleeper t ≠ p := fun hsame ↦ h.unlisted hp .waiting (hsame ▸ hmem)
  exact (Function.update_of_ne hne _ _).trans hsleep

theorem head?_toList_append_tail (l : List Addr) : l.head?.toList ++ l.tail = l := by
  cases l <;> rfl

/-- No process is lost or duplicated when some of those that wait are woken. -/
theorem perm_of_woken {woken waiting : List Addr} (hnodup : waiting.Nodup) (hdistinct : woken.Nodup)
    (hwaits : ∀ q ∈ woken, q ∈ waiting) :
    (woken ++ waiting.filter (· ∉ woken)).Perm waiting := by
  have hwoken : woken.Perm (waiting.filter (· ∈ woken)) := by
    rw [List.perm_ext_iff_of_nodup hdistinct (hnodup.filter _)]
    intro q
    rw [List.mem_filter, decide_eq_true_iff]
    exact ⟨fun hq ↦ ⟨hwaits q hq, hq⟩, And.right⟩
  have hsplit := List.filter_append_perm (fun q ↦ decide (q ∈ woken)) waiting
  simp only [← decide_not] at hsplit
  exact (hwoken.append_right _).trans hsplit

/-- The sleepers that are woken are in the list of those that wait, once each. -/
theorem Consistent.due_perm (h : v.Consistent) :
    (v.due ++ (v.queue .waiting).filter (· ∉ v.due)).Perm (v.queue .waiting) := by
  apply perm_of_woken (h.nodup .waiting)
  · exact h.oneTimer.sublist ((List.takeWhile_sublist _).map _)
  · intro q hq
    obtain ⟨t, ht, rfl⟩ := List.mem_map.mp hq
    exact (h.sleeps t ((List.takeWhile_sublist _).subset ht)).1

/-- Only sleepers are woken. -/
theorem Consistent.waiting_of_due (h : v.Consistent) (hq : q ∈ v.due) : q ∈ v.queue .waiting :=
  h.due_perm.subset (List.mem_append_left _ hq)

/-- A sleeper whose timer is left is not woken. -/
theorem Consistent.notMem_due (h : v.Consistent)
    (ht : t ∈ v.timers.dropWhile fun t ↦ v.wakeTime t ≤ v.time) : v.sleeper t ∉ v.due := by
  have honeTimer := h.oneTimer
  rw [← List.takeWhile_append_dropWhile (p := fun t ↦ decide (v.wakeTime t ≤ v.time))
    (l := v.timers), List.map_append] at honeTimer
  intro hdue
  exact List.disjoint_of_nodup_append honeTimer hdue (List.mem_map_of_mem ht)

theorem schedule_nil (hnone : v.due ++ v.queue .ready = []) (p : Addr) : v.schedule p = v := by
  simp [schedule, hnone]

theorem schedule_cons {rest : List Addr} (hnext : v.due ++ v.queue .ready = q :: rest) (p : Addr) :
    v.schedule p = { v with
      running := some q
      queue := update (update v.queue .waiting ((v.queue .waiting).filter (· ∉ v.due))) .ready
        (rest ++ [p])
      status := update (update (fun q ↦ if q ∈ v.due then .ready else v.status q) p .ready) q
        .running
      timers := v.timers.dropWhile fun t ↦ v.wakeTime t ≤ v.time } := by
  simp [schedule, hnext]

/-- What a schedule leaves alone. -/
theorem schedule_eq (v : Processes) (p : Addr) : v.schedule p =
    { v with
      running := (v.schedule p).running
      queue := (v.schedule p).queue
      status := (v.schedule p).status
      timers := (v.schedule p).timers } := by
  unfold schedule
  split <;> rfl

theorem schedule_zombie (v : Processes) (p : Addr) :
    (v.schedule p).queue .zombie = v.queue .zombie := by
  unfold schedule
  split
  · rfl
  · simp

theorem Consistent.schedule_perm (h : v.Consistent) (hp : v.running = some p) :
    (v.schedule p).all.Perm v.all := by
  cases hnext : v.due ++ v.queue .ready with
  | nil => rw [schedule_nil hnext]
  | cons next rest =>
    rw [schedule_cons hnext, List.perm_iff_count]
    intro a
    have hdue := h.due_perm.count_eq a
    have hready := congrArg (List.count a) hnext
    simp only [List.count_append, List.count_cons] at hdue hready
    simp only [all, hp, Option.toList_some, Function.update_self, ne_eq, reduceCtorEq,
      not_false_eq_true, Function.update_of_ne, List.count_append, List.count_cons,
      List.count_nil]
    omega

theorem Consistent.schedule (h : v.Consistent) (hp : v.running = some p) :
    (v.schedule p).Consistent := by
  have hall := h.schedule_perm hp
  cases hnext : v.due ++ v.queue .ready with
  | nil => rwa [schedule_nil hnext]
  | cons next rest =>
    rw [schedule_cons hnext] at hall ⊢
    have hdistinct := hall.nodup_iff.mpr h.distinct
    -- where a process of the new sequences comes from
    have hreadyOf : ∀ q, q ∈ next :: rest → q ∈ v.due ∨ q ∈ v.queue .ready := by
      intro q hq
      rwa [← hnext, List.mem_append] at hq
    have hnotP : ∀ q, q ∈ v.due ∨ q ∈ v.queue .ready → q ≠ p := by
      rintro q (hq | hq) rfl
      · exact h.unlisted hp .waiting (h.waiting_of_due hq)
      · exact h.unlisted hp .ready hq
    have hnextNotMem : next ∉ rest ++ [p] ∧
        (∀ q ∈ (v.queue .waiting).filter (· ∉ v.due), q ≠ next) ∧
          ∀ q ∈ v.queue .zombie, q ≠ next := by
      simp only [all, Option.toList_some, Function.update_self, ne_eq, reduceCtorEq,
        not_false_eq_true, Function.update_of_ne, List.singleton_append, List.nodup_cons,
        List.mem_append, not_or] at hdistinct
      obtain ⟨⟨hrest, hwaiting, hzombie⟩, -⟩ := hdistinct
      exact ⟨by simpa using hrest, fun q hq hsame ↦ hwaiting (hsame ▸ hq),
        fun q hq hsame ↦ hzombie (hsame ▸ hq)⟩
    have hstatus : ∀ q, q ≠ next → q ≠ p →
        update (update (fun q ↦ if q ∈ v.due then ProcessStatus.ready else v.status q) p .ready)
          next .running q = if q ∈ v.due then ProcessStatus.ready else v.status q := by
      intro q hne hneP
      rw [Function.update_of_ne hne, Function.update_of_ne hneP]
    refine h.move hall rfl rfl rfl rfl ?_ ?_ ?_ ?_ ?_ ?_
    · intro q hq
      have hq' : q ≠ next ∧ q ≠ p ∧ q ∉ v.due := by
        refine ⟨?_, ?_, fun hdue ↦ hq (mem_all_of_queue (h.waiting_of_due hdue))⟩
        · rintro rfl
          rcases hreadyOf q List.mem_cons_self with hdue | hready
          · exact hq (mem_all_of_queue (h.waiting_of_due hdue))
          · exact hq (mem_all_of_queue hready)
        · rintro rfl
          exact hq (mem_all_of_running hp)
      exact (hstatus q hq'.1 hq'.2.1).trans (if_neg hq'.2.2)
    · intro l q hq
      cases l with
      | ready =>
        simp only [Function.update_self, List.mem_append, List.mem_singleton] at hq
        have hne : q ≠ next := by
          rintro rfl
          exact hnextNotMem.1 (by simpa using hq)
        rcases hq with hq | rfl
        · have hold := hreadyOf q (List.mem_cons_of_mem _ hq)
          refine (hstatus q hne (hnotP q hold)).trans ?_
          split_ifs with hdue
          · rfl
          · exact h.listed .ready q (hold.resolve_left hdue)
        · exact (Function.update_of_ne hne _ _).trans (Function.update_self ..)
      | waiting =>
        simp only [ne_eq, reduceCtorEq, not_false_eq_true, Function.update_of_ne,
          Function.update_self] at hq
        have hne := hnextNotMem.2.1 q hq
        rw [List.mem_filter, decide_eq_true_eq] at hq
        have hnotP : q ≠ p := fun hsame ↦ h.unlisted hp .waiting (hsame ▸ hq.1)
        exact ((hstatus q hne hnotP).trans (if_neg hq.2)).trans (h.listed .waiting q hq.1)
      | zombie =>
        simp only [ne_eq, reduceCtorEq, not_false_eq_true, Function.update_of_ne] at hq
        have hnotP : q ≠ p := fun hsame ↦ h.unlisted hp .zombie (hsame ▸ hq)
        have hnotDue : q ∉ v.due := fun hdue ↦
          absurd (h.queue_unique (h.waiting_of_due hdue) hq) (by decide)
        exact ((hstatus q (hnextNotMem.2.2 q hq) hnotP).trans (if_neg hnotDue)).trans
          (h.listed .zombie q hq)
    · intro q hq
      obtain rfl := Option.some.inj hq
      exact Or.inl (Function.update_self ..)
    · intro t ht
      obtain ⟨hmem, hsleep⟩ := h.sleeps t ((List.dropWhile_sublist _).subset ht)
      refine ⟨?_, hsleep⟩
      simp only [ne_eq, reduceCtorEq, not_false_eq_true, Function.update_of_ne,
        Function.update_self, List.mem_filter, decide_eq_true_eq]
      exact ⟨hmem, h.notMem_due ht⟩
    · exact h.oneTimer.sublist ((List.dropWhile_sublist _).map _)
    · intro q hq
      simp only [ne_eq, reduceCtorEq, not_false_eq_true, Function.update_of_ne] at hq
      exact h.zombie_parent q hq

/-- Blocking moves processes about. -/
theorem block_perm (hp : v.running = some p) : (v.block p).all.Perm v.all := by
  rw [List.perm_iff_count]
  intro a
  have hready := congrArg (List.count a) (head?_toList_append_tail (v.queue .ready))
  simp only [List.count_append] at hready
  simp only [all, Processes.block, hp, Option.toList_some, Function.update_self, ne_eq,
    reduceCtorEq, not_false_eq_true, Function.update_of_ne, List.count_append, List.count_cons,
    List.count_nil]
  omega

/-- The running process waits. It may have got a timer. -/
theorem Consistent.block (h : v.Consistent) (hp : v.running = some p) {timers : List Addr}
    {sleeper : Addr → Addr} {wakeTime : Addr → ℤ}
    (hsleeps : ∀ t ∈ timers, (sleeper t ∈ v.queue .waiting ∨ sleeper t = p) ∧
      ∃ cycles, v.syscall (sleeper t) = some (.sleep cycles))
    (honeTimer : (timers.map sleeper).Nodup) :
    ({ v with timers := timers, sleeper := sleeper, wakeTime := wakeTime }.block p).Consistent := by
  have hall : ({ v with timers := timers, sleeper := sleeper, wakeTime := wakeTime }.block
      p).all.Perm v.all :=
    block_perm (v := { v with timers := timers, sleeper := sleeper, wakeTime := wakeTime }) hp
  refine h.move hall rfl rfl rfl rfl ?_ ?_ ?_ ?_ honeTimer ?_
  · intro q hq
    exact Function.update_of_ne (fun hsame : q = p ↦ hq (hsame ▸ mem_all_of_running hp)) _ _
  · intro l q hq
    cases l with
    | ready =>
      have hmem : q ∈ v.queue .ready := List.mem_of_mem_tail (by simpa [Processes.block] using hq)
      have hne : q ≠ p := fun hsame ↦ h.unlisted hp .ready (hsame ▸ hmem)
      exact (Function.update_of_ne hne _ _).trans (h.listed .ready q hmem)
    | waiting =>
      have hmem : q ∈ v.queue .waiting ∨ q = p := by simpa [Processes.block] using hq
      by_cases hqp : q = p
      · rw [hqp]
        exact Function.update_self ..
      · exact (Function.update_of_ne hqp _ _).trans (h.listed .waiting q (hmem.resolve_right hqp))
    | zombie =>
      have hmem : q ∈ v.queue .zombie := by simpa [Processes.block] using hq
      have hne : q ≠ p := fun hsame ↦ h.unlisted hp .zombie (hsame ▸ hmem)
      exact (Function.update_of_ne hne _ _).trans (h.listed .zombie q hmem)
  · intro q hq
    have hmem : q ∈ v.queue .ready := List.mem_of_head? hq
    have hne : q ≠ p := fun hsame ↦ h.unlisted hp .ready (hsame ▸ hmem)
    exact Or.inr ((Function.update_of_ne hne _ _).trans (h.listed .ready q hmem))
  · intro t ht
    obtain ⟨hmem, hsleep⟩ := hsleeps t ht
    refine ⟨?_, hsleep⟩
    simpa [Processes.block] using hmem
  · intro q hq
    exact h.zombie_parent q (by simpa [Processes.block] using hq)

/-- A new process. -/
theorem Consistent.grow (h : v.Consistent) (hfresh : c ∉ v.all) (hall : v'.all.Perm (c :: v.all))
    (hpid : v'.pid = update v.pid c v.nextPid) (hnextPid : v'.nextPid = v.nextPid + 1)
    (hstatus : ∀ q, q ≠ c → v'.status q = v.status q)
    (hparent : ∀ q, q ≠ c → v'.parent q = v.parent q)
    (hlisted : ∀ l, ∀ q ∈ v'.queue l, q ∈ v.queue l ∨ q = c ∧ l = .ready ∧ v'.status c = .ready)
    (hwaiting : v'.queue .waiting = v.queue .waiting)
    (hrunning : ∀ q, v'.running = some q → v.running = some q ∨ v'.status q = .running)
    (hsleeps : v'.timers = v.timers ∧ v'.sleeper = v.sleeper ∧ v'.syscall = v.syscall)
    (hinit : ∀ q, v'.init = some q → v.init = some q ∨ q = c ∧ v'.parent c = none) :
    v'.Consistent := by
  have hne : ∀ q ∈ v.all, q ≠ c := fun q hq hsame ↦ hfresh (hsame ▸ hq)
  have hpidOf : ∀ q ∈ v.all, v'.pid q = v.pid q := fun q hq ↦ by
    rw [hpid, Function.update_of_ne (hne q hq)]
  have hpidNew : v'.pid c = v.nextPid := by rw [hpid, Function.update_self]
  have hcases : ∀ q ∈ v'.all, q = c ∨ q ∈ v.all := fun q hq ↦
    List.mem_cons.mp (hall.mem_iff.mp hq)
  obtain ⟨htimers, hsleeper, hsyscall⟩ := hsleeps
  constructor
  · exact hall.nodup_iff.mpr (List.nodup_cons.mpr ⟨hfresh, h.distinct⟩)
  · intro l q hq
    rcases hlisted l q hq with hold | ⟨rfl, rfl, hready⟩
    · rw [hstatus q (hne q (mem_all_of_queue hold))]
      exact h.listed l q hold
    · exact hready
  · intro q hq
    rcases hrunning q hq with hold | hstart
    · rw [hstatus q (hne q (mem_all_of_running hold))]
      exact h.status_running q hold
    · exact Or.inl hstart
  · intro q hq
    rw [hall.mem_iff, List.mem_cons, not_or] at hq
    rw [hstatus q hq.1]
    exact h.status_gone q hq.2
  · rw [htimers, hsleeper, hsyscall, hwaiting]
    exact h.sleeps
  · rw [htimers, hsleeper]
    exact h.oneTimer
  · intro q hq
    rw [hall.mem_iff, List.mem_cons]
    rcases hinit q hq with hold | ⟨rfl, hnone⟩
    · obtain ⟨hmem, hnone⟩ := h.init_live q hold
      exact ⟨Or.inr hmem, (hparent q (hne q hmem)).trans hnone⟩
    · exact ⟨Or.inl rfl, hnone⟩
  · intro q hq
    rcases hlisted .zombie q hq with hold | ⟨-, hfalse, -⟩
    · rw [hparent q (hne q (mem_all_of_queue hold))]
      exact h.zombie_parent q hold
    · exact absurd hfalse (by decide)
  · intro q hq
    rw [hnextPid]
    rcases hcases q hq with rfl | hold
    · omega
    · have hlt := h.pid_lt q hold
      rw [hpidOf q hold]
      omega
  · intro q hq r hr hsame
    rcases hcases q hq with rfl | hq <;> rcases hcases r hr with rfl | hr
    · rfl
    · rw [hpidNew, hpidOf r hr] at hsame
      exact absurd hsame (h.pid_lt r hr).ne'
    · rw [hpidNew, hpidOf q hq] at hsame
      exact absurd hsame (h.pid_lt q hq).ne
    · rw [hpidOf q hq, hpidOf r hr] at hsame
      exact h.pid_inj q hq r hr hsame

theorem start_perm (hidle : v.running = none) (p : Addr) :
    (v.start p).all.Perm (p :: v.all) := by
  simp [all, Processes.start, hidle]

theorem Consistent.start (h : v.Consistent) (hidle : v.running = none) (hfresh : p ∉ v.all) :
    (v.start p).Consistent := by
  refine h.grow hfresh (start_perm hidle p) rfl rfl (fun q hq ↦ Function.update_of_ne hq _ _)
    (fun q hq ↦ Function.update_of_ne hq _ _) (fun l q hq ↦ Or.inl hq) rfl ?_ ⟨rfl, rfl, rfl⟩ ?_
  · intro q hq
    obtain rfl := Option.some.inj hq
    exact Or.inr (Function.update_self ..)
  · intro q hq
    obtain rfl := Option.some.inj hq
    exact Or.inr ⟨rfl, Function.update_self ..⟩

theorem create_perm (v : Processes) (p c x : Addr) : (v.create p c x).all.Perm (c :: v.all) := by
  rw [List.perm_iff_count]
  intro a
  simp only [all, Processes.create, Function.update_self, ne_eq, reduceCtorEq,
    not_false_eq_true, Function.update_of_ne, List.count_append, List.count_cons, List.count_nil]
  omega

theorem Consistent.create (h : v.Consistent) (hfresh : c ∉ v.all) (p x : Addr) :
    (v.create p c x).Consistent := by
  refine h.grow hfresh (create_perm v p c x) rfl rfl (fun q hq ↦ Function.update_of_ne hq _ _)
    (fun q hq ↦ Function.update_of_ne hq _ _) ?_ ?_ (fun q hq ↦ Or.inl hq) ⟨rfl, rfl, rfl⟩
    (fun q hq ↦ Or.inl hq)
  · intro l q hq
    by_cases hl : l = .ready
    · subst hl
      have hmem : q ∈ v.queue .ready ∨ q = c := by simpa [Processes.create] using hq
      exact hmem.imp_right fun hsame ↦ ⟨hsame, rfl, Function.update_self ..⟩
    · have hmem : q ∈ v.queue l := by simpa [Processes.create, hl] using hq
      exact Or.inl hmem
  · simp [Processes.create]

/-- Only the zombie goes. -/
theorem reap_count (v : Processes) (p x a : Addr) : List.count a ((v.reap p x).all) =
    List.count a (v.running.toList ++ (v.queue .ready ++ v.queue .waiting)) +
      List.count a ((v.queue .zombie).erase (v.child x)) := by
  simp only [all, Processes.reap, Function.update_self, ne_eq, reduceCtorEq, not_false_eq_true,
    Function.update_of_ne, List.count_append]
  omega

theorem reap_subperm (v : Processes) (p x : Addr) : (v.reap p x).all.Subperm v.all := by
  rw [List.subperm_ext_iff]
  intro a _
  rw [reap_count]
  have hle := (List.erase_sublist (a := v.child x) (l := v.queue .zombie)).count_le a
  simp only [all, List.count_append] at hle ⊢
  omega

theorem Consistent.mem_reap (h : v.Consistent) (hzombie : v.child x ∈ v.queue .zombie) :
    q ∈ (v.reap p x).all ↔ q ∈ v.all ∧ q ≠ v.child x := by
  have hsplit : List.count q v.all =
      List.count q (v.running.toList ++ (v.queue .ready ++ v.queue .waiting)) +
        List.count q (v.queue .zombie) := by
    simp only [all, List.count_append]
    omega
  by_cases hq : q = v.child x
  · have hmax := List.nodup_iff_count_le_one.mp h.distinct q
    have hcount := List.count_pos_iff.mpr (hq ▸ hzombie)
    rw [← List.count_pos_iff, reap_count, ← hq, List.count_erase_self]
    refine iff_of_false ?_ fun hne ↦ hne.2 rfl
    omega
  · rw [← List.count_pos_iff, reap_count, List.count_erase_of_ne hq, ← hsplit, List.count_pos_iff]
    exact (and_iff_left hq).symm

theorem Consistent.reap (h : v.Consistent) (hzombie : v.status (v.child x) = .zombie) (p : Addr) :
    (v.reap p x).Consistent := by
  set c := v.child x with hc
  have hsub := reap_subperm v p x
  have hqueue : ∀ l, ∀ q ∈ (v.reap p x).queue l, q ∈ v.queue l := by
    intro l q hq
    by_cases hl : l = .zombie
    · subst hl
      rw [reap_queue, Function.update_self] at hq
      exact List.mem_of_mem_erase hq
    · simpa [Processes.reap, hl] using hq
  -- only the zombie goes
  have hstays : ∀ q ∈ v.all, q ≠ c → q ∈ (v.reap p x).all := by
    intro q hq hne
    rw [← List.count_pos_iff, reap_count, ← hc, List.count_erase_of_ne hne]
    rw [← List.count_pos_iff] at hq
    simp only [all, List.count_append] at hq ⊢
    omega
  have hrunning : ∀ q, v.running = some q → q ≠ c := by
    rintro q hq rfl
    rcases h.status_running _ hq with hstatus | hstatus <;> simp [hzombie] at hstatus
  have hdistinct : (v.reap p x).all.Nodup := by
    obtain ⟨l, hperm, hsublist⟩ := hsub
    exact hperm.nodup_iff.mp (h.distinct.sublist hsublist)
  refine h.shrink hdistinct hsub.subset rfl rfl ?_ ?_
    (fun l q hq ↦ h.listed l q (hqueue l q hq)) h.status_running ?_ h.oneTimer
    fun q hq ↦ h.zombie_parent q (hqueue .zombie q hq)
  · intro q hq
    obtain ⟨hmem, hnone⟩ := h.init_live q hq
    refine ⟨hstays q hmem ?_, hnone⟩
    rintro rfl
    obtain hrun | ⟨l, hl⟩ := mem_all.mp hmem
    · exact hrunning _ hrun rfl
    · have hstatus := (h.listed l _ hl).symm.trans hzombie
      cases l with
      | zombie => exact h.zombie_parent _ hl hnone
      | ready | waiting => simp [PcbList.status] at hstatus
  · intro q hq
    by_cases hqc : q = c
    · rw [hqc]
      exact fun hwaiting ↦ by simp [Processes.reap, hzombie] at hwaiting
    · exact h.status_gone q fun hmem ↦ hq (hstays q hmem hqc)
  · intro t ht
    refine ⟨?_, (h.sleeps t ht).2⟩
    rw [reap_queue, Function.update_of_ne (by decide)]
    exact (h.sleeps t ht).1

theorem Consistent.exitToParent_perm (h : v.Consistent) (hp : v.running = some p)
    (hawaits : v.Awaits q p) (i : Addr) (value : ℤ) :
    v.all.Perm (p :: (v.exitToParent p i q value).all) := by
  rw [List.perm_iff_count]
  intro a
  have hwaiting := (List.perm_cons_erase (h.waiting_of_status hawaits.1)).count_eq a
  simp only [all, Processes.exitToParent, hp, Option.toList_some, Function.update_self, ne_eq,
    reduceCtorEq, not_false_eq_true, Function.update_of_ne, List.count_append, List.count_cons,
    List.count_nil] at hwaiting ⊢
  omega

theorem Consistent.exitToParent (h : v.Consistent) (hp : v.running = some p)
    (hparent : v.parent p ≠ none) (hawaits : v.Awaits q p) (i : Addr) (value : ℤ) :
    (v.exitToParent p i q value).Consistent := by
  have hq : q ∈ v.queue .waiting := h.waiting_of_status hawaits.1
  have hne : q ≠ p := fun hsame ↦ h.unlisted hp .waiting (hsame ▸ hq)
  have hall := h.exitToParent_perm hp hawaits i value
  have hdistinct := hall.nodup_iff.mp h.distinct
  have hqueue : ∀ l, ∀ r ∈ (v.exitToParent p i q value).queue l, r ∈ v.queue l ∧ r ≠ q ∧ r ≠ p := by
    intro l r hr
    have hmem : r ∈ v.queue l ∧ r ≠ q := by
      by_cases hl : l = .waiting
      · subst hl
        rw [exitToParent_queue, Function.update_self, (h.nodup .waiting).mem_erase_iff] at hr
        exact hr.symm
      · have hmem : r ∈ v.queue l := by simpa [Processes.exitToParent, hl] using hr
        exact ⟨hmem, fun hsame ↦ hl (h.queue_unique hmem (hsame ▸ hq))⟩
    exact ⟨hmem.1, hmem.2, fun hsame ↦ h.unlisted hp l (hsame ▸ hmem.1)⟩
  refine h.shrink (List.nodup_cons.mp hdistinct).2
    (fun r hr ↦ hall.mem_iff.mpr (List.mem_cons_of_mem _ hr)) rfl rfl ?_ ?_ ?_ ?_ ?_
    (h.oneTimer.sublist (List.filter_sublist.map _))
    fun r hr ↦ h.zombie_parent r (hqueue .zombie r hr).1
  · intro r hr
    obtain ⟨hmem, hnone⟩ := h.init_live r hr
    refine ⟨(List.mem_cons.mp (hall.mem_iff.mp hmem)).resolve_left ?_, hnone⟩
    exact fun hsame ↦ hparent (hsame ▸ hnone)
  · intro r hr
    have hrq : r ≠ q := by
      rintro rfl
      exact hr (mem_all_of_running rfl)
    intro hwaiting
    rw [exitToParent_status, Function.update_of_ne hrq] at hwaiting
    by_cases hrp : r = p
    · rw [hrp, Function.update_self] at hwaiting
      exact absurd hwaiting (by decide)
    · rw [Function.update_of_ne hrp] at hwaiting
      refine h.status_gone r (fun hmem ↦ ?_) hwaiting
      exact hr ((List.mem_cons.mp (hall.mem_iff.mp hmem)).resolve_left hrp)
  · intro l r hr
    obtain ⟨hmem, hrq, hrp⟩ := hqueue l r hr
    exact ((Function.update_of_ne hrq _ _).trans (Function.update_of_ne hrp _ _)).trans
      (h.listed l r hmem)
  · intro r hr
    obtain rfl := Option.some.inj hr
    exact Or.inl (Function.update_self ..)
  · intro t ht
    obtain ⟨hmem, hsleep⟩ := h.sleeps t (List.mem_filter.mp ht).1
    refine ⟨?_, hsleep⟩
    rw [exitToParent_queue, Function.update_self, (h.nodup .waiting).mem_erase_iff]
    exact ⟨h.awaits_sleeper hawaits (List.mem_filter.mp ht).1, hmem⟩

theorem exitToReady_perm (hp : v.running = some p) (hnext : (v.queue .ready).head? = some q)
    (i : Addr) (value : ℤ) : (v.exitToReady p i q value).all.Perm v.all := by
  rw [List.perm_iff_count]
  intro a
  have hready := congrArg (List.count a) (head?_toList_append_tail (v.queue .ready))
  rw [hnext] at hready
  simp only [Option.toList_some, List.singleton_append, List.count_cons] at hready
  simp only [all, Processes.exitToReady, hp, Option.toList_some, Function.update_self, ne_eq,
    reduceCtorEq, not_false_eq_true, Function.update_of_ne, List.count_append, List.count_cons,
    List.count_nil]
  omega

theorem Consistent.exitToReady (h : v.Consistent) (hp : v.running = some p)
    (hparent : v.parent p ≠ none) (hnext : (v.queue .ready).head? = some q) (i : Addr) (value : ℤ) :
    (v.exitToReady p i q value).Consistent := by
  have hq : q ∈ v.queue .ready := List.mem_of_head? hnext
  have hall := exitToReady_perm hp hnext i value
  have hstatus : ∀ r, r ≠ q → r ≠ p →
      (v.exitToReady p i q value).status r = v.status r := by
    intro r hrq hrp
    exact (Function.update_of_ne hrq _ _).trans (Function.update_of_ne hrp _ _)
  have hnotQ : ∀ l, ∀ r ∈ (v.exitToReady p i q value).queue l, r ≠ q := by
    have hdistinct := hall.nodup_iff.mpr h.distinct
    rw [all, List.nodup_append] at hdistinct
    rintro l r hr rfl
    refine hdistinct.2.2 r (List.mem_singleton_self r) r ?_ rfl
    cases l with
    | ready => exact List.mem_append_left _ hr
    | waiting => exact List.mem_append_right _ (List.mem_append_left _ hr)
    | zombie => exact List.mem_append_right _ (List.mem_append_right _ hr)
  have hqueue : ∀ l, ∀ r ∈ (v.exitToReady p i q value).queue l,
      r ∈ v.queue l ∨ r = p ∧ l = .zombie := by
    intro l r hr
    cases l with
    | ready =>
      have hmem : r ∈ (v.queue .ready).tail := by simpa [Processes.exitToReady] using hr
      exact Or.inl (List.mem_of_mem_tail hmem)
    | waiting => exact Or.inl (by simpa [Processes.exitToReady] using hr)
    | zombie =>
      have hmem : r ∈ v.queue .zombie ∨ r = p := by simpa [Processes.exitToReady] using hr
      exact hmem.imp_right fun hsame ↦ ⟨hsame, rfl⟩
  refine h.move hall rfl rfl rfl rfl ?_ ?_ ?_ ?_ h.oneTimer ?_
  · intro r hr
    refine hstatus r ?_ ?_
    · rintro rfl
      exact hr (mem_all_of_queue hq)
    · rintro rfl
      exact hr (mem_all_of_running hp)
  · intro l r hr
    have hrq := hnotQ l r hr
    rcases hqueue l r hr with hmem | ⟨rfl, rfl⟩
    · rw [hstatus r hrq fun hsame ↦ h.unlisted hp l (hsame ▸ hmem)]
      exact h.listed l r hmem
    · exact (Function.update_of_ne hrq _ _).trans (Function.update_self ..)
  · intro r hr
    obtain rfl := Option.some.inj hr
    exact Or.inl (Function.update_self ..)
  · intro t ht
    refine ⟨?_, (h.sleeps t ht).2⟩
    have hmem := (h.sleeps t ht).1
    simpa [Processes.exitToReady] using hmem
  · intro r hr
    rcases hqueue .zombie r hr with hmem | ⟨rfl, -⟩
    · exact h.zombie_parent r hmem
    · exact hparent

/-- Every step keeps the processes in order. -/
theorem Consistent.step {e : Event} (h : v.Consistent) (hstep : v.Step e v') : v'.Consistent := by
  cases hstep with
  | quiet => exact h
  | start p hidle hfresh => exact h.start hidle hfresh
  | tick p hp =>
    have htick : { v with time := toInt (v.time + 1) }.Consistent := { h with }
    exact htick.schedule hp
  | preempt p hp => exact (h.trap hp .preempt).schedule hp
  | create p c x call _ hp hfresh _ => exact (h.trap hp call).create hfresh p x
  | sleepFails p cycles hp => exact h.trap hp _
  | sleep p t cycles hp hfresh =>
    have htrap := h.trap hp (.sleep cycles)
    have hold : ∀ t' ∈ v.timers, update v.sleeper t p t' = v.sleeper t' := fun t' ht' ↦
      Function.update_of_ne (fun hsame : t' = t ↦ hfresh (hsame ▸ ht')) _ _
    have hsplit := List.takeWhile_append_dropWhile
      (p := fun t ↦ decide (v.wakeTime t ≤ toInt (v.time + cycles))) (l := v.timers)
    have hperm : ((v.timers.takeWhile fun t ↦ v.wakeTime t ≤ toInt (v.time + cycles)) ++
        t :: v.timers.dropWhile fun t ↦ v.wakeTime t ≤ toInt (v.time + cycles)).Perm
          (t :: v.timers) := by
      refine List.perm_middle.trans ?_
      rw [hsplit]
    refine htrap.block hp ?_ ?_
    · intro t' ht'
      rcases List.mem_cons.mp (hperm.mem_iff.mp ht') with rfl | hmem
      · change (update v.sleeper t' p t' ∈ v.queue .waiting ∨ update v.sleeper t' p t' = p) ∧
          ∃ n, update v.syscall p (some (.sleep cycles)) (update v.sleeper t' p t') =
            some (.sleep n)
        rw [Function.update_self]
        exact ⟨Or.inr rfl, cycles, Function.update_self ..⟩
      · obtain ⟨hwaiting, hsleep⟩ := htrap.sleeps t' hmem
        change (update v.sleeper t p t' ∈ v.queue .waiting ∨ update v.sleeper t p t' = p) ∧
          ∃ n, update v.syscall p (some (.sleep cycles)) (update v.sleeper t p t') =
            some (.sleep n)
        rw [hold t' hmem]
        exact ⟨Or.inl hwaiting, hsleep⟩
    · refine ((hperm.map (update v.sleeper t p)).nodup_iff).mpr ?_
      rw [List.map_cons, Function.update_self, List.map_congr_left hold, List.nodup_cons]
      refine ⟨fun hmem ↦ ?_, h.oneTimer⟩
      obtain ⟨t', ht', rfl⟩ := List.mem_map.mp hmem
      exact h.unlisted hp .waiting (h.sleeps t' ht').1
  | waitFails p pid result hp _ => exact h.trap hp _
  | reap p x pid result hp _ hzombie => exact (h.trap hp _).reap hzombie p
  | wait p x pid result hp _ _ =>
    have htrap := h.trap hp (.wait pid result)
    exact htrap.block hp (fun t ht ↦ (htrap.sleeps t ht).imp_left Or.inl) htrap.oneTimer
  | exitToParent p i parent value hp _ hparent hawaits =>
    have hne : parent ≠ p := by
      rintro rfl
      exact h.unlisted hp .waiting (h.waiting_of_status hawaits.1)
    obtain ⟨hstatus, pid, result, hwait, hpid⟩ := hawaits
    refine (h.trap hp _).exitToParent hp (hparent.trans_ne (by simp)) ?_ i value
    exact ⟨hstatus, pid, result, (Function.update_of_ne hne _ _).trans hwait, hpid⟩
  | exitToReady p i parent next value hp _ hparent _ hnext =>
    exact (h.trap hp _).exitToReady hp (hparent.trans_ne (by simp)) hnext i value
  | other p c hp _ => exact h.trap hp c

end Processes

end DisastrOS
