import DisastrOS.Process

/-!
# The lists of processes

`Scheduled k nodes` is the invariant of `ready_list`, `waiting_list` and `zombie_list`: they are well
formed and disjoint, every PCB without links is in none of them, and every allocated PCB is running or
in one of them. `TimersListed k timers` says that `timer_list` holds exactly the allocated timers.

The lemmas of this module give the effect of the handlers on the three sequences. A PCB that stands in
a list next to others is refused by `List_insert` (`insertPcb_refused`), and this is what keeps the
running process in order while it waits for a queue; alone in its list it is not refused.
-/

set_option autoImplicit false
set_option relaxedAutoImplicit false

namespace DisastrOS

open LinkedLists
open Function (update)

namespace Kernel

variable {k k' : Kernel} {nodes : PcbList → List Addr} {timers : List Addr}

/-! ### The invariants -/

/-- The lists of PCBs hold the sequences `nodes`, and every allocated PCB that is not running is in
one of them. The running process is in `waiting_list` at most. -/
structure Scheduled (k : Kernel) (nodes : PcbList → List Addr) : Prop where
  threads : Threads k.pcbs.list k.lists nodes
  pool : k.pcbs.allocator.Ok
  allocated : ∀ i p, p ∈ nodes i → k.pcbs.allocator.Allocated p
  covered : ∀ p, k.pcbs.allocator.Allocated p → k.running = some p ∨ ∃ i, p ∈ nodes i
  running_allocated : ∀ p, k.running = some p → k.pcbs.allocator.Allocated p
  running_notReady : ∀ p, k.running = some p → p ∉ nodes .ready
  running_notZombie : ∀ p, k.running = some p → p ∉ nodes .zombie

theorem Scheduled.congr (h : k.Scheduled nodes) (hlist : k'.pcbs.list = k.pcbs.list)
    (hlists : k'.lists = k.lists) (hpool : k'.pcbs.allocator = k.pcbs.allocator)
    (hrunning : k'.running = k.running) : k'.Scheduled nodes where
  threads := by rw [hlist, hlists]; exact h.threads
  pool := by rw [hpool]; exact h.pool
  allocated := by rw [hpool]; exact h.allocated
  covered := by rw [hpool, hrunning]; exact h.covered
  running_allocated := by rw [hpool, hrunning]; exact h.running_allocated
  running_notReady := by rw [hrunning]; exact h.running_notReady
  running_notZombie := by rw [hrunning]; exact h.running_notZombie

/-- A process is in one list at most. -/
theorem Scheduled.list_unique (h : k.Scheduled nodes) {i j : PcbList} {p : Addr}
    (hi : p ∈ nodes i) (hj : p ∈ nodes j) : i = j :=
  h.threads.disjoint i j p hi hj

/-- The running process is in no list, unless it is in `waiting_list`. -/
theorem Scheduled.running_notMem (h : k.Scheduled nodes) {p : Addr} (hrunning : k.running = some p)
    (hwaiting : p ∉ nodes .waiting) (i : PcbList) : p ∉ nodes i := by
  cases i with
  | ready => exact h.running_notReady p hrunning
  | waiting => exact hwaiting
  | zombie => exact h.running_notZombie p hrunning

theorem exists_pcbList {P : PcbList → Prop} : (∃ i, P i) ↔ P .ready ∨ P .waiting ∨ P .zombie :=
  ⟨by rintro ⟨_ | _ | _, h⟩ <;> tauto, by rintro (h | h | h) <;> exact ⟨_, h⟩⟩

/-- A step that moves processes between the lists and `running`, and allocates and frees none. -/
theorem Scheduled.rearrange (h : k.Scheduled nodes) {nodes' : PcbList → List Addr}
    (hthreads : Threads k'.pcbs.list k'.lists nodes')
    (hpool : k'.pcbs.allocator = k.pcbs.allocator)
    (hsame : ∀ q, (k'.running = some q ∨ ∃ i, q ∈ nodes' i) ↔ k.running = some q ∨ ∃ i, q ∈ nodes i)
    (hready : ∀ p, k'.running = some p → p ∉ nodes' .ready)
    (hzombie : ∀ p, k'.running = some p → p ∉ nodes' .zombie) : k'.Scheduled nodes' := by
  have hallocated : ∀ q, (k.running = some q ∨ ∃ i, q ∈ nodes i) →
      k'.pcbs.allocator.Allocated q := by
    rintro q (hq | ⟨i, hq⟩)
    · exact hpool ▸ h.running_allocated q hq
    · exact hpool ▸ h.allocated i q hq
  exact
    { threads := hthreads
      pool := hpool ▸ h.pool
      allocated := fun i q hq ↦ hallocated q ((hsame q).mp (Or.inr ⟨i, hq⟩))
      covered := fun q hq ↦ (hsame q).mpr (h.covered q (hpool ▸ hq))
      running_allocated := fun q hq ↦ hallocated q ((hsame q).mp (Or.inl hq))
      running_notReady := hready
      running_notZombie := hzombie }

/-- `timer_list` holds the sequence `timers`, which are the timers that are allocated. -/
structure TimersListed (k : Kernel) (timers : List Addr) : Prop where
  represents : Represents k.timerItems.list k.timerList timers
  pool : k.timerItems.allocator.Ok
  allocated : ∀ t, k.timerItems.allocator.Allocated t ↔ t ∈ timers

theorem TimersListed.congr (h : k.TimersListed timers) (hitems : k'.timerItems = k.timerItems)
    (hlist : k'.timerList = k.timerList) : k'.TimersListed timers where
  represents := by rw [hitems, hlist]; exact h.represents
  pool := by rw [hitems]; exact h.pool
  allocated := by rw [hitems]; exact h.allocated

/-- The sequences that the lists of PCBs show. -/
def pcbNodes (k : Kernel) (i : PcbList) : List Addr := (k.lists i).toList k.pcbs.list

/-- The sequence that `timer_list` shows. -/
def timerNodes (k : Kernel) : List Addr := k.timerList.toList k.timerItems.list

theorem Scheduled.pcbNodes_eq (h : k.Scheduled nodes) : k.pcbNodes = nodes :=
  funext fun i ↦ (h.threads.represents i).toList_eq

theorem TimersListed.timerNodes_eq (h : k.TimersListed timers) : k.timerNodes = timers :=
  h.represents.toList_eq

/-- The lists of processes and of timers are in order. -/
structure Ordered (k : Kernel) : Prop where
  scheduled : k.Scheduled k.pcbNodes
  timers : k.TimersListed k.timerNodes

theorem Scheduled.ordered (h : k.Scheduled nodes) (htimers : k.TimersListed timers) :
    k.Ordered where
  scheduled := by rw [h.pcbNodes_eq]; exact h
  timers := by rw [htimers.timerNodes_eq]; exact htimers

/-! ### Single operations -/

/-- A PCB that stands in a list next to others stays where it is. -/
theorem insertPcb_refused (h : Threads k.pcbs.list k.lists nodes) {j : PcbList} {p : Addr}
    (hp : p ∈ nodes j) (hothers : nodes j ≠ [p]) (i : PcbList) (prev : Option Addr) :
    k.insertPcb i prev (some p) = k := by
  simp only [insertPcb, (h.represents j).listInsert_refused hp hothers, Function.update_eq_self]

/-- The sequences after the running process `p` was put at the end of list `i`. A process that waits
for a queue stays in `waiting_list`. -/
def parkedNodes (nodes : PcbList → List Addr) (i : PcbList) (p : Addr) : PcbList → List Addr :=
  if p ∈ nodes .waiting then nodes else update nodes i (nodes i ++ [p])

theorem mem_parkedNodes {i j : PcbList} {p q : Addr} :
    q ∈ parkedNodes nodes i p j ↔ q ∈ nodes j ∨ (q = p ∧ p ∉ nodes .waiting ∧ j = i) := by
  unfold parkedNodes
  split_ifs with hp
  · tauto
  · by_cases hji : j = i
    · subst hji
      rw [Function.update_self, List.mem_append, List.mem_singleton]
      tauto
    · rw [Function.update_of_ne hji]
      tauto

theorem parkedNodes_of_ne {i j : PcbList} (p : Addr) (hji : j ≠ i) :
    parkedNodes nodes i p j = nodes j := by
  unfold parkedNodes
  split_ifs
  · rfl
  · exact Function.update_of_ne hji _ _

/-- The running process is put at the end of a list. It must not be alone in `waiting_list`. -/
theorem threads_park (h : Threads k.pcbs.list k.lists nodes) (i : PcbList) {p : Addr}
    (hready : p ∉ nodes .ready) (hzombie : p ∉ nodes .zombie) (halone : nodes .waiting ≠ [p]) :
    Threads (k.insertPcb i (k.lists i).last (some p)).pcbs.list
      (k.insertPcb i (k.lists i).last (some p)).lists (parkedNodes nodes i p) := by
  unfold parkedNodes
  split_ifs with hp
  · rw [insertPcb_refused h hp halone]
    exact h
  · refine h.listInsert_last i fun j ↦ ?_
    cases j with
    | ready => exact hready
    | waiting => exact hp
    | zombie => exact hzombie

/-- The first ready process is taken out and runs. -/
theorem threads_dispatchReady (h : Threads k.pcbs.list k.lists nodes) :
    Threads k.dispatchReady.pcbs.list k.dispatchReady.lists
        (update nodes .ready (nodes .ready).tail) ∧
      k.dispatchReady.running = (nodes .ready).head? := by
  have hfirst := (h.represents .ready).first
  cases hnodes : nodes .ready with
  | nil =>
    rw [hnodes] at hfirst
    have hsame : update nodes .ready [] = nodes := by rw [← hnodes, Function.update_eq_self]
    simp only [dispatchReady, detachPcb, hfirst, List.head?_nil, listDetach_null,
      Function.update_eq_self, List.tail_nil, hsame]
    exact ⟨h, trivial⟩
  | cons p rest =>
    rw [hnodes] at hfirst
    have hp : p ∈ nodes .ready := hnodes ▸ List.mem_cons_self
    have hdetach := h.listDetach hp
    rw [hnodes, List.erase_cons_head] at hdetach
    simp only [dispatchReady, detachPcb, hfirst, List.head?_cons, List.tail_cons]
    exact ⟨hdetach, trivial⟩

/-! ### Elapsed timers -/

/-- The timers at the front of `timer_list` that have elapsed. -/
def dueTimers (k : Kernel) (timers : List Addr) : List Addr :=
  timers.takeWhile fun t ↦ k.timerItems.awakeningTime t ≤ k.disastrOSTime

/-- The processes of the elapsed timers, in the order in which they are woken. -/
def duePcbs (k : Kernel) (timers : List Addr) : List Addr :=
  (k.dueTimers timers).map k.timerItems.pcb

/-- The sequences after `woken` went from `waiting_list` to `ready_list`, in front of `back`. -/
def wokenNodes (nodes : PcbList → List Addr) (front woken back : List Addr) : PcbList → List Addr :=
  update (update nodes .waiting ((nodes .waiting).filter (· ∉ woken))) .ready
    (front ++ woken ++ back)

/-- The first timer is the current one exactly when it has elapsed. -/
theorem TimersListed.current (h : k.TimersListed timers) :
    k.timerListCurrent = (k.dueTimers timers).head? := by
  rw [timerListCurrent, h.represents.first, dueTimers]
  cases timers with
  | nil => rfl
  | cons t rest =>
    rw [List.head?_cons, List.takeWhile_cons]
    by_cases hdue : k.timerItems.awakeningTime t ≤ k.disastrOSTime
    · simp [hdue]
    · simp [hdue]

/-- The first timer is removed and freed. -/
theorem TimersListed.removeCurrent {t : Addr} {rest : List Addr} (h : k.TimersListed (t :: rest)) :
    k.timerListRemoveCurrent.TimersListed rest := by
  have hfirst : k.timerList.first = some t := h.represents.first
  have hdetach := h.represents.listDetach (List.mem_cons_self : t ∈ t :: rest)
  rw [List.erase_cons_head] at hdetach
  obtain ⟨hok, -, hallocated⟩ := h.pool.release ((h.allocated t).mpr List.mem_cons_self)
  have hnotMem : t ∉ rest := (List.nodup_cons.mp h.represents.nodup).1
  simp only [timerListRemoveCurrent, hfirst]
  refine ⟨hdetach, hok, fun x ↦ (hallocated x).trans ?_⟩
  rw [h.allocated, List.mem_cons]
  constructor
  · rintro ⟨hne, rfl | hmem⟩
    · exact absurd rfl hne
    · exact hmem
  · exact fun hmem ↦ ⟨fun hxt ↦ hnotMem (hxt ▸ hmem), Or.inr hmem⟩

theorem timerListRemoveCurrent_eq (k : Kernel) : k.timerListRemoveCurrent =
    { k with
      timerItems := { k.timerItems with
        list := k.timerListRemoveCurrent.timerItems.list
        allocator := k.timerListRemoveCurrent.timerItems.allocator }
      timerList := k.timerListRemoveCurrent.timerList } := by
  unfold timerListRemoveCurrent
  split <;> rfl

/-- What waking a process leaves alone. -/
theorem wakeProcess_eq (k : Kernel) (previousPcb : Option Addr) (t : Addr) :
    k.wakeProcess previousPcb t =
      { k with
        pcbs := { k.pcbs with
          list := (k.wakeProcess previousPcb t).pcbs.list
          status := update k.pcbs.status (k.timerItems.pcb t) .ready
          timer := update k.pcbs.timer (k.timerItems.pcb t) none }
        lists := (k.wakeProcess previousPcb t).lists
        timerItems := { k.timerItems with
          list := (k.wakeProcess previousPcb t).timerItems.list
          allocator := (k.wakeProcess previousPcb t).timerItems.allocator }
        timerList := (k.wakeProcess previousPcb t).timerList } := by
  rw [wakeProcess, timerListRemoveCurrent_eq]
  rfl

/-- One process is woken. -/
theorem threads_wakeProcess (h : Threads k.pcbs.list k.lists nodes) {front back : List Addr}
    (hready : nodes .ready = front ++ back) {t : Addr}
    (hwaiting : k.timerItems.pcb t ∈ nodes .waiting) :
    Threads (k.wakeProcess front.getLast? t).pcbs.list (k.wakeProcess front.getLast? t).lists
      (update (update nodes .waiting ((nodes .waiting).erase (k.timerItems.pcb t))) .ready
        (front ++ k.timerItems.pcb t :: back)) := by
  have hdetach := h.listDetach hwaiting
  rw [wakeProcess, timerListRemoveCurrent_eq]
  have hready' : update nodes .waiting ((nodes .waiting).erase (k.timerItems.pcb t)) .ready =
      front ++ back := by
    rw [Function.update_of_ne (by decide), hready]
  exact hdetach.listInsert hready' (h.notMem_erase hwaiting)

/-- Waking one process and then the others is waking all of them. -/
theorem wokenNodes_cons {front back woken : List Addr} {p : Addr}
    (hnodup : (nodes .waiting).Nodup) :
    wokenNodes (update (update nodes .waiting ((nodes .waiting).erase p)) .ready
        (front ++ p :: back)) (front ++ [p]) woken back =
      wokenNodes nodes front (p :: woken) back := by
  funext i
  cases i with
  | ready => simp [wokenNodes]
  | waiting =>
    simp only [wokenNodes, ne_eq, reduceCtorEq, not_false_eq_true, Function.update_of_ne,
      Function.update_self]
    rw [hnodup.erase_eq_filter, List.filter_filter]
    refine List.filter_congr fun q _ ↦ ?_
    by_cases hqp : q = p <;> simp [hqp]
  | zombie => simp [wokenNodes]

theorem wokenNodes_nil {front back : List Addr} (hready : nodes .ready = front ++ back) :
    wokenNodes nodes front [] back = nodes := by
  simp [wokenNodes, ← hready]

/-- The loop of `internal_schedule` over the elapsed timers wakes their processes, in order. -/
theorem wakeElapsed_spec (bound : ℕ) (front back : List Addr)
    (h : Threads k.pcbs.list k.lists nodes) (hready : nodes .ready = front ++ back)
    (htimers : k.TimersListed timers) (hnodup : (k.duePcbs timers).Nodup)
    (hwaiting : ∀ p ∈ k.duePcbs timers, p ∈ nodes .waiting)
    (hwake : wakeElapsed bound front.getLast? k = some k') :
    Threads k'.pcbs.list k'.lists (wokenNodes nodes front (k.duePcbs timers) back) ∧
      k'.TimersListed (timers.drop (k.dueTimers timers).length) ∧
      k'.pcbs.status = fun p ↦ if p ∈ k.duePcbs timers then .ready else k.pcbs.status p := by
  induction bound generalizing k nodes front timers with
  | zero =>
    have hnone : k.dueTimers timers = [] := by
      rw [wakeElapsed, htimers.current] at hwake
      by_contra hne
      obtain ⟨t, rest, hcons⟩ := List.exists_cons_of_ne_nil hne
      simp [hcons] at hwake
    simp only [wakeElapsed, htimers.current, hnone] at hwake
    obtain rfl : k = k' := by simpa using hwake
    simp only [duePcbs, hnone, List.map_nil, wokenNodes_nil hready]
    exact ⟨h, by simpa using htimers, by simp⟩
  | succ bound ih =>
    rw [wakeElapsed, htimers.current] at hwake
    cases timers with
    | nil =>
      obtain rfl : k = k' := by simpa [dueTimers] using hwake
      simp only [duePcbs, dueTimers, List.takeWhile_nil, List.map_nil, wokenNodes_nil hready]
      exact ⟨h, by simpa using htimers, by simp⟩
    | cons t rest =>
      by_cases hdue : k.timerItems.awakeningTime t ≤ k.disastrOSTime
      · have hcons : k.dueTimers (t :: rest) = t :: k.dueTimers rest := by
          simp [dueTimers, hdue]
        rw [hcons, List.head?_cons] at hwake
        have hpcbs : k.duePcbs (t :: rest) = k.timerItems.pcb t :: k.duePcbs rest := by
          rw [duePcbs, hcons, List.map_cons, duePcbs]
        rw [hpcbs] at hnodup hwaiting ⊢
        obtain ⟨hnew, hrestNodup⟩ := List.nodup_cons.mp hnodup
        have hstep := threads_wakeProcess h hready (hwaiting _ List.mem_cons_self)
        -- the timers and the clock are not touched, so the same timers are due afterwards
        have hframe := wakeProcess_eq k front.getLast? t
        have hsame : (k.wakeProcess front.getLast? t).dueTimers rest = k.dueTimers rest := by
          rw [hframe]; rfl
        have hsamePcbs : (k.wakeProcess front.getLast? t).duePcbs rest = k.duePcbs rest := by
          rw [duePcbs, hsame, hframe]; rfl
        have hremoved : (k.wakeProcess front.getLast? t).TimersListed rest :=
          TimersListed.removeCurrent (htimers.congr rfl rfl)
        have hlast : (front ++ [k.timerItems.pcb t]).getLast? = some (k.timerItems.pcb t) := by
          simp
        obtain ⟨hthreads, hlisted, hstatus⟩ := ih (front ++ [k.timerItems.pcb t]) hstep
          (by simp) hremoved (hsamePcbs ▸ hrestNodup) (by
            rw [hsamePcbs]
            intro p hp
            rw [Function.update_of_ne (by decide), Function.update_self,
              (h.represents .waiting).nodup.mem_erase_iff]
            exact ⟨fun hpt ↦ hnew (hpt ▸ hp), hwaiting p (List.mem_cons_of_mem _ hp)⟩)
          (hlast ▸ hwake)
        rw [hsamePcbs, wokenNodes_cons (h.represents .waiting).nodup] at hthreads
        rw [hsame] at hlisted
        refine ⟨hthreads, by rw [hcons]; exact hlisted, ?_⟩
        rw [hstatus, hsamePcbs]
        funext p
        rw [hframe]
        by_cases hpt : p = k.timerItems.pcb t
        · simp [hpt]
        · simp [hpt]
      · have hnone : k.dueTimers (t :: rest) = [] := by simp [dueTimers, hdue]
        rw [hnone, List.head?_nil] at hwake
        obtain rfl : k = k' := by simpa using hwake
        simp only [duePcbs, hnone, List.map_nil, wokenNodes_nil hready]
        exact ⟨h, by simpa using htimers, by simp⟩

theorem wakeElapsed_eq (bound : ℕ) {previousPcb : Option Addr}
    (hwake : wakeElapsed bound previousPcb k = some k') :
    k' = { k with
      pcbs := { k.pcbs with
        list := k'.pcbs.list
        status := k'.pcbs.status
        timer := k'.pcbs.timer }
      lists := k'.lists
      timerItems := { k.timerItems with
        list := k'.timerItems.list
        allocator := k'.timerItems.allocator }
      timerList := k'.timerList } := by
  induction bound generalizing k previousPcb with
  | zero =>
    rw [wakeElapsed] at hwake
    split_ifs at hwake
    obtain rfl := Option.some.inj hwake
    rfl
  | succ bound ih =>
    rw [wakeElapsed] at hwake
    split at hwake
    · obtain rfl := Option.some.inj hwake
      rfl
    · have hrest := ih hwake
      rw [wakeProcess_eq] at hrest
      exact hrest

/-! ### Scheduling -/

/-- The sequences after the running process `p` gave way to the first of the ready ones. It stays
where it is if it waits for a queue. -/
def switchedNodes (nodes : PcbList → List Addr) (p : Addr) : PcbList → List Addr :=
  update nodes .ready
    ((nodes .ready).tail ++ if p ∈ nodes .waiting then [] else [p])

/-- `internal_schedule` after the timers: with nobody ready nothing happens. -/
theorem switchToReady_nil (h : Threads k.pcbs.list k.lists nodes) (hready : nodes .ready = []) :
    k.switchToReady = some k := by
  have hfirst := (h.represents .ready).first
  rw [hready, List.head?_nil] at hfirst
  simp [switchToReady, hfirst]

/-- `internal_schedule` after the timers: the first ready process takes the place of the running
one. -/
theorem switchToReady_cons (h : Threads k.pcbs.list k.lists nodes) {p next : Addr}
    {rest : List Addr} (hrunning : k.running = some p) (hready : nodes .ready = next :: rest)
    (hnotReady : p ∉ nodes .ready) (hnotZombie : p ∉ nodes .zombie)
    (halone : nodes .waiting ≠ [p]) :
    ∃ k', k.switchToReady = some k' ∧
      Threads k'.pcbs.list k'.lists (switchedNodes nodes p) ∧ k'.running = some next ∧
      k'.pcbs.status = update (update k.pcbs.status p .ready) next .running ∧
      k' = { k with
        pcbs := { k.pcbs with list := k'.pcbs.list, status := k'.pcbs.status }
        lists := k'.lists
        running := k'.running } := by
  have hfirst := (h.represents .ready).first
  rw [hready, List.head?_cons] at hfirst
  have hnext : next ∈ nodes .ready := hready ▸ List.mem_cons_self
  have hdetach := h.listDetach hnext
  rw [hready, List.erase_cons_head] at hdetach
  simp only [switchToReady, hfirst]
  have hrunning' : (k.detachPcb .ready (some next)).running = some p := hrunning
  simp only [hrunning', Option.bind_eq_bind, Option.bind_some]
  refine ⟨_, rfl, ?_, rfl, rfl, rfl⟩
  rw [switchedNodes, hready, List.tail_cons]
  split_ifs with hwaiting
  · -- the process is linked into `waiting_list`, and `List_insert` refuses it
    have hwaiting' : p ∈ update nodes .ready rest .waiting := by
      rwa [Function.update_of_ne (by decide)]
    have halone' : update nodes .ready rest .waiting ≠ [p] := by
      rwa [Function.update_of_ne (by decide)]
    have hrefused := insertPcb_refused
      (k := (k.detachPcb .ready (some next)).setStatus p .ready) hdetach hwaiting' halone' .ready
    simp only [hrefused, List.append_nil]
    exact hdetach
  · have hnew : ∀ j, p ∉ update nodes .ready rest j := by
      intro j
      cases j with
      | ready =>
        rw [Function.update_self]
        exact fun hmem ↦ hnotReady (hready ▸ List.mem_cons_of_mem _ hmem)
      | waiting => rwa [Function.update_of_ne (by decide)]
      | zombie => rwa [Function.update_of_ne (by decide)]
    have hinsert := hdetach.listInsert_last .ready hnew
    have hnodes : update (update nodes .ready rest) .ready (update nodes .ready rest .ready ++ [p]) =
        update nodes .ready (rest ++ [p]) := by
      rw [Function.update_self, Function.update_idem]
    rw [hnodes] at hinsert
    exact hinsert

theorem mem_wokenNodes_ready {front woken back : List Addr} (hready : nodes .ready = front ++ back)
    {q : Addr} : q ∈ wokenNodes nodes front woken back .ready ↔ q ∈ woken ∨ q ∈ nodes .ready := by
  rw [wokenNodes, Function.update_self, hready, List.mem_append, List.mem_append, List.mem_append]
  tauto

theorem mem_wokenNodes_waiting {front woken back : List Addr} {q : Addr} :
    q ∈ wokenNodes nodes front woken back .waiting ↔ q ∈ nodes .waiting ∧ q ∉ woken := by
  simp [wokenNodes]

theorem mem_wokenNodes_zombie {front woken back : List Addr} {q : Addr} :
    q ∈ wokenNodes nodes front woken back .zombie ↔ q ∈ nodes .zombie := by
  simp [wokenNodes]

/-- Waking processes keeps them listed. -/
theorem mem_wokenNodes_iff {front woken back : List Addr} (hready : nodes .ready = front ++ back)
    (hwaiting : ∀ p ∈ woken, p ∈ nodes .waiting) (q : Addr) :
    (∃ i, q ∈ wokenNodes nodes front woken back i) ↔ ∃ i, q ∈ nodes i := by
  constructor
  · rintro ⟨_ | _ | _, hq⟩
    · exact ((mem_wokenNodes_ready hready).mp hq).elim (fun h ↦ ⟨_, hwaiting q h⟩) fun h ↦ ⟨_, h⟩
    · exact ⟨_, (mem_wokenNodes_waiting.mp hq).1⟩
    · exact ⟨_, mem_wokenNodes_zombie.mp hq⟩
  · rintro ⟨i, hq⟩
    by_cases hwoken : q ∈ woken
    · exact ⟨_, (mem_wokenNodes_ready hready).mpr (Or.inl hwoken)⟩
    · cases i with
      | ready => exact ⟨_, (mem_wokenNodes_ready hready).mpr (Or.inr hq)⟩
      | waiting => exact ⟨_, mem_wokenNodes_waiting.mpr ⟨hq, hwoken⟩⟩
      | zombie => exact ⟨_, mem_wokenNodes_zombie.mpr hq⟩

/-- The invariant after some waiting processes were woken. -/
theorem Scheduled.wake (h : k.Scheduled nodes) {front woken back : List Addr}
    (hready : nodes .ready = front ++ back)
    (hwaiting : ∀ p ∈ woken, p ∈ nodes .waiting) (hrunning : ∀ p ∈ woken, k.running ≠ some p)
    (hthreads : Threads k'.pcbs.list k'.lists (wokenNodes nodes front woken back))
    (hpool : k'.pcbs.allocator = k.pcbs.allocator) (hsame : k'.running = k.running) :
    k'.Scheduled (wokenNodes nodes front woken back) := by
  refine h.rearrange hthreads hpool (fun q ↦ ?_) (fun p hp ↦ ?_) fun p hp ↦ ?_
  · rw [hsame, mem_wokenNodes_iff hready hwaiting]
  · rw [hsame] at hp
    rw [mem_wokenNodes_ready hready, not_or]
    exact ⟨fun hmem ↦ hrunning p hmem hp, h.running_notReady p hp⟩
  · rw [mem_wokenNodes_zombie]
    exact h.running_notZombie p (hsame ▸ hp)

theorem mem_switchedNodes_ready {p q : Addr} :
    q ∈ switchedNodes nodes p .ready ↔
      q ∈ (nodes .ready).tail ∨ (q = p ∧ p ∉ nodes .waiting) := by
  rw [switchedNodes, Function.update_self, List.mem_append]
  split_ifs with hp <;> simp [hp]

theorem switchedNodes_of_ne {p : Addr} {i : PcbList} (hi : i ≠ .ready) :
    switchedNodes nodes p i = nodes i :=
  Function.update_of_ne hi _ _

/-- The invariant after the running process `p` gave way to `next`. -/
theorem Scheduled.switch (h : k.Scheduled nodes) {p next : Addr} {rest : List Addr}
    (hrunning : k.running = some p) (hready : nodes .ready = next :: rest)
    (hthreads : Threads k'.pcbs.list k'.lists (switchedNodes nodes p))
    (hpool : k'.pcbs.allocator = k.pcbs.allocator) (hnext : k'.running = some next) :
    k'.Scheduled (switchedNodes nodes p) := by
  have hnextReady : next ∈ nodes .ready := hready ▸ List.mem_cons_self
  have hnextRest : next ∉ rest := by
    have hnodup := (h.threads.represents .ready).nodup
    rw [hready] at hnodup
    exact (List.nodup_cons.mp hnodup).1
  have hpNext : p ≠ next := fun hsame ↦ h.running_notReady p hrunning (hsame ▸ hnextReady)
  have hmemReady : ∀ q, q ∈ switchedNodes nodes p .ready ↔
      q ∈ rest ∨ (q = p ∧ p ∉ nodes .waiting) := by
    intro q
    rw [mem_switchedNodes_ready, hready, List.tail_cons]
  refine h.rearrange hthreads hpool (fun q ↦ ?_) (fun q hq ↦ ?_) fun q hq ↦ ?_
  · rw [hnext, hrunning, Option.some.injEq, Option.some.injEq, exists_pcbList, exists_pcbList,
      hmemReady, switchedNodes_of_ne (by decide), switchedNodes_of_ne (by decide), hready,
      List.mem_cons]
    by_cases hqp : q = p
    · subst hqp
      tauto
    · rw [eq_comm (a := next), eq_comm (a := p)]
      tauto
  · obtain rfl := Option.some.inj (hnext.symm.trans hq)
    rw [hmemReady, not_or]
    exact ⟨hnextRest, fun hmem ↦ hpNext hmem.1.symm⟩
  · obtain rfl := Option.some.inj (hnext.symm.trans hq)
    rw [switchedNodes_of_ne (by decide)]
    exact fun hmem ↦ absurd (h.list_unique hnextReady hmem) (by decide)

/-- What a schedule does to the lists: the processes of the elapsed timers are woken, in front of the
ready ones, and the first ready process takes the place of the running one. -/
theorem internalSchedule_spec (h : k.Scheduled nodes) (htimers : k.TimersListed timers)
    (hnodup : (k.duePcbs timers).Nodup) (hwaiting : ∀ p ∈ k.duePcbs timers, p ∈ nodes .waiting)
    (hrunning : ∀ p ∈ k.duePcbs timers, k.running ≠ some p)
    (halone : ∀ p, k.running = some p → k.duePcbs timers ++ nodes .ready ≠ [] →
      (nodes .waiting).filter (· ∉ k.duePcbs timers) ≠ [p])
    (hschedule : k.internalSchedule = some k') :
    k'.TimersListed (timers.drop (k.dueTimers timers).length) ∧
      (k.duePcbs timers ++ nodes .ready = [] ∧ k'.Scheduled nodes ∧ k'.running = k.running ∧
          k'.pcbs.status = k.pcbs.status ∨
        ∃ p next rest, k.running = some p ∧ k.duePcbs timers ++ nodes .ready = next :: rest ∧
          k'.running = some next ∧
          k'.Scheduled
            (switchedNodes (wokenNodes nodes [] (k.duePcbs timers) (nodes .ready)) p) ∧
          k'.pcbs.status = update (update (fun q ↦ if q ∈ k.duePcbs timers then .ready
            else k.pcbs.status q) p .ready) next .running) := by
  obtain ⟨k₁, hwake, hswitch⟩ := Option.bind_eq_some_iff.mp hschedule
  obtain ⟨hthreads, hlisted, hstatus⟩ := wakeElapsed_spec walkBound [] (nodes .ready) h.threads
    rfl htimers hnodup hwaiting hwake
  have hframe := wakeElapsed_eq walkBound hwake
  have hpool : k₁.pcbs.allocator = k.pcbs.allocator := by rw [hframe]
  have hsame : k₁.running = k.running := by rw [hframe]
  have h₁ := h.wake (List.nil_append _).symm hwaiting hrunning hthreads hpool hsame
  have hready : wokenNodes nodes [] (k.duePcbs timers) (nodes .ready) .ready =
      k.duePcbs timers ++ nodes .ready := by simp [wokenNodes]
  cases hcases : k.duePcbs timers ++ nodes .ready with
  | nil =>
    have hdue : k.duePcbs timers = [] := (List.append_eq_nil_iff.mp hcases).1
    rw [switchToReady_nil hthreads (hready.trans hcases)] at hswitch
    obtain rfl := Option.some.inj hswitch
    refine ⟨hlisted, Or.inl ⟨rfl, ?_, hsame, ?_⟩⟩
    · rw [hdue, wokenNodes_nil (by rfl)] at h₁
      exact h₁
    · rw [hstatus, hdue]
      simp
  | cons next rest =>
    have hfirst := (hthreads.represents .ready).first
    rw [hready, hcases, List.head?_cons] at hfirst
    obtain ⟨p, hp⟩ : ∃ p, k₁.running = some p := by
      by_contra hnone
      push Not at hnone
      rw [switchToReady, hfirst] at hswitch
      have hstuck : k₁.running = none := Option.eq_none_iff_forall_ne_some.mpr hnone
      simp [detachPcb, hstuck] at hswitch
    have hne : k.duePcbs timers ++ nodes .ready ≠ [] := by simp [hcases]
    obtain ⟨k₂, hk₂, hthreads₂, hnext, hstatus₂, hframe₂⟩ := switchToReady_cons hthreads hp
      (hready.trans hcases) (h₁.running_notReady p hp) (h₁.running_notZombie p hp) (by
        have hfilter := halone p (hsame ▸ hp) hne
        simpa [wokenNodes] using hfilter)
    obtain rfl := Option.some.inj (hk₂.symm.trans hswitch)
    have hlisted₂ : k₂.TimersListed (timers.drop (k.dueTimers timers).length) :=
      hlisted.congr (by rw [hframe₂]) (by rw [hframe₂])
    refine ⟨hlisted₂, Or.inr ⟨p, next, rest, hsame ▸ hp, rfl, hnext, ?_, ?_⟩⟩
    · exact h₁.switch hp (hready.trans hcases) hthreads₂ (by rw [hframe₂]) hnext
    · rw [hstatus₂, hstatus]

/-- What a schedule leaves alone. -/
theorem internalSchedule_eq (hschedule : k.internalSchedule = some k') :
    k' = { k with
      pcbs := { k.pcbs with
        list := k'.pcbs.list
        status := k'.pcbs.status
        timer := k'.pcbs.timer }
      lists := k'.lists
      timerItems := { k.timerItems with
        list := k'.timerItems.list
        allocator := k'.timerItems.allocator }
      timerList := k'.timerList
      running := k'.running } := by
  obtain ⟨k₁, hwake, hswitch⟩ := Option.bind_eq_some_iff.mp hschedule
  have hframe := wakeElapsed_eq walkBound hwake
  have hswitched : k' = { k₁ with
      pcbs := { k₁.pcbs with list := k'.pcbs.list, status := k'.pcbs.status }
      lists := k'.lists
      running := k'.running } := by
    unfold switchToReady at hswitch
    split at hswitch
    · obtain rfl := Option.some.inj hswitch
      rfl
    · obtain ⟨p, -, hk'⟩ := Option.bind_eq_some_iff.mp hswitch
      obtain rfl := Option.some.inj hk'
      rfl
  rw [hframe] at hswitched
  rw [hswitched]

/-! ### Blocking -/

/-- The running process goes to list `i` and gives way to the first ready one, if there is one. -/
theorem Scheduled.park (h : k.Scheduled nodes) (k' : Kernel) {i : PcbList} (hi : i ≠ .ready) {p : Addr}
    (hrunning : k.running = some p) (halone : nodes .waiting ≠ [p])
    (hlist : k'.pcbs.list = k.pcbs.list) (hlists : k'.lists = k.lists)
    (hpool : k'.pcbs.allocator = k.pcbs.allocator) :
    ((k'.insertPcb i (k'.lists i).last (some p)).dispatchReady).Scheduled
        (update (parkedNodes nodes i p) .ready (nodes .ready).tail) ∧
      ((k'.insertPcb i (k'.lists i).last (some p)).dispatchReady).running =
        (nodes .ready).head? := by
  have hthreads : Threads k'.pcbs.list k'.lists nodes := by
    rw [hlist, hlists]
    exact h.threads
  have hready : parkedNodes nodes i p .ready = nodes .ready := parkedNodes_of_ne p hi.symm
  obtain ⟨hdispatch, hnext⟩ := threads_dispatchReady (threads_park hthreads i
    (h.running_notReady p hrunning) (h.running_notZombie p hrunning) halone)
  rw [hready] at hdispatch hnext
  set k'' := (k'.insertPcb i (k'.lists i).last (some p)).dispatchReady
  have hmem : ∀ j, j ≠ .ready → ∀ q,
      q ∈ update (parkedNodes nodes i p) .ready (nodes .ready).tail j ↔
        q ∈ nodes j ∨ (q = p ∧ p ∉ nodes .waiting ∧ j = i) := by
    intro j hj q
    rw [Function.update_of_ne hj, mem_parkedNodes]
  refine ⟨h.rearrange hdispatch hpool (fun q ↦ ?_) (fun q hq ↦ ?_) fun q hq ↦ ?_, hnext⟩
  · rw [hnext, hrunning, Option.some.injEq, exists_pcbList, exists_pcbList, Function.update_self,
      hmem _ (by decide), hmem _ (by decide), eq_comm (a := p)]
    by_cases hqp : q = p
    · subst hqp
      refine iff_of_true ?_ (Or.inl rfl)
      by_cases hwaiting : q ∈ nodes .waiting
      · exact Or.inr (Or.inr (Or.inl (Or.inl hwaiting)))
      · cases i with
        | ready => exact absurd rfl hi
        | waiting => exact Or.inr (Or.inr (Or.inl (Or.inr ⟨rfl, hwaiting, rfl⟩)))
        | zombie => exact Or.inr (Or.inr (Or.inr (Or.inr ⟨rfl, hwaiting, rfl⟩)))
    · simp only [hqp, false_and, or_false, false_or]
      cases nodes .ready with
      | nil => simp
      | cons next rest =>
        rw [List.head?_cons, Option.some.injEq, List.tail_cons, List.mem_cons,
          eq_comm (a := next), or_assoc]
  · rw [Function.update_self]
    rw [hnext] at hq
    have hnodup := (h.threads.represents .ready).nodup
    cases hcases : nodes .ready with
    | nil => simp
    | cons next rest =>
      rw [hcases] at hq hnodup
      obtain rfl := Option.some.inj hq
      exact (List.nodup_cons.mp hnodup).1
  · rw [hnext] at hq
    have hqReady : q ∈ nodes .ready := List.mem_of_head? hq
    rw [hmem _ (by decide)]
    rintro (hmemZombie | ⟨rfl, -⟩)
    · exact absurd (h.list_unique hqReady hmemZombie) (by decide)
    · exact h.running_notReady q hrunning hqReady

/-! ### Sleeping -/

/-- The place of a new timer is after all timers that are not due later. -/
theorem timerListPrevious_spec {items : TimerItems} {time : ℤ} {before : Option Addr}
    (front : List Addr) {back : List Addr} {bound : ℕ} {previous : Option Addr}
    (h : Segment items.list before back none)
    (hprevious : timerListPrevious items time bound front.getLast? back.head? = some previous) :
    previous = (front ++ back.takeWhile fun t ↦ items.awakeningTime t ≤ time).getLast? := by
  induction back generalizing before front bound with
  | nil => cases bound <;> simpa [timerListPrevious, eq_comm] using hprevious
  | cons t rest ih =>
    cases bound with
    | zero => simp [timerListPrevious] at hprevious
    | succ bound =>
      rw [List.head?_cons, timerListPrevious] at hprevious
      rw [List.takeWhile_cons]
      split_ifs at hprevious with hlater
      · simpa [not_le.mpr hlater, eq_comm] using hprevious
      · have hnext : (items.list t).next = rest.head? := by rw [h.1, Option.or_none]
        have hlast : some t = (front ++ [t]).getLast? := by simp
        rw [hnext, hlast] at hprevious
        rw [ih _ h.2 hprevious]
        simp [not_lt.mp hlater]

/-- Adding a timer: nothing happens when all timers are in use, and otherwise a free one is placed
between those that are due earlier or at the same time and the others. -/
theorem timerListAdd_place (h : k.TimersListed timers) {time : ℤ} {p : Addr} {r : Option Addr}
    (hadd : k.timerListAdd time p = some (r, k')) :
    r = none ∧ k' = k ∨
      ∃ t, r = some t ∧ t ∉ timers ∧
        k'.TimersListed ((timers.takeWhile fun t ↦ k.timerItems.awakeningTime t ≤ time) ++
          t :: timers.dropWhile fun t ↦ k.timerItems.awakeningTime t ≤ time) ∧
        k'.timerItems.pcb = update k.timerItems.pcb t p ∧
        k'.timerItems.awakeningTime = update k.timerItems.awakeningTime t time ∧
        k' = { k with timerItems := k'.timerItems, timerList := k'.timerList } := by
  obtain ⟨previous, hprevious, halloc⟩ := Option.bind_eq_some_iff.mp hadd
  rcases hget : k.timerItems.allocator.getBlock with ⟨_ | t, pool⟩
  · simp only [timerItemAlloc, hget, Option.some.injEq, Prod.mk.injEq] at halloc
    exact Or.inl ⟨halloc.1.symm, halloc.2.symm⟩
  · simp only [timerItemAlloc, hget, Option.some.injEq, Prod.mk.injEq] at halloc
    obtain ⟨rfl, rfl⟩ := halloc
    obtain ⟨hok, -, hfree, -, hallocated⟩ := PoolAllocator.getBlock_some h.pool hget
    have hnew : t ∉ timers := fun hmem ↦ hfree ((h.allocated t).mpr hmem)
    have hsplit : timers = timers.takeWhile (fun t ↦ k.timerItems.awakeningTime t ≤ time) ++
        timers.dropWhile fun t ↦ k.timerItems.awakeningTime t ≤ time :=
      List.takeWhile_append_dropWhile.symm
    rw [h.represents.first] at hprevious
    have hplace := timerListPrevious_spec [] h.represents.segment hprevious
    rw [List.nil_append] at hplace
    refine Or.inr ⟨t, rfl, hnew, ?_, rfl, rfl, rfl⟩
    have hrep : Represents (update k.timerItems.list t Links.unlinked) k.timerList timers :=
      h.represents.congr fun a ha ↦ Function.update_of_ne (ne_of_mem_of_not_mem ha hnew) _ _
    rw [hsplit] at hrep hnew
    refine ⟨?_, hok, fun x ↦ (hallocated x).trans ?_⟩
    · simp only [insertTimer, hplace, listInsert_eq_link hrep (Function.update_self ..) hnew]
      exact represents_link hrep hnew
    · rw [h.allocated, List.mem_append, List.mem_cons]
      nth_rewrite 1 [hsplit]
      rw [List.mem_append]
      tauto

/-- Adding a timer, without its place. -/
theorem timerListAdd_spec (h : k.TimersListed timers) {time : ℤ} {p : Addr} {r : Option Addr}
    (hadd : k.timerListAdd time p = some (r, k')) :
    r = none ∧ k' = k ∨
      ∃ t front back, r = some t ∧ timers = front ++ back ∧ t ∉ timers ∧
        k'.TimersListed (front ++ t :: back) ∧
        k'.timerItems.pcb = update k.timerItems.pcb t p ∧
        k' = { k with timerItems := k'.timerItems, timerList := k'.timerList } := by
  obtain hnone | ⟨t, hr, hnew, hlisted, hpcb, -, hframe⟩ := timerListAdd_place h hadd
  · exact Or.inl hnone
  · exact Or.inr ⟨t, _, _, hr, List.takeWhile_append_dropWhile.symm, hnew, hlisted, hpcb, hframe⟩

theorem timerListAdd_eq {time : ℤ} {p : Addr} {r : Option Addr}
    (hadd : k.timerListAdd time p = some (r, k')) :
    k' = { k with timerItems := k'.timerItems, timerList := k'.timerList } := by
  obtain ⟨previous, -, halloc⟩ := Option.bind_eq_some_iff.mp hadd
  rcases hget : k.timerItems.allocator.getBlock with ⟨_ | t, pool⟩
  · simp only [timerItemAlloc, hget, Option.some.injEq, Prod.mk.injEq] at halloc
    rw [← halloc.2]
  · simp only [timerItemAlloc, hget, Option.some.injEq, Prod.mk.injEq] at halloc
    rw [← halloc.2]
    rfl

/-- What `internal_sleep` does: it fails, or it adds a timer and blocks. -/
theorem internalSleep_cases {cycles : ℤ} (hsleep : internalSleep cycles k = some k') :
    ∃ p, k.running = some p ∧
      (k' = k.setRetvalue p dsosEsleep ∨
        ∃ t k₁, k.timerListAdd (toInt (k.disastrOSTime + cycles)) p = some (some t, k₁) ∧
          k' = (((k₁.setStatus p .waiting).insertPcb .waiting (k₁.lists .waiting).last
            (some p)).dispatchReady)) := by
  obtain ⟨p, hp, hrest⟩ := Option.bind_eq_some_iff.mp hsleep
  refine ⟨p, hp, ?_⟩
  split_ifs at hrest with htimer
  · exact Or.inl (Option.some.inj hrest).symm
  · obtain ⟨⟨r, k₁⟩, hadd, hk'⟩ := Option.bind_eq_some_iff.mp hrest
    cases r with
    | none =>
      obtain ⟨previous, -, halloc⟩ := Option.bind_eq_some_iff.mp hadd
      rcases hget : k.timerItems.allocator.getBlock with ⟨_ | t, pool⟩
      · simp only [timerItemAlloc, hget, Option.some.injEq, Prod.mk.injEq] at halloc
        obtain ⟨-, rfl⟩ := halloc
        exact Or.inl (Option.some.inj hk').symm
      · simp [timerItemAlloc, hget] at halloc
    | some t => exact Or.inr ⟨t, k₁, hadd, (Option.some.inj hk').symm⟩

/-! ### New processes -/

theorem pcbAlloc_eq_some {p : Addr} (halloc : k.pcbAlloc = some (p, k')) :
    ∃ pool, k.pcbs.allocator.getBlock = (some p, pool) ∧ k.lastPid ≠ intMax ∧
      k' = k.resetPcb p pool := by
  rcases hget : k.pcbs.allocator.getBlock with ⟨_ | p', pool⟩
  · simp [pcbAlloc, hget] at halloc
  · simp only [pcbAlloc, hget, Option.ite_none_left_eq_some, Option.some.injEq,
      Prod.mk.injEq] at halloc
    obtain ⟨hpid, rfl, rfl⟩ := halloc
    exact ⟨pool, rfl, hpid, rfl⟩

theorem pcbPtrAlloc_eq_some {p x : Addr} (halloc : k.pcbPtrAlloc p = some (x, k')) :
    ∃ pool, k.pcbPtrs.allocator.getBlock = (some x, pool) ∧ k' = k.resetPcbPtr x pool p := by
  rcases hget : k.pcbPtrs.allocator.getBlock with ⟨_ | x', pool⟩
  · simp [pcbPtrAlloc, hget] at halloc
  · simp only [pcbPtrAlloc, hget, Option.some.injEq, Prod.mk.injEq] at halloc
    obtain ⟨rfl, rfl⟩ := halloc
    exact ⟨pool, rfl, rfl⟩

/-- What `internal_fork` and `internal_spawn` do: a fresh PCB `p` and a fresh pointer `x` to it. -/
theorem newProcess_cases {p : Addr} (hnew : k.newProcess = some (p, k')) :
    ∃ running pool x ptrPool, k.running = some running ∧
      k.pcbs.allocator.getBlock = (some p, pool) ∧ k.lastPid ≠ intMax ∧
      k.pcbPtrs.allocator.getBlock = (some x, ptrPool) ∧
      k' = ((((k.resetPcb p pool).setStatus p .ready).setParent p running).resetPcbPtr x ptrPool
        p).adopt running p x := by
  obtain ⟨running, hrunning, hrest⟩ := Option.bind_eq_some_iff.mp hnew
  obtain ⟨⟨p', k₁⟩, halloc, hptr⟩ := Option.bind_eq_some_iff.mp hrest
  obtain ⟨pool, hget, hpid, rfl⟩ := pcbAlloc_eq_some halloc
  obtain ⟨⟨x, k₂⟩, hallocPtr, hresult⟩ := Option.bind_eq_some_iff.mp hptr
  obtain ⟨ptrPool, hgetPtr, rfl⟩ := pcbPtrAlloc_eq_some hallocPtr
  obtain ⟨rfl, rfl⟩ := Prod.mk.inj (Option.some.inj hresult)
  exact ⟨running, pool, x, ptrPool, hrunning, hget, hpid, hgetPtr, rfl⟩

/-- A new process is ready, behind all others. -/
theorem Scheduled.newProcess (h : k.Scheduled nodes) {p : Addr}
    (hnew : k.newProcess = some (p, k')) :
    k'.Scheduled (update nodes .ready (nodes .ready ++ [p])) ∧ ¬ k.pcbs.allocator.Allocated p := by
  obtain ⟨running, pool, x, ptrPool, hrunning, hget, -, -, rfl⟩ := newProcess_cases hnew
  obtain ⟨hok, -, hfree, -, hallocated⟩ := PoolAllocator.getBlock_some h.pool hget
  have hnotMem : ∀ i, p ∉ nodes i := fun i hmem ↦ hfree (h.allocated i p hmem)
  have hne : running ≠ p := fun hsame ↦ hfree (hsame ▸ h.running_allocated running hrunning)
  -- the fresh PCB was in no list, so it had no links before they were reset
  have hlinks : update k.pcbs.list p Links.unlinked = k.pcbs.list := by
    rw [← h.threads.tidy p hnotMem, Function.update_eq_self]
  have hthreads : Threads (update k.pcbs.list p Links.unlinked) k.lists nodes :=
    hlinks.symm ▸ h.threads
  refine ⟨⟨hthreads.listInsert_last .ready hnotMem, hok, fun i q hq ↦ ?_, fun q hq ↦ ?_,
    fun q hq ↦ ?_, fun q hq ↦ ?_, fun q hq ↦ ?_⟩, hfree⟩
  · refine (hallocated q).mpr ?_
    by_cases hi : i = .ready
    · subst hi
      rw [Function.update_self, List.mem_append, List.mem_singleton] at hq
      exact hq.symm.imp_right (h.allocated .ready q)
    · rw [Function.update_of_ne hi] at hq
      exact Or.inr (h.allocated i q hq)
  · rcases (hallocated q).mp hq with rfl | hq
    · exact Or.inr ⟨.ready, by simp⟩
    · refine (h.covered q hq).imp_right fun ⟨i, hi⟩ ↦ ⟨i, ?_⟩
      by_cases hir : i = .ready
      · subst hir
        rw [Function.update_self]
        exact List.mem_append_left _ hi
      · rwa [Function.update_of_ne hir]
  · exact (hallocated q).mpr (Or.inr (h.running_allocated q hq))
  · rw [Function.update_self, List.mem_append, List.mem_singleton, not_or]
    obtain rfl : running = q := Option.some.inj (hrunning.symm.trans hq)
    exact ⟨h.running_notReady running hq, hne⟩
  · rw [Function.update_of_ne (by decide)]
    exact h.running_notZombie q hq

end Kernel

end DisastrOS
