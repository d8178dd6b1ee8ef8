import DisastrOS.Children

/-!
# Waking processes

What `internal_schedule` and `internal_wakeUpQueue` do to `ready_list` and `waiting_list`, in every
state in which the two lists are well formed and have no process in common; nothing is asked of the
rest of the state.

`internal_schedule` takes the timers that have elapsed out of `timer_list`, moves their processes in
that order to the front of `ready_list`, and lets the first ready process take the place of the
running one (`internalSchedule_exact`). `internal_wakeUpQueue` moves the process of the first user
that is marked `Waiting` and whose process still waits to the end of `ready_list`, and no other
(`internalWakeUpQueue_exact`).
-/

set_option autoImplicit false
set_option relaxedAutoImplicit false

namespace DisastrOS

open LinkedLists
open Function (update)

variable {k k' : Kernel} {p x : Addr} {ready waiting front back timers : List Addr}

namespace Kernel

/-! ### Two lists with no process in common -/

/-- `ready_list` and `waiting_list` show two sequences that have no process in common. -/
structure Lines (k : Kernel) (ready waiting : List Addr) : Prop where
  shows_ready : Represents k.pcbs.list (k.lists .ready) ready
  shows_waiting : Represents k.pcbs.list (k.lists .waiting) waiting
  disjoint : ∀ q ∈ ready, q ∉ waiting

theorem Lines.congr (h : k.Lines ready waiting) (hlist : k'.pcbs.list = k.pcbs.list)
    (hlists : k'.lists = k.lists) : k'.Lines ready waiting where
  shows_ready := by rw [hlist, hlists]; exact h.shows_ready
  shows_waiting := by rw [hlist, hlists]; exact h.shows_waiting
  disjoint := h.disjoint

/-- The links of the processes outside the two sequences, and `zombie_list`, are the same. -/
structure SameElsewhere (k k' : Kernel) (ready waiting : List Addr) : Prop where
  links : ∀ q, q ∉ ready → q ∉ waiting → k'.pcbs.list q = k.pcbs.list q
  zombies : k'.lists .zombie = k.lists .zombie

/-- The process `x` goes from `waiting_list` to the place in `ready_list` after `front`. -/
def move (k : Kernel) (front : List Addr) (x : Addr) : Kernel :=
  (k.detachPcb .waiting (some x)).insertPcb .ready front.getLast? (some x)

/-- A process that waits is moved to the place after `front`. -/
theorem Lines.move (front back : List Addr) (h : k.Lines (front ++ back) waiting)
    (hx : x ∈ waiting) :
    (k.move front x).Lines (front ++ x :: back) (waiting.erase x) ∧
      k.SameElsewhere (k.move front x) (front ++ back) waiting := by
  have hnotReady : x ∉ front ++ back := fun hmem ↦ h.disjoint x hmem hx
  have hdetached := h.shows_waiting.listDetach hx
  set list := (listDetach k.pcbs.list (k.lists .waiting) (some x)).list with hlist
  have hready : Represents list (k.lists .ready) (front ++ back) :=
    h.shows_ready.congr fun q hq ↦ listDetach_list_of_notMem h.shows_waiting hx (h.disjoint q hq)
  have hunlinked : list x = Links.unlinked := listDetach_list_self ..
  have hinsert := listInsert_eq_link hready hunlinked hnotReady
  -- a process other than `x` outside `ready_list` keeps its links
  have hkeeps : ∀ q, q ≠ x → q ∉ front ++ back →
      linkBetween list front.getLast? x back.head? q = list q := by
    intro q hne hq
    rw [List.mem_append, not_or] at hq
    apply linkBetween_of_ne list hne
    · exact fun hlast ↦ hq.1 (List.mem_of_getLast? hlast)
    · exact fun hhead ↦ hq.2 (List.mem_of_head? hhead)
  have hmoved : (k.move front x).pcbs.list = linkBetween list front.getLast? x back.head? :=
    congrArg ListResult.list hinsert
  have hhead : (k.move front x).lists .ready = (k.lists .ready).link front.getLast? x back.head? :=
    congrArg ListResult.head hinsert
  constructor
  · constructor
    · rw [hmoved, hhead]
      exact represents_link hready hnotReady
    · have hwaiting : (k.move front x).lists .waiting =
          (listDetach k.pcbs.list (k.lists .waiting) (some x)).head := rfl
      rw [hmoved, hwaiting]
      refine hdetached.congr fun q hq ↦ ?_
      rw [h.shows_waiting.nodup.mem_erase_iff] at hq
      exact hkeeps q hq.1 fun hmem ↦ h.disjoint q hmem hq.2
    · intro q hq hwaits
      rw [h.shows_waiting.nodup.mem_erase_iff] at hwaits
      rw [List.mem_append, List.mem_cons, or_left_comm, ← List.mem_append] at hq
      rcases hq with rfl | hq
      · exact hwaits.1 rfl
      · exact h.disjoint q hq hwaits.2
  · constructor
    · intro q hq hwaits
      rw [hmoved, hkeeps q (fun hqx ↦ hwaits (hqx ▸ hx)) hq]
      exact listDetach_list_of_notMem h.shows_waiting hx hwaits
    · rfl

/-- The running process gives way to the first ready one and goes to the end of `ready_list`. -/
theorem Lines.switch {next : Addr} {rest : List Addr} (h : k.Lines (next :: rest) waiting)
    (hp : k.running = some p) (hready : p ∉ next :: rest) (hwaiting : p ∉ waiting)
    (hunlinked : k.pcbs.list p = Links.unlinked) :
    ∃ k', k.switchToReady = some k' ∧ k'.running = some next ∧ k'.Lines (rest ++ [p]) waiting ∧
      k.SameElsewhere k' (p :: next :: rest) waiting ∧
      k'.pcbs.status = update (update k.pcbs.status p .ready) next .running ∧
      k' = { k with
        pcbs := { k.pcbs with list := k'.pcbs.list, status := k'.pcbs.status }
        lists := k'.lists
        running := k'.running } := by
  have hnext : next ∈ next :: rest := List.mem_cons_self
  have hfirst : (k.lists .ready).first = some next := h.shows_ready.first
  have hrunning : (k.detachPcb .ready (some next)).running = some p := hp
  have hdetached := h.shows_ready.listDetach hnext
  rw [List.erase_cons_head] at hdetached
  have hrest : p ∉ rest := fun hmem ↦ hready (List.mem_cons_of_mem _ hmem)
  have hsame : ∀ q, q ∉ next :: rest →
      (listDetach k.pcbs.list (k.lists .ready) (some next)).list q = k.pcbs.list q :=
    fun q hq ↦ listDetach_list_of_notMem h.shows_ready hnext hq
  have hlinks := (hsame p hready).trans hunlinked
  have hinserted := (hdetached.listInsert_last hlinks hrest).1
  have hkeeps : ∀ q, q ∉ next :: rest → q ≠ p →
      (listInsert (listDetach k.pcbs.list (k.lists .ready) (some next)).list
        (listDetach k.pcbs.list (k.lists .ready) (some next)).head
        (listDetach k.pcbs.list (k.lists .ready) (some next)).head.last (some p)).list q =
          k.pcbs.list q := by
    intro q hq hqp
    have hqrest : q ∉ rest := fun hmem ↦ hq (List.mem_cons_of_mem _ hmem)
    rw [listInsert_list_of_notMem hdetached hlinks hrest hqrest hqp, hsame q hq]
  simp only [switchToReady, hfirst, hrunning, Option.bind_eq_bind, Option.bind_some]
  refine ⟨_, rfl, rfl, ?_, ?_, rfl, rfl⟩
  · constructor
    · exact hinserted
    · refine h.shows_waiting.congr fun q hq ↦ hkeeps q (fun hmem ↦ h.disjoint q hmem hq) ?_
      rintro rfl
      exact hwaiting hq
    · intro q hq hwaits
      rcases List.mem_append.mp hq with hq | hq
      · exact h.disjoint q (List.mem_cons_of_mem _ hq) hwaits
      · obtain rfl := List.mem_singleton.mp hq
        exact hwaiting hwaits
  · constructor
    · intro q hq _
      rw [List.mem_cons, not_or] at hq
      exact hkeeps q hq.2 hq.1
    · rfl

/-! ### The elapsed timers -/

/-- The timers that have elapsed. -/
def elapsed (k : Kernel) (timers : List Addr) : List Addr :=
  timers.filter fun t ↦ k.timerItems.awakeningTime t ≤ k.disastrOSTime

/-- The processes of the timers that have elapsed, in the order of the timers. -/
def elapsedPcbs (k : Kernel) (timers : List Addr) : List Addr :=
  (k.elapsed timers).map k.timerItems.pcb

/-- What the loop of `internal_schedule` over the elapsed timers does, with `front` the processes
that were woken before. -/
structure Wakes (k k' : Kernel) (front back waiting timers : List Addr) : Prop where
  lines : k'.Lines (front ++ k.elapsedPcbs timers ++ back)
    (waiting.filter (· ∉ k.elapsedPcbs timers))
  elsewhere : k.SameElsewhere k' (front ++ back) waiting
  kept : Represents k'.timerItems.list k'.timerList
    (timers.filter fun t ↦ k.disastrOSTime < k.timerItems.awakeningTime t)
  freed : k'.timerItems.allocator =
    (k.elapsed timers).foldl (fun pool t ↦ (pool.releaseBlock t).2) k.timerItems.allocator
  status : k'.pcbs.status = fun q ↦ if q ∈ k.elapsedPcbs timers then .ready else k.pcbs.status q
  timer : k'.pcbs.timer = fun q ↦ if q ∈ k.elapsedPcbs timers then none else k.pcbs.timer q
  quiet : k.elapsedPcbs timers = [] → k' = k

/-- Without an elapsed timer nothing is done. -/
theorem Wakes.refl (h : k.Lines (front ++ back) waiting)
    (htimers : Represents k.timerItems.list k.timerList timers)
    (hlate : ∀ t ∈ timers, k.disastrOSTime < k.timerItems.awakeningTime t) :
    k.Wakes k front back waiting timers := by
  have hnone : k.elapsed timers = [] := by
    rw [elapsed, List.filter_eq_nil_iff]
    intro t ht
    simpa using hlate t ht
  have hnobody : k.elapsedPcbs timers = [] := by rw [elapsedPcbs, hnone, List.map_nil]
  have hall : (timers.filter fun t ↦ k.disastrOSTime < k.timerItems.awakeningTime t) = timers :=
    List.filter_eq_self.mpr fun t ht ↦ decide_eq_true (hlate t ht)
  constructor
  · simpa [hnobody] using h
  · exact ⟨fun _ _ _ ↦ rfl, rfl⟩
  · rwa [hall]
  · rw [hnone, List.foldl_nil]
  · simp [hnobody]
  · simp [hnobody]
  · exact fun _ ↦ rfl

/-- One turn of the loop moves the process of the first timer, and removes and frees the timer. -/
theorem wakeProcess_eq_move (front : List Addr) {t : Addr} (hfirst : k.timerList.first = some t) :
    k.wakeProcess front.getLast? t =
      { k.move front (k.timerItems.pcb t) with
        pcbs := { (k.move front (k.timerItems.pcb t)).pcbs with
          status := update k.pcbs.status (k.timerItems.pcb t) .ready
          timer := update k.pcbs.timer (k.timerItems.pcb t) none }
        timerItems := { k.timerItems with
          allocator := (k.timerItems.allocator.releaseBlock t).2
          list := (listDetach k.timerItems.list k.timerList (some t)).list }
        timerList := (listDetach k.timerItems.list k.timerList (some t)).head } := by
  have hcurrent : ∀ k₁ : Kernel, k₁.timerList = k.timerList →
      k₁.timerListRemoveCurrent = (k₁.detachTimer (some t)).timerItemFree t := by
    intro k₁ hsame
    rw [timerListRemoveCurrent, hsame, hfirst]
  refine Eq.trans (hcurrent _ ?_) ?_
  · rfl
  · rfl

/-- A turn of the loop and then the turns for the other timers. -/
theorem Wakes.cons {t : Addr} {rest : List Addr} (h : k.Lines (front ++ back) waiting)
    (hfirst : k.timerList.first = some t)
    (hdue : k.timerItems.awakeningTime t ≤ k.disastrOSTime) (hwaits : k.timerItems.pcb t ∈ waiting)
    (hrest : (k.wakeProcess front.getLast? t).Wakes k' (front ++ [k.timerItems.pcb t]) back
      (waiting.erase (k.timerItems.pcb t)) rest) :
    k.Wakes k' front back waiting (t :: rest) := by
  have hframe := wakeProcess_eq_move front hfirst
  obtain ⟨-, hmoved⟩ := Lines.move front back h hwaits
  have helapsed : k.elapsed (t :: rest) = t :: (k.wakeProcess front.getLast? t).elapsed rest := by
    rw [hframe]
    exact List.filter_cons_of_pos (decide_eq_true hdue)
  have hpcbs : k.elapsedPcbs (t :: rest) =
      k.timerItems.pcb t :: (k.wakeProcess front.getLast? t).elapsedPcbs rest := by
    rw [elapsedPcbs, helapsed, List.map_cons, elapsedPcbs, hframe]
  have hkept := hrest.kept
  have hfreed := hrest.freed
  have hstatus := hrest.status
  have htimer := hrest.timer
  constructor
  · have hlines := hrest.lines
    rw [hpcbs]
    rw [h.shows_waiting.nodup.erase_eq_filter, List.filter_filter] at hlines
    convert hlines using 1
    · simp
    · refine List.filter_congr fun q _ ↦ ?_
      by_cases hq : q = k.timerItems.pcb t <;> simp [hq]
  · constructor
    · intro q hready hwaiting
      have hne : q ≠ k.timerItems.pcb t := fun hq ↦ hwaiting (hq ▸ hwaits)
      rw [hrest.elsewhere.links q ?_ fun hq ↦ hwaiting (List.mem_of_mem_erase hq), hframe]
      · exact hmoved.links q hready hwaiting
      · rw [List.append_assoc, List.mem_append, List.mem_append, List.mem_singleton]
        rw [List.mem_append] at hready
        tauto
    · rw [hrest.elsewhere.zombies, hframe]
      exact hmoved.zombies
  · rw [hframe] at hkept
    rw [List.filter_cons_of_neg (by simpa using hdue)]
    exact hkept
  · rw [hfreed, helapsed, List.foldl_cons, hframe]
  · rw [hstatus, hpcbs, hframe]
    funext q
    by_cases hq : q = k.timerItems.pcb t <;> simp [hq]
  · rw [htimer, hpcbs, hframe]
    funext q
    by_cases hq : q = k.timerItems.pcb t <;> simp [hq]
  · intro hnone
    rw [hpcbs] at hnone
    exact absurd hnone (by simp)

/-- The loop over the elapsed timers ends and wakes their processes. -/
theorem wakeElapsed_exact {bound : ℕ} (front back : List Addr)
    (h : k.Lines (front ++ back) waiting)
    (htimers : Represents k.timerItems.list k.timerList timers)
    (hsorted : timers.Pairwise fun s t ↦
      k.timerItems.awakeningTime s ≤ k.timerItems.awakeningTime t)
    (hdistinct : (timers.map k.timerItems.pcb).Nodup)
    (hwaits : ∀ t ∈ timers, k.timerItems.pcb t ∈ waiting) (hbound : timers.length ≤ bound) :
    ∃ k', wakeElapsed bound front.getLast? k = some k' ∧ k.Wakes k' front back waiting timers := by
  induction timers generalizing k front waiting bound with
  | nil =>
    have hnone : k.timerListCurrent = none := by simp [timerListCurrent, htimers.first]
    refine ⟨k, ?_, Wakes.refl h htimers (by simp)⟩
    cases bound <;> simp [wakeElapsed, hnone]
  | cons t rest ih =>
    obtain ⟨bound, rfl⟩ : ∃ n, bound = n + 1 :=
      Nat.exists_eq_succ_of_ne_zero (by simp only [List.length_cons] at hbound; omega)
    obtain ⟨hfirstEarliest, hsortedRest⟩ := List.pairwise_cons.mp hsorted
    rw [List.map_cons, List.nodup_cons] at hdistinct
    obtain ⟨hnew, hdistinctRest⟩ := hdistinct
    have hfirst : k.timerList.first = some t := htimers.first
    by_cases hdue : k.timerItems.awakeningTime t ≤ k.disastrOSTime
    · have hcurrent : k.timerListCurrent = some t := by simp [timerListCurrent, hfirst, hdue]
      have hframe := wakeProcess_eq_move front hfirst
      have hpcb := hwaits t List.mem_cons_self
      obtain ⟨hmoved, -⟩ := Lines.move front back h hpcb
      have hlines : (k.wakeProcess front.getLast? t).Lines ((front ++ [k.timerItems.pcb t]) ++ back)
          (waiting.erase (k.timerItems.pcb t)) := by
        rw [List.append_assoc, List.singleton_append]
        exact hmoved.congr (by rw [hframe]) (by rw [hframe])
      have hremoved : Represents (k.wakeProcess front.getLast? t).timerItems.list
          (k.wakeProcess front.getLast? t).timerList rest := by
        have hdetached := htimers.listDetach List.mem_cons_self
        rw [List.erase_cons_head] at hdetached
        rw [hframe]
        exact hdetached
      have hlast : (front ++ [k.timerItems.pcb t]).getLast? = some (k.timerItems.pcb t) := by simp
      obtain ⟨k', hwake, hwakes⟩ := ih _ hlines hremoved
        (by rw [hframe]; exact hsortedRest)
        (by rw [hframe]; exact hdistinctRest) (by
          rw [hframe]
          intro s hs
          rw [h.shows_waiting.nodup.mem_erase_iff]
          refine ⟨fun hsame ↦ hnew ?_, hwaits s (List.mem_cons_of_mem _ hs)⟩
          rw [← hsame]
          exact List.mem_map_of_mem hs)
        (Nat.le_of_succ_le_succ hbound)
      refine ⟨k', ?_, Wakes.cons h hfirst hdue hpcb hwakes⟩
      rw [wakeElapsed, hcurrent]
      rw [hlast] at hwake
      exact hwake
    · have hnone : k.timerListCurrent = none := by simp [timerListCurrent, hfirst, hdue]
      refine ⟨k, by simp [wakeElapsed, hnone], Wakes.refl h htimers ?_⟩
      intro s hs
      rcases List.mem_cons.mp hs with rfl | hs
      · omega
      · exact lt_of_lt_of_le (by omega) (hfirstEarliest s hs)

/-- What one call of `internal_schedule` does, with `p` running and `ready`, `waiting` and `timers`
the sequences that the lists show. The elapsed timers are removed and freed, and their processes
leave `waiting_list`. The sequence of these processes and of the old `ready_list` gives the new
running process and the new `ready_list`, with the old running process at the end; if there is no
such process, nothing at all changes. -/
structure Schedules (k k' : Kernel) (p : Addr) (ready waiting timers : List Addr) : Prop where
  kept : Represents k'.timerItems.list k'.timerList
    (timers.filter fun t ↦ k.disastrOSTime < k.timerItems.awakeningTime t)
  freed : k'.timerItems.allocator =
    (k.elapsed timers).foldl (fun pool t ↦ (pool.releaseBlock t).2) k.timerItems.allocator
  idle : k.elapsedPcbs timers ++ ready = [] → k' = k
  switches : ∀ next rest, k.elapsedPcbs timers ++ ready = next :: rest →
    k'.running = some next ∧
      k'.Lines (rest ++ [p]) (waiting.filter (· ∉ k.elapsedPcbs timers)) ∧
      k'.pcbs.status = update (update (fun q ↦ if q ∈ k.elapsedPcbs timers then .ready
        else k.pcbs.status q) p .ready) next .running
  conserves : ∀ next rest, k.elapsedPcbs timers ++ ready = next :: rest →
    (next :: rest ++ [p] ++ waiting.filter (· ∉ k.elapsedPcbs timers)).Perm (p :: ready ++ waiting)
  timer : k'.pcbs.timer = fun q ↦ if q ∈ k.elapsedPcbs timers then none else k.pcbs.timer q
  elsewhere : k.SameElsewhere k' (p :: ready) waiting
  frame : k' = { k with
    pcbs := { k.pcbs with
      list := k'.pcbs.list
      status := k'.pcbs.status
      timer := k'.pcbs.timer }
    lists := k'.lists
    timerItems := { k.timerItems with
      list := k'.timerItems.list
      allocator := k'.timerItems.allocator }
    timerList := k'.timerList
    running := k'.running }

end Kernel

/-- One call of `internal_schedule` ends and does exactly that. -/
theorem internalSchedule_exact (h : k.Lines ready waiting) (hp : k.running = some p)
    (hnotReady : p ∉ ready) (hnotWaiting : p ∉ waiting)
    (hunlinked : k.pcbs.list p = Links.unlinked)
    (htimers : Represents k.timerItems.list k.timerList timers)
    (hsorted : timers.Pairwise fun s t ↦
      k.timerItems.awakeningTime s ≤ k.timerItems.awakeningTime t)
    (hdistinct : (timers.map k.timerItems.pcb).Nodup)
    (hwaits : ∀ t ∈ timers, k.timerItems.pcb t ∈ waiting)
    (hpool : k.timerItems.allocator.Ok) (hmax : k.timerItems.allocator.sizeMax = maxNumProcesses)
    (hallocated : ∀ t ∈ timers, k.timerItems.allocator.Allocated t) :
    ∃ k', k.internalSchedule = some k' ∧ k.Schedules k' p ready waiting timers := by
  have hlength := Kernel.length_le_walkBound hpool hmax htimers.nodup hallocated
  obtain ⟨k₁, hwake, hwakes⟩ := Kernel.wakeElapsed_exact [] ready (by simpa using h)
    htimers hsorted hdistinct hwaits hlength
  have hsub : (k.elapsedPcbs timers).Sublist (timers.map k.timerItems.pcb) :=
    List.filter_sublist.map _
  have hwoken : ∀ q ∈ k.elapsedPcbs timers, q ∈ waiting := by
    intro q hq
    obtain ⟨t, ht, rfl⟩ := List.mem_map.mp (hsub.subset hq)
    exact hwaits t ht
  have hlines : k₁.Lines (k.elapsedPcbs timers ++ ready)
      (waiting.filter (· ∉ k.elapsedPcbs timers)) := by
    simpa using hwakes.lines
  have hframe := Kernel.wakeElapsed_eq walkBound hwake
  have hconserves : ∀ next rest, k.elapsedPcbs timers ++ ready = next :: rest →
      (next :: rest ++ [p] ++ waiting.filter (· ∉ k.elapsedPcbs timers)).Perm
        (p :: ready ++ waiting) := by
    intro next rest hnext
    have hperm := Processes.perm_of_woken h.shows_waiting.nodup (hdistinct.sublist hsub) hwoken
    rw [← hnext, List.perm_iff_count]
    intro q
    have hcount := hperm.count_eq q
    simp only [List.count_append, List.count_cons, List.count_nil] at hcount ⊢
    omega
  cases hqueue : k.elapsedPcbs timers ++ ready with
  | nil =>
    obtain ⟨hnobody, hnobodyReady⟩ := List.append_eq_nil_iff.mp hqueue
    obtain rfl := hwakes.quiet hnobody
    have hfirst : (k₁.lists .ready).first = none := by
      rw [h.shows_ready.first, hnobodyReady, List.head?_nil]
    have hswitch : k₁.switchToReady = some k₁ := by simp [Kernel.switchToReady, hfirst]
    refine ⟨k₁, Option.bind_eq_some_iff.mpr ⟨k₁, hwake, hswitch⟩, ?_⟩
    constructor
    · exact hwakes.kept
    · exact hwakes.freed
    · exact fun _ ↦ rfl
    · intro next rest hnext
      rw [hqueue] at hnext
      exact absurd hnext (by simp)
    · exact hconserves
    · exact hwakes.timer
    · exact ⟨fun _ _ _ ↦ rfl, rfl⟩
    · rfl
  | cons next rest =>
    have hnotQueued : p ∉ next :: rest := by
      rw [← hqueue, List.mem_append, not_or]
      exact ⟨fun hq ↦ hnotWaiting (hwoken p hq), hnotReady⟩
    have hstays : p ∉ waiting.filter (· ∉ k.elapsedPcbs timers) :=
      fun hq ↦ hnotWaiting (List.mem_of_mem_filter hq)
    have hlinks : k₁.pcbs.list p = Links.unlinked :=
      (hwakes.elsewhere.links p (by simpa using hnotReady) hnotWaiting).trans hunlinked
    have hp₁ : k₁.running = some p := by rw [hframe]; exact hp
    rw [hqueue] at hlines
    obtain ⟨k', hswitch, hrunning, hlines', helsewhere, hstatus, hframe'⟩ :=
      hlines.switch hp₁ hnotQueued hstays hlinks
    refine ⟨k', Option.bind_eq_some_iff.mpr ⟨k₁, hwake, hswitch⟩, ?_⟩
    · constructor
      · rw [hframe']
        exact hwakes.kept
      · rw [hframe']
        exact hwakes.freed
      · intro hnone
        rw [hqueue] at hnone
        exact absurd hnone (by simp)
      · intro next' rest' hnext
        obtain ⟨rfl, rfl⟩ := List.cons.inj (hqueue.symm.trans hnext)
        rw [hwakes.status] at hstatus
        exact ⟨hrunning, hlines', hstatus⟩
      · exact hconserves
      · rw [hframe']
        exact hwakes.timer
      · constructor
        · intro q hready hwaiting
          rw [List.mem_cons, not_or] at hready
          rw [helsewhere.links q ?_ fun hq ↦ hwaiting (List.mem_of_mem_filter hq)]
          · exact hwakes.elsewhere.links q (by simpa using hready.2) hwaiting
          · rw [← hqueue, List.mem_cons, List.mem_append, not_or, not_or]
            exact ⟨hready.1, fun hq ↦ hwaiting (hwoken q hq), hready.2⟩
        · exact helsewhere.zombies.trans hwakes.elsewhere.zombies
      · rw [hframe', hframe]

/-- The first process spawns two children; it and one of them sleep for one tick. -/
def twoSleepers : List Action :=
  [.start, .syscall .spawn, .syscall .spawn, .syscall (.sleep 1), .syscall (.sleep 1)]

/-- At the first tick both sleepers are woken. -/
theorem internalSchedule_exact_twoSleepers : ∃ k k' p ready waiting timers,
    (Runs.run Kernel.step sampleLayout.boot twoSleepers).map (fun k ↦
      { k with disastrOSTime := 1 }) = some k ∧
    k.internalSchedule = some k' ∧ (k.elapsedPcbs timers).length = 2 ∧
    k.Schedules k' p ready waiting timers := by
  have hends : ((Runs.run Kernel.step sampleLayout.boot twoSleepers).any fun k ↦
      k.running = some (0x400000 + 2 * 17544) ∧
        Represents k.pcbs.list (k.lists .ready) [] ∧
        Represents k.pcbs.list (k.lists .waiting) [0x400000, 0x400000 + 17544] ∧
        k.pcbs.list (0x400000 + 2 * 17544) = Links.unlinked ∧
        k.timerNodes.map k.timerItems.awakeningTime = [1, 1] ∧
        k.timerNodes.map k.timerItems.pcb = [0x400000, 0x400000 + 17544] ∧
        k.timerItems.allocator.sizeMax = maxNumProcesses) = true := by decide +kernel
  obtain ⟨k, hrun, hk⟩ := (Option.any_eq_true _ _).mp hends
  obtain ⟨hrunning, hready, hwaiting, hunlinked, htimes, hsleepers, hmax⟩ := of_decide_eq_true hk
  obtain ⟨v, ⟨s, hlists⟩, -⟩ := sampleLayout.shows_of_processes (by decide) hrun
  have htimers : k.TimersListed k.timerNodes := by
    have hlisted : k.TimersListed v.timers := hlists.timersListed.congr rfl rfl
    rwa [hlisted.timerNodes_eq]
  have hlines : Kernel.Lines { k with disastrOSTime := 1 } [] [0x400000, 0x400000 + 17544] :=
    ⟨hready, hwaiting, by simp⟩
  have hdue : ∀ t ∈ k.timerNodes, k.timerItems.awakeningTime t = 1 := by
    intro t ht
    have hmem := List.mem_map_of_mem (f := k.timerItems.awakeningTime) ht
    rw [htimes] at hmem
    simpa using hmem
  obtain ⟨k', hschedule, hexact⟩ := internalSchedule_exact hlines hrunning (by simp) (by decide)
    hunlinked htimers.represents
    (List.pairwise_of_forall_mem_list fun s hs t ht ↦ (hdue s hs).trans (hdue t ht).symm |>.le)
    (by show (k.timerNodes.map k.timerItems.pcb).Nodup; rw [hsleepers]; decide)
    (by
      intro t ht
      have hmem := List.mem_map_of_mem (f := k.timerItems.pcb) ht
      rwa [hsleepers] at hmem)
    htimers.pool hmax fun t ht ↦ (htimers.allocated t).mpr ht
  refine ⟨_, k', _, _, _, _, by rw [hrun]; rfl, hschedule, ?_, hexact⟩
  have hall : ({ k with disastrOSTime := 1 } : Kernel).elapsed k.timerNodes = k.timerNodes :=
    List.filter_eq_self.mpr fun t ht ↦ decide_eq_true (hdue t ht).le
  have hlength := congrArg List.length htimes
  rw [Kernel.elapsedPcbs, hall, List.length_map]
  simpa using hlength

namespace Kernel

/-! ### The users of a queue -/

/-- The user is marked `Waiting`, and its process waits. -/
def Wakeable (k : Kernel) (waiting : List Addr) (queueUsr : Addr) : Prop :=
  k.queueUsers.status queueUsr = .waiting ∧
    ∃ aux ∈ waiting, k.pcbs.pid aux = k.queueUsers.pid queueUsr

instance (waiting : List Addr) (queueUsr : Addr) : Decidable (k.Wakeable waiting queueUsr) :=
  inferInstanceAs (Decidable (_ ∧ _))

/-- The two loops end with the first user that can be woken, and its process. -/
theorem waitingUser_eq {entries : List Addr} {before : Option Addr} {bound : ℕ}
    (h : Represents k.pcbs.list (k.lists .waiting) waiting) (hlength : waiting.length ≤ walkBound)
    (husers : Segment k.queueUsers.list before entries none) (hbound : entries.length ≤ bound) :
    (∀ u ∈ entries, ¬ k.Wakeable waiting u) ∧ k.waitingUser bound entries.head? = some none ∨
      ∃ u aux, entries.find? (fun u ↦ k.Wakeable waiting u) = some u ∧ aux ∈ waiting ∧
        k.pcbs.pid aux = k.queueUsers.pid u ∧
        k.waitingUser bound entries.head? = some (some (u, aux)) := by
  induction entries generalizing before bound with
  | nil => exact Or.inl ⟨by simp, by cases bound <;> rfl⟩
  | cons u rest ih =>
    obtain ⟨bound, rfl⟩ : ∃ n, bound = n + 1 :=
      Nat.exists_eq_succ_of_ne_zero (by simp only [List.length_cons] at hbound; omega)
    have hnext : (k.queueUsers.list u).next = rest.head? := by rw [husers.1, Option.or_none]
    have hrest := ih husers.2 (by simpa using hbound)
    have hscan := h.scan_terminates (fun aux ↦ decide (k.pcbs.pid aux = k.queueUsers.pid u)) hlength
    rw [List.head?_cons]
    by_cases hwakeable : k.Wakeable waiting u
    · -- the inner loop finds the process of the user
      obtain ⟨hmarked, hlisted⟩ := hwakeable
      obtain ⟨aux, hfind⟩ := Option.isSome_iff_exists.mp (List.find?_isSome.mpr
        (by simpa using hlisted) :
          (waiting.find? fun aux ↦ k.pcbs.pid aux = k.queueUsers.pid u).isSome)
      rw [hfind] at hscan
      refine Or.inr ⟨u, aux, ?_, List.mem_of_find?_eq_some hfind, ?_, ?_⟩
      · exact List.find?_cons_of_pos (decide_eq_true ⟨hmarked, hlisted⟩)
      · simpa using List.find?_some hfind
      · simp [waitingUser, hmarked, hscan]
    · -- the user is not marked, or the inner loop falls off the end
      have hskip : k.waitingUser (bound + 1) (some u) = k.waitingUser bound rest.head? := by
        rw [waitingUser, hnext]
        split_ifs with hmarked
        · have hnone : (waiting.find? fun aux ↦ k.pcbs.pid aux = k.queueUsers.pid u) = none := by
            rw [List.find?_eq_none]
            intro aux haux hpid
            exact hwakeable ⟨hmarked, aux, haux, of_decide_eq_true hpid⟩
          rw [hnone] at hscan
          rw [hscan]
          rfl
        · rfl
      rw [hskip]
      rcases hrest with ⟨hnone, hwait⟩ | ⟨u', aux, hfind, haux, hpid, hwait⟩
      · left
        refine ⟨?_, hwait⟩
        intro u' hu'
        rcases List.mem_cons.mp hu' with rfl | hu'
        · exact hwakeable
        · exact hnone u' hu'
      · right
        refine ⟨u', aux, ?_, haux, hpid, hwait⟩
        rw [List.find?_cons_of_neg (by simpa using hwakeable)]
        exact hfind

/-- What one call of `internal_wakeUpQueue` does, with `p` running, `entries` the users of the queue
and `ready` and `waiting` the sequences that the lists show. If the condition holds and there is a
user that can be woken, the first one is marked `Running`, and its process goes from `waiting_list`
to the end of `ready_list`; otherwise only the return value is set. -/
structure WakesUp (k k' : Kernel) (p : Addr) (condition : Bool)
    (entries ready waiting : List Addr) : Prop where
  wakes : condition = true → ∀ u, entries.find? (fun u ↦ k.Wakeable waiting u) = some u →
    ∀ aux ∈ waiting, k.pcbs.pid aux = k.queueUsers.pid u →
      k'.Lines (ready ++ [aux]) (waiting.erase aux) ∧ k.SameElsewhere k' ready waiting ∧
        k' = { k with
          pcbs := { k.pcbs with
            list := k'.pcbs.list
            syscallRetvalue := update k.pcbs.syscallRetvalue p 0 }
          lists := k'.lists
          queueUsers.status := update k.queueUsers.status u .running }
  leaves : (condition = true → ∀ u ∈ entries, ¬ k.Wakeable waiting u) → k' = k.setRetvalue p 0

end Kernel

/-- One call of `internal_wakeUpQueue` ends and does exactly that. -/
theorem internalWakeUpQueue_exact {check : WakeupCheck} {q : Addr} {users : Addr × Role}
    {entries : List Addr} (h : k.Lines ready waiting) (hp : k.running = some p)
    (husers : Represents k.queueUsers.list (k.queues.users users) entries)
    (hpids : (waiting.map k.pcbs.pid).Nodup) (hpool : k.pcbs.allocator.Ok)
    (hmax : k.pcbs.allocator.sizeMax = maxNumProcesses)
    (hallocated : ∀ x ∈ waiting, k.pcbs.allocator.Allocated x)
    (huserPool : k.queueUsers.allocator.Ok)
    (huserMax : k.queueUsers.allocator.sizeMax = maxNumProcesses)
    (huserAllocated : ∀ u ∈ entries, k.queueUsers.allocator.Allocated u) :
    ∃ k', Kernel.internalWakeUpQueue check q users k = some k' ∧
      k.WakesUp k' p (k.wakeupCheck q check) entries ready waiting := by
  have hlength := Kernel.length_le_walkBound hpool hmax h.shows_waiting.nodup hallocated
  have huserLength := Kernel.length_le_walkBound huserPool huserMax husers.nodup huserAllocated
  have hsearch := Kernel.waitingUser_eq h.shows_waiting hlength husers.segment huserLength
  rw [← husers.first] at hsearch
  by_cases hcheck : k.wakeupCheck q check = true
  · rcases hsearch with ⟨hnone, hwait⟩ | ⟨u, aux, hfind, haux, hpid, hwait⟩
    · refine ⟨k.setRetvalue p 0, ?_, ?_⟩
      · simp [Kernel.internalWakeUpQueue, hp, hcheck, hwait]
      · constructor
        · intro _ u hfind
          have hwakeable : k.Wakeable waiting u := by simpa using List.find?_some hfind
          exact absurd hwakeable (hnone u (List.mem_of_find?_eq_some hfind))
        · exact fun _ ↦ rfl
    · refine ⟨(k.wakeUser u aux).setRetvalue p 0, ?_, ?_⟩
      · simp [Kernel.internalWakeUpQueue, hp, hcheck, hwait]
      · constructor
        · intro _ u' hfind' aux' haux' hpid'
          obtain rfl := Option.some.inj (hfind.symm.trans hfind')
          obtain rfl := List.inj_on_of_nodup_map hpids haux haux' (hpid.trans hpid'.symm)
          obtain ⟨hlines, helsewhere⟩ :=
            Kernel.Lines.move ready [] (by simpa using h) haux
          have hwakeUser : k.wakeUser u aux = { k.move ready aux with
              queueUsers.status := update k.queueUsers.status u .running } := by
            rw [Kernel.move, ← h.shows_ready.last]
            rfl
          rw [hwakeUser]
          refine ⟨hlines.congr rfl rfl, ?_, rfl⟩
          rw [List.append_nil] at helsewhere
          exact ⟨helsewhere.links, helsewhere.zombies⟩
        · intro hnone
          have hwakeable : k.Wakeable waiting u := by simpa using List.find?_some hfind
          exact absurd hwakeable (hnone hcheck u (List.mem_of_find?_eq_some hfind))
  · refine ⟨k.setRetvalue p 0, ?_, ?_⟩
    · simp [Kernel.internalWakeUpQueue, hp, hcheck]
    · constructor
      · exact fun htrue ↦ absurd htrue hcheck
      · exact fun _ ↦ rfl

/-- A queue with room and two writers. Both are marked `Waiting`, but the process of the first is not
in `waiting_list`; the process of the second waits there behind another one. -/
def staleMark : Kernel :=
  { sampleLayout.boot with
    running := some (0x400000 + 2 * 17544)
    pcbs := { sampleLayout.boot.pcbs with
      allocator := sampleLayout.boot.pcbs.allocator.getBlock.2.getBlock.2
      pid := update (update sampleLayout.boot.pcbs.pid 0x400000 7) (0x400000 + 17544) 8
      list := update (update sampleLayout.boot.pcbs.list 0x400000
        ⟨none, some (0x400000 + 17544)⟩) (0x400000 + 17544) ⟨some 0x400000, none⟩ }
    lists := update sampleLayout.boot.lists .waiting
      ⟨some 0x400000, some (0x400000 + 17544), 2⟩
    queues := { sampleLayout.boot.queues with
      maxMessages := update sampleLayout.boot.queues.maxMessages 0x1900000 1
      users := update sampleLayout.boot.queues.users (0x1900000, .writer)
        ⟨some 0x1F00000, some 0x1F00018, 2⟩ }
    queueUsers := { sampleLayout.boot.queueUsers with
      allocator := sampleLayout.boot.queueUsers.allocator.getBlock.2.getBlock.2
      pid := update (update sampleLayout.boot.queueUsers.pid 0x1F00000 9) 0x1F00018 8
      status := fun _ ↦ .waiting
      list := update (update sampleLayout.boot.queueUsers.list 0x1F00000
        ⟨none, some 0x1F00018⟩) 0x1F00018 ⟨some 0x1F00000, none⟩ } }

/-- The second writer is woken, and the mark of the first stays. -/
theorem internalWakeUpQueue_exact_staleMark : ∃ k',
    Kernel.internalWakeUpQueue .recv 0x1900000 (0x1900000, .writer) staleMark = some k' ∧
      k'.Lines [0x400000 + 17544] [0x400000] ∧ k'.queueUsers.status 0x1F00000 = .waiting ∧
      k'.queueUsers.status 0x1F00018 = .running := by
  have hpcbs := freshPool_ok sampleLayout.sizeofPCB_pos (by decide) sampleLayout.sizeofPCB_fits
    sampleLayout.pcbBuffer
  have husers := freshPool_ok (by decide : 1 ≤ sizeofQueueUser) (by decide : 1 ≤ maxNumProcesses)
    (by decide) sampleLayout.queueUsersBuffer
  have hgetPcb : sampleLayout.boot.pcbs.allocator.getBlock =
      (some 0x400000, sampleLayout.boot.pcbs.allocator.getBlock.2) := rfl
  have hgetPcb' : sampleLayout.boot.pcbs.allocator.getBlock.2.getBlock =
      (some (0x400000 + 17544), staleMark.pcbs.allocator) := rfl
  have hgetUser : sampleLayout.boot.queueUsers.allocator.getBlock =
      (some 0x1F00000, sampleLayout.boot.queueUsers.allocator.getBlock.2) := rfl
  have hgetUser' : sampleLayout.boot.queueUsers.allocator.getBlock.2.getBlock =
      (some 0x1F00018, staleMark.queueUsers.allocator) := rfl
  obtain ⟨hpool, -, -, -, hallocated⟩ := PoolAllocator.getBlock_some hpcbs.1 hgetPcb
  obtain ⟨hpool', -, -, -, hallocated'⟩ := PoolAllocator.getBlock_some hpool hgetPcb'
  obtain ⟨huserPool, -, -, -, huserAllocated⟩ := PoolAllocator.getBlock_some husers.1 hgetUser
  obtain ⟨huserPool', -, -, -, huserAllocated'⟩ := PoolAllocator.getBlock_some huserPool hgetUser'
  have hlines : staleMark.Lines [] [0x400000, 0x400000 + 17544] :=
    ⟨by decide +kernel, by decide +kernel, by simp⟩
  have hentries : Represents staleMark.queueUsers.list
      (staleMark.queues.users (0x1900000, .writer)) [0x1F00000, 0x1F00018] := by decide +kernel
  obtain ⟨k', hwake, hexact⟩ := internalWakeUpQueue_exact (q := 0x1900000) hlines rfl hentries
    (by decide +kernel) hpool' rfl (by simp [hallocated, hallocated']) huserPool' rfl
    (by simp [huserAllocated, huserAllocated'])
  have hroom : staleMark.wakeupCheck 0x1900000 .recv = true := by decide +kernel
  have hwakes := hexact.wakes hroom 0x1F00018 (by decide +kernel) (0x400000 + 17544) (by simp)
    (by decide +kernel)
  refine ⟨k', hwake, hwakes.1, ?_, ?_⟩
  · rw [hwakes.2.2]
    rfl
  · rw [hwakes.2.2]
    simp

end DisastrOS
