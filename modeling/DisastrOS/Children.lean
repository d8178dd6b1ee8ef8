import DisastrOS.Termination

/-!
# The children of a process

What `internal_exit` and `internal_wait` do with the children of a process, and what
`internal_spawn` and `internal_fork` do when there is no room for another one.

The loop of `internal_exit` that hands the children to the init process ends after as many turns as
there are children, unless the process is the init process itself: it then takes a child out of the
list and puts it at the end of the same list for ever (`reparentsAll_iff`).

The search of `internal_wait` leaves its cursor on the last child when no child has the pid that was
asked for, so the call reaps that child, or blocks, instead of failing (`waitsFor_iff`).

`PCB_alloc` and `PCBPtr_alloc` write to the block without a look at whether there is one, so the
check for null in the callers comes too late (`not_failsCleanly`).
-/

set_option autoImplicit false
set_option relaxedAutoImplicit false

namespace DisastrOS

open LinkedLists
open Function (update)

variable {k k' : Kernel} {p i x : Addr} {kids : Addr → List Addr}

namespace Kernel

/-! ### Handing the children to the init process -/

/-- The init process takes a child out of its list and puts it at the end of the same list. -/
theorem handToInit_self {rest : List Addr} (h : Family k.pcbPtrs.list k.pcbs.children kids)
    (hkids : kids p = x :: rest) :
    Family (k.handToInit p p x).pcbPtrs.list (k.handToInit p p x).pcbs.children
      (update kids p (rest ++ [x])) := by
  have hx : x ∈ kids p := hkids ▸ List.mem_cons_self
  have hdetach := h.listDetach hx
  have hlast := hdetach.listInsert_last p (listDetach_list_self ..) (h.notMem_erase hx)
  rw [hkids, List.erase_cons_head, Function.update_self p rest kids,
    Function.update_idem _ _ kids] at hlast
  exact hlast

/-- With the init process as source and destination the loop does not end. -/
theorem reparent_self (h : Family k.pcbPtrs.list k.pcbs.children kids) (hkids : kids p ≠ [])
    (bound : ℕ) : reparent p p bound k = none := by
  obtain ⟨x, rest, hcons⟩ := List.exists_cons_of_ne_nil hkids
  have hfirst : (k.pcbs.children p).first = some x := by
    rw [(h.represents p).first, hcons, List.head?_cons]
  induction bound generalizing k kids x rest with
  | zero =>
    rw [reparent, hfirst]
    rfl
  | succ bound ih =>
    have hturn := handToInit_self h hcons
    have hself : update kids p (rest ++ [x]) p = rest ++ [x] := Function.update_self ..
    have hne : update kids p (rest ++ [x]) p ≠ [] := by rw [hself]; simp
    obtain ⟨y, others, hnext⟩ := List.exists_cons_of_ne_nil hne
    have hnextFirst : ((k.handToInit p p x).pcbs.children p).first = some y := by
      rw [(hturn.represents p).first, hnext, List.head?_cons]
    rw [reparent, hfirst]
    exact ih hturn hne y others hnext hnextFirst

/-- The loop ends with a number of turns exactly when there are no more children than that. -/
theorem length_le_of_reparent {bound : ℕ} (h : Family k.pcbPtrs.list k.pcbs.children kids)
    (hne : p ≠ i) (hsome : (reparent p i bound k).isSome) : (kids p).length ≤ bound := by
  induction bound generalizing k kids with
  | zero =>
    rw [reparent, (h.represents p).first] at hsome
    cases hkids : kids p with
    | nil => rfl
    | cons x rest => simp [hkids] at hsome
  | succ bound ih =>
    rw [reparent, (h.represents p).first] at hsome
    cases hkids : kids p with
    | nil => exact Nat.zero_le _
    | cons x rest =>
      rw [hkids] at hsome
      have hrest := ih (handToInit_children h hne hkids) hsome
      rw [Function.update_of_ne hne, Function.update_self] at hrest
      exact Nat.succ_le_succ hrest

/-- The signals of a process after a signal was sent to the processes `others`. -/
def signalled (k : Kernel) (signal : BitVec 32) (others : List Addr) (q : Addr) : BitVec 32 :=
  if q ∈ others then k.pcbs.signals q ||| (signal &&& k.pcbs.signalsMask q) else k.pcbs.signals q

theorem signalled_nil (k : Kernel) (signal : BitVec 32) :
    k.signalled signal [] = k.pcbs.signals := by
  funext q
  exact if_neg List.not_mem_nil

/-- Sending a signal to one process and then to others is sending it to all of them, also when a
process is among them twice. -/
theorem signalled_cons {signal : BitVec 32} {q : Addr} {others : List Addr}
    (hsignals : k'.pcbs.signals =
      update k.pcbs.signals q (k.pcbs.signals q ||| (signal &&& k.pcbs.signalsMask q)))
    (hmask : k'.pcbs.signalsMask = k.pcbs.signalsMask) :
    k'.signalled signal others = k.signalled signal (q :: others) := by
  funext r
  unfold signalled
  rw [hsignals, hmask]
  by_cases hr : r = q
  · subst hr
    rw [Function.update_self, if_pos List.mem_cons_self, BitVec.or_assoc, BitVec.or_self, ite_self]
  · rw [Function.update_of_ne hr]
    exact if_congr (by rw [List.mem_cons, or_iff_right hr]) rfl rfl

/-- Every child gets `SIGHUP`, if its mask lets it through. -/
theorem reparent_signals {bound : ℕ} (h : Family k.pcbPtrs.list k.pcbs.children kids) (hne : p ≠ i)
    (hreparent : reparent p i bound k = some k') :
    k'.pcbs.signals = k.signalled dsosSighup ((kids p).map k.pcbPtrs.pcb) := by
  induction bound generalizing k kids with
  | zero =>
    have hlength := length_le_of_reparent h hne (Option.isSome_of_eq_some hreparent)
    rw [List.length_eq_zero_iff.mp (Nat.le_zero.mp hlength), List.map_nil, signalled_nil]
    rw [reparent] at hreparent
    split_ifs at hreparent
    obtain rfl := Option.some.inj hreparent
    rfl
  | succ bound ih =>
    rw [reparent, (h.represents p).first] at hreparent
    cases hkids : kids p with
    | nil =>
      rw [hkids] at hreparent
      obtain rfl := Option.some.inj hreparent
      rw [List.map_nil, signalled_nil]
    | cons x rest =>
      rw [hkids] at hreparent
      have hrest := ih (handToInit_children h hne hkids) hreparent
      rw [Function.update_of_ne hne, Function.update_self] at hrest
      rw [hrest, List.map_cons]
      exact signalled_cons rfl rfl

/-- What the loop of `internal_exit` over the children of `p` has to do: it ends after as many turns
as there are children, and unless `p` is the init process `i`, the children are then at the end of
those of `i`, in order, and every one of them has got `SIGHUP` where its mask allows it. Apart from
that nothing changes. -/
structure ReparentsAll (k : Kernel) (p i : Addr) (kids : Addr → List Addr) : Prop where
  terminates : ∀ bound, (reparent p i bound k).isSome ↔ (kids p).length ≤ bound
  hands : p ≠ i → ∀ bound k', reparent p i bound k = some k' →
    Family k'.pcbPtrs.list k'.pcbs.children (update (update kids p []) i (kids i ++ kids p)) ∧
      k'.pcbs.signals = k.signalled dsosSighup ((kids p).map k.pcbPtrs.pcb) ∧
      k' = { k with
        pcbPtrs.list := k'.pcbPtrs.list
        pcbs := { k.pcbs with children := k'.pcbs.children, signals := k'.pcbs.signals } }

end Kernel

/-- The loop over the children does what it has to unless the init process itself exits while it has
children. -/
theorem reparentsAll_iff (h : Family k.pcbPtrs.list k.pcbs.children kids) :
    k.ReparentsAll p i kids ↔ (p ≠ i ∨ kids p = []) := by
  constructor
  · intro hall
    by_contra hinit
    rw [not_or, not_not] at hinit
    obtain ⟨rfl, hkids⟩ := hinit
    have hends := (hall.terminates (kids p).length).mpr le_rfl
    rw [Kernel.reparent_self h hkids] at hends
    exact absurd hends (by simp)
  · intro hcases
    constructor
    · intro bound
      by_cases hne : p = i
      · have hkids : kids p = [] := hcases.resolve_left fun hdifferent ↦ hdifferent hne
        have hfirst : (k.pcbs.children p).first = none := by
          rw [(h.represents p).first, hkids, List.head?_nil]
        rw [hkids]
        cases bound <;> simp [Kernel.reparent, hfirst]
      · exact ⟨Kernel.length_le_of_reparent h hne, Kernel.reparent_isSome h hne⟩
    · intro hne bound k' hreparent
      exact ⟨Kernel.reparent_spec h hne hreparent, Kernel.reparent_signals h hne hreparent,
        Kernel.reparent_eq hreparent⟩

/-- The processes of a run in which only processes are concerned are in order. -/
theorem Layout.shows_of_processes (layout : Layout) {actions : List Action}
    (hactions : ∀ a ∈ actions, a.ofProcesses = true)
    (hrun : Runs.run Kernel.step layout.boot actions = some k) : ∃ v, k.Shows v ∧ v.Consistent := by
  have hstart : layout.boot.Satisfies fun _ _ ↦ True := layout.boot_satisfies trivial
  obtain ⟨-, v, hshows, hv, -⟩ := Kernel.satisfies_run
    (fun k a ha c hrequest ↦ Kernel.concernsUsers_of_processes
      (Kernel.concernsProcesses_of_request (k := k) ha hrequest))
    (fun _ _ _ _ _ _ _ _ _ _ _ _ ↦ trivial) hstart
    (Runs.Meets.of_forall layout.boot hactions) hrun
  exact ⟨v, hshows, hv⟩

theorem Kernel.Shows.children {v : Processes} (h : k.Shows v) :
    Family k.pcbPtrs.list k.pcbs.children v.children := by
  obtain ⟨s, hlists⟩ := h
  exact hlists.children

/-- A child of the first process has two children of its own. -/
theorem reparentsAll_iff_grandchildren : ∃ k p i kids,
    Runs.run Kernel.step sampleLayout.boot
        [.start, .syscall .spawn, .timer, .syscall .spawn, .syscall .spawn] = some k ∧
      k.running = some p ∧ k.initPcb = some i ∧ (kids p).length = 2 ∧ k.ReparentsAll p i kids := by
  have hends : (Runs.run Kernel.step sampleLayout.boot
      [.start, .syscall .spawn, .timer, .syscall .spawn, .syscall .spawn]).map (fun k ↦
        (k.running, k.initPcb,
          ((k.pcbs.children (0x400000 + 17544)).toList k.pcbPtrs.list).length)) =
      some (some (0x400000 + 17544), some 0x400000, 2) := by decide +kernel
  obtain ⟨k, hrun, hk⟩ := Option.map_eq_some_iff.mp hends
  obtain ⟨hrunning, hinit, hlength⟩ : k.running = some (0x400000 + 17544) ∧
      k.initPcb = some 0x400000 ∧
      ((k.pcbs.children (0x400000 + 17544)).toList k.pcbPtrs.list).length = 2 := by
    simpa only [Prod.mk.injEq] using hk
  obtain ⟨v, hshows, -⟩ := sampleLayout.shows_of_processes (by decide) hrun
  rw [(hshows.children.represents _).toList_eq] at hlength
  exact ⟨k, _, _, v.children, hrun, hrunning, hinit, hlength,
    (reparentsAll_iff hshows.children).mpr (Or.inl (by decide))⟩

/-- The first process has a child and exits. -/
theorem initExits_not_reparentsAll : ∃ k p kids,
    Runs.run Kernel.step sampleLayout.boot [.start, .syscall .spawn] = some k ∧
      k.running = some p ∧ k.initPcb = some p ∧
      Family k.pcbPtrs.list k.pcbs.children kids ∧ ¬ k.ReparentsAll p p kids := by
  have hends : (Runs.run Kernel.step sampleLayout.boot [.start, .syscall .spawn]).map (fun k ↦
      (k.running, k.initPcb, (k.pcbs.children 0x400000).first.isSome)) =
        some (some 0x400000, some 0x400000, true) := by decide +kernel
  obtain ⟨k, hrun, hk⟩ := Option.map_eq_some_iff.mp hends
  obtain ⟨hrunning, hinit, hfirst⟩ : k.running = some 0x400000 ∧ k.initPcb = some 0x400000 ∧
      (k.pcbs.children 0x400000).first.isSome = true := by
    simpa only [Prod.mk.injEq] using hk
  obtain ⟨v, hshows, -⟩ := sampleLayout.shows_of_processes (by decide) hrun
  have hkids : v.children 0x400000 ≠ [] := by
    intro hnil
    rw [hshows.children_eq_nil.mpr hnil] at hfirst
    exact absurd hfirst (by simp)
  refine ⟨k, _, v.children, hrun, hrunning, hinit, hshows.children, fun hall ↦ ?_⟩
  have hterminates := (hall.terminates (v.children 0x400000).length).mpr le_rfl
  rw [Kernel.reparent_self hshows.children hkids] at hterminates
  exact absurd hterminates (by simp)

namespace Kernel

/-! ### Waiting for a child -/

/-- The search of `internal_wait` stops at the child of `x`. -/
def sought (k : Kernel) (pid : ℤ) (x : Addr) : Bool :=
  if pid = 0 then k.pcbs.status (k.pcbPtrs.pcb x) = .zombie else k.pcbs.pid (k.pcbPtrs.pcb x) = pid

theorem sought_of_pos {pid : ℤ} (hpos : 0 < pid) :
    k.sought pid = fun x ↦ decide (k.pcbs.pid (k.pcbPtrs.pcb x) = pid) := by
  funext x
  simp [sought, hpos.ne']

theorem sought_zero : k.sought 0 = fun x ↦ decide (k.pcbs.status (k.pcbPtrs.pcb x) = .zombie) := by
  funext x
  simp [sought]

/-- What becomes of the call when the search ends at the child of `x`. -/
def settleWait (k : Kernel) (p x : Addr) (result : Option Addr) : Kernel :=
  if k.pcbs.status (k.pcbPtrs.pcb x) = .zombie then k.reapZombie p x result else k.blockInWait p

theorem internalWait_childless (h : Family k.pcbPtrs.list k.pcbs.children kids)
    (hp : k.running = some p) (hkids : kids p = []) (pid : ℤ) (result : Option Addr) :
    internalWait pid result k = some (k.setRetvalue p dsosEwait) := by
  have hfirst : (k.pcbs.children p).first = none := by
    rw [(h.represents p).first, hkids, List.head?_nil]
  simp [internalWait, hp, hfirst]

/-- A process with children reaps a child, or blocks: the search ends at the first child that is
sought, or at the last one. -/
theorem internalWait_eq (h : Family k.pcbPtrs.list k.pcbs.children kids)
    (hlength : (kids p).length ≤ walkBound) (hp : k.running = some p) (hkids : kids p ≠ [])
    (pid : ℤ) (result : Option Addr) : ∃ x ∈ kids p,
      ((kids p).find? (k.sought pid)).or (kids p).getLast? = some x ∧
        internalWait pid result k = some (k.settleWait p x result) := by
  obtain ⟨awaited, hsearch⟩ := Option.isSome_iff_exists.mp
    (awaitedPcbPtr_isSome (h.represents p).segment hlength pid none)
  have hawaited : awaited = ((kids p).find? (k.sought pid)).or (kids p).getLast? := by
    have hends := awaitedPcbPtr_eq (h.represents p).segment hsearch
    rw [Option.or_none] at hends
    exact hends
  obtain ⟨last, hlast⟩ := Option.isSome_iff_exists.mp (List.getLast?_isSome.mpr hkids)
  obtain ⟨x, hx, hmem⟩ : ∃ x, awaited = some x ∧ x ∈ kids p := by
    rw [hawaited]
    cases hfind : (kids p).find? (k.sought pid) with
    | none => exact ⟨last, hlast, List.mem_of_getLast? hlast⟩
    | some x => exact ⟨x, rfl, List.mem_of_find?_eq_some hfind⟩
  subst hx
  refine ⟨x, hmem, hawaited.symm, ?_⟩
  have hfirst : (k.pcbs.children p).first.isNone = false := by
    rw [(h.represents p).first, Option.isNone_eq_false_iff, List.isSome_head?]
    exact hkids
  rw [← (h.represents p).first] at hsearch
  simp only [internalWait, hp, Option.bind_eq_bind, Option.bind_some, hfirst, Bool.false_eq_true,
    if_false, hsearch, settleWait]
  split_ifs <;> rfl

/-- The child that is sought is the one that the search ends at. -/
theorem internalWait_found (h : Family k.pcbPtrs.list k.pcbs.children kids)
    (hlength : (kids p).length ≤ walkBound) (hp : k.running = some p) {pid : ℤ}
    (hfind : (kids p).find? (k.sought pid) = some x) (result : Option Addr) :
    internalWait pid result k = some (k.settleWait p x result) := by
  have hkids : kids p ≠ [] := List.ne_nil_of_mem (List.mem_of_find?_eq_some hfind)
  obtain ⟨y, -, hy, hwait⟩ := internalWait_eq h hlength hp hkids pid result
  rw [hfind, Option.some_or] at hy
  obtain rfl := Option.some.inj hy
  exact hwait

/-- The child that was reaped is no longer among the children. -/
theorem reapZombie_children (h : Family k.pcbPtrs.list k.pcbs.children kids) (hx : x ∈ kids p)
    (result : Option Addr) :
    Family (k.reapZombie p x result).pcbPtrs.list (k.reapZombie p x result).pcbs.children
      (update kids p ((kids p).erase x)) := by
  rw [reapZombie_eq]
  exact h.listDetach hx

/-- A call that reaps a child or blocks does not fail. -/
theorem settleWait_ne (h : Family k.pcbPtrs.list k.pcbs.children kids) (hp : k.running = some p)
    (hready : (k.lists .ready).first ≠ some p) (hx : x ∈ kids p) (result : Option Addr) :
    k.settleWait p x result ≠ k.setRetvalue p dsosEwait := by
  intro hsame
  unfold settleWait at hsame
  split_ifs at hsame with hzombie
  · have hsize := ((reapZombie_children h hx result).represents p).size
    rw [hsame, Function.update_self, List.length_erase_of_mem hx] at hsize
    have hold : (k.pcbs.children p).size = (kids p).length := (h.represents p).size
    have hnew : (k.pcbs.children p).size = ((kids p).length - 1 : ℕ) := hsize
    have hpos : 0 < (kids p).length := List.length_pos_of_mem hx
    omega
  · have hrunning := congrArg Kernel.running hsame
    have hfirst : (k.blockInWait p).running = (k.lists .ready).first := rfl
    rw [hfirst] at hrunning
    exact hready (hrunning.trans hp)

/-- What `internal_wait` has to do for the running process `p`. With a positive `pid` it fails, and
changes nothing else, when no child has that pid; otherwise it reaps the child with that pid if it
is a zombie, and blocks if it is not. With `pid` 0 it reaps the first zombie child in the order of
the list; it blocks when there are children and none is a zombie, and fails when there are none. -/
structure WaitsFor (k : Kernel) (p : Addr) (kids : List Addr) (pid : ℤ) (result : Option Addr) :
    Prop where
  absent : 0 < pid → (∀ x ∈ kids, k.pcbs.pid (k.pcbPtrs.pcb x) ≠ pid) →
    internalWait pid result k = some (k.setRetvalue p dsosEwait)
  reaps : 0 < pid → ∀ x, (kids.find? fun x ↦ k.pcbs.pid (k.pcbPtrs.pcb x) = pid) = some x →
    k.pcbs.status (k.pcbPtrs.pcb x) = .zombie →
      internalWait pid result k = some (k.reapZombie p x result)
  blocks : 0 < pid → ∀ x, (kids.find? fun x ↦ k.pcbs.pid (k.pcbPtrs.pcb x) = pid) = some x →
    k.pcbs.status (k.pcbPtrs.pcb x) ≠ .zombie → internalWait pid result k = some (k.blockInWait p)
  reapsFirst : pid = 0 →
    ∀ x, (kids.find? fun x ↦ k.pcbs.status (k.pcbPtrs.pcb x) = .zombie) = some x →
      internalWait pid result k = some (k.reapZombie p x result)
  blocksForAny : pid = 0 → kids ≠ [] →
    (∀ x ∈ kids, k.pcbs.status (k.pcbPtrs.pcb x) ≠ .zombie) →
      internalWait pid result k = some (k.blockInWait p)
  childless : pid = 0 → kids = [] → internalWait pid result k = some (k.setRetvalue p dsosEwait)

end Kernel

/-- `internal_wait` does what it has to unless a positive pid is asked for that no child has, while
there are children. -/
theorem waitsFor_iff (h : Family k.pcbPtrs.list k.pcbs.children kids)
    (hpool : k.pcbPtrs.allocator.Ok) (hmax : k.pcbPtrs.allocator.sizeMax = maxNumProcesses)
    (hallocated : ∀ x ∈ kids p, k.pcbPtrs.allocator.Allocated x) (hp : k.running = some p)
    (hready : (k.lists .ready).first ≠ some p) (pid : ℤ) (result : Option Addr) :
    k.WaitsFor p (kids p) pid result ↔
      (0 < pid → kids p = [] ∨ ∃ x ∈ kids p, k.pcbs.pid (k.pcbPtrs.pcb x) = pid) := by
  have hlength := Kernel.length_le_walkBound hpool hmax (h.represents p).nodup hallocated
  constructor
  · intro hwaits hpos
    by_contra hnone
    rw [not_or] at hnone
    obtain ⟨hkids, habsent⟩ := hnone
    obtain ⟨x, hx, -, hwait⟩ := Kernel.internalWait_eq h hlength hp hkids pid result
    have hfails := hwaits.absent hpos fun y hy hpid ↦ habsent ⟨y, hy, hpid⟩
    exact Kernel.settleWait_ne h hp hready hx result (Option.some.inj (hwait.symm.trans hfails))
  · intro hcondition
    have hfound : ∀ x, (kids p).find? (k.sought pid) = some x →
        Kernel.internalWait pid result k = some (k.settleWait p x result) := by
      intro x hfind
      exact Kernel.internalWait_found h hlength hp hfind result
    constructor
    · intro hpos habsent
      rcases hcondition hpos with hkids | ⟨x, hx, hpid⟩
      · exact Kernel.internalWait_childless h hp hkids pid result
      · exact absurd hpid (habsent x hx)
    · intro hpos x hfind hzombie
      rw [hfound x (by rwa [Kernel.sought_of_pos hpos]), Kernel.settleWait, if_pos hzombie]
    · intro hpos x hfind hzombie
      rw [hfound x (by rwa [Kernel.sought_of_pos hpos]), Kernel.settleWait, if_neg hzombie]
    · rintro rfl x hfind
      have hzombie : k.pcbs.status (k.pcbPtrs.pcb x) = .zombie := by
        simpa using List.find?_some hfind
      rw [hfound x (by rwa [Kernel.sought_zero]), Kernel.settleWait, if_pos hzombie]
    · rintro rfl hkids hnone
      obtain ⟨x, hx, -, hwait⟩ := Kernel.internalWait_eq h hlength hp hkids 0 result
      rw [hwait, Kernel.settleWait, if_neg (hnone x hx)]
    · rintro rfl hkids
      exact Kernel.internalWait_childless h hp hkids 0 result

/-- The first process has a child that has exited, and then one that lives. It waits for each by its
pid. -/
theorem waitsFor_iff_zombieAndLive : ∃ (k : Kernel) (kids : Addr → List Addr),
    Runs.run Kernel.step sampleLayout.boot
        [.start, .syscall .spawn, .syscall .spawn, .timer, .syscall (.exit 7), .timer] = some k ∧
      (kids 0x400000).map (fun x ↦ k.pcbs.status (k.pcbPtrs.pcb x)) = [.zombie, .ready] ∧
      k.WaitsFor 0x400000 (kids 0x400000) 1 none ∧ k.WaitsFor 0x400000 (kids 0x400000) 2 none := by
  have hends : (Runs.run Kernel.step sampleLayout.boot
      [.start, .syscall .spawn, .syscall .spawn, .timer, .syscall (.exit 7), .timer]).map (fun k ↦
        (k.running, (k.lists .ready).first, k.pcbPtrs.allocator.sizeMax,
          ((k.pcbs.children 0x400000).toList k.pcbPtrs.list).map (fun x ↦
            k.pcbs.status (k.pcbPtrs.pcb x)),
          ((k.pcbs.children 0x400000).toList k.pcbPtrs.list).map fun x ↦
            k.pcbs.pid (k.pcbPtrs.pcb x))) =
      some (some 0x400000, some (0x400000 + 2 * 17544), maxNumProcesses, [.zombie, .ready],
        [1, 2]) := by decide +kernel
  obtain ⟨k, hrun, hk⟩ := Option.map_eq_some_iff.mp hends
  simp only [Prod.mk.injEq] at hk
  obtain ⟨hrunning, hready, hmax, hstatus, hpids⟩ := hk
  obtain ⟨v, ⟨s, hlists⟩, -⟩ := sampleLayout.shows_of_processes (by decide) hrun
  have hkids : Family k.pcbPtrs.list k.pcbs.children v.children := hlists.children
  rw [(hkids.represents 0x400000).toList_eq] at hstatus hpids
  have hnotReady : (k.lists .ready).first ≠ some 0x400000 := by
    rw [hready]
    decide
  have hchild : ∀ pid ∈ ([1, 2] : List ℤ),
      ∃ x ∈ v.children 0x400000, k.pcbs.pid (k.pcbPtrs.pcb x) = pid := by
    intro pid hpid
    rw [← hpids] at hpid
    exact List.mem_map.mp hpid
  have hwaits (pid : ℤ) (hpid : pid ∈ ([1, 2] : List ℤ)) :
      k.WaitsFor 0x400000 (v.children 0x400000) pid none :=
    (waitsFor_iff hkids hlists.pointerPool hmax (hlists.pointer_allocated 0x400000) hrunning
      hnotReady pid none).mpr fun _ ↦ Or.inr (hchild pid hpid)
  exact ⟨k, v.children, hrun, hstatus, hwaits 1 (by decide), hwaits 2 (by decide)⟩

/-- The first process spawns a child, which then exits while nobody waits for it. -/
def zombieChild : List Action := [.start, .syscall .spawn, .timer, .syscall (.exit 7)]

/-- The pids of the children of the first process, and what it gets from a `wait` for pid 5. -/
theorem zombieChild_ends : ∃ k, Runs.run Kernel.step sampleLayout.boot zombieChild = some k ∧
    k.running = some 0x400000 ∧
    (((k.pcbs.children 0x400000).toList k.pcbPtrs.list).map fun x ↦
      k.pcbs.pid (k.pcbPtrs.pcb x)) = [1] ∧
    (Kernel.internalWait 5 none k).map (fun k' ↦ k'.pcbs.syscallRetvalue 0x400000) = some 1 := by
  have hends : (Runs.run Kernel.step sampleLayout.boot zombieChild).map (fun k ↦
      (k.running,
        ((k.pcbs.children 0x400000).toList k.pcbPtrs.list).map fun x ↦
          k.pcbs.pid (k.pcbPtrs.pcb x),
        (Kernel.internalWait 5 none k).map fun k' ↦ k'.pcbs.syscallRetvalue 0x400000)) =
      some (some 0x400000, [1], some 1) := by decide +kernel
  obtain ⟨k, hrun, hk⟩ := Option.map_eq_some_iff.mp hends
  refine ⟨k, hrun, ?_⟩
  simpa only [Prod.mk.injEq] using hk

/-- The first process waits for a pid that it has no child of, and gets its zombie child. -/
theorem zombieChild_not_waitsFor : ∃ (k : Kernel) (kids : Addr → List Addr),
    Runs.run Kernel.step sampleLayout.boot zombieChild = some k ∧ k.running = some 0x400000 ∧
      Family k.pcbPtrs.list k.pcbs.children kids ∧
      ¬ k.WaitsFor 0x400000 (kids 0x400000) 5 none := by
  obtain ⟨k, hrun, hrunning, hpids, hwait⟩ := zombieChild_ends
  obtain ⟨v, hshows, -⟩ := sampleLayout.shows_of_processes (by decide) hrun
  rw [(hshows.children.represents 0x400000).toList_eq] at hpids
  refine ⟨k, v.children, hrun, hrunning, hshows.children, fun hwaits ↦ ?_⟩
  have habsent : ∀ x ∈ v.children 0x400000, k.pcbs.pid (k.pcbPtrs.pcb x) ≠ 5 := by
    intro x hx hpid
    have hmem := List.mem_map_of_mem (f := fun x ↦ k.pcbs.pid (k.pcbPtrs.pcb x)) hx
    rw [hpids, hpid] at hmem
    exact absurd hmem (by decide)
  have hfails : (k.setRetvalue 0x400000 dsosEwait).pcbs.syscallRetvalue 0x400000 = dsosEwait := by
    simp [Kernel.setRetvalue]
  rw [hwaits.absent (by decide) habsent, Option.map_some, hfails] at hwait
  exact absurd hwait (by decide)

namespace Kernel

/-! ### Creating a process when a pool is empty -/

/-- What a `fork` or `spawn` of the process `p` that finds no room has to do: the call returns
`DSOS_ESPAWN` and leaves `ready_list`, the children of `p`, the free blocks of the two pools and the
next pid as they are. -/
def FailsCleanly (k : Kernel) (p : Addr) (c : Syscall) : Prop :=
  ∃ k', k.step (.syscall c) = some k' ∧ k'.pcbs.syscallRetvalue p = dsosEspawn ∧
    k'.pcbNodes .ready = k.pcbNodes .ready ∧ k'.lists .ready = k.lists .ready ∧
    k'.pcbs.children p = k.pcbs.children p ∧
    k'.pcbs.allocator.size = k.pcbs.allocator.size ∧
    k'.pcbPtrs.allocator.size = k.pcbPtrs.allocator.size ∧ k'.lastPid = k.lastPid

/-- One of the two pools that a new process needs a block of has none left. -/
def NoRoom (k : Kernel) : Prop :=
  k.pcbs.allocator.getBlock.1 = none ∨ k.pcbPtrs.allocator.getBlock.1 = none

/-- Without room the call goes no further. -/
theorem newProcess_eq_none (h : k.NoRoom) : k.newProcess = none := by
  by_contra hsome
  obtain ⟨⟨c, k'⟩, hnew⟩ := Option.ne_none_iff_exists'.mp hsome
  obtain ⟨_, _, _, _, -, hpcb, -, hptr, -⟩ := newProcess_cases hnew
  rcases h with hnone | hnone
  · rw [hpcb] at hnone
    exact absurd hnone (by simp)
  · rw [hptr] at hnone
    exact absurd hnone (by simp)

/-- A step that creates a process has found room. -/
theorem step_eq_none_of_noRoom (h : k.NoRoom) {c : Syscall} (hcall : c = .fork ∨ c = .spawn) :
    k.step (.syscall c) = none := by
  by_contra hsome
  obtain ⟨k', hstep⟩ := Option.ne_none_iff_exists'.mp hsome
  rw [step] at hstep
  split_ifs at hstep
  obtain ⟨p, -, hvector⟩ := Option.bind_eq_some_iff.mp hstep
  have hnone := newProcess_eq_none
    (k := { k with pcbs.syscall := update k.pcbs.syscall p (some c) }) h
  rcases hcall with rfl | rfl
  · simp [syscallVector, internalFork, hnone] at hvector
  · simp [syscallVector, internalSpawn, hnone] at hvector

/-- The process `p` runs its own code, and `left` more processes fit into the pool of the PCBs. -/
structure Spawning (k : Kernel) (p : Addr) (left : ℕ) : Prop where
  running : k.running = some p
  atUser : ∃ ret, k.pcbs.cpuState p = .user ret
  pool : k.pcbs.allocator.Ok
  allocated : k.pcbs.allocator.Allocated p
  pointerPool : k.pcbPtrs.allocator.Ok
  size : k.pcbs.allocator.size = left
  pointerSize : k.pcbPtrs.allocator.size = left + 1
  lastPid : k.lastPid + left = maxNumProcesses

theorem newProcess_eq {c : Addr} {pool ptrPool : PoolAllocator} (hp : k.running = some p)
    (hpcb : k.pcbs.allocator.getBlock = (some c, pool)) (hpid : k.lastPid ≠ intMax)
    (hptr : k.pcbPtrs.allocator.getBlock = (some x, ptrPool)) :
    k.newProcess = some (c, ((((k.resetPcb c pool).setStatus c .ready).setParent c p).resetPcbPtr x
      ptrPool c).adopt p c x) := by
  have halloc : k.pcbAlloc = some (c, k.resetPcb c pool) := by
    rw [pcbAlloc, hpcb]
    exact if_neg hpid
  have hptrAlloc : (((k.resetPcb c pool).setStatus c .ready).setParent c p).pcbPtrAlloc c =
      some (x, (((k.resetPcb c pool).setStatus c .ready).setParent c p).resetPcbPtr x ptrPool
        c) := by
    have hsame : (((k.resetPcb c pool).setStatus c .ready).setParent c p).pcbPtrs.allocator.getBlock
        = (some x, ptrPool) := hptr
    rw [pcbPtrAlloc, hsame]
  rw [newProcess, hp, Option.bind_eq_bind, Option.bind_some, halloc, Option.bind_eq_bind,
    Option.bind_some]
  simp only [hptrAlloc, Option.bind_some]

/-- A `spawn` that finds room. -/
theorem step_spawn_eq {c : Addr} {pool ptrPool : PoolAllocator} (hatUser : k.atUser = true)
    (hp : k.running = some p) (hpcb : k.pcbs.allocator.getBlock = (some c, pool))
    (hpid : k.lastPid ≠ intMax) (hptr : k.pcbPtrs.allocator.getBlock = (some x, ptrPool)) :
    k.step (.syscall .spawn) = some (((((({ k with
      pcbs.syscall := update k.pcbs.syscall p (some .spawn) }.resetPcb c pool).setStatus c
        .ready).setParent c p).resetPcbPtr x ptrPool c).adopt p c x).setContext c (.user 0)) := by
  have hnew := newProcess_eq
    (k := { k with pcbs.syscall := update k.pcbs.syscall p (some .spawn) }) hp hpcb hpid hptr
  rw [step, if_pos hatUser]
  exact Option.bind_eq_some_iff.mpr ⟨p, hp, Option.bind_eq_some_iff.mpr ⟨_, hnew, rfl⟩⟩

/-- A `spawn` takes one block of each pool and one pid. -/
theorem Spawning.step {left : ℕ} (h : k.Spawning p (left + 1)) :
    ∃ k', k.step (.syscall .spawn) = some k' ∧ k'.Spawning p left := by
  have hsize := h.size
  have hpointerSize := h.pointerSize
  have hlastPid := h.lastPid
  obtain ⟨ret, huser⟩ := h.atUser
  rcases hpcb : k.pcbs.allocator.getBlock with ⟨_ | c, pool⟩
  · have hzero := h.pool.getBlock_eq_none_iff.mp (by rw [hpcb])
    omega
  rcases hptr : k.pcbPtrs.allocator.getBlock with ⟨_ | x, ptrPool⟩
  · have hzero := h.pointerPool.getBlock_eq_none_iff.mp (by rw [hptr])
    omega
  obtain ⟨hpool, -, hfree, hpoolSize, hallocated⟩ := PoolAllocator.getBlock_some h.pool hpcb
  obtain ⟨hptrPool, -, -, hptrSize, -⟩ := PoolAllocator.getBlock_some h.pointerPool hptr
  have hpid : k.lastPid ≠ intMax := by
    have hmax : intMax = 2147483647 := rfl
    have hprocesses : maxNumProcesses = 1024 := rfl
    omega
  have hne : p ≠ c := by
    rintro rfl
    exact hfree h.allocated
  have hatUser : k.atUser = true := by simp [Kernel.atUser, context, h.running, huser]
  refine ⟨_, step_spawn_eq hatUser h.running hpcb hpid hptr, ?_⟩
  constructor
  · exact h.running
  · exact ⟨ret, (Function.update_of_ne hne ..).trans huser⟩
  · exact hpool
  · exact (hallocated p).mpr (Or.inr h.allocated)
  · exact hptrPool
  · show pool.size = left
    push_cast at hsize
    omega
  · show ptrPool.size = left + 1
    push_cast at hpointerSize
    omega
  · show k.lastPid + 1 + left = maxNumProcesses
    push_cast at hlastPid
    omega

/-- A process can spawn until the pool of the PCBs is empty. -/
theorem Spawning.run {left : ℕ} (h : k.Spawning p left) :
    ∃ k', Runs.run Kernel.step k (List.replicate left (.syscall .spawn)) = some k' ∧
      k'.Spawning p 0 := by
  induction left generalizing k with
  | zero => exact ⟨k, rfl, h⟩
  | succ left ih =>
    obtain ⟨k₁, hstep, h₁⟩ := h.step
    obtain ⟨k', hrun, h'⟩ := ih h₁
    exact ⟨k', Runs.run_cons_eq_some.mpr ⟨k₁, hstep, hrun⟩, h'⟩

theorem Spawning.noRoom (h : k.Spawning p 0) : k.NoRoom :=
  Or.inl (h.pool.getBlock_eq_none_iff.mpr h.size)

/-- The first process takes one block of the pool of the PCBs and the pid 0. -/
theorem spawning_start : ∃ k, sampleLayout.boot.step .start = some k ∧
    k.Spawning 0x400000 1023 := by
  have hends : (sampleLayout.boot.step .start).map Kernel.running = some (some 0x400000) := by
    decide +kernel
  obtain ⟨k, hstep, hrunning⟩ := Option.map_eq_some_iff.mp hends
  have hpcbs := freshPool_ok sampleLayout.sizeofPCB_pos (by decide) sampleLayout.sizeofPCB_fits
    sampleLayout.pcbBuffer
  have hptrs := freshPool_ok (by decide : 1 ≤ sizeofPCBPtr) (by decide : 1 ≤ maxNumProcesses)
    (by decide) sampleLayout.pcbPtrBuffer
  obtain ⟨-, p, pool, hget, rfl⟩ := startProcess_cases hstep
  obtain rfl : p = 0x400000 := Option.some.inj hrunning
  obtain ⟨hpool, -, -, hsize, hallocated⟩ := PoolAllocator.getBlock_some hpcbs.1 hget
  refine ⟨_, hstep, ?_⟩
  constructor
  · rfl
  · exact ⟨0, by simp [setContext]⟩
  · exact hpool
  · exact (hallocated 0x400000).mpr (Or.inl rfl)
  · exact hptrs.1
  · exact hsize
  · rfl
  · rfl

end Kernel

/-- No `fork` or `spawn` that finds no room fails in the way it has to. -/
theorem not_failsCleanly (h : k.NoRoom) (p : Addr) {c : Syscall} (hcall : c = .fork ∨ c = .spawn) :
    ¬ k.FailsCleanly p c := by
  rintro ⟨k', hstep, -⟩
  rw [Kernel.step_eq_none_of_noRoom h hcall] at hstep
  exact absurd hstep (by simp)

/-- The first process, and then a spawn for every other block of the pool of the PCBs. -/
def spawnAll : List Action := .start :: List.replicate 1023 (.syscall .spawn)

theorem spawnAll_noRoom : ∃ k, Runs.run Kernel.step sampleLayout.boot spawnAll = some k ∧
    k.running = some 0x400000 ∧ k.atUser = true ∧ k.NoRoom := by
  obtain ⟨k₀, hstart, h₀⟩ := Kernel.spawning_start
  obtain ⟨k, hrun, h⟩ := h₀.run
  obtain ⟨ret, huser⟩ := h.atUser
  refine ⟨k, Runs.run_cons_eq_some.mpr ⟨k₀, hstart, hrun⟩, h.running, ?_, h.noRoom⟩
  simp [Kernel.atUser, Kernel.context, h.running, huser]

theorem not_failsCleanly_fork : ∃ k, Runs.run Kernel.step sampleLayout.boot spawnAll = some k ∧
    k.NoRoom ∧ ¬ k.FailsCleanly 0x400000 .fork := by
  obtain ⟨k, hrun, -, -, hroom⟩ := spawnAll_noRoom
  exact ⟨k, hrun, hroom, not_failsCleanly hroom 0x400000 (Or.inl rfl)⟩

/-- The first process has spawned until there is no room, and spawns once more. -/
theorem spawnAll_not_failsCleanly : ∃ k,
    Runs.run Kernel.step sampleLayout.boot spawnAll = some k ∧ k.running = some 0x400000 ∧
      k.atUser = true ∧ k.NoRoom ∧ ¬ k.FailsCleanly 0x400000 .spawn := by
  obtain ⟨k, hrun, hrunning, hatUser, hroom⟩ := spawnAll_noRoom
  refine ⟨k, hrun, hrunning, hatUser, hroom, ?_⟩
  rintro ⟨k', hstep, -⟩
  rw [Kernel.step_eq_none_of_noRoom hroom (Or.inr rfl)] at hstep
  exact absurd hstep (by simp)

end DisastrOS
