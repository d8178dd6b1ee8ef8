import DisastrOS.Scheduling

/-!
# Exit and wait

The effect of `internal_wait` and `internal_exit` on the lists of PCBs and on the timers, and what the
loops of `internal_exit` leave alone.
-/

set_option autoImplicit false
set_option relaxedAutoImplicit false

namespace DisastrOS

open LinkedLists
open Function (update)

namespace Kernel

variable {k k' : Kernel} {nodes : PcbList → List Addr} {timers : List Addr}

/-! ### Wait -/

/-- What `internal_wait` does: it fails, takes a zombie away, or blocks. -/
theorem internalWait_cases {pid : ℤ} {result : Option Addr}
    (hwait : internalWait pid result k = some k') :
    ∃ p, k.running = some p ∧
      ((k.pcbs.children p).first = none ∧ k' = k.setRetvalue p dsosEwait ∨
        ∃ awaited, (k.pcbs.children p).first ≠ none ∧
          k.awaitedPcbPtr pid walkBound none (k.pcbs.children p).first = some awaited ∧
          ((∃ x, awaited = some x ∧ k.pcbs.status (k.pcbPtrs.pcb x) = .zombie ∧
              k' = k.reapZombie p x result) ∨
            (∀ x, awaited = some x → k.pcbs.status (k.pcbPtrs.pcb x) ≠ .zombie) ∧
              ((awaited = none → pid ≤ 0) ∧ k' = k.blockInWait p ∨
                0 < pid ∧ awaited = none ∧ k' = k.setRetvalue p dsosEwait))) := by
  obtain ⟨p, hp, hrest⟩ := Option.bind_eq_some_iff.mp hwait
  refine ⟨p, hp, ?_⟩
  by_cases hchildren : (k.pcbs.children p).first.isNone
  · rw [if_pos hchildren] at hrest
    exact Or.inl ⟨Option.isNone_iff_eq_none.mp hchildren, (Option.some.inj hrest).symm⟩
  · rw [if_neg hchildren] at hrest
    rw [Option.isNone_iff_eq_none] at hchildren
    obtain ⟨awaited, hawaited, hk'⟩ := Option.bind_eq_some_iff.mp hrest
    refine Or.inr ⟨awaited, hchildren, hawaited, ?_⟩
    cases awaited with
    | none =>
      right
      refine ⟨fun x hx ↦ absurd hx (by simp), ?_⟩
      dsimp only at hk'
      split_ifs at hk' with hpid
      · exact Or.inr ⟨hpid, rfl, (Option.some.inj hk').symm⟩
      · exact Or.inl ⟨fun _ ↦ not_lt.mp hpid, (Option.some.inj hk').symm⟩
    | some x =>
      dsimp only at hk'
      split_ifs at hk' with hzombie
      · exact Or.inl ⟨x, rfl, hzombie, (Option.some.inj hk').symm⟩
      · exact Or.inr ⟨fun y hy ↦ Option.some.inj hy ▸ hzombie,
          Or.inl ⟨fun hnone ↦ absurd hnone (by simp), (Option.some.inj hk').symm⟩⟩

/-- The search among the children looks at the pointers, the states and the pids. -/
theorem awaitedPcbPtr_congr (hptrs : k'.pcbPtrs = k.pcbPtrs) (hstatus : k'.pcbs.status = k.pcbs.status)
    (hpid : k'.pcbs.pid = k.pcbs.pid) (pid : ℤ) (bound : ℕ) (awaited start : Option Addr) :
    k'.awaitedPcbPtr pid bound awaited start = k.awaitedPcbPtr pid bound awaited start := by
  induction bound generalizing awaited start with
  | zero => cases start <;> rfl
  | succ bound ih =>
    cases start with
    | none => rfl
    | some x => simp only [awaitedPcbPtr, hptrs, hstatus, hpid, ih]

/-- What taking a zombie away leaves alone. -/
theorem reapZombie_eq (k : Kernel) (p x : Addr) (result : Option Addr) :
    k.reapZombie p x result =
      { k with
        pcbs := { k.pcbs with
          allocator := (k.pcbs.allocator.releaseBlock (k.pcbPtrs.pcb x)).2
          list := (listDetach k.pcbs.list (k.lists .zombie) (some (k.pcbPtrs.pcb x))).list
          children := update k.pcbs.children p
            (listDetach k.pcbPtrs.list (k.pcbs.children p) (some x)).head
          syscallRetvalue :=
            update k.pcbs.syscallRetvalue p (k.pcbs.pid (k.pcbPtrs.pcb x)) }
        pcbPtrs := { k.pcbPtrs with
          allocator := (k.pcbPtrs.allocator.releaseBlock x).2
          list := (listDetach k.pcbPtrs.list (k.pcbs.children p) (some x)).list }
        lists := update k.lists .zombie
          (listDetach k.pcbs.list (k.lists .zombie) (some (k.pcbPtrs.pcb x))).head
        userInts := match result with
          | none => k.userInts
          | some a => update k.userInts a (k.pcbs.returnValue (k.pcbPtrs.pcb x)) } := by
  rfl

/-- A zombie leaves `zombie_list` and is freed. -/
theorem Scheduled.reapZombie (h : k.Scheduled nodes) {x : Addr}
    (hzombie : k.pcbPtrs.pcb x ∈ nodes .zombie) (p : Addr) (result : Option Addr) :
    (k.reapZombie p x result).Scheduled
      (update nodes .zombie ((nodes .zombie).erase (k.pcbPtrs.pcb x))) := by
  set c := k.pcbPtrs.pcb x
  obtain ⟨hok, -, hallocated⟩ := h.pool.release (h.allocated .zombie c hzombie)
  have hgone := h.threads.notMem_erase hzombie
  have hmem : ∀ i q, q ∈ update nodes .zombie ((nodes .zombie).erase c) i ↔
      q ≠ c ∧ q ∈ nodes i := by
    intro i q
    by_cases hqc : q = c
    · exact iff_of_false (hqc ▸ hgone i) fun hmem ↦ hmem.1 hqc
    · by_cases hi : i = .zombie
      · subst hi
        rw [Function.update_self, List.mem_erase_of_ne hqc]
        exact (and_iff_right hqc).symm
      · rw [Function.update_of_ne hi]
        exact (and_iff_right hqc).symm
  rw [reapZombie_eq]
  refine ⟨h.threads.listDetach hzombie, hok, fun i q hq ↦ ?_, fun q hq ↦ ?_, fun q hq ↦ ?_,
    fun q hq ↦ ?_, fun q hq ↦ ?_⟩
  · obtain ⟨hqc, hq⟩ := (hmem i q).mp hq
    exact (hallocated q).mpr ⟨hqc, h.allocated i q hq⟩
  · obtain ⟨hqc, hq⟩ := (hallocated q).mp hq
    exact (h.covered q hq).imp_right fun ⟨i, hi⟩ ↦ ⟨i, (hmem i q).mpr ⟨hqc, hi⟩⟩
  · refine (hallocated q).mpr ⟨fun hqc ↦ ?_, h.running_allocated q hq⟩
    exact h.running_notZombie q hq (hqc ▸ hzombie)
  · exact fun hmemReady ↦ h.running_notReady q hq ((hmem .ready q).mp hmemReady).2
  · exact fun hmemZombie ↦ h.running_notZombie q hq ((hmem .zombie q).mp hmemZombie).2

/-! ### The loops of exit -/

/-- What handing the children over leaves alone. -/
theorem reparent_eq {p initPcb : Addr} {bound : ℕ} (hreparent : reparent p initPcb bound k = some k') :
    k' = { k with
      pcbPtrs.list := k'.pcbPtrs.list
      pcbs := { k.pcbs with children := k'.pcbs.children, signals := k'.pcbs.signals } } := by
  induction bound generalizing k with
  | zero =>
    rw [reparent] at hreparent
    split_ifs at hreparent
    obtain rfl := Option.some.inj hreparent
    rfl
  | succ bound ih =>
    rw [reparent] at hreparent
    split at hreparent
    · obtain rfl := Option.some.inj hreparent
      rfl
    · have hframe := ih hreparent
      exact hframe

/-- A process becomes a zombie: what is left alone, apart from the lists of PCBs. -/
theorem becomeZombie_cases {p : Addr} {value : ℤ} (hzombie : k.becomeZombie p value = some k') :
    ∃ initPcb k₁, k.initPcb = some initPcb ∧
      reparent p initPcb walkBound
        { k with pcbs.returnValue := update k.pcbs.returnValue p value } = some k₁ ∧
      k' = (k₁.setStatus p .zombie).insertPcb .zombie (k₁.lists .zombie).last (some p) := by
  obtain ⟨initPcb, hinit, hrest⟩ := Option.bind_eq_some_iff.mp hzombie
  obtain ⟨k₁, hreparent, hk'⟩ := Option.bind_eq_some_iff.mp hrest
  exact ⟨initPcb, k₁, hinit, hreparent, (Option.some.inj hk').symm⟩

/-- A timer is taken out and freed. -/
theorem TimersListed.release {front back : List Addr} {t : Addr}
    (h : k.TimersListed (front ++ t :: back)) :
    ((k.detachTimer (some t)).timerItemFree t).TimersListed (front ++ back) := by
  have hmem : t ∈ front ++ t :: back := by simp
  have hfront : t ∉ front := fun hin ↦
    (List.nodup_append.mp h.represents.nodup).2.2 t hin t List.mem_cons_self rfl
  have hback : t ∉ back :=
    (List.nodup_cons.mp (List.nodup_append.mp h.represents.nodup).2.1).1
  have hdetach := h.represents.listDetach hmem
  rw [List.erase_append_right _ hfront, List.erase_cons_head] at hdetach
  obtain ⟨hok, -, hallocated⟩ := h.pool.release ((h.allocated t).mpr hmem)
  refine ⟨hdetach, hok, fun x ↦ (hallocated x).trans ?_⟩
  rw [h.allocated, List.mem_append, List.mem_append, List.mem_cons]
  constructor
  · tauto
  · rintro (hx | hx)
    · exact ⟨fun hxt ↦ hfront (hxt ▸ hx), Or.inl hx⟩
    · exact ⟨fun hxt ↦ hback (hxt ▸ hx), Or.inr (Or.inr hx)⟩

/-- The timers of the process are removed. -/
theorem releaseTimers_spec {p : Addr} {bound : ℕ} {front back : List Addr}
    (h : k.TimersListed (front ++ back))
    (hrelease : releaseTimers p bound back.head? k = some k') :
    k'.TimersListed (front ++ back.filter fun t ↦ k.timerItems.pcb t ≠ p) := by
  induction bound generalizing k front back with
  | zero =>
    cases back with
    | nil =>
      obtain rfl : k = k' := by simpa [releaseTimers] using hrelease
      exact h
    | cons t rest => simp [releaseTimers] at hrelease
  | succ bound ih =>
    cases back with
    | nil =>
      obtain rfl : k = k' := by simpa [releaseTimers] using hrelease
      exact h
    | cons t rest =>
      have hnext : (k.timerItems.list t).next = rest.head? := by rw [h.represents.links]
      rw [List.head?_cons, releaseTimers, hnext] at hrelease
      rw [List.filter_cons]
      by_cases hpcb : k.timerItems.pcb t = p
      · rw [if_pos hpcb] at hrelease
        have hspec := ih h.release hrelease
        rw [if_neg (by simpa using hpcb)]
        exact hspec
      · rw [if_neg hpcb] at hrelease
        have hsplit : k.TimersListed ((front ++ [t]) ++ rest) := by simpa using h
        simpa [hpcb] using ih hsplit hrelease

theorem releaseTimers_eq {p : Addr} {bound : ℕ} {start : Option Addr}
    (hrelease : releaseTimers p bound start k = some k') :
    k' = { k with
      timerItems := { k.timerItems with
        list := k'.timerItems.list
        allocator := k'.timerItems.allocator }
      timerList := k'.timerList } := by
  induction bound generalizing k start with
  | zero =>
    cases start with
    | none =>
      obtain rfl : k = k' := by simpa [releaseTimers] using hrelease
      rfl
    | some t => simp [releaseTimers] at hrelease
  | succ bound ih =>
    cases start with
    | none =>
      obtain rfl : k = k' := by simpa [releaseTimers] using hrelease
      rfl
    | some t =>
      rw [releaseTimers] at hrelease
      split_ifs at hrelease
      · have hframe := ih hrelease
        exact hframe
      · exact ih hrelease

/-- What leaving the queues and closing the descriptors leaves alone. -/
theorem leaveQueue_eq {p des : Addr} (hleave : k.leaveQueue p des = some k') :
    k' = { k with
      queueUsers.list := k'.queueUsers.list
      queues.users := k'.queues.users } := by
  have hentry : ∀ {k k' : Kernel} {q : Option Addr} {role : Role} {entry : Option Addr},
      k.detachEntry q role entry = some k' →
        k' = { k with queueUsers.list := k'.queueUsers.list, queues.users := k'.queues.users } := by
    intro k k' q role entry hdetach
    cases entry with
    | none =>
      obtain rfl := Option.some.inj hdetach
      rfl
    | some qu =>
      cases q with
      | none => simp [detachEntry] at hdetach
      | some q =>
        obtain rfl := Option.some.inj hdetach
        rfl
  unfold leaveQueue at hleave
  split_ifs at hleave
  case neg =>
    obtain rfl := Option.some.inj hleave
    rfl
  obtain ⟨entries, -, hrest⟩ := Option.bind_eq_some_iff.mp hleave
  obtain ⟨ds, -, hrest⟩ := Option.bind_eq_some_iff.mp hrest
  obtain ⟨k₁, h₁, hrest⟩ := Option.bind_eq_some_iff.mp hrest
  obtain ⟨k₂, h₂, h₃⟩ := Option.bind_eq_some_iff.mp hrest
  have hframe := hentry h₃
  rw [hentry h₂, hentry h₁] at hframe
  exact hframe

theorem releaseDescriptors_eq {p : Addr} {bound : ℕ} (hrelease : releaseDescriptors p bound k = some k') :
    k' = { k with
      queueUsers.list := k'.queueUsers.list
      queues.users := k'.queues.users
      pcbs.descriptors := k'.pcbs.descriptors
      descriptors := { k.descriptors with
        list := k'.descriptors.list
        allocator := k'.descriptors.allocator }
      descriptorPtrs := { k.descriptorPtrs with
        list := k'.descriptorPtrs.list
        allocator := k'.descriptorPtrs.allocator }
      resources.descriptorsPtrs := k'.resources.descriptorsPtrs } := by
  induction bound generalizing k with
  | zero =>
    rw [releaseDescriptors] at hrelease
    split_ifs at hrelease
    obtain rfl := Option.some.inj hrelease
    rfl
  | succ bound ih =>
    rw [releaseDescriptors] at hrelease
    split at hrelease
    · obtain rfl := Option.some.inj hrelease
      rfl
    · obtain ⟨k₁, hleave, hrest⟩ := Option.bind_eq_some_iff.mp hrelease
      have hframe := ih hrest
      rw [leaveQueue_eq hleave] at hframe
      exact hframe

/-! ### Exit -/

/-- What `internal_exit` does: the process becomes a zombie, and then the parent gets its value and
runs, or the first ready process runs. -/
theorem internalExit_cases {value : ℤ} (hexit : internalExit value k = some k') :
    ∃ p k₁ parent, k.running = some p ∧ k.becomeZombie p value = some k₁ ∧
      k₁.pcbs.parent p = some parent ∧
      ((k₁.sendSignal parent dsosSigchld).awaits parent p = true ∧
          (k₁.sendSignal parent dsosSigchld).exitToParent p parent = some k' ∨
        (k₁.sendSignal parent dsosSigchld).awaits parent p = false ∧
          (k₁.sendSignal parent dsosSigchld).exitToReady = some k') := by
  obtain ⟨p, hp, hrest⟩ := Option.bind_eq_some_iff.mp hexit
  obtain ⟨k₁, hzombie, hrest⟩ := Option.bind_eq_some_iff.mp hrest
  obtain ⟨parent, hparent, hrest⟩ := Option.bind_eq_some_iff.mp hrest
  refine ⟨p, k₁, parent, hp, hzombie, hparent, ?_⟩
  dsimp only at hrest
  split_ifs at hrest with hawaits
  · exact Or.inl ⟨hawaits, hrest⟩
  · exact Or.inr ⟨by simpa using hawaits, hrest⟩

/-- What becoming a zombie leaves alone. -/
theorem becomeZombie_eq {p : Addr} {value : ℤ} (hzombie : k.becomeZombie p value = some k') :
    k' = { k with
      pcbPtrs.list := k'.pcbPtrs.list
      lists := k'.lists
      pcbs := { k.pcbs with
        list := k'.pcbs.list
        returnValue := update k.pcbs.returnValue p value
        status := update k.pcbs.status p .zombie
        children := k'.pcbs.children
        signals := k'.pcbs.signals } } := by
  obtain ⟨initPcb, k₁, -, hreparent, rfl⟩ := becomeZombie_cases hzombie
  have hframe := reparent_eq hreparent
  rw [hframe]
  rfl

/-- The parent waits before the exit exactly when it does at the point where the code looks. A process
that is its own parent does not wait. -/
theorem becomeZombie_awaits {p parent : Addr} {value : ℤ}
    (hzombie : k.becomeZombie p value = some k') (signal : BitVec 32) :
    (k'.sendSignal parent signal).awaits parent p =
      (decide (parent ≠ p) && k.awaits parent p) := by
  rw [becomeZombie_eq hzombie]
  by_cases hself : parent = p
  · subst hself
    simp [awaits, sendSignal]
  · simp [awaits, sendSignal, hself]
    rfl

/-- The lists after the process became a zombie. -/
theorem threads_becomeZombie (h : k.Scheduled nodes) {p : Addr} {value : ℤ}
    (hrunning : k.running = some p) (halone : nodes .waiting ≠ [p])
    (hzombie : k.becomeZombie p value = some k') :
    Threads k'.pcbs.list k'.lists (parkedNodes nodes .zombie p) := by
  obtain ⟨initPcb, k₁, -, hreparent, rfl⟩ := becomeZombie_cases hzombie
  have hframe := reparent_eq hreparent
  have hthreads : Threads (k₁.setStatus p .zombie).pcbs.list (k₁.setStatus p .zombie).lists
      nodes := by
    rw [hframe]
    exact h.threads
  exact threads_park hthreads .zombie (h.running_notReady p hrunning)
    (h.running_notZombie p hrunning) halone

/-- A process exits and its parent does not wait: it stays a zombie, and the first ready process
runs. -/
theorem Scheduled.exitToReady (h : k.Scheduled nodes) {p : Addr} {value : ℤ}
    (hrunning : k.running = some p) (halone : nodes .waiting ≠ [p]) {k₁ : Kernel}
    (hzombie : k.becomeZombie p value = some k₁) (parent : Addr)
    (hexit : (k₁.sendSignal parent dsosSigchld).exitToReady = some k') :
    ∃ next rest, nodes .ready = next :: rest ∧ k'.running = some next ∧
      k'.Scheduled (update (parkedNodes nodes .zombie p) .ready rest) := by
  obtain ⟨initPcb, k₀, -, hreparent, hk₁⟩ := becomeZombie_cases hzombie
  have hframe := reparent_eq hreparent
  obtain ⟨hdispatch, hnext⟩ : k₁.dispatchReady.Scheduled
        (update (parkedNodes nodes .zombie p) .ready (nodes .ready).tail) ∧
      k₁.dispatchReady.running = (nodes .ready).head? := by
    rw [hk₁]
    exact h.park (k₀.setStatus p .zombie) (by decide) hrunning halone
      (by rw [hframe]; rfl) (by rw [hframe]; rfl) (by rw [hframe]; rfl)
  obtain ⟨next, hfirst, hk'⟩ := Option.bind_eq_some_iff.mp hexit
  obtain rfl := Option.some.inj hk'
  have hfirst' : (k₁.lists .ready).first = some next := hfirst
  have hhead : (nodes .ready).head? = some next := hnext.symm.trans hfirst'
  obtain ⟨rest, hrest⟩ : ∃ rest, nodes .ready = next :: rest := by
    cases hcases : nodes .ready with
    | nil => simp [hcases] at hhead
    | cons a rest => exact ⟨rest, by simpa [hcases] using hhead⟩
  refine ⟨next, rest, hrest, rfl, ?_⟩
  rw [hrest, List.tail_cons] at hdispatch
  simp only [dispatchReady, hfirst'] at hdispatch
  exact hdispatch.congr rfl rfl rfl rfl

theorem exitToReady_eq (hexit : k.exitToReady = some k') :
    k' = { k with
      pcbs := { k.pcbs with list := k'.pcbs.list, status := k'.pcbs.status }
      lists := k'.lists
      running := k'.running } := by
  obtain ⟨next, -, hk'⟩ := Option.bind_eq_some_iff.mp hexit
  rw [← Option.some.inj hk']
  rfl

/-- What handing the value to the parent leaves alone, before the process is freed. -/
theorem exitToParent_cases {p parent : Addr} (hexit : k.exitToParent p parent = some k') :
    ∃ selfInParent k₁ k₂,
      k₁ = ((((k.detachPcb .waiting (some parent)).setStatus parent .running).detachChild parent
        selfInParent).setRetvalue parent (k.pcbs.pid p)).storeResult (k.waitResult parent)
          (k.pcbs.returnValue p) ∧
      ((k.detachPcb .waiting (some parent)).setStatus parent .running).pcbPtrByPID
        (k.pcbs.children parent) (k.pcbs.pid p) = some selfInParent ∧
      releaseTimers p walkBound k₁.timerList.first k₁ = some k₂ ∧
      ∃ k₃, releaseDescriptors p walkBound k₂ = some k₃ ∧
        k' = { (k₃.detachPcb .zombie (some p)).pcbFree p with running := some parent } := by
  obtain ⟨selfInParent, hself, hrest⟩ := Option.bind_eq_some_iff.mp hexit
  obtain ⟨k₂, htimers, hrest⟩ := Option.bind_eq_some_iff.mp hrest
  obtain ⟨k₃, hdescriptors, hk'⟩ := Option.bind_eq_some_iff.mp hrest
  exact ⟨selfInParent, _, k₂, rfl, hself, htimers, k₃, hdescriptors, (Option.some.inj hk').symm⟩

/-- The timers of a process that has given its value to its parent are gone. -/
theorem TimersListed.exitToParent (h : k.TimersListed timers) {p parent : Addr}
    (hexit : k.exitToParent p parent = some k') :
    k'.TimersListed (timers.filter fun t ↦ k.timerItems.pcb t ≠ p) := by
  obtain ⟨selfInParent, k₁, k₂, hk₁, -, htimers, k₃, hdescriptors, rfl⟩ := exitToParent_cases hexit
  have h₁ : k₁.TimersListed ([] ++ timers) := h.congr (by rw [hk₁]; rfl) (by rw [hk₁]; rfl)
  rw [h₁.represents.first, List.nil_append] at htimers
  have h₂ := releaseTimers_spec h₁ htimers
  have hsame : k₁.timerItems.pcb = k.timerItems.pcb := by rw [hk₁]; rfl
  rw [hsame, List.nil_append] at h₂
  exact h₂.congr (by rw [releaseDescriptors_eq hdescriptors]; rfl)
    (by rw [releaseDescriptors_eq hdescriptors]; rfl)

/-- What handing the value to the parent leaves alone. -/
theorem exitToParent_eq {p parent : Addr} (hexit : k.exitToParent p parent = some k') :
    k' = { k with
      pcbs := { k.pcbs with
        allocator := (k.pcbs.allocator.releaseBlock p).2
        list := k'.pcbs.list
        status := update k.pcbs.status parent .running
        children := k'.pcbs.children
        descriptors := k'.pcbs.descriptors
        syscallRetvalue := update k.pcbs.syscallRetvalue parent (k.pcbs.pid p) }
      pcbPtrs := { k.pcbPtrs with list := k'.pcbPtrs.list }
      timerItems := { k.timerItems with
        list := k'.timerItems.list
        allocator := k'.timerItems.allocator }
      resources := { k.resources with descriptorsPtrs := k'.resources.descriptorsPtrs }
      descriptors := { k.descriptors with
        list := k'.descriptors.list
        allocator := k'.descriptors.allocator }
      descriptorPtrs := { k.descriptorPtrs with
        list := k'.descriptorPtrs.list
        allocator := k'.descriptorPtrs.allocator }
      queues := { k.queues with users := k'.queues.users }
      queueUsers := { k.queueUsers with list := k'.queueUsers.list }
      lists := k'.lists
      timerList := k'.timerList
      running := some parent
      userInts := (k.storeResult (k.waitResult parent) (k.pcbs.returnValue p)).userInts } := by
  obtain ⟨selfInParent, k₁, k₂, hk₁, -, htimers, k₃, hdescriptors, rfl⟩ := exitToParent_cases hexit
  have hframe₃ := releaseDescriptors_eq hdescriptors
  have hframe₂ : k₂ = { k₁ with
      timerItems := { k₁.timerItems with
        list := k₂.timerItems.list
        allocator := k₂.timerItems.allocator }
      timerList := k₂.timerList } := releaseTimers_eq htimers
  rw [hframe₂, hk₁] at hframe₃
  rw [hframe₃]
  rfl

/-- A process exits and its parent waits: the parent runs, and the process is gone. -/
theorem Scheduled.exitToParent (h : k.Scheduled nodes) {p parent : Addr} {value : ℤ}
    (hrunning : k.running = some p) (hwaiting : p ∉ nodes .waiting) {k₁ : Kernel}
    (hzombie : k.becomeZombie p value = some k₁) (hparent : parent ∈ nodes .waiting)
    {signal : BitVec 32} (hexit : (k₁.sendSignal parent signal).exitToParent p parent = some k') :
    k'.Scheduled (update nodes .waiting ((nodes .waiting).erase parent)) := by
  have halone : nodes .waiting ≠ [p] := fun hsame ↦ hwaiting (hsame ▸ List.mem_singleton_self p)
  have hnotZombie := h.running_notZombie p hrunning
  have hne : parent ≠ p := fun hsame ↦ hwaiting (hsame ▸ hparent)
  have hpool : k₁.pcbs.allocator = k.pcbs.allocator := by rw [becomeZombie_eq hzombie]
  obtain ⟨hok, -, hallocated⟩ := h.pool.release (h.running_allocated p hrunning)
  -- the process enters `zombie_list`, the parent leaves `waiting_list`, the process goes again
  have hparked : parkedNodes nodes .zombie p = update nodes .zombie (nodes .zombie ++ [p]) :=
    if_neg hwaiting
  have hthreads := threads_becomeZombie h hrunning halone hzombie
  rw [hparked] at hthreads
  have hparent' : parent ∈ update nodes .zombie (nodes .zombie ++ [p]) .waiting := by
    rwa [Function.update_of_ne (by decide)]
  have hdetached := hthreads.listDetach hparent'
  have hp : p ∈ update (update nodes .zombie (nodes .zombie ++ [p])) .waiting
      ((update nodes .zombie (nodes .zombie ++ [p]) .waiting).erase parent) .zombie := by simp
  have hremoved := hdetached.listDetach hp
  have hnodes : update (update (update nodes .zombie (nodes .zombie ++ [p])) .waiting
      ((update nodes .zombie (nodes .zombie ++ [p]) .waiting).erase parent)) .zombie
      ((update (update nodes .zombie (nodes .zombie ++ [p])) .waiting
        ((update nodes .zombie (nodes .zombie ++ [p]) .waiting).erase parent) .zombie).erase p) =
      update nodes .waiting ((nodes .waiting).erase parent) := by
    funext i
    cases i with
    | ready => simp
    | waiting => simp
    | zombie =>
      simp [List.erase_append_right _ hnotZombie]
  rw [hnodes] at hremoved
  have hmem : ∀ i q, q ∈ update nodes .waiting ((nodes .waiting).erase parent) i ↔
      q ∈ nodes i ∧ (q = parent → i ≠ .waiting) := by
    intro i q
    by_cases hi : i = .waiting
    · subst hi
      rw [Function.update_self, (h.threads.represents .waiting).nodup.mem_erase_iff]
      tauto
    · rw [Function.update_of_ne hi]
      tauto
  obtain ⟨selfInParent, k₂, k₃, hk₂, -, htimers, k₄, hdescriptors, hk'⟩ := exitToParent_cases hexit
  have hframe : k₄.pcbs.list = k₂.pcbs.list ∧ k₄.lists = k₂.lists := by
    rw [releaseDescriptors_eq hdescriptors, releaseTimers_eq htimers]
    exact ⟨rfl, rfl⟩
  have hthreads' : Threads k'.pcbs.list k'.lists
      (update nodes .waiting ((nodes .waiting).erase parent)) := by
    simp only [hk', pcbFree, detachPcb, hframe.1, hframe.2, hk₂]
    exact hremoved
  rw [exitToParent_eq hexit] at hthreads' ⊢
  refine ⟨hthreads', ?_, fun i q hq ↦ ?_, fun q hq ↦ ?_, fun q hq ↦ ?_, fun q hq ↦ ?_, fun q hq ↦ ?_⟩
  · exact hpool ▸ hok
  · have hq' := ((hmem i q).mp hq).1
    refine hpool ▸ (hallocated q).mpr ⟨fun hqp ↦ ?_, h.allocated i q hq'⟩
    exact h.running_notMem hrunning hwaiting i (hqp ▸ hq')
  · obtain ⟨hqp, hq⟩ := (hallocated q).mp (hpool ▸ hq)
    by_cases hqParent : q = parent
    · exact Or.inl (by rw [hqParent])
    · obtain ⟨i, hi⟩ := (h.covered q hq).resolve_left fun hrun ↦
        hqp (Option.some.inj (hrun.symm.trans hrunning))
      exact Or.inr ⟨i, (hmem i q).mpr ⟨hi, fun hsame ↦ absurd hsame hqParent⟩⟩
  · obtain rfl := Option.some.inj hq
    exact hpool ▸ (hallocated parent).mpr ⟨hne, h.allocated .waiting parent hparent⟩
  · obtain rfl := Option.some.inj hq
    exact fun hmemReady ↦
      absurd (h.list_unique ((hmem .ready parent).mp hmemReady).1 hparent) (by decide)
  · obtain rfl := Option.some.inj hq
    exact fun hmemZombie ↦
      absurd (h.list_unique ((hmem .zombie parent).mp hmemZombie).1 hparent) (by decide)

end Kernel

end DisastrOS
