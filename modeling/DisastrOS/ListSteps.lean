import DisastrOS.ListSafety

/-!
# Steps of the lists of processes

`ListStep` says once what a step of a run in which the lists of processes stay in order does to the three
lists, to the running process and to the processes that sleep (`Ordered.listStep`). A process comes into
`ready_list` at its end, but for the sleepers whose time has come, which a schedule puts in front; and it
leaves `ready_list` from the front only, to run.
-/

set_option autoImplicit false
set_option relaxedAutoImplicit false

namespace DisastrOS

open LinkedLists
open Function (update)

namespace Kernel

variable {k k' : Kernel} {a : Action} {p : Addr} {timers : List Addr}

/-- The processes that have a timer, in the order of `timer_list`. -/
def sleepers (k : Kernel) : List Addr := k.timerNodes.map k.timerItems.pcb

/-- The processes whose timers elapse when a schedule is made by this action. -/
def wokenBy (k : Kernel) (a : Action) : List Addr :=
  if a = .timer then { k with disastrOSTime := toInt (k.disastrOSTime + 1) }.duePcbs k.timerNodes
  else if k.request a = some .preempt then k.duePcbs k.timerNodes else []

/-- What a step does to the lists of processes, to the running process and to the sleepers. -/
inductive ListStep (k : Kernel) (a : Action) (k' : Kernel) : Prop
  | stay (hrunning : k'.running = k.running) (hnodes : k'.pcbNodes = k.pcbNodes)
      (hsleepers : k'.sleepers = k.sleepers) (hwoken : k.wokenBy a = [])
  | start (p : Addr) (haction : a = .start) (hidle : k.running = none)
      (hfresh : ¬ k.pcbs.allocator.Allocated p) (hrunning : k'.running = some p)
      (hnodes : k'.pcbNodes = k.pcbNodes) (hsleepers : k'.sleepers = k.sleepers)
  | create (child : Addr) (hrequest : k.request a = some .fork ∨ k.request a = some .spawn)
      (hfresh : ¬ k.pcbs.allocator.Allocated child) (hrunning : k'.running = k.running)
      (hnodes : k'.pcbNodes = update k.pcbNodes .ready (k.pcbNodes .ready ++ [child]))
      (hsleepers : k'.sleepers = k.sleepers)
  | schedule (p next : Addr) (rest : List Addr)
      (haction : a = .timer ∨ k.request a = some .preempt) (hbefore : k.running = some p)
      (hwaiting : ∀ q ∈ k.wokenBy a, q ∈ k.pcbNodes .waiting ∧ q ≠ p)
      (hready : k.wokenBy a ++ k.pcbNodes .ready = next :: rest) (hrunning : k'.running = some next)
      (hnodes : k'.pcbNodes =
        switchedNodes (wokenNodes k.pcbNodes [] (k.wokenBy a) (k.pcbNodes .ready)) p)
      (hsleepers : k.sleepers = k.wokenBy a ++ k'.sleepers)
  | block (p : Addr) (i : PcbList) (hi : i ≠ .ready) (hbefore : k.running = some p)
      (hrequest : (∃ cycles, k.request a = some (.sleep cycles) ∧ i = .waiting) ∨
        (∃ pid result, k.request a = some (.wait pid result) ∧ i = .waiting) ∨
          ∃ value, k.request a = some (.exit value) ∧ i = .zombie)
      (hrunning : k'.running = (k.pcbNodes .ready).head?)
      (hnodes : k'.pcbNodes =
        update (parkedNodes k.pcbNodes i p) .ready (k.pcbNodes .ready).tail)
      (hsleepers : k'.sleepers = k.sleepers ∨
        (∃ cycles, k.request a = some (.sleep cycles)) ∧ k'.sleepers.Perm (p :: k.sleepers))
  | queueWait (p : Addr) (hbefore : k.running = some p)
      (hrequest : ∃ msg fd, k.request a = some (.sendMsg msg fd) ∨ k.request a = some (.recvMsg msg fd))
      (hrunning : k'.running = k.running) (hnodes : k'.pcbNodes = parkedNodes k.pcbNodes .waiting p)
      (hsleepers : k'.sleepers = k.sleepers)
  | wake (p q : Addr) (hbefore : k.running = some p) (hne : q ≠ p) (hwaiting : q ∈ k.pcbNodes .waiting)
      (hrequest : ∃ check queue users, k.request a = some (.wakeupQueue check queue users) ∧
        k.wakeTarget check queue users = some q)
      (hrunning : k'.running = k.running)
      (hnodes : k'.pcbNodes = wokenNodes k.pcbNodes (k.pcbNodes .ready) [q] [])
      (hsleepers : k'.sleepers = k.sleepers)
  | reap (child : Addr) (hrequest : ∃ pid result, k.request a = some (.wait pid result))
      (hzombie : child ∈ k.pcbNodes .zombie) (hrunning : k'.running = k.running)
      (hnodes : k'.pcbNodes = update k.pcbNodes .zombie ((k.pcbNodes .zombie).erase child))
      (hsleepers : k'.sleepers = k.sleepers)
  | handOver (p parent : Addr) (hbefore : k.running = some p)
      (hrequest : ∃ value, k.request a = some (.exit value)) (hwaiting : p ∉ k.pcbNodes .waiting)
      (hparent : parent ∈ k.pcbNodes .waiting) (hrunning : k'.running = some parent)
      (hnodes : k'.pcbNodes = update k.pcbNodes .waiting ((k.pcbNodes .waiting).erase parent))
      (hsleepers : k'.sleepers = k.sleepers.filter (· ≠ p))

/-! ### One handler after the other -/

theorem sleepers_congr (hitems : k'.timerItems = k.timerItems) (hlist : k'.timerList = k.timerList) :
    k'.sleepers = k.sleepers := by
  rw [sleepers, timerNodes, hitems, hlist]
  rfl

theorem TimersListed.sleepers_eq (h : k'.TimersListed timers)
    (hpcb : k'.timerItems.pcb = k.timerItems.pcb) : k'.sleepers = timers.map k.timerItems.pcb := by
  rw [sleepers, h.timerNodes_eq, hpcb]

theorem wokenBy_of_request {c : Syscall} (hrequest : k.request a = some c) (hc : c ≠ .preempt) :
    k.wokenBy a = [] := by
  have hne : a ≠ .timer := by
    rintro rfl
    simp [request] at hrequest
  rw [wokenBy, if_neg hne, if_neg (by rw [hrequest]; simpa using hc)]

/-- A step that leaves the lists alone. -/
theorem ListStep.of_frame (hlist : k'.pcbs.list = k.pcbs.list) (hlists : k'.lists = k.lists)
    (hrunning : k'.running = k.running) (hitems : k'.timerItems = k.timerItems)
    (htimers : k'.timerList = k.timerList) (hwoken : k.wokenBy a = []) : k.ListStep a k' := by
  refine .stay hrunning ?_ (sleepers_congr hitems htimers) hwoken
  funext i
  rw [pcbNodes, pcbNodes, hlist, hlists]

/-- A schedule, by the timer or by a PREEMPT. -/
theorem listStep_schedule {k₀ : Kernel} (h : k₀.Ordered) (hp : k.running = some p)
    (hnodes : k₀.pcbNodes = k.pcbNodes) (hsleepers : k₀.sleepers = k.sleepers)
    (hrunning : k₀.running = k.running) (hwoken : k.wokenBy a = k₀.duePcbs k₀.timerNodes)
    (haction : a = .timer ∨ k.request a = some .preempt) (hsafe : k₀.ScheduleSafe p)
    (hschedule : k₀.internalSchedule = some k') : k.ListStep a k' := by
  obtain ⟨hnodup, hdue, halone⟩ := hsafe
  have hpcb : k'.timerItems.pcb = k₀.timerItems.pcb := by rw [internalSchedule_eq hschedule]
  obtain ⟨htimers, ⟨hnone, hsched, hsame, -⟩ | ⟨p', next, rest, hp', hnext, hnextRuns, hsched, -⟩⟩ :=
    internalSchedule_spec h.scheduled h.timers hnodup (fun q hq ↦ (hdue q hq).1)
      (fun q hq hq' ↦ (hdue q hq).2 (Option.some.inj (hq'.symm.trans (hrunning.trans hp))))
      (fun q hq hne ↦ Option.some.inj ((hrunning.trans hp).symm.trans hq) ▸ halone hne) hschedule
  · have hdue : k₀.duePcbs k₀.timerNodes = [] := (List.append_eq_nil_iff.mp hnone).1
    have hnoTimer : k₀.dueTimers k₀.timerNodes = [] := List.map_eq_nil_iff.mp hdue
    rw [hnoTimer, List.length_nil, List.drop_zero] at htimers
    refine .stay (hsame.trans hrunning) (hsched.pcbNodes_eq.trans hnodes) ?_ (hwoken.trans hdue)
    exact (htimers.sleepers_eq hpcb).trans hsleepers
  · obtain rfl : p' = p := Option.some.inj (hp'.symm.trans (hrunning.trans hp))
    rw [← hwoken, hnodes] at hnext
    refine .schedule p' next rest haction hp (fun q hq ↦ ?_) hnext hnextRuns ?_ ?_
    · rw [hwoken] at hq
      rw [← hnodes]
      exact hdue q hq
    · rw [hsched.pcbNodes_eq, hwoken, hnodes]
    · have hprefix : k₀.dueTimers k₀.timerNodes ++
          k₀.timerNodes.drop (k₀.dueTimers k₀.timerNodes).length = k₀.timerNodes :=
        List.prefix_append_drop (List.takeWhile_prefix _) |>.symm
      rw [hwoken, htimers.sleepers_eq hpcb, ← hsleepers, duePcbs, ← List.map_append, hprefix]
      rfl

/-- The running process goes to list `i`, and the first ready one runs. -/
theorem listStep_park (h : k.Ordered) (k₁ : Kernel) {i : PcbList} (hi : i ≠ .ready)
    (hp : k.running = some p)
    (hrequest : (∃ cycles, k.request a = some (.sleep cycles) ∧ i = .waiting) ∨
      (∃ pid result, k.request a = some (.wait pid result) ∧ i = .waiting) ∨
        ∃ value, k.request a = some (.exit value) ∧ i = .zombie)
    (halone : k.pcbNodes .waiting ≠ [p]) (hlist : k₁.pcbs.list = k.pcbs.list)
    (hlists : k₁.lists = k.lists) (hpool : k₁.pcbs.allocator = k.pcbs.allocator)
    (hk' : k' = (k₁.insertPcb i (k₁.lists i).last (some p)).dispatchReady)
    (hsleepers : k'.sleepers = k.sleepers ∨
      (∃ cycles, k.request a = some (.sleep cycles)) ∧ k'.sleepers.Perm (p :: k.sleepers)) :
    k.ListStep a k' := by
  obtain ⟨hsched, hnext⟩ := h.scheduled.park k₁ hi hp halone hlist hlists hpool
  rw [← hk'] at hsched hnext
  exact .block p i hi hp hrequest hnext hsched.pcbNodes_eq hsleepers

theorem listStep_sleep (h : k.Ordered) (hp : k.running = some p) {cycles : ℤ} {next : Context}
    (hrequest : k.request a = some (.sleep cycles)) (hsafe : k.SyscallSafe p (.sleep cycles))
    (hsleep : internalSleep cycles (k.trap p next (.sleep cycles)) = some k') : k.ListStep a k' := by
  have hwoken := wokenBy_of_request hrequest (by simp)
  obtain ⟨p', hp', rfl | ⟨t, k₁, hadd, hk'⟩⟩ := internalSleep_cases hsleep
  · exact .of_frame rfl rfl rfl rfl rfl hwoken
  obtain rfl : p = p' := Option.some.inj (hp.symm.trans hp')
  have htimers : (k.trap p next (.sleep cycles)).TimersListed k.timerNodes := h.timers.congr rfl rfl
  have hframe := timerListAdd_eq hadd
  obtain ⟨hnone, -⟩ | ⟨t', front, back, ht, hsplit, hfresh, hlisted, hpcb, -⟩ :=
    timerListAdd_spec htimers hadd
  · exact absurd hnone (Option.some_ne_none t)
  have hblock : k.timerItems.allocator.getBlock.1 ≠ none := by
    intro hnone
    obtain ⟨previous, -, halloc⟩ := Option.bind_eq_some_iff.mp hadd
    rcases hget : k.timerItems.allocator.getBlock with ⟨_ | b, pool⟩
    · have hget' : (k.trap p next (.sleep cycles)).timerItems.allocator.getBlock = (none, pool) := hget
      simp [timerItemAlloc, hget'] at halloc
    · simp [hget] at hnone
  refine listStep_park h (k₁.setStatus p .waiting) (by decide) hp (.inl ⟨cycles, hrequest, rfl⟩)
    (hsafe hblock) (by rw [hframe]; rfl) (by rw [hframe]; rfl) (by rw [hframe]; rfl) hk'
    (.inr ⟨⟨cycles, hrequest⟩, ?_⟩)
  -- the new timer has its place among the old ones
  have hlisted' : k'.TimersListed (front ++ t' :: back) := by
    rw [hk']
    exact hlisted.congr rfl rfl
  have hpcb' : k'.timerItems.pcb = update k.timerItems.pcb t' p := by
    rw [hk']
    exact hpcb
  have hold : ∀ l : List Addr, (∀ x ∈ l, x ∈ k.timerNodes) →
      l.map (update k.timerItems.pcb t' p) = l.map k.timerItems.pcb := fun l hl ↦
    List.map_congr_left fun x hx ↦
      Function.update_of_ne (fun hsame : x = t' ↦ hfresh (hsame ▸ hl x hx)) _ _
  rw [sleepers, hlisted'.timerNodes_eq, hpcb', List.map_append, List.map_cons, Function.update_self,
    hold front (fun x hx ↦ hsplit ▸ List.mem_append_left _ hx),
    hold back (fun x hx ↦ hsplit ▸ List.mem_append_right _ hx), sleepers, hsplit, List.map_append]
  exact List.perm_middle

theorem listStep_newProcess (h : k.Ordered) {c : Syscall} {next : Context} {child : Addr}
    {k₁ : Kernel} (hrequest : k.request a = some .fork ∨ k.request a = some .spawn)
    (hnew : (k.trap p next c).newProcess = some (child, k₁)) (hlist : k'.pcbs.list = k₁.pcbs.list)
    (hlists : k'.lists = k₁.lists) (hrunning : k'.running = k₁.running)
    (hitems : k'.timerItems = k₁.timerItems) (htimers : k'.timerList = k₁.timerList) :
    k.ListStep a k' := by
  have htrap : (k.trap p next c).Scheduled k.pcbNodes := h.scheduled.congr rfl rfl rfl rfl
  obtain ⟨hsched, hfresh⟩ := htrap.newProcess hnew
  obtain ⟨running, pool, x, ptrPool, -, -, -, -, hk₁⟩ := newProcess_cases hnew
  have hnodes : k'.pcbNodes = k₁.pcbNodes := by
    funext i
    rw [pcbNodes, pcbNodes, hlist, hlists]
  refine .create child hrequest hfresh (hrunning.trans ?_) (hnodes.trans hsched.pcbNodes_eq) ?_
  · rw [hk₁]
    rfl
  · rw [sleepers_congr hitems htimers, hk₁]
    rfl

theorem listStep_wait (h : k.Ordered) (hp : k.running = some p) {pid : ℤ}
    {result : Option Addr} {next : Context} (hrequest : k.request a = some (.wait pid result))
    (hsafe : (k.trap p next (.wait pid result)).SyscallSafe p (.wait pid result))
    (hwait : internalWait pid result (k.trap p next (.wait pid result)) = some k') :
    k.ListStep a k' := by
  have hwoken := wokenBy_of_request hrequest (by simp)
  set kt := k.trap p next (.wait pid result) with hkt
  obtain ⟨p', hp', ⟨-, rfl⟩ | ⟨awaited, hchildren, hawaited, hcases⟩⟩ := internalWait_cases hwait
  · exact .of_frame rfl rfl rfl rfl rfl hwoken
  obtain rfl : p = p' := Option.some.inj (hp.symm.trans hp')
  obtain ⟨x, rfl, hzombie, hk'⟩ | ⟨hnotZombie, ⟨hnone, hk'⟩ | ⟨-, -, rfl⟩⟩ := hcases
  · have hmem : kt.pcbPtrs.pcb x ∈ k.pcbNodes .zombie :=
      hsafe.2 (kt.pcbPtrs.pcb x) (by simp [awaitedZombie, hawaited, hzombie])
    have htrap : kt.Scheduled k.pcbNodes := h.scheduled.congr rfl rfl rfl rfl
    have hsched := htrap.reapZombie hmem p result
    rw [← hk'] at hsched
    refine .reap (kt.pcbPtrs.pcb x) ⟨pid, result, hrequest⟩ hmem ?_ hsched.pcbNodes_eq ?_
    · rw [hk']
      rfl
    · rw [hk']
      rfl
  · have hblocks : kt.waitBlocks p pid = true := by
      rw [← Option.isSome_iff_ne_none] at hchildren
      cases awaited with
      | none => simp [waitBlocks, hawaited, hchildren, hnone rfl]
      | some x => simp [waitBlocks, hawaited, hchildren, hnotZombie x rfl]
    refine listStep_park h (kt.setStatus p .waiting) (by decide) hp
      (.inr (.inl ⟨pid, result, hrequest, rfl⟩)) (hsafe.1 hblocks) rfl rfl rfl hk' (.inl ?_)
    rw [hk']
    rfl
  · exact .of_frame rfl rfl rfl rfl rfl hwoken

theorem listStep_exit (h : k.Ordered) (hp : k.running = some p) {value : ℤ} {next : Context}
    (hrequest : k.request a = some (.exit value))
    (hsafe : (k.trap p next (.exit value)).SyscallSafe p (.exit value))
    (hexit : internalExit value (k.trap p next (.exit value)) = some k') : k.ListStep a k' := by
  set kt := k.trap p next (.exit value) with hkt
  have htrap : kt.Scheduled k.pcbNodes := h.scheduled.congr rfl rfl rfl rfl
  obtain ⟨p', k₁, parent, hp', hzombie, hparent, hbranch⟩ := internalExit_cases hexit
  obtain rfl : p = p' := Option.some.inj (hp.symm.trans hp')
  have hframe := becomeZombie_eq hzombie
  have hparent' : kt.pcbs.parent p = some parent := by rw [← hparent, hframe]
  rw [becomeZombie_awaits hzombie] at hbranch
  obtain ⟨hawaits, hexit⟩ | ⟨hawaits, hexit⟩ := hbranch
  · have hgiven : kt.awaitingParent p = some parent := by
      simpa [awaitingParent, hparent'] using hawaits
    obtain ⟨hnotWaiting, hwaits⟩ := hsafe.2 parent hgiven
    have hsched := htrap.exitToParent hp hnotWaiting hzombie hwaits hexit
    have h₁ : (k₁.sendSignal parent dsosSigchld).TimersListed k.timerNodes :=
      h.timers.congr (by rw [hframe]; rfl) (by rw [hframe]; rfl)
    have htimers := h₁.exitToParent hexit
    have hitems : (k₁.sendSignal parent dsosSigchld).timerItems.pcb = k.timerItems.pcb := by
      rw [hframe]
      rfl
    refine .handOver p parent hp ⟨value, hrequest⟩ hnotWaiting hwaits ?_ hsched.pcbNodes_eq ?_
    · rw [exitToParent_eq hexit]
    · have hpcb : k'.timerItems.pcb = k.timerItems.pcb := by
        rw [exitToParent_eq hexit]
        exact hitems
      rw [htimers.sleepers_eq (k := k) hpcb, sleepers, List.filter_map, hitems]
      rfl
  · have halone := hsafe.1 (by simpa [awaitingParent, hparent'] using hawaits)
    obtain ⟨next', rest, hready, hnext, hsched⟩ := htrap.exitToReady hp halone hzombie parent hexit
    have hready' : k.pcbNodes .ready = next' :: rest := hready
    refine .block p .zombie (by decide) hp (.inr (.inr ⟨value, hrequest, rfl⟩)) ?_ ?_ (.inl ?_)
    · rw [hready', hnext]
      rfl
    · rw [hready', hsched.pcbNodes_eq]
      rfl
    · exact sleepers_congr (by rw [exitToReady_eq hexit, hframe]; rfl)
        (by rw [exitToReady_eq hexit, hframe]; rfl)

/-- SEND and RECV when they have to wait: the process is put in `waiting_list`. -/
theorem pcbNodes_waitForQueue (h : k.Ordered) (hp : k.running = some p) {t : Kernel}
    (halone : k.pcbNodes .waiting ≠ [p]) (hlist : t.pcbs.list = k.pcbs.list) (hlists : t.lists = k.lists)
    {entries : Option Addr} {role : Role} {retvalue : ℤ}
    (hwait : t.waitForQueue p entries role retvalue = some k') :
    k'.pcbNodes = parkedNodes k.pcbNodes .waiting p := by
  obtain ⟨ds, entry, -, -, rfl⟩ := waitForQueue_eq hwait
  have hbefore : Threads t.pcbs.list t.lists k.pcbNodes := by
    rw [hlist, hlists]
    exact h.scheduled.threads
  have hthreads := threads_park hbefore .waiting (h.scheduled.running_notReady p hp)
    (h.scheduled.running_notZombie p hp) halone
  exact funext fun i ↦ (hthreads.represents i).toList_eq

/-- It stays the running one. -/
theorem listStep_waitForQueue (h : k.Ordered) (hp : k.running = some p) {t : Kernel}
    (hrequest : ∃ msg fd, k.request a = some (.sendMsg msg fd) ∨ k.request a = some (.recvMsg msg fd))
    (halone : k.pcbNodes .waiting ≠ [p]) (hlist : t.pcbs.list = k.pcbs.list)
    (hlists : t.lists = k.lists) (hrunning : t.running = k.running)
    (hitems : t.timerItems = k.timerItems) (htimers : t.timerList = k.timerList)
    {entries : Option Addr} {role : Role} {retvalue : ℤ}
    (hwait : t.waitForQueue p entries role retvalue = some k') : k.ListStep a k' := by
  have hnodes := pcbNodes_waitForQueue h hp halone hlist hlists hwait
  obtain ⟨ds, entry, -, -, rfl⟩ := waitForQueue_eq hwait
  exact .queueWait p hp hrequest hrunning hnodes (sleepers_congr hitems htimers)

/-- A process that is woken goes to the end of `ready_list`. -/
theorem pcbNodes_wakeUser (h : k.Ordered) {t : Kernel} {u aux : Addr} (hmem : aux ∈ k.pcbNodes .waiting)
    (hlist : t.pcbs.list = k.pcbs.list) (hlists : t.lists = k.lists) :
    (t.wakeUser u aux).pcbNodes = wokenNodes k.pcbNodes (k.pcbNodes .ready) [aux] [] := by
  have hbefore : Threads t.pcbs.list t.lists k.pcbNodes := by
    rw [hlist, hlists]
    exact h.scheduled.threads
  have hdetach := hbefore.listDetach hmem
  have hthreads := hdetach.listInsert_last .ready (hbefore.notMem_erase hmem)
  have hnodes : update (update k.pcbNodes .waiting ((k.pcbNodes .waiting).erase aux)) .ready
      (update k.pcbNodes .waiting ((k.pcbNodes .waiting).erase aux) .ready ++ [aux]) =
      wokenNodes k.pcbNodes (k.pcbNodes .ready) [aux] [] := by
    rw [Function.update_of_ne (by decide), wokenNodes, List.append_nil,
      (h.scheduled.threads.represents .waiting).nodup.erase_eq_filter]
    simp only [List.mem_singleton, decide_not]
    rfl
  rw [hnodes] at hthreads
  exact funext fun i ↦ (hthreads.represents i).toList_eq

theorem listStep_wakeUp (h : k.Ordered) (hp : k.running = some p) {check : WakeupCheck}
    {q : Addr} {users : Addr × Role} {next : Context}
    (hrequest : k.request a = some (.wakeupQueue check q users))
    (hsafe : k.SyscallSafe p (.wakeupQueue check q users))
    (hwake : internalWakeUpQueue check q users (k.trap p next (.wakeupQueue check q users)) = some k') :
    k.ListStep a k' := by
  obtain ⟨p', hp', ⟨queueUsr, aux, hcheck, hfound, rfl⟩ | ⟨-, rfl⟩⟩ := internalWakeUpQueue_cases hwake
  · have hsearch : ∀ bound start, (k.trap p next (.wakeupQueue check q users)).waitingUser bound start =
        k.waitingUser bound start := waitingUser_congr rfl rfl rfl rfl
    have hfound' : k.waitingUser walkBound (k.queues.users users).first = some (some (queueUsr, aux)) :=
      (hsearch _ _).symm.trans hfound
    have htarget : k.wakeTarget check q users = some aux := by
      have hcheck' : k.wakeupCheck q check = true := hcheck
      simp [wakeTarget, hcheck', hfound']
    have hmem := waitingUser_mem (h.scheduled.threads.represents .waiting) hfound'
    have hnodes := pcbNodes_wakeUser (t := k.trap p next (.wakeupQueue check q users)) (u := queueUsr) h
      hmem rfl rfl
    exact .wake p aux hp (fun hsame ↦ hsafe (htarget.trans (congrArg some hsame))) hmem
      ⟨check, q, users, hrequest, htarget⟩ rfl hnodes rfl
  · exact .of_frame rfl rfl rfl rfl rfl (wokenBy_of_request hrequest (by simp))

/-! ### One step -/

/-- What a step of a run in which the lists stay in order does to them. -/
theorem Ordered.listStep (h : k.Ordered) (hnoShutdown : k.NoShutdown) (hsafe : k.ListsSafe a)
    (hstep : k.step a = some k') : k.ListStep a k' := by
  obtain ⟨rfl, hstart⟩ | ⟨rfl, htimer⟩ | ⟨x, byte, rfl, -, rfl⟩ | ⟨c, p, ret, rfl, hp, -, rfl⟩ |
    ⟨c, p, next, hp, hcalls, hcall⟩ | ⟨p, rfl, hp, hquiet, hrun⟩ := step_cases hstep
  · have hsched := h.scheduled.startProcess hstart
    obtain ⟨hidle, p, pool, hget, rfl⟩ := startProcess_cases hstart
    obtain ⟨-, -, hfree, -, -⟩ := PoolAllocator.getBlock_some h.scheduled.pool hget
    exact .start p rfl hidle hfree rfl hsched.pcbNodes_eq rfl
  · obtain ⟨p, hp, hschedule⟩ := Option.bind_eq_some_iff.mp htimer
    have htick : k.KeepsOrder { k with disastrOSTime := toInt (k.disastrOSTime + 1) } :=
      h.congr rfl rfl rfl rfl rfl rfl
    exact listStep_schedule htick.ordered hp rfl rfl rfl (if_pos rfl) (.inl rfl) (hsafe p hp) hschedule
  · exact .of_frame rfl rfl rfl rfl rfl rfl
  · exact .of_frame rfl rfl rfl rfl rfl rfl
  · have hrequest := hcalls.request hp
    have hsafe' : k.SyscallSafe p c := by
      have hall := hsafe p hp
      cases hcalls <;> exact hall c hrequest
    have htrap := hsafe'.trap next
    have hwoken (hc : c ≠ .preempt) : k.wokenBy a = [] := wokenBy_of_request hrequest hc
    cases c with
    | preempt =>
      have hne : a ≠ .timer := by
        rintro rfl
        simp [request] at hrequest
      have hordered : k.KeepsOrder (k.trap p next .preempt) := h.congr rfl rfl rfl rfl rfl rfl
      exact listStep_schedule hordered.ordered hp rfl rfl rfl
        (by rw [wokenBy, if_neg hne, if_pos hrequest]; rfl) (.inr hrequest) htrap hcall
    | fork =>
      obtain ⟨⟨child, k₁⟩, hnew, hk'⟩ := Option.bind_eq_some_iff.mp hcall
      obtain rfl := Option.some.inj hk'
      exact listStep_newProcess h (.inl hrequest) hnew rfl rfl rfl rfl rfl
    | spawn =>
      obtain ⟨⟨child, k₁⟩, hnew, hk'⟩ := Option.bind_eq_some_iff.mp hcall
      rw [← Option.some.inj hk']
      exact listStep_newProcess h (.inr hrequest) hnew rfl rfl rfl rfl rfl
    | wait pid result => exact listStep_wait h hp hrequest htrap hcall
    | exit value => exact listStep_exit h hp hrequest htrap hcall
    | sleep cycles => exact listStep_sleep h hp hrequest hsafe' hcall
    | openResource id type mode =>
      have hframe := internalOpenResource_eq hcall
      exact .of_frame (by rw [hframe]; rfl) (by rw [hframe]; rfl) (by rw [hframe]; rfl)
        (by rw [hframe]; rfl) (by rw [hframe]; rfl) (hwoken (by simp))
    | closeResource fd =>
      have hframe := internalCloseResource_eq hcall
      exact .of_frame (by rw [hframe]; rfl) (by rw [hframe]; rfl) (by rw [hframe]; rfl)
        (by rw [hframe]; rfl) (by rw [hframe]; rfl) (hwoken (by simp))
    | destroyResource id =>
      have hframe := internalDestroyResource_eq hcall
      exact .of_frame (by rw [hframe]; rfl) (by rw [hframe]; rfl) (by rw [hframe]; rfl)
        (by rw [hframe]; rfl) (by rw [hframe]; rfl) (hwoken (by simp))
    | shutdown => exact absurd hsafe' id
    | sendMsg msg fd =>
      obtain ⟨p', q, entries, hp', hqueue, -, ⟨-, haccept⟩ | ⟨hfull, hwait⟩⟩ :=
        internalSendMessage_cases hcall
      · have hframe := acceptMessage_eq haccept
        exact .of_frame (by rw [hframe]; rfl) (by rw [hframe]; rfl) (by rw [hframe]; rfl)
          (by rw [hframe]; rfl) (by rw [hframe]; rfl) (hwoken (by simp))
      · obtain rfl : p = p' := Option.some.inj (hp.symm.trans hp')
        exact listStep_waitForQueue (t := k.trap p next (.sendMsg msg fd)) h hp ⟨msg, fd, .inl hrequest⟩
          (htrap (by simp [sendBlocks, hqueue, hfull])) rfl rfl rfl rfl rfl hwait
    | recvMsg msg fd =>
      obtain ⟨p', entries, hp', -, ⟨-, rfl⟩ | ⟨buffer, q, rfl, hqueue,
        ⟨m, k₁, hpop, hdeliver⟩ | ⟨k₁, hpop, hwait⟩⟩⟩ := internalRecvMessage_cases hcall
      · exact .of_frame rfl rfl rfl rfl rfl (hwoken (by simp))
      · have hframe := deliverMessage_eq hdeliver
        obtain rfl := (Prod.mk.inj hpop).2
        exact .of_frame (by rw [hframe]; rfl) (by rw [hframe]; rfl) (by rw [hframe]; rfl)
          (by rw [hframe]; rfl) (by rw [hframe]; rfl) (hwoken (by simp))
      · obtain rfl : p = p' := Option.some.inj (hp.symm.trans hp')
        obtain ⟨hempty, rfl⟩ := popMessage_eq_none hpop
        exact listStep_waitForQueue (t := k.trap p next (.recvMsg (some buffer) fd)) h hp
          ⟨some buffer, fd, .inr hrequest⟩ (htrap (by simp [recvBlocks, hqueue, hempty])) rfl rfl rfl rfl
          rfl hwait
    | wakeupQueue check q users => exact listStep_wakeUp h hp hrequest hsafe' hcall
    | openQueue id fd mode =>
      have hframe := internalOpenQueue_eq hcall
      exact .of_frame (by rw [hframe]; rfl) (by rw [hframe]; rfl) (by rw [hframe]; rfl)
        (by rw [hframe]; rfl) (by rw [hframe]; rfl) (hwoken (by simp))
  · obtain ⟨hsame, -⟩ := runStatement_context (hnoShutdown p) hrun
    have hframe := runStatement_eq hrun
    refine .of_frame (by rw [hframe]) (by rw [hframe]) hsame (by rw [hframe]) (by rw [hframe]) ?_
    rw [wokenBy, if_neg (by simp), if_neg]
    simp [request, context, hp, hquiet]

end Kernel

end DisastrOS
