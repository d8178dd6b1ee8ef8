import DisastrOS.Library.PendingCounts
import DisastrOS.OpeningPoints

/-!
# Counts of the openings

The `openings` of a queue count the descriptors on its resource that a successful `dmq_open` has yielded
and that are still open (`openingsExact_of_safe`), wherever no `dmq_open` or `dmq_close` is in progress. An exit
of which a waiting parent is told releases the descriptors and leaves the openings as they are
(`diesOpen_not_openingsExact`).
-/

set_option autoImplicit false
set_option relaxedAutoImplicit false

namespace DisastrOS

open LinkedLists PoolAllocator PendingCounts
open Function (update)

/-- The point is in the middle of a `dmq_open` or a `dmq_close`. -/
def Context.inOpenOrClose : Context → Bool
  | .openResource .. | .openResult .. | .openQueue .. | .openReturn => true
  | .close _ | .closeDetach .. | .closeFree .. | .closeResource .. | .closeResult _ => true
  | _ => false

namespace Kernel

variable {k k' : Kernel} {a : Action} {m m' : Addr → Option Opening} {p q r d : Addr} {id fd : ℤ}

/-! ### The claim on a state -/

/-- No `dmq_open` or `dmq_close` is in progress. -/
def AtRest (k : Kernel) : Prop :=
  ∀ p ∈ k.pcbs.allocator.blocks, (k.pcbs.cpuState p).inOpenOrClose = false

/-- The descriptors of resource `r` that a successful `dmq_open` has yielded and that are still open. -/
def openDescriptors (k : Kernel) (m : Addr → Option Opening) (r : Addr) : List Addr :=
  ((k.files.pointerNodes r).map k.descriptorPtrs.descriptor).filter fun d ↦ (m d).isSome

/-- The openings of every live queue are the descriptors on its resource. -/
def OpeningsExact (k : Kernel) (m : Addr → Option Opening) : Prop :=
  ∀ r ∈ k.files.resourceNodes, ∀ q ∈ k.resources.value r,
    k.queues.openings q = (k.openDescriptors m r).length

instance (k : Kernel) : Decidable k.AtRest :=
  inferInstanceAs (Decidable (∀ p ∈ k.pcbs.allocator.blocks, _))

instance (k : Kernel) (m : Addr → Option Opening) : Decidable (k.OpeningsExact m) :=
  inferInstanceAs (Decidable (∀ r ∈ k.files.resourceNodes, ∀ q ∈ k.resources.value r, _))

/-! ### The condition -/

/-- The `dmq_close` of process `p` has closed its descriptor, and is still to count down queue `q`. -/
def CountsDown (k : Kernel) (p q : Addr) : Prop :=
  k.pcbs.cpuState p = .closeResult q ∧ k.pcbs.syscallRetvalue p = 0

/-- No descriptor from a successful `dmq_open` is open on queue `q`. -/
def Unopened (k : Kernel) (m : Addr → Option Opening) (q : Addr) : Prop :=
  ∀ r ∈ k.files.resourceNodes, k.resources.value r = some q → k.openDescriptors m r = []

/-- The queue that an `OPEN_QUEUE` of resource `r` works on: its own, or a new one. -/
def queueToOpen (k : Kernel) (r : Addr) : Option Addr :=
  (k.resources.value r).or k.queues.allocator.getBlock.1

/-- Queue `q` is that of no resource but `r`; and if it is new, no `dmq_close` is to count it down. -/
def OpensAlone (k : Kernel) (r q : Addr) : Prop :=
  (∀ r' ∈ k.files.resourceNodes, k.resources.value r' = some q → r' = r) ∧
    (k.resources.value r = none → ∀ p ∈ k.pcbs.allocator.blocks, ¬ k.CountsDown p q)

/-- What a system call has to meet. -/
def CountsCall (m : Addr → Option Opening) (k : Kernel) (a : Action) : Syscall → Prop
  | .openResource id _ mode => a = .statement ∧
    (hasBit mode dsosCreate = true → k.resourceById id = some none →
      ∀ r ∈ k.resources.allocator.getBlock.1, ∀ q ∈ k.resources.value r, k.Unopened m q)
  | .closeResource fd => a = .statement ∧
    ∀ p ∈ k.running, ∀ d ∈ k.files.descriptorNodes p, k.descriptors.fd d = fd → (m d).isSome
  | .openQueue id _ _ => a = .statement ∧
    ∀ found ∈ k.resourceById id, ∀ r ∈ found, ∀ q ∈ k.queueToOpen r, k.OpensAlone r q
  | .exit _ => ∀ p ∈ k.running, (k.awaitingParent p).isSome →
    ∀ d ∈ k.files.descriptorNodes p, m d = none
  | .fork | .shutdown | .sendMsg .. | .recvMsg .. | .wakeupQueue .. => False
  | .preempt | .wait .. | .spawn | .sleep _ | .destroyResource _ => True

/-- The step is one of the runs, and misses no opening. -/
def CountsSafe (s : (Addr → Option Opening) × Kernel) (a : Action) : Prop :=
  ∀ c ∈ s.2.request a, s.2.CountsCall s.1 a c

instance (k : Kernel) (p q : Addr) : Decidable (k.CountsDown p q) :=
  inferInstanceAs (Decidable (_ ∧ _))

instance (k : Kernel) (m : Addr → Option Opening) (q : Addr) : Decidable (k.Unopened m q) :=
  inferInstanceAs (Decidable (∀ r ∈ k.files.resourceNodes, _))

instance (k : Kernel) (r q : Addr) : Decidable (k.OpensAlone r q) :=
  inferInstanceAs (Decidable ((∀ r' ∈ k.files.resourceNodes, _) ∧
    (_ → ∀ p ∈ k.pcbs.allocator.blocks, ¬ k.CountsDown p q)))

instance (m : Addr → Option Opening) (k : Kernel) (a : Action) : ∀ c, Decidable (k.CountsCall m a c)
  | .openResource .. => inferInstanceAs (Decidable (_ ∧
      (_ → _ → ∀ r ∈ k.resources.allocator.getBlock.1, ∀ q ∈ k.resources.value r, k.Unopened m q)))
  | .closeResource _ => inferInstanceAs (Decidable (_ ∧
      ∀ p ∈ k.running, ∀ d ∈ k.files.descriptorNodes p, _))
  | .openQueue id _ _ => inferInstanceAs (Decidable (_ ∧
      ∀ found ∈ k.resourceById id, ∀ r ∈ found, ∀ q ∈ k.queueToOpen r, k.OpensAlone r q))
  | .exit _ => inferInstanceAs (Decidable (∀ p ∈ k.running, _ → ∀ d ∈ k.files.descriptorNodes p, _))
  | .fork | .shutdown | .sendMsg .. | .recvMsg .. | .wakeupQueue .. => isFalse not_false
  | .preempt | .wait .. | .spawn | .sleep _ | .destroyResource _ => isTrue trivial

instance (s : (Addr → Option Opening) × Kernel) (a : Action) : Decidable (CountsSafe s a) :=
  inferInstanceAs (Decidable (∀ c ∈ s.2.request a, s.2.CountsCall s.1 a c))

/-! ### Openings -/

theorem queueAddPid_openings {pid err : ℤ} {mode : BitVec 32} {ds : Option Addr}
    (hadd : k.queueAddPid q pid mode ds = some (err, k')) :
    k'.queues.openings =
      if err = 0 then update k.queues.openings q (k.queues.openings q + 1) else k.queues.openings := by
  have hfails : listInsertionError ≠ 0 := by decide
  obtain ⟨⟨added₁, k₁⟩, h₁, hrest⟩ := Option.bind_eq_some_iff.mp hadd
  have hsame₁ : k₁.queues.openings = k.queues.openings := by rw [queueAddRole_eq h₁]
  dsimp only at hrest
  split_ifs at hrest
  · obtain ⟨rfl, rfl⟩ := Prod.mk.inj (Option.some.inj hrest)
    rw [if_neg hfails, hsame₁]
  · obtain ⟨⟨added₂, k₂⟩, h₂, hrest⟩ := Option.bind_eq_some_iff.mp hrest
    have hsame₂ : k₂.queues.openings = k.queues.openings := by rw [queueAddRole_eq h₂, hsame₁]
    dsimp only at hrest
    split_ifs at hrest
    · obtain ⟨rfl, rfl⟩ := Prod.mk.inj (Option.some.inj hrest)
      rw [if_neg hfails, hsame₂]
    · obtain ⟨⟨added₃, k₃⟩, h₃, hrest⟩ := Option.bind_eq_some_iff.mp hrest
      have hsame₃ : k₃.queues.openings = k.queues.openings := by rw [queueAddRole_eq h₃, hsame₂]
      dsimp only at hrest
      split_ifs at hrest
      · obtain ⟨rfl, rfl⟩ := Prod.mk.inj (Option.some.inj hrest)
        rw [if_neg hfails, hsame₃]
      · obtain ⟨rfl, rfl⟩ := Prod.mk.inj (Option.some.inj hrest)
        rw [if_pos rfl, ← hsame₃]

/-- A process that joins a queue raises its openings exactly if its `OPEN_QUEUE` succeeds. -/
theorem joinQueue_openings {mode : BitVec 32} (hfd : 0 ≤ fd)
    (hjoin : k.joinQueue p r q fd mode = some k') : k'.queues.openings = update k.queues.openings q
      (k.queues.openings q + if 0 ≤ k'.pcbs.syscallRetvalue p then 1 else 0) := by
  obtain ⟨-, rfl⟩ | ⟨-, ds, err, k₁, -, hadd, rfl⟩ := joinQueue_cases hjoin
  · have hret : (k.setRetvalue p invalidFd).pcbs.syscallRetvalue p = invalidFd :=
      Function.update_self ..
    rw [hret, if_neg (by decide), add_zero, Function.update_eq_self]
    rfl
  · have hret : (k₁.setRetvalue p (if err ≠ 0 then listInsertionError else fd)).pcbs.syscallRetvalue p =
        if err ≠ 0 then listInsertionError else fd := Function.update_self ..
    have hsame : (k₁.setRetvalue p (if err ≠ 0 then listInsertionError else fd)).queues.openings =
        k₁.queues.openings := rfl
    rw [hsame, hret, queueAddPid_openings hadd]
    by_cases herr : err = 0
    · rw [if_pos herr, if_neg (not_not.mpr herr), if_pos hfd]
    · rw [if_neg herr, if_pos herr, if_neg (by decide), add_zero, Function.update_eq_self]

/-- What an `OPEN_QUEUE` does to the openings: the queue of the resource, which starts at zero if it is
new, has one more if the call succeeds; or the call fails for want of a queue. -/
theorem internalOpenQueue_openings {mode : BitVec 32} (hok : k.files.Ok) (hp : k.running = some p)
    (hfd : 0 ≤ fd) (hfound : k.resourceById id = some (some r))
    (hopen : internalOpenQueue id fd mode k = some k') :
    (∃ q, k.queueToOpen r = some q ∧ (∃ rwn, k'.files = { k.files with
        descriptors.rwn := rwn
        resources.value := update k.resources.value r (some q) }) ∧
      k'.queues.openings = update k.queues.openings q
        ((if k.resources.value r = none then 0 else k.queues.openings q) +
          if 0 ≤ k'.pcbs.syscallRetvalue p then 1 else 0)) ∨
      k.resources.value r = none ∧ k'.pcbs.syscallRetvalue p < 0 ∧
        k'.queues.openings = k.queues.openings ∧ k'.resources.value = k.resources.value ∧
          ∀ r ∈ k'.files.resourceNodes, r ∈ k.files.resourceNodes := by
  obtain ⟨p', r', hp', hfound', ⟨q, hvalue, hjoin⟩ | ⟨hvalue, ⟨q, k₁, halloc, hjoin⟩ | ⟨-, hgive⟩⟩⟩ :=
    internalOpenQueue_cases hopen
  all_goals
    obtain rfl := Option.some.inj (hp.symm.trans hp')
    obtain rfl := Option.some.inj (Option.some.inj (hfound.symm.trans hfound'))
  · refine Or.inl ⟨q, by rw [queueToOpen, hvalue]; rfl, ⟨k'.descriptors.rwn, ?_⟩, ?_⟩
    · rw [← hvalue, Function.update_eq_self]
      have hframe := joinQueue_eq hjoin
      exact (congrArg files hframe).trans rfl
    · rw [if_neg (by simp [hvalue]), joinQueue_openings hfd hjoin]
  · rcases hget : k.queues.allocator.getBlock with ⟨_ | q', pool⟩
    · simp [queueAlloc, hget] at halloc
    · simp only [queueAlloc, hget, Prod.mk.injEq, Option.some.injEq] at halloc
      obtain ⟨rfl, rfl⟩ := halloc
      refine Or.inl ⟨q', by rw [queueToOpen, hvalue, hget]; rfl, ⟨k'.descriptors.rwn, ?_⟩, ?_⟩
      · have hframe := joinQueue_eq hjoin
        exact (congrArg files hframe).trans rfl
      · rw [if_pos hvalue, joinQueue_openings hfd hjoin]
        change update (update k.queues.openings q' 0) q' (update k.queues.openings q' 0 q' + _) = _
        rw [Function.update_idem, Function.update_self]
  · obtain ⟨hret, hfiles⟩ := giveUpResource_files hp hfound hgive
    have hframe := giveUpResource_eq hgive
    refine Or.inr ⟨hvalue, hret, by rw [hframe], by rw [hframe], fun r hr ↦ ?_⟩
    obtain ⟨-, hfiles⟩ | ⟨d, x, hd, hptr, ⟨-, hfiles⟩ | ⟨hunused, hfiles⟩⟩ := hfiles
    · rwa [hfiles] at hr
    · rw [hfiles] at hr
      exact hr
    · have hdropped := Files.Holds.drop hok (descriptorByFd_some hok hd).1 hptr
      have hdestroyed := Files.Holds.destroy hdropped (resourceById_some hok hfound).1
        (Files.Holds.unused hdropped hunused)
      rw [hfiles] at hr
      exact List.mem_of_mem_erase (hdestroyed.resourceNodes_eq ▸ hr)

/-- A statement lowers the openings only at the end of a `dmq_close`. -/
theorem runStatement_openings {context : Context} (hrun : k.runStatement p context = some k')
    (q : Addr) :
    (context = .closeResult q ∧ k.pcbs.syscallRetvalue p = 0 ∧
        k'.queues.openings q = k.queues.openings q - 1) ∨
      ¬ (context = .closeResult q ∧ k.pcbs.syscallRetvalue p = 0) ∧
        k'.queues.openings q = k.queues.openings q := by
  have hset {k₁ : Kernel} (h : some k₁ = some k') (hsame : k₁.queues.openings = k.queues.openings) :
      k'.queues.openings q = k.queues.openings q := by
    rw [← Option.some.inj h, hsame]
  have henter {fd : ℤ} {next : Addr → Context} (h : k.enterQueue p fd next = some k') :
      k'.queues.openings q = k.queues.openings q := by
    obtain ⟨queue, -, hk'⟩ := Option.bind_eq_some_iff.mp h
    cases queue <;> exact hset hk' rfl
  by_cases hresult : ∃ q', context = .closeResult q'
  · obtain ⟨q', rfl⟩ := hresult
    simp only [runStatement] at hrun
    split_ifs at hrun with hret
    · exact Or.inr ⟨fun hboth ↦ hret hboth.2, hset hrun rfl⟩
    · obtain rfl := Option.some.inj hrun
      by_cases hq : q' = q
      · subst hq
        exact Or.inl ⟨rfl, not_not.mp hret, Function.update_self ..⟩
      · refine Or.inr ⟨fun hboth ↦ hq (Context.closeResult.inj hboth.1), ?_⟩
        exact Function.update_of_ne (Ne.symm hq) ..
  · refine Or.inr ⟨fun hboth ↦ hresult ⟨q, hboth.1⟩, ?_⟩
    cases context with
    | close fd =>
      obtain ⟨queue, -, hrest⟩ := Option.bind_eq_some_iff.mp hrun
      cases queue with
      | none => exact hset hrest rfl
      | some q' =>
        obtain ⟨entries, -, hrest⟩ := Option.bind_eq_some_iff.mp hrest
        obtain ⟨ds, -, hrest⟩ := Option.bind_eq_some_iff.mp hrest
        exact hset hrest rfl
    | closeDetach => exact hset hrun rfl
    | closeFree =>
      simp only [runStatement] at hrun
      split at hrun <;> exact hset hrun rfl
    | closeResult q' => exact absurd ⟨q', rfl⟩ hresult
    | getattr | transfer | setattr => exact henter hrun
    | getattrRead | openReturn | unlinkReturn => exact hset hrun rfl
    | openResult | transferRoom | transferResult =>
      simp only [runStatement] at hrun
      split_ifs at hrun <;> exact hset hrun rfl
    | transferSize | setattrCheck =>
      simp only [runStatement] at hrun
      split at hrun <;> exact hset hrun rfl
    | transferFind c q' =>
      obtain ⟨entries, -, hrest⟩ := Option.bind_eq_some_iff.mp hrun
      obtain ⟨ds, -, hrest⟩ := Option.bind_eq_some_iff.mp hrest
      obtain ⟨found, -, hrest⟩ := Option.bind_eq_some_iff.mp hrest
      cases found <;> exact hset hrest rfl
    | setattrWrite q' attr newVal =>
      have hsame : ((k.writeAttribute q' attr newVal).setContext p (.user 0)).queues.openings =
          k.queues.openings := by
        rw [writeAttribute_eq]
        rfl
      exact hset hrun hsame
    | halting => exact hset hrun rfl
    | user | closeResource | openResource | openQueue | transferCall | transferRetry | transferWake
    | unlink | graveyard => cases hrun

/-- Of the system calls only `OPEN_QUEUE` changes the openings. -/
theorem syscallVector_openings {c : Syscall} (hshutdown : c ≠ .shutdown)
    (hopen : ∀ id fd mode, c ≠ .openQueue id fd mode) (hcall : syscallVector c k = some k') :
    k'.queues.openings = k.queues.openings := by
  have hnew {child : Addr} {k₁ : Kernel} (h : k.newProcess = some (child, k₁)) :
      k₁.queues.openings = k.queues.openings := by
    obtain ⟨_, _, _, _, -, -, -, -, rfl⟩ := newProcess_cases h
    rfl
  cases c with
  | preempt => rw [internalSchedule_eq hcall]
  | fork | spawn =>
    obtain ⟨⟨child, k₁⟩, h₁, hk'⟩ := Option.bind_eq_some_iff.mp hcall
    have hsame := hnew h₁
    rw [← Option.some.inj hk']
    exact hsame
  | wait pid result =>
    obtain ⟨_, -, ⟨-, rfl⟩ | ⟨_, -, -, ⟨x, -, -, rfl⟩ | ⟨-, ⟨-, rfl⟩ | ⟨-, -, rfl⟩⟩⟩⟩ :=
      internalWait_cases hcall <;> rfl
  | exit value =>
    obtain ⟨_, k₁, _, -, hzombie, -, ⟨-, hexit⟩ | ⟨-, hexit⟩⟩ := internalExit_cases hcall
    · rw [exitToParent_eq hexit, becomeZombie_eq hzombie]
      rfl
    · rw [exitToReady_eq hexit, becomeZombie_eq hzombie]
      rfl
  | sleep cycles =>
    obtain ⟨_, -, rfl | ⟨t, k₁, hadd, rfl⟩⟩ := internalSleep_cases hcall
    · rfl
    · have hsame : k₁.queues.openings = k.queues.openings := by rw [timerListAdd_eq hadd]
      exact hsame
  | openResource => rw [internalOpenResource_eq hcall]
  | closeResource => rw [internalCloseResource_eq hcall]
  | destroyResource => rw [internalDestroyResource_eq hcall]
  | sendMsg msg fd =>
    obtain ⟨_, _, _, -, -, -, ⟨-, haccept⟩ | ⟨-, hwait⟩⟩ := internalSendMessage_cases hcall
    · rw [acceptMessage_eq haccept]
    · obtain ⟨_, _, -, -, rfl⟩ := waitForQueue_eq hwait
      rfl
  | recvMsg msg fd =>
    obtain ⟨_, _, -, -, ⟨-, rfl⟩ | ⟨_, _, -, -, ⟨_, k₁, hpop, hdeliver⟩ | ⟨k₁, hpop, hwait⟩⟩⟩ :=
      internalRecvMessage_cases hcall
    · rfl
    · rw [deliverMessage_eq hdeliver, ← (Prod.mk.inj hpop).2]
    · obtain ⟨_, _, -, -, rfl⟩ := waitForQueue_eq hwait
      obtain ⟨-, rfl⟩ := popMessage_eq_none hpop
      rfl
  | wakeupQueue =>
    obtain ⟨_, -, ⟨_, _, -, -, rfl⟩ | ⟨-, rfl⟩⟩ := internalWakeUpQueue_cases hcall <;> rfl
  | shutdown => exact absurd rfl hshutdown
  | openQueue id fd mode => exact absurd rfl (hopen id fd mode)

/-- Apart from `OPEN_QUEUE` only the end of a `dmq_close` changes the openings. -/
theorem openings_step (hshutdown : k.request a ≠ some .shutdown)
    (hopen : ∀ id fd mode, k.request a ≠ some (.openQueue id fd mode)) (hstep : k.step a = some k')
    (q : Addr) :
    (∃ p, k.running = some p ∧ a = .statement ∧ k.CountsDown p q ∧
        k'.queues.openings q = k.queues.openings q - 1) ∨
      (∀ p, k.running = some p → a = .statement → ¬ k.CountsDown p q) ∧
        k'.queues.openings q = k.queues.openings q := by
  obtain ⟨rfl, hstart⟩ | ⟨rfl, htimer⟩ | ⟨x, byte, rfl, -, rfl⟩ | ⟨c, p, ret, rfl, -, -, rfl⟩ |
    ⟨c, p, next, hp, hcalls, hcall⟩ | ⟨p, rfl, hp, -, hrun⟩ := step_cases hstep
  · obtain ⟨-, p, pool, -, rfl⟩ := startProcess_cases hstart
    exact Or.inr ⟨by simp, rfl⟩
  · obtain ⟨p, -, hschedule⟩ := Option.bind_eq_some_iff.mp htimer
    refine Or.inr ⟨by simp, ?_⟩
    rw [internalSchedule_eq hschedule]
  · exact Or.inr ⟨by simp, rfl⟩
  · exact Or.inr ⟨by simp, rfl⟩
  · have hrequest := hcalls.request hp
    refine Or.inr ⟨fun p' hp' ha hcounts ↦ ?_, ?_⟩
    · obtain rfl := Option.some.inj (hp.symm.trans hp')
      subst ha
      rw [request, context, hp, Option.map_some, Option.bind_some, hcounts.1] at hrequest
      cases hrequest
    · refine congrFun (syscallVector_openings (k := k.trap p next c) ?_ ?_ hcall) q
      · rintro rfl
        exact hshutdown hrequest
      · rintro id fd mode rfl
        exact hopen id fd mode hrequest
  · obtain ⟨hcontext, hret, hlowered⟩ | ⟨hnot, hsame⟩ := runStatement_openings hrun q
    · exact Or.inl ⟨p, hp, rfl, ⟨hcontext, hret⟩, hlowered⟩
    · refine Or.inr ⟨fun p' hp' _ hcounts ↦ ?_, hsame⟩
      obtain rfl := Option.some.inj (hp.symm.trans hp')
      exact hnot hcounts

/-! ### The `dmq_close` calls that are still to count down -/

/-- A process that is still where it was, and calls nothing, has as much to count down as before. -/
theorem countsDown_same (hclosed : ∀ p q, k.pcbs.cpuState p = .closeResult q →
      ∃ fd, k.pcbs.syscall p = some (.closeResource fd))
    (hshutdown : k.request a ≠ some .shutdown) (hstep : k.step a = some k')
    (hcontext : k'.pcbs.cpuState p = k.pcbs.cpuState p)
    (hquiet : ¬ (k.running = some p ∧ ∃ c next, k.Calls p a c next)) :
    k'.CountsDown p q ↔ k.CountsDown p q := by
  unfold CountsDown
  rw [hcontext]
  refine and_congr_right fun hresult ↦ ?_
  obtain ⟨fd, hcall⟩ := hclosed p q hresult
  obtain ⟨-, hret⟩ | ⟨_, _, -, hwait⟩ | hcalls := step_retvalue hshutdown hstep p
  · rw [hret]
  · exact absurd (hcall.symm.trans hwait) (by simp)
  · exact absurd hcalls hquiet

/-- Apart from `CLOSE_RESOURCE` only the end of a `dmq_close` changes what there is to count down. -/
theorem countsDown_step (hinside : k.Satisfies Inside)
    (hclosed : ∀ p q, k.pcbs.cpuState p = .closeResult q →
      ∃ fd, k.pcbs.syscall p = some (.closeResource fd))
    (hshutdown : k.request a ≠ some .shutdown) (hclose : ∀ fd, k.request a ≠ some (.closeResource fd))
    (hstep : k.step a = some k') (p q : Addr) :
    k'.CountsDown p q ↔ k.CountsDown p q ∧ ¬ (k.running = some p ∧ a = .statement) := by
  obtain ⟨hnoShutdown, v, hshows, -, hinside⟩ := hinside
  -- a process that stays where it is
  have hsame (hcontext : k'.pcbs.cpuState p = k.pcbs.cpuState p)
      (hquiet : ¬ (k.running = some p ∧ ∃ c next, k.Calls p a c next))
      (hnot : ¬ (k.running = some p ∧ a = .statement)) :
      k'.CountsDown p q ↔ k.CountsDown p q ∧ ¬ (k.running = some p ∧ a = .statement) := by
    rw [countsDown_same hclosed hshutdown hstep hcontext hquiet, and_iff_left hnot]
  have hother {p' : Addr} (hp : k.running = some p') (hne : p ≠ p')
      (hcontext : k'.pcbs.cpuState p = k.pcbs.cpuState p) :
      k'.CountsDown p q ↔ k.CountsDown p q ∧ ¬ (k.running = some p ∧ a = .statement) := by
    have hnot : k.running ≠ some p := fun hp' ↦ hne (Option.some.inj (hp'.symm.trans hp))
    exact hsame hcontext (fun hboth ↦ hnot hboth.1) fun hboth ↦ hnot hboth.1
  -- a process that moves, and not at the end of a `dmq_close`
  have hmoves (hafter : k'.pcbs.cpuState p ≠ .closeResult q)
      (hbefore : k.pcbs.cpuState p ≠ .closeResult q ∨ k.running = some p ∧ a = .statement) :
      k'.CountsDown p q ↔ k.CountsDown p q ∧ ¬ (k.running = some p ∧ a = .statement) :=
    iff_of_false (fun hcounts ↦ hafter hcounts.1) fun hboth ↦
      hbefore.elim (fun hne ↦ hne hboth.1.1) hboth.2
  have hnew {child : Addr} (hfresh : k.pcbs.allocator.getBlock.1 = some child) :
      k.pcbs.cpuState child ≠ .closeResult q := by
    obtain ⟨ret, hret⟩ := hinside.user_of_fresh hshows hfresh
    rw [hret]
    exact fun hcontext ↦ by cases hcontext
  have hcalled {p' : Addr} {c : Syscall} {next : Context} (hp : k.running = some p')
      (hcalls : k.Calls p' a c next) :
      next ≠ .closeResult q ∧ k.pcbs.cpuState p' ≠ .closeResult q := by
    have hrequest := hcalls.request hp
    cases hcalls with
    | user _ ret hcontext => simp [hcontext]
    | statement _ _ hpoint =>
      generalize k.pcbs.cpuState p' = context at hpoint
      cases context with
      | closeResource fd q' =>
        cases hpoint
        exact absurd hrequest (hclose fd)
      | _ =>
        simp only [Context.request, Option.some.injEq, Prod.mk.injEq, reduceCtorEq] at hpoint <;>
          simp [← hpoint.2]
  cases step_contexts hnoShutdown hshutdown hstep with
  | same hcontexts hquiet =>
    have hcontext : k'.pcbs.cpuState p = k.pcbs.cpuState p := by rw [hcontexts]
    by_cases hboth : k.running = some p ∧ a = .statement
    · refine hmoves (fun hresult ↦ ?_) (Or.inr hboth)
      obtain ⟨hp, rfl⟩ := hboth
      rw [hcontext] at hresult
      rw [step_statement hp hresult rfl] at hstep
      obtain ⟨-, next, hcontexts', hnext⟩ := runStatement_context (by simp) hstep
      rw [hcontexts', Function.update_self, hresult] at hcontext
      cases hnext
      cases hcontext
    · refine hsame hcontext ?_ hboth
      rintro ⟨hp, c, next, hcalls⟩
      exact absurd ((hcalls.request hp).symm.trans hquiet) (by simp)
  | start p' hidle hfresh hcontexts =>
    have hnot : k.running ≠ some p := by simp [hidle]
    by_cases hne : p = p'
    · subst hne
      exact hmoves (by simp [hcontexts]) (Or.inl (hnew hfresh))
    · refine hsame ?_ (fun hboth ↦ hnot hboth.1) fun hboth ↦ hnot hboth.1
      rw [hcontexts, Function.update_of_ne hne]
  | call p' c ret haction hp hret hsame' =>
    by_cases hne : p = p'
    · subst hne
      refine hmoves ?_ (Or.inl (by simp [hret]))
      have hafter : k'.pcbs.cpuState p = c.entry := by
        rw [hsame']
        exact Function.update_self ..
      rw [hafter]
      cases c <;> simp [DmqCall.entry]
    · refine hother hp hne ?_
      rw [hsame']
      exact Function.update_of_ne hne ..
  | syscall p' c next hp hcalls _ hcontexts =>
    by_cases hne : p = p'
    · subst hne
      obtain ⟨hafter, hbefore⟩ := hcalled hp hcalls
      exact hmoves (by rwa [hcontexts, Function.update_self]) (Or.inl hbefore)
    · exact hother hp hne (by rw [hcontexts, Function.update_of_ne hne])
  | spawn p' child next hp hcalls _ hfresh hcontexts =>
    by_cases hchild : p = child
    · subst hchild
      exact hmoves (by simp [hcontexts]) (Or.inl (hnew hfresh))
    · by_cases hne : p = p'
      · subst hne
        obtain ⟨hafter, hbefore⟩ := hcalled hp hcalls
        refine hmoves ?_ (Or.inl hbefore)
        rwa [hcontexts, Function.update_of_ne hchild, Function.update_self]
      · refine hother hp hne ?_
        rw [hcontexts, Function.update_of_ne hchild, Function.update_of_ne hne]
  | statement p' next haction hp hrun hnext _ hcontexts =>
    by_cases hne : p = p'
    · subst hne
      refine hmoves ?_ (Or.inr ⟨hp, haction⟩)
      rw [hcontexts, Function.update_self]
      generalize k.pcbs.cpuState p = context at hnext
      cases hnext <;> simp
    · exact hother hp hne (by rw [hcontexts, Function.update_of_ne hne])

/-! ### The queues of the resources -/

/-- The step creates a resource in block `r`. -/
def CreatesAt (k : Kernel) (a : Action) (r : Addr) : Prop :=
  ∃ id type mode, k.request a = some (.openResource id type mode) ∧ hasBit mode dsosCreate = true ∧
    k.resourceById id = some none ∧ k.resources.allocator.getBlock.1 = some r

/-- Apart from `OPEN_QUEUE`, a resource gets a queue only by being created in a block that has one. -/
theorem value_step (hok : k.files.Ok) (hshutdown : k.request a ≠ some .shutdown)
    (hopen : ∀ id fd mode, k.request a ≠ some (.openQueue id fd mode)) (hstep : k.step a = some k')
    (hr : r ∈ k'.files.resourceNodes) (hvalue : k'.resources.value r = some q) :
    k.resources.value r = some q ∧ (r ∈ k.files.resourceNodes ∨ k.CreatesAt a r) := by
  have hsame {f : Files} (hfiles : k'.files = f) (hvalues : f.resources.value = k.resources.value)
      (hnodes : ∀ r ∈ f.resourceNodes, r ∈ k.files.resourceNodes) :
      k.resources.value r = some q ∧ (r ∈ k.files.resourceNodes ∨ k.CreatesAt a r) := by
    subst hfiles
    have hvalue' : k'.files.resources.value r = some q := hvalue
    exact ⟨by rw [← hvalues, hvalue'], Or.inl (hnodes r hr)⟩
  cases step_files hshutdown hstep with
  | same hfiles => exact hsame hfiles rfl fun _ h ↦ h
  | newProcess p _ hfiles => exact hsame hfiles rfl fun _ h ↦ h
  | call p c next hp hcalls hkind hcall =>
    have hrequest := hcalls.request hp
    cases c with
    | openResource id type mode =>
      have htrap : (k.trap p next (.openResource id type mode)).files.Ok := hok
      obtain ⟨_, -, hopens⟩ := internalOpenResource_files htrap hcall
      have hcreates {r' : Addr} {resPool : PoolAllocator} (hnone : k.resourceById id = some none)
          (hmode : hasBit mode dsosCreate = true)
          (hnew : k.resources.allocator.getBlock = (some r', resPool))
          (hvalues : k'.files.resources.value = k.resources.value)
          (hnodes : k'.files.resourceNodes = (k.files.create r' resPool id type).resourceNodes) :
          k.resources.value r = some q ∧ (r ∈ k.files.resourceNodes ∨ k.CreatesAt a r) := by
        have hvalue' : k'.files.resources.value r = some q := hvalue
        rw [hnodes, (Files.create_resourceNodes hok type hnew fun r' hr' ↦
          resourceById_none hok hnone hr').1, List.mem_append, List.mem_singleton] at hr
        refine ⟨by rw [← hvalues, hvalue'], ?_⟩
        obtain hr | rfl := hr
        · exact Or.inl hr
        · exact Or.inr ⟨id, type, mode, hrequest, hmode, hnone, congrArg Prod.fst hnew⟩
      cases hopens with
      | failed hfiles => exact hsame hfiles rfl fun _ h ↦ h
      | joined r' d x pool ptrPool _ _ _ _ hfiles => exact hsame hfiles rfl fun _ h ↦ h
      | created r' resPool hnone hmode hnew hfiles =>
        exact hcreates hnone hmode hnew (by rw [hfiles]; rfl) (by rw [hfiles]; rfl)
      | createdJoined r' d x resPool pool ptrPool hnone hmode hnew _ _ hfiles =>
        exact hcreates hnone hmode hnew (by rw [hfiles]; rfl) (by rw [hfiles]; rfl)
    | closeResource fd =>
      obtain ⟨_, -, ⟨-, hfiles, -⟩ | ⟨d, x, -, -, hfiles, -⟩⟩ := internalCloseResource_files hcall <;>
        exact hsame hfiles rfl fun _ h ↦ h
    | destroyResource id =>
      obtain ⟨_, -, ⟨hfiles, -⟩ | ⟨r', hfound, hsize, hfiles, -⟩⟩ := internalDestroyResource_files hcall
      · exact hsame hfiles rfl fun _ h ↦ h
      · refine hsame hfiles rfl fun _ h ↦ ?_
        have hdestroyed := Files.Holds.destroy hok (resourceById_some hok hfound).1
          (Files.Holds.unused hok hsize)
        exact List.mem_of_mem_erase (hdestroyed.resourceNodes_eq ▸ h)
    | openQueue id fd mode => exact absurd hrequest (hopen id fd mode)
    | exit value =>
      have hfields := (internalExit_fields hcall).1
      exact hsame hfields rfl fun _ h ↦ h
    | _ => cases hkind

/-! ### Notes -/

/-- Apart from `OPEN_QUEUE` the step notes no descriptor anew. -/
theorem noteOpening_isSome (hopen : ∀ id fd mode, k.request a ≠ some (.openQueue id fd mode))
    (d : Addr) : (noteOpening m k a k' d).isSome ↔ k'.files.Leads d ∧ (m d).isSome := by
  unfold noteOpening
  by_cases hleads : k'.files.Leads d
  · rw [if_neg (not_not.mpr hleads), and_iff_right hleads]
    cases hp : k.running with
    | none => rfl
    | some p =>
      dsimp only
      split
      · exact absurd ‹_› (hopen _ _ _)
      · split_ifs
        · rw [Option.isSome_map]
        · rfl
      · rfl
  · simp [hleads]

/-- An `OPEN_QUEUE` that succeeds notes its descriptor. -/
theorem noteOpening_openQueue {mode : BitVec 32} (hp : k.running = some p)
    (hrequest : k.request a = some (.openQueue id fd mode)) (d : Addr) :
    (noteOpening m k a k' d).isSome ↔ k'.files.Leads d ∧
      (0 ≤ k'.pcbs.syscallRetvalue p ∧ k.descriptorByFd p fd = some (some d) ∨ (m d).isSome) := by
  unfold noteOpening
  by_cases hleads : k'.files.Leads d
  · rw [if_neg (not_not.mpr hleads), and_iff_right hleads]
    simp only [hp, hrequest]
    split_ifs with hopened
    · simp [hopened]
    · rw [or_iff_right hopened]
  · simp [hleads]

/-! ### The invariant -/

/-- The noted descriptors of queue `q`. -/
def openOn (k : Kernel) (m : Addr → Option Opening) (q : Addr) : Set Addr :=
  {d | (m d).isSome ∧ k.resources.value (k.descriptors.resource d) = some q}

/-- The processes that are still to count down queue `q`. -/
def countingDown (k : Kernel) (q : Addr) : Set Addr := {p | k.CountsDown p q}

/-- The openings of each queue are its noted descriptors and the processes still to count it down. -/
structure Tallies (m : Addr → Option Opening) (k : Kernel) : Prop where
  queue : ∀ d, (m d).isSome → ∃ q, k.resources.value (k.descriptors.resource d) = some q
  alone : ∀ d, (m d).isSome → ∀ q, k.resources.value (k.descriptors.resource d) = some q →
    ∀ r ∈ k.files.resourceNodes, k.resources.value r = some q → r = k.descriptors.resource d
  counted : ∀ q, Counts (k.queues.openings q) (k.openOn m q) (k.countingDown q)

/-- What every step that is safe for the counts keeps. -/
structure CountsInv (m : Addr → Option Opening) (k : Kernel) : Prop extends Tallies m k where
  files : k.files.Ok
  backed : k.files.Backed
  processes : k.Satisfies Inside
  opens : ∀ p, k.OpenPoint p (k.pcbs.cpuState p)
  numbers : ∀ p id fd mode, k.pcbs.cpuState p = .openQueue id fd mode → 0 ≤ fd
  closes : ∀ p fd q, (k.pcbs.cpuState p).closes = some (fd, q) → k.RefersTo p fd q
  closed : ∀ p q, k.pcbs.cpuState p = .closeResult q → ∃ fd, k.pcbs.syscall p = some (.closeResource fd)
  leads : ∀ d, (m d).isSome → k.files.Leads d
  entering : ∀ p, ∀ d ∈ k.files.descriptorNodes p, k.leftAt p (k.descriptors.fd d) = none → m d = none

theorem CountsSafe.usesQueues (h : CountsSafe (m, k) a) (hstep : k.step a = some k') :
    a.usesQueues = true := by
  cases a with
  | syscall c =>
    have hrequest : k.request (.syscall c) = some c := by
      rw [step] at hstep
      split_ifs at hstep with hat
      rw [request, if_pos hat]
    have hcall := h c hrequest
    cases c with
    | fork | shutdown => exact hcall.elim
    | openQueue => cases hcall.1
    | _ => rfl
  | _ => rfl

theorem CountsSafe.notShutdown (h : CountsSafe (m, k) a) : k.request a ≠ some .shutdown :=
  fun hrequest ↦ h _ hrequest

theorem CountsSafe.notFork (h : CountsSafe (m, k) a) : k.request a ≠ some .fork :=
  fun hrequest ↦ h _ hrequest

theorem CountsSafe.concernsUsers (h : CountsSafe (m, k) a) {c : Syscall}
    (hrequest : k.request a = some c) : c.concernsUsers = false := by
  have hcall := h c hrequest
  cases c with
  | sendMsg | recvMsg | wakeupQueue | shutdown => exact hcall.elim
  | _ => rfl

theorem CountsInv.noShutdown (h : CountsInv m k) : k.NoShutdown := h.processes.1

/-- The process at its `OPEN_QUEUE` has the descriptor of its `dmq_open`, which is not noted yet. -/
theorem CountsInv.openQueue_point (h : CountsInv m k) (hsafe : CountsSafe (m, k) a)
    (hstep : k.step a = some k') (hp : k.running = some p) {mode : BitVec 32}
    (hrequest : k.request a = some (.openQueue id fd mode)) :
    k.pcbs.cpuState p = .openQueue id fd mode ∧ 0 ≤ fd ∧ ∃ d ∈ k.files.descriptorNodes p,
      k.descriptors.fd d = fd ∧ k.resources.id (k.descriptors.resource d) = id ∧ m d = none := by
  obtain ⟨-, -, hopener⟩ := request_of_usesQueues (k := k) (hsafe.usesQueues hstep)
  obtain ⟨next, hcalls, -⟩ := step_syscall hp hrequest hstep
  have hcontext := hopener hcalls
  have hpoint := h.opens p
  rw [hcontext] at hpoint
  obtain ⟨d, hd, hfd, hid, -⟩ := hpoint
  refine ⟨hcontext, h.numbers p _ _ _ hcontext, d, hd, hfd, hid, h.entering p d hd ?_⟩
  rw [leftAt, hcontext]
  exact if_pos hfd

/-- A noted descriptor stays, unless a `dmq_close` gives it up. -/
theorem CountsInv.stays (h : CountsInv m k) (hsafe : CountsSafe (m, k) a) (hstep : k.step a = some k')
    (hd : (m d).isSome)
    (hkept : ∀ p fd, k.running = some p → k.request a = some (.closeResource fd) →
      k.descriptorByFd p fd ≠ some (some d)) : k.files.Stays k'.files d := by
  have hallocated : k.descriptors.allocator.Allocated d := by
    obtain ⟨x, hx, hdesc⟩ := h.leads d hd
    exact hdesc ▸ h.backed.allocated _ x hx
  refine (stays_step h.files hsafe.notShutdown hstep hallocated (h.leads d hd) ?_).1
  rintro ⟨p, hp, ⟨fd, hrequest, hfound⟩ | ⟨id, fd, mode, hrequest, hfound⟩ |
    ⟨value, hrequest, hawaited, hmem⟩⟩
  · exact hkept p fd hp hrequest hfound
  · obtain ⟨hcontext, -⟩ := h.openQueue_point hsafe hstep hp hrequest
    obtain ⟨hmem, rfl⟩ := descriptorByFd_some h.files hfound
    have hnone := h.entering p d hmem (by rw [leftAt, hcontext]; exact if_pos rfl)
    simp [hnone] at hd
  · have hnone : m d = none := hsafe _ hrequest p hp hawaited d hmem
    simp [hnone] at hd

/-- A noted descriptor that stays keeps its queue. -/
theorem Tallies.value_eq (h : Tallies m k) (hd : (m d).isSome) (hstays : k.files.Stays k'.files d) :
    k'.resources.value (k'.descriptors.resource d) = k.resources.value (k.descriptors.resource d) := by
  obtain ⟨q, hq⟩ := h.queue d hd
  have hresource : k'.descriptors.resource d = k.descriptors.resource d := hstays.resource
  rw [hresource, hq]
  exact hstays.value q hq

/-- A descriptor that stays noted, if it was, is open on the queue that it was open on. -/
theorem Tallies.mem_openOn (h : Tallies m k) (hnoted : (m' d).isSome ↔ (m d).isSome)
    (hstays : (m d).isSome → k.files.Stays k'.files d) : d ∈ k'.openOn m' q ↔ d ∈ k.openOn m q := by
  unfold openOn
  rw [Set.mem_ofPred_eq, Set.mem_ofPred_eq, hnoted]
  exact and_congr_right fun hd ↦ by rw [h.value_eq hd (hstays hd)]

theorem mem_openDescriptors :
    d ∈ k.openDescriptors m r ↔
      (∃ x ∈ k.files.pointerNodes r, k.descriptorPtrs.descriptor x = d) ∧ (m d).isSome := by
  simp [openDescriptors]

/-- The queues of the descriptors that stay noted, where no queue is opened. -/
theorem CountsInv.queues_kept (h : CountsInv m k) (hsafe : CountsSafe (m, k) a)
    (hopen : ∀ id fd mode, k.request a ≠ some (.openQueue id fd mode)) (hstep : k.step a = some k')
    (hkept : ∀ d, (m' d).isSome → (m d).isSome ∧ k.files.Stays k'.files d) :
    (∀ d, (m' d).isSome → ∃ q, k'.resources.value (k'.descriptors.resource d) = some q) ∧
      ∀ d, (m' d).isSome → ∀ q, k'.resources.value (k'.descriptors.resource d) = some q →
        ∀ r ∈ k'.files.resourceNodes, k'.resources.value r = some q →
          r = k'.descriptors.resource d := by
  constructor
  · intro d hd'
    obtain ⟨hd, hstays⟩ := hkept d hd'
    rw [h.value_eq hd hstays]
    exact h.queue d hd
  · intro d hd' q hq r hr hvalue
    obtain ⟨hd, hstays⟩ := hkept d hd'
    have hresource : k'.descriptors.resource d = k.descriptors.resource d := hstays.resource
    rw [h.value_eq hd hstays] at hq
    rw [hresource]
    obtain ⟨hvalue, hr | ⟨id, type, mode, hrequest, hmode, hnone, hget⟩⟩ :=
      value_step h.files hsafe.notShutdown hopen hstep hr hvalue
    · exact h.alone d hd q hq r hr hvalue
    · have hunopened : k.Unopened m q := (hsafe _ hrequest).2 hmode hnone r hget q hvalue
      obtain ⟨x, hx, hdesc⟩ := h.leads d hd
      have hempty : k.openDescriptors m (k.descriptors.resource d) = [] :=
        hunopened _ (h.files.listed _ x hx) hq
      have hmem : d ∈ k.openDescriptors m (k.descriptors.resource d) :=
        mem_openDescriptors.mpr ⟨⟨x, hx, hdesc⟩, hd⟩
      rw [hempty] at hmem
      cases hmem

/-- A step that opens and closes no queue. -/
theorem CountsInv.tallies_quiet (h : CountsInv m k) (hsafe : CountsSafe (m, k) a)
    (hstep : k.step a = some k') (hopen : ∀ id fd mode, k.request a ≠ some (.openQueue id fd mode))
    (hclose : ∀ fd, k.request a ≠ some (.closeResource fd)) : Tallies (noteOpening m k a k') k' := by
  have hshutdown := hsafe.notShutdown
  have hstays (d : Addr) (hd : (m d).isSome) : k.files.Stays k'.files d :=
    h.stays hsafe hstep hd fun _ fd _ hrequest ↦ absurd hrequest (hclose fd)
  have hnoted (d : Addr) : (noteOpening m k a k' d).isSome ↔ (m d).isSome :=
    (noteOpening_isSome hopen d).trans
      ⟨And.right, fun hd ↦ ⟨(hstays d hd).leads (h.leads d hd), hd⟩⟩
  obtain ⟨hqueue, halone⟩ := h.queues_kept hsafe hopen hstep fun d hd' ↦
    ⟨(hnoted d).mp hd', hstays d ((hnoted d).mp hd')⟩
  refine ⟨hqueue, halone, fun q ↦ ?_⟩
  have hopenOn : k'.openOn (noteOpening m k a k') q = k.openOn m q := by
    ext d
    exact h.mem_openOn (hnoted d) (hstays d)
  have hcounts := countsDown_step h.processes h.closed hshutdown hclose hstep
  have hcounted := h.counted q
  rw [hopenOn]
  obtain ⟨p, hp, ha, hcountsDown, hlowered⟩ | ⟨hnot, hsame⟩ := openings_step hshutdown hopen hstep q
  · have hdown : k'.countingDown q = k.countingDown q \ {p} := by
      ext p'
      refine (hcounts p' q).trans (and_congr_right fun _ ↦ not_congr ?_)
      simp [hp, ha, eq_comm]
    rw [hlowered, hdown]
    exact hcounted.settle hcountsDown
  · have hdown : k'.countingDown q = k.countingDown q := by
      ext p
      exact (hcounts p q).trans (and_iff_left_of_imp fun hcountsDown hboth ↦
        hnot p hboth.1 hboth.2 hcountsDown)
    rw [hsame, hdown]
    exact hcounted

/-- The `CLOSE_RESOURCE` of a `dmq_close` gives up a noted descriptor of the queue to be counted down. -/
theorem CountsInv.closeResource_point (h : CountsInv m k) (hsafe : CountsSafe (m, k) a)
    (hstep : k.step a = some k') (hp : k.running = some p)
    (hrequest : k.request a = some (.closeResource fd)) :
    ∃ d q, (k.descriptorByFd p fd = some (some d) ∧ d ∈ k.openOn m q ∧ ¬ k'.files.Leads d) ∧
      k.pcbs.cpuState p = .closeResource fd q ∧
      k'.pcbs.cpuState = update k.pcbs.cpuState p (.closeResult q) ∧ k'.pcbs.syscallRetvalue p = 0 ∧
      k'.queues.openings = k.queues.openings := by
  obtain ⟨rfl, hall⟩ : a = .statement ∧
    ∀ p ∈ k.running, ∀ d ∈ k.files.descriptorNodes p, k.descriptors.fd d = fd → (m d).isSome :=
      hsafe _ hrequest
  obtain ⟨next, hcalls, -⟩ := step_syscall hp hrequest hstep
  obtain ⟨q, hcontext⟩ := hcalls.closing
  have hclosed := hstep
  rw [step_request hp hcontext rfl] at hclosed
  obtain ⟨d, hd, rfl, hvalue⟩ := h.closes p fd q (by rw [hcontext]; rfl)
  have hnoted := hall p hp d hd rfl
  obtain ⟨p', hp', hfinds⟩ := internalCloseResource_files hclosed
  obtain rfl := Option.some.inj (hp.symm.trans hp')
  obtain ⟨hnone, -⟩ | ⟨d', x, hfound, hptr, hfiles, hret⟩ := hfinds
  · exact absurd (descriptorByFd_unique h.files hd hnone).symm (Option.some_ne_none d)
  obtain rfl := Option.some.inj (descriptorByFd_unique h.files hd hfound)
  have hgone : ¬ k'.files.Leads d' := by
    obtain ⟨-, -, hallocated⟩ := h.files.descriptorPool.release (h.files.descriptor_allocated p d' hd)
    refine (backed_step h.backed h.files hsafe.notShutdown hstep).not_leads fun hd' ↦ ?_
    rw [hfiles] at hd'
    exact ((hallocated d').mp hd').1 rfl
  have hframe := internalCloseResource_eq hclosed
  refine ⟨d', q, ⟨hfound, ⟨hnoted, hvalue⟩, hgone⟩, hcontext, ?_, hret, ?_⟩ <;> rw [hframe] <;> rfl

/-- The openings of a queue are lowered only after the `CLOSE_RESOURCE` of a `dmq_close`. -/
theorem CountsInv.tallies_close (h : CountsInv m k) (hsafe : CountsSafe (m, k) a)
    (hstep : k.step a = some k') (hp : k.running = some p)
    (hrequest : k.request a = some (.closeResource fd)) : Tallies (noteOpening m k a k') k' := by
  have hopen (id fd' : ℤ) (mode : BitVec 32) : k.request a ≠ some (.openQueue id fd' mode) := by
    simp [hrequest]
  obtain ⟨d', q, ⟨hfound, hheld, hgone⟩, hcontext, hcontexts, hret, hopenings⟩ :=
    h.closeResource_point hsafe hstep hp hrequest
  have hidle (q' : Addr) : ¬ k.CountsDown p q' := fun hcounts ↦ by
    have hresult := hcounts.1
    rw [hcontext] at hresult
    cases hresult
  have hstays (d : Addr) (hd : (m d).isSome) (hne : d ≠ d') : k.files.Stays k'.files d := by
    refine h.stays hsafe hstep hd fun p₁ fd₁ hp₁ hrequest' hfound' ↦ hne ?_
    obtain rfl := Option.some.inj (hp.symm.trans hp₁)
    obtain rfl := Syscall.closeResource.inj (Option.some.inj (hrequest.symm.trans hrequest'))
    exact Option.some.inj (Option.some.inj (hfound'.symm.trans hfound))
  have hnoted (d : Addr) : (noteOpening m k a k' d).isSome ↔ (m d).isSome ∧ d ≠ d' := by
    rw [noteOpening_isSome hopen]
    constructor
    · rintro ⟨hleads, hd⟩
      refine ⟨hd, ?_⟩
      rintro rfl
      exact hgone hleads
    · rintro ⟨hd, hne⟩
      exact ⟨(hstays d hd hne).leads (h.leads d hd), hd⟩
  obtain ⟨hqueue, halone⟩ := h.queues_kept hsafe hopen hstep fun d hd' ↦
    ⟨((hnoted d).mp hd').1, hstays d ((hnoted d).mp hd').1 ((hnoted d).mp hd').2⟩
  refine ⟨hqueue, halone, fun q' ↦ ?_⟩
  have hcounts (p' : Addr) : k'.CountsDown p' q' ↔ k.CountsDown p' q' ∨ p' = p ∧ q' = q := by
    by_cases hne : p' = p
    · subst hne
      rw [or_iff_right (hidle q'), and_iff_right rfl, CountsDown, hcontexts, Function.update_self, hret,
        and_iff_left rfl, Context.closeResult.injEq, eq_comm]
    · have hnot : k.running ≠ some p' := fun hp' ↦ hne (Option.some.inj (hp'.symm.trans hp))
      rw [or_iff_left fun hboth ↦ hne hboth.1]
      refine countsDown_same h.closed hsafe.notShutdown hstep ?_ fun hboth ↦ hnot hboth.1
      rw [hcontexts, Function.update_of_ne hne]
  have hopenOn (d : Addr) :
      d ∈ k'.openOn (noteOpening m k a k') q' ↔ d ∈ k.openOn m q' ∧ d ≠ d' := by
    by_cases hne : d = d'
    · subst hne
      exact iff_of_false (fun hmem ↦ ((hnoted d).mp hmem.1).2 rfl) fun hboth ↦ hboth.2 rfl
    · rw [and_iff_left hne]
      exact h.mem_openOn ((hnoted d).trans (and_iff_left hne)) fun hd ↦ hstays d hd hne
  rw [hopenings]
  by_cases hq : q' = q
  · subst hq
    have hopen' : k'.openOn (noteOpening m k a k') q' = k.openOn m q' \ {d'} := by
      ext d
      exact hopenOn d
    have hdown : k'.countingDown q' = insert p (k.countingDown q') := by
      ext p'
      rw [Set.mem_insert_iff, or_comm]
      exact (hcounts p').trans (or_congr_right (and_iff_left rfl))
    rw [hopen', hdown]
    exact (h.counted q').release hheld (hidle q')
  · have hopen' : k'.openOn (noteOpening m k a k') q' = k.openOn m q' := by
      ext d
      refine (hopenOn d).trans (and_iff_left_of_imp fun hmem ↦ ?_)
      rintro rfl
      exact hq (Option.some.inj (hmem.2.symm.trans hheld.2))
    have hdown : k'.countingDown q' = k.countingDown q' := by
      ext p'
      exact (hcounts p').trans (or_iff_left fun hboth ↦ hq hboth.2)
    rw [hopen', hdown]
    exact h.counted q'

/-- An `OPEN_QUEUE` that works on queue `q`, and notes descriptor `d` if it succeeds. -/
theorem Tallies.opened (h : Tallies m k) {s : Prop} [Decidable s]
    (hlisted : ∀ d, (m d).isSome → k.descriptors.resource d ∈ k.files.resourceNodes)
    (hnone : m d = none) (halone : k.OpensAlone (k.descriptors.resource d) q)
    (hidle : k.resources.value (k.descriptors.resource d) = none → k.countingDown q = ∅)
    (hstays : ∀ d, (m d).isSome → k.files.Stays k'.files d)
    (hresource : k'.descriptors.resource = k.descriptors.resource)
    (hvalue : k'.resources.value = update k.resources.value (k.descriptors.resource d) (some q))
    (hnodes : k'.files.resourceNodes = k.files.resourceNodes)
    (hnoted : ∀ d', (m' d').isSome ↔ (m d').isSome ∨ s ∧ d' = d)
    (hdown : k'.countingDown = k.countingDown)
    (hopenings : k'.queues.openings = update k.queues.openings q
      ((if k.resources.value (k.descriptors.resource d) = none then 0 else k.queues.openings q) +
        if s then 1 else 0)) : Tallies m' k' := by
  have hqueue : k'.resources.value (k'.descriptors.resource d) = some q := by
    rw [hvalue, hresource, Function.update_self]
  have hnew (q' : Addr) : d ∉ k.openOn m q' := fun hmem ↦ by
    have hsome := hmem.1
    rw [hnone] at hsome
    cases hsome
  have hopenOn (d' q' : Addr) :
      d' ∈ k'.openOn m' q' ↔ d' ∈ k.openOn m q' ∨ s ∧ d' = d ∧ q' = q := by
    by_cases hd' : d' = d
    · subst hd'
      rw [or_iff_right (hnew q'), openOn, Set.mem_ofPred_eq, hnoted, hqueue, hnone]
      simp [eq_comm]
    · rw [or_iff_left fun hboth ↦ hd' hboth.2.1]
      exact h.mem_openOn ((hnoted d').trans (or_iff_left fun hboth ↦ hd' hboth.2)) (hstays d')
  refine ⟨fun d' hd' ↦ ?_, fun d' hd' q' hq' r hr hr' ↦ ?_, fun q' ↦ ?_⟩
  · obtain hd' | ⟨-, rfl⟩ := (hnoted d').mp hd'
    · rw [h.value_eq hd' (hstays d' hd')]
      exact h.queue d' hd'
    · exact ⟨q, hqueue⟩
  · rw [hnodes] at hr
    rw [hresource]
    rw [hvalue, Function.update_apply] at hr'
    obtain hd' | ⟨-, rfl⟩ := (hnoted d').mp hd'
    · rw [h.value_eq hd' (hstays d' hd')] at hq'
      split_ifs at hr' with hsame
      · obtain rfl := Option.some.inj hr'
        exact hsame.trans (halone.1 _ (hlisted d' hd') hq').symm
      · exact h.alone d' hd' q' hq' r hr hr'
    · obtain rfl := Option.some.inj (hqueue.symm.trans hq')
      split_ifs at hr' with hsame
      · exact hsame
      · exact halone.1 r hr hr'
  · rw [hopenings, hdown]
    by_cases hq' : q' = q
    · subst hq'
      rw [Function.update_self]
      have hstart : Counts (if k.resources.value (k.descriptors.resource d) = none then 0
          else k.queues.openings q') (k.openOn m q') (k.countingDown q') := by
        split_ifs with hfresh
        · have hempty : k.openOn m q' = ∅ := by
            refine Set.eq_empty_of_forall_notMem fun d' hmem ↦ ?_
            have hsame := halone.1 _ (hlisted d' hmem.1) hmem.2
            exact absurd (hmem.2.symm.trans (hsame ▸ hfresh)) (by simp)
          rw [hempty, hidle hfresh]
          exact counts_empty
        · exact h.counted q'
      by_cases hsucceeds : s
      · have hheld : k'.openOn m' q' = insert d (k.openOn m q') := by
          ext d'
          rw [hopenOn, Set.mem_insert_iff, or_comm]
          simp [hsucceeds]
        rw [if_pos hsucceeds, hheld]
        exact hstart.acquire (hnew q')
      · have hheld : k'.openOn m' q' = k.openOn m q' := by
          ext d'
          exact (hopenOn d' q').trans (or_iff_left fun hboth ↦ hsucceeds hboth.1)
        rw [if_neg hsucceeds, hheld, add_zero]
        exact hstart
    · have hheld : k'.openOn m' q' = k.openOn m q' := by
        ext d'
        exact (hopenOn d' q').trans (or_iff_left fun hboth ↦ hq' hboth.2.2)
      rw [Function.update_of_ne hq', hheld]
      exact h.counted q'

/-- A process inside a queue function has one of the PCBs. -/
theorem CountsInv.mem_blocks (h : CountsInv m k) (hp : ∀ ret, k.pcbs.cpuState p ≠ .user ret) :
    p ∈ k.pcbs.allocator.blocks := by
  obtain ⟨-, v, hshows, -, hinside⟩ := h.processes
  exact PoolAllocator.mem_blocks.mpr (hshows.allocated_iff.mpr (hinside p hp).mem).isBlock

/-- An `OPEN_QUEUE` that succeeds finds the descriptor of its process. -/
theorem internalOpenQueue_finds (hok : k.files.Ok) (hp : k.running = some p)
    (hd : d ∈ k.files.descriptorNodes p) (hfd : k.descriptors.fd d = fd) {mode : BitVec 32}
    (hopen : internalOpenQueue id fd mode k = some k') (hret : 0 ≤ k'.pcbs.syscallRetvalue p) :
    k.descriptorByFd p fd = some (some d) := by
  obtain ⟨r, q, k₁, ds, k₂, -, hqueue, hds, -⟩ := internalOpenQueue_success hp hopen hret
  have hlookup : k₁.descriptorByFd p fd = k.descriptorByFd p fd := by
    obtain ⟨-, rfl⟩ | ⟨-, k₀, halloc, rfl⟩ := hqueue
    · rfl
    · rcases hget : k.queues.allocator.getBlock with ⟨_ | q', pool⟩ <;>
        simp only [queueAlloc, hget, Prod.mk.injEq] at halloc <;> rw [← halloc.2] <;> rfl
  rw [hlookup, ← hfd] at hds
  obtain rfl := descriptorByFd_unique hok hd hds
  rw [← hfd, hds]

/-- The `OPEN_QUEUE` of a `dmq_open` raises the openings if it succeeds. -/
theorem CountsInv.tallies_open (h : CountsInv m k) (hsafe : CountsSafe (m, k) a)
    (hstep : k.step a = some k') (hp : k.running = some p) {mode : BitVec 32}
    (hrequest : k.request a = some (.openQueue id fd mode)) : Tallies (noteOpening m k a k') k' := by
  obtain ⟨hcontext, hfd, d, hd, hfd', hid, hnone⟩ := h.openQueue_point hsafe hstep hp hrequest
  obtain ⟨rfl, halone⟩ : a = .statement ∧ ∀ found ∈ k.resourceById id,
    ∀ r ∈ found, ∀ q ∈ k.queueToOpen r, k.OpensAlone r q := hsafe _ hrequest
  have hcall : internalOpenQueue id fd mode (k.trap p .openReturn (.openQueue id fd mode)) =
      some k' := by
    rw [step_request hp hcontext rfl] at hstep
    exact hstep
  have hfound : k.resourceById id = some (some (k.descriptors.resource d)) := by
    obtain ⟨p', r, hp', hfound, -⟩ := internalOpenQueue_cases hcall
    obtain ⟨hr, hid'⟩ := resourceById_some (k := k) h.files hfound
    obtain rfl : k.descriptors.resource d = r :=
      h.files.ids _ (Files.Holds.resource_mem h.files hd) r hr (hid.trans hid'.symm)
    exact hfound
  have hstays (d' : Addr) (hd' : (m d').isSome) : k.files.Stays k'.files d' :=
    h.stays hsafe hstep hd' fun _ fd _ hrequest' ↦ by simp [hrequest] at hrequest'
  have hdown : k'.countingDown = k.countingDown := by
    funext q
    ext p'
    have hcounts := countsDown_step h.processes h.closed hsafe.notShutdown (by simp [hrequest]) hstep p' q
    refine hcounts.trans (and_iff_left_of_imp fun hcounts hboth ↦ ?_)
    obtain rfl := Option.some.inj (hp.symm.trans hboth.1)
    have hresult := hcounts.1
    rw [hcontext] at hresult
    cases hresult
  obtain ⟨q, hq, ⟨rwn, hfiles⟩, hopenings⟩ | ⟨hvalue, hret, hopenings, hvalues, hlisted⟩ :=
    internalOpenQueue_openings (k := k.trap p .openReturn (.openQueue id fd mode)) h.files hp hfd hfound
      hcall
  · have hresource : k'.descriptors.resource = k.descriptors.resource :=
      congrArg (fun f : Files ↦ f.descriptors.resource) hfiles
    have hvalue : k'.resources.value = update k.resources.value (k.descriptors.resource d) (some q) :=
      congrArg (fun f : Files ↦ f.resources.value) hfiles
    have hnodes : k'.files.resourceNodes = k.files.resourceNodes := by
      rw [hfiles]
      rfl
    have hleads : k'.files.Leads d := by
      rw [hfiles]
      exact leads_of_mem (k := k) h.files hd
    have hsingle := halone _ hfound _ rfl q hq
    refine h.opened (d := d) (q := q) (s := 0 ≤ k'.pcbs.syscallRetvalue p) ?_ hnone hsingle ?_
      hstays hresource hvalue hnodes ?_ hdown hopenings
    · intro d' hd'
      obtain ⟨x, hx, -⟩ := h.leads d' hd'
      exact h.files.listed _ x hx
    · refine fun hfresh ↦ Set.eq_empty_of_forall_notMem fun p' hcounts ↦ ?_
      refine hsingle.2 hfresh p' (h.mem_blocks fun ret hret ↦ ?_) hcounts
      exact absurd (hcounts.1.symm.trans hret) (by simp)
    · intro d'
      rw [noteOpening_openQueue hp hrequest]
      constructor
      · rintro ⟨-, ⟨hret, hfinds⟩ | hd'⟩
        · obtain ⟨hmem, hsame⟩ := descriptorByFd_some h.files hfinds
          exact Or.inr ⟨hret, h.files.fd_inj p d' hmem d hd (hsame.trans hfd'.symm)⟩
        · exact Or.inl hd'
      · rintro (hd' | ⟨hret, rfl⟩)
        · exact ⟨(hstays d' hd').leads (h.leads d' hd'), Or.inr hd'⟩
        · refine ⟨hleads, Or.inl ⟨hret, ?_⟩⟩
          exact internalOpenQueue_finds (k := k.trap p .openReturn (.openQueue id fd mode)) h.files hp
            hd hfd' hcall hret
  · -- no queue is left, and the resource is given up
    have hnoted (d' : Addr) : (noteOpening m k .statement k' d').isSome ↔ (m d').isSome := by
      rw [noteOpening_openQueue hp hrequest, or_iff_right fun hboth ↦ absurd hboth.1 (not_le.mpr hret)]
      exact and_iff_right_of_imp fun hd' ↦ (hstays d' hd').leads (h.leads d' hd')
    refine ⟨fun d' hd' ↦ ?_, fun d' hd' q hq r hr hr' ↦ ?_, fun q ↦ ?_⟩
    · rw [hnoted] at hd'
      rw [h.value_eq hd' (hstays d' hd')]
      exact h.queue d' hd'
    · rw [hnoted] at hd'
      have hresource : k'.descriptors.resource d' = k.descriptors.resource d' :=
        (hstays d' hd').resource
      rw [h.value_eq hd' (hstays d' hd')] at hq
      rw [hvalues] at hr'
      rw [hresource]
      exact h.alone d' hd' q hq r (hlisted r hr) hr'
    · have hheld : k'.openOn (noteOpening m k .statement k') q = k.openOn m q := by
        ext d'
        exact h.mem_openOn (hnoted d') (hstays d')
      rw [hopenings, hdown, hheld]
      exact h.counted q

/-- Every step that is safe for the counts keeps them. -/
theorem CountsInv.step (h : CountsInv m k) (hsafe : CountsSafe (m, k) a) (hstep : k.step a = some k') :
    CountsInv (noteOpening m k a k') k' := by
  have htallies : Tallies (noteOpening m k a k') k' := by
    by_cases hopen : ∃ id fd mode, k.request a = some (.openQueue id fd mode)
    · obtain ⟨id, fd, mode, hrequest⟩ := hopen
      obtain ⟨p, hp⟩ := running_of_request hrequest
      exact h.tallies_open hsafe hstep hp hrequest
    · by_cases hclose : ∃ fd, k.request a = some (.closeResource fd)
      · obtain ⟨fd, hrequest⟩ := hclose
        obtain ⟨p, hp⟩ := running_of_request hrequest
        exact h.tallies_close hsafe hstep hp hrequest
      · exact h.tallies_quiet hsafe hstep (fun id fd mode hrequest ↦ hopen ⟨id, fd, mode, hrequest⟩)
          fun fd hrequest ↦ hclose ⟨fd, hrequest⟩
  have hcontexts := step_contexts h.noShutdown hsafe.notShutdown hstep
  exact
    { htallies with
      files := filesOk_step h.files hsafe.notShutdown hstep
      backed := backed_step h.backed h.files hsafe.notShutdown hstep
      processes := by
        obtain ⟨hnoShutdown, v, hshows, hv, hinside⟩ := h.processes
        obtain ⟨v', hstep', hshows'⟩ := hshows.step hv hnoShutdown (fun c ↦ hsafe.concernsUsers) hstep
        exact ⟨hnoShutdown.step hsafe.notShutdown hstep, v', hshows', hv.step hstep',
          hinside.step hshows hv hnoShutdown hsafe.notShutdown hstep hstep'⟩
      opens := openPoint_step h.files h.opens h.noShutdown (hsafe.usesQueues hstep) hstep
      numbers := by
        refine hcontexts.forall_context
          (P := fun _ context ↦ ∀ id fd mode, context = .openQueue id fd mode → 0 ≤ fd) h.numbers
          ?_ ?_ ?_ ?_
        · intro p ret id fd mode hcontext
          cases hcontext
        · intro p c id fd mode hcontext
          cases c <;> cases hcontext
        · rintro p c next hrequest id fd mode rfl
          generalize k.pcbs.cpuState p = context at hrequest
          cases context <;> cases hrequest
        · rintro p next hnext id fd mode rfl
          generalize k.pcbs.cpuState p = context at hnext
          cases hnext with
          | openResult _ _ hfd => exact hfd
      closes := closes_step h.noShutdown h.files hsafe.notShutdown hsafe.notFork h.closes hstep
      closed := by
        intro p q hcontext
        have hrequest (context : Context) (c : Syscall)
            (h : context.request = some (c, .closeResult q)) : ∃ fd, c = .closeResource fd := by
          cases context with
          | closeResource fd =>
            cases h
            exact ⟨fd, rfl⟩
          | _ => cases h
        obtain ⟨c, hc, fd, rfl⟩ := lastCall_step h.noShutdown hrequest (fun ret hret ↦ by cases hret)
          (fun c ↦ by cases c <;> simp [DmqCall.entry]) (fun p context hnext ↦ by cases hnext)
          hsafe.notShutdown hstep (fun hbefore ↦ by simpa using h.closed p q hbefore) hcontext
        exact ⟨fd, hc⟩
      leads := by
        intro d hd
        by_contra hleads
        rw [noteOpening, if_pos hleads] at hd
        cases hd
      entering := by
        refine entering_step h.noShutdown h.files h.opens hsafe.notShutdown hsafe.notFork
          (fun d o ho ↦ ?_) h.entering hstep
        obtain ⟨x, hx, rfl⟩ := h.leads d (by simp [ho])
        exact h.backed.allocated _ x hx }

/-- Where no `dmq_close` is to count down, the openings are the noted descriptors. -/
theorem CountsInv.openingsExact (h : CountsInv m k) (hrest : k.AtRest) : k.OpeningsExact m := by
  intro r hr q hq
  have hdown : k.countingDown q = ∅ := by
    refine Set.eq_empty_of_forall_notMem fun p hcounts ↦ ?_
    have hcontext : k.pcbs.cpuState p = .closeResult q := hcounts.1
    have houtside := hrest p (h.mem_blocks fun ret hret ↦ absurd (hcontext.symm.trans hret) (by simp))
    rw [hcontext] at houtside
    cases houtside
  have hcounted := h.counted q
  rw [hdown] at hcounted
  refine hcounted.eq_length ?_ fun d ↦ ?_
  · refine (List.Nodup.map_on ?_ (h.files.pointerLists.represents r).nodup).filter _
    intro x hx x' hx' hsame
    have hptr := h.backed.ptr r x hx
    have hptr' := h.backed.ptr r x' hx'
    have hsame' : k.files.descriptorPtrs.descriptor x = k.files.descriptorPtrs.descriptor x' := hsame
    rw [hsame'] at hptr
    exact Option.some.inj (hptr.symm.trans hptr')
  · rw [mem_openDescriptors]
    constructor
    · rintro ⟨⟨x, hx, rfl⟩, hd⟩
      have hresource : k.descriptors.resource (k.descriptorPtrs.descriptor x) = r :=
        h.backed.resource r x hx
      exact ⟨hd, by rw [hresource]; exact hq⟩
    · rintro ⟨hd, hvalue⟩
      obtain rfl := h.alone d hd q hvalue r hr hq
      exact ⟨h.leads d hd, hd⟩

end Kernel

/-! ### Whole runs -/

theorem Layout.boot_countsInv (layout : Layout) : Kernel.CountsInv (fun _ ↦ none) layout.boot where
  queue _ hd := by cases hd
  alone _ hd := by cases hd
  counted q := by
    have hheld : layout.boot.openOn (fun _ ↦ none) q = ∅ :=
      Set.eq_empty_of_forall_notMem fun d hmem ↦ by cases hmem.1
    have hdown : layout.boot.countingDown q = ∅ :=
      Set.eq_empty_of_forall_notMem fun p hmem ↦ by cases hmem.1
    rw [hheld, hdown]
    exact counts_empty
  files := layout.boot_filesOk
  backed := layout.boot_backed
  processes := layout.boot_satisfies fun p hp ↦ absurd rfl (hp 0)
  opens _ := trivial
  numbers _ _ _ _ hcontext := by cases hcontext
  closes _ _ _ hcloses := by cases hcloses
  closed _ _ hcontext := by cases hcontext
  leads _ hd := by cases hd
  entering _ _ hd := absurd hd List.not_mem_nil

/-- In every run whose steps are safe for the counts, the openings of every live queue are the
descriptors on its resource from a successful `dmq_open` that are still open, wherever no `dmq_open` or
`dmq_close` is in progress. -/
theorem openingsExact_of_safe (layout : Layout) {actions : List Action} {k : Kernel}
    (hsafe : Runs.Meets (Runs.observed Kernel.step Kernel.noteOpening) Kernel.CountsSafe
      (fun _ ↦ none, layout.boot) actions)
    (hrun : Runs.run Kernel.step layout.boot actions = some k) (hrest : k.AtRest) :
    k.OpeningsExact (Runs.monitor Kernel.step Kernel.noteOpening (fun _ ↦ none) layout.boot actions) :=
  (Runs.observed_invariant (fun _ _ _ _ h hsafe hstep ↦ Kernel.CountsInv.step h hsafe hstep)
    layout.boot_countsInv hsafe hrun).openingsExact hrest

/-- The first process opens queue 0 with this mode. -/
def openCounted (mode : BitVec 32) : List Action :=
  .call (.openQueue 0 mode) :: List.replicate 4 .statement

/-- A process opens a queue, closes it and is preempted before it has counted it down; another one
unlinks the queue and opens it again, in the same block; and then the first one counts it down. -/
def reopens : List Action :=
  [.start, .syscall .spawn] ++ openCounted 0o13 ++ .call (.close 0) :: List.replicate 8 .statement ++
    [.timer, .call (.unlink 0), .statement, .statement] ++ openCounted 0o11 ++ [.timer, .statement]

/-- The queue that is opened again has one opening. -/
theorem openingsExact_of_safe_reopens : ∃ k,
    Runs.run Kernel.step sampleLayout.boot reopens = some k ∧
      k.OpeningsExact
        (Runs.monitor Kernel.step Kernel.noteOpening (fun _ ↦ none) sampleLayout.boot reopens) ∧
      k.files.resourceNodes.map (fun r ↦ (k.resources.value r).map k.queues.openings) = [some 1] := by
  have hends : ∃ k ∈ Runs.run Kernel.step sampleLayout.boot reopens, k.AtRest ∧
      k.files.resourceNodes.map (fun r ↦ (k.resources.value r).map k.queues.openings) = [some 1] := by
    decide +kernel
  obtain ⟨k, hrun, hrest, hopenings⟩ := hends
  exact ⟨k, hrun, openingsExact_of_safe sampleLayout (by decide +kernel) hrun hrest, hopenings⟩

/-- The first process waits for its child, which opens a queue and exits. -/
def diesOpen : List Action :=
  [.start, .syscall .spawn, .syscall (.wait 0 none)] ++ openCounted 0o13 ++ [.syscall (.exit 0)]

/-- The exit has released the only descriptor of the queue, which still has one opening. -/
theorem diesOpen_not_openingsExact : ∃ k,
    Runs.run Kernel.step sampleLayout.boot diesOpen = some k ∧ k.AtRest ∧
      ¬ k.OpeningsExact
        (Runs.monitor Kernel.step Kernel.noteOpening (fun _ ↦ none) sampleLayout.boot diesOpen) ∧
      k.files.resourceNodes.map (fun r ↦ ((k.resources.value r).map k.queues.openings,
        k.files.pointerNodes r)) = [(some 1, [])] := by
  have hends : ∃ k ∈ Runs.run Kernel.step sampleLayout.boot diesOpen, k.AtRest ∧
      ¬ k.OpeningsExact
        (Runs.monitor Kernel.step Kernel.noteOpening (fun _ ↦ none) sampleLayout.boot diesOpen) ∧
      k.files.resourceNodes.map (fun r ↦ ((k.resources.value r).map k.queues.openings,
        k.files.pointerNodes r)) = [(some 1, [])] := by
    decide +kernel
  obtain ⟨k, hrun, hfacts⟩ := hends
  exact ⟨k, hrun, hfacts⟩

end DisastrOS
