import DisastrOS.Steps

/-!
# Return values

A system call leaves its return value in the PCB of the caller, where the caller reads it in a later
statement. In between no other process writes it: the only write to another PCB is that of an exit to
a parent that waits (`step_retvalue`).
-/

set_option autoImplicit false
set_option relaxedAutoImplicit false

namespace DisastrOS

open Function (update)

namespace Kernel

variable {k k' : Kernel} {p p' : Addr} {a : Action}

/-! ### The system calls that work on resources -/

theorem openDescriptor_others {r : Addr} (hopen : k.openDescriptor p r = some k') (hne : p' ≠ p) :
    k'.pcbs.syscallRetvalue p' = k.pcbs.syscallRetvalue p' := by
  unfold openDescriptor at hopen
  rcases hget : k.descriptors.allocator.getBlock with ⟨_ | des, pool⟩
  · simp only [descriptorAlloc, hget, Option.some.injEq] at hopen
    rw [← hopen]
    exact Function.update_of_ne hne _ _
  · simp only [descriptorAlloc, hget, Option.ite_none_left_eq_some, Option.some.injEq] at hopen
    rcases hgetPtr : k.descriptorPtrs.allocator.getBlock with ⟨_ | desptr, ptrPool⟩ <;>
      simp only [descriptorPtrAlloc, hgetPtr] at hopen <;> rw [← hopen.2] <;>
      exact Function.update_of_ne hne _ _

theorem openFound_others {res : Option Addr} {type : ℤ} {mode : BitVec 32}
    (hopen : k.openFound p res type mode = some k') (hne : p' ≠ p) :
    k'.pcbs.syscallRetvalue p' = k.pcbs.syscallRetvalue p' := by
  unfold openFound at hopen
  split at hopen
  · rw [← Option.some.inj hopen]
    exact Function.update_of_ne hne _ _
  · split_ifs at hopen
    · rw [← Option.some.inj hopen]
      exact Function.update_of_ne hne _ _
    · rw [← Option.some.inj hopen]
      exact Function.update_of_ne hne _ _
    · exact openDescriptor_others hopen hne

theorem internalOpenResource_others {id type : ℤ} {mode : BitVec 32}
    (hopen : internalOpenResource id type mode k = some k') (hp : k.running = some p)
    (hne : p' ≠ p) : k'.pcbs.syscallRetvalue p' = k.pcbs.syscallRetvalue p' := by
  obtain ⟨p₁, hp₁, hrest⟩ := Option.bind_eq_some_iff.mp hopen
  obtain rfl := Option.some.inj (hp.symm.trans hp₁)
  obtain ⟨res, -, hrest⟩ := Option.bind_eq_some_iff.mp hrest
  split_ifs at hrest
  · rw [← Option.some.inj hrest]
    exact Function.update_of_ne hne _ _
  · cases res with
    | some res => exact openFound_others hrest hne
    | none =>
      rcases hget : k.resources.allocator.getBlock with ⟨_ | res, pool⟩
      · simp only [resourceAlloc, hget, Option.some.injEq] at hrest
        rw [← hrest]
        exact Function.update_of_ne hne _ _
      · simp only [resourceAlloc, hget] at hrest
        exact (openFound_others hrest hne).trans rfl
  · exact openFound_others hrest hne

theorem internalCloseResource_others {fd : ℤ} (hclose : internalCloseResource fd k = some k')
    (hp : k.running = some p) (hne : p' ≠ p) :
    k'.pcbs.syscallRetvalue p' = k.pcbs.syscallRetvalue p' := by
  obtain ⟨p₁, hp₁, hrest⟩ := Option.bind_eq_some_iff.mp hclose
  obtain rfl := Option.some.inj (hp.symm.trans hp₁)
  obtain ⟨found, -, hrest⟩ := Option.bind_eq_some_iff.mp hrest
  cases found with
  | none =>
    rw [← Option.some.inj hrest]
    exact Function.update_of_ne hne _ _
  | some d =>
    obtain ⟨x, -, hk'⟩ := Option.bind_eq_some_iff.mp hrest
    rw [← Option.some.inj hk']
    exact Function.update_of_ne hne _ _

theorem internalDestroyResource_others {id : ℤ} (hdestroy : internalDestroyResource id k = some k')
    (hp : k.running = some p) (hne : p' ≠ p) :
    k'.pcbs.syscallRetvalue p' = k.pcbs.syscallRetvalue p' := by
  obtain ⟨p₁, found, hp₁, -, ⟨err, -, rfl⟩ | ⟨r, k₁, -, -, hfree, -, -, rfl⟩⟩ :=
    internalDestroyResource_cases hdestroy
  · obtain rfl := Option.some.inj (hp.symm.trans hp₁)
    exact Function.update_of_ne hne _ _
  · obtain rfl := Option.some.inj (hp.symm.trans hp₁)
    refine (Function.update_of_ne hne _ _).trans ?_
    obtain ⟨q, -, hqueue⟩ | ⟨-, rfl⟩ := freeValue_cases hfree
    · rw [queueFree_eq hqueue]
      rfl
    · rfl

theorem joinQueue_others {r q : Addr} {fd : ℤ} {mode : BitVec 32}
    (hjoin : k.joinQueue p r q fd mode = some k') (hne : p' ≠ p) :
    k'.pcbs.syscallRetvalue p' = k.pcbs.syscallRetvalue p' := by
  obtain ⟨-, rfl⟩ | ⟨-, _, _, k₁, -, hadd, rfl⟩ := joinQueue_cases hjoin
  · exact Function.update_of_ne hne _ _
  · rw [queueAddPid_eq hadd]
    exact Function.update_of_ne hne _ _

theorem giveUpResource_others {id fd : ℤ} (hgive : k.giveUpResource p id fd = some k')
    (hp : k.running = some p) (hne : p' ≠ p) :
    k'.pcbs.syscallRetvalue p' = k.pcbs.syscallRetvalue p' := by
  obtain ⟨k₁, hclose, hrest⟩ := Option.bind_eq_some_iff.mp hgive
  have hclosed := internalCloseResource_others hclose hp hne
  have hp₁ : k₁.running = some p := by
    rw [internalCloseResource_eq hclose]
    exact hp
  split_ifs at hrest
  · rw [← Option.some.inj hrest]
    exact hclosed
  · obtain ⟨k₂, hdestroy, hrest⟩ := Option.bind_eq_some_iff.mp hrest
    have hdestroyed := (internalDestroyResource_others hdestroy hp₁ hne).trans hclosed
    split_ifs at hrest <;> rw [← Option.some.inj hrest]
    · exact hdestroyed
    · exact (Function.update_of_ne hne _ _).trans hdestroyed

theorem internalOpenQueue_others {id fd : ℤ} {mode : BitVec 32}
    (hopen : internalOpenQueue id fd mode k = some k') (hp : k.running = some p) (hne : p' ≠ p) :
    k'.pcbs.syscallRetvalue p' = k.pcbs.syscallRetvalue p' := by
  obtain ⟨p₁, r, hp₁, -, ⟨q, -, hjoin⟩ | ⟨-, ⟨q, k₁, halloc, hjoin⟩ | ⟨-, hgive⟩⟩⟩ :=
    internalOpenQueue_cases hopen
  · obtain rfl := Option.some.inj (hp.symm.trans hp₁)
    exact joinQueue_others hjoin hne
  · obtain rfl := Option.some.inj (hp.symm.trans hp₁)
    rcases hget : k.queues.allocator.getBlock with ⟨_ | q', pool⟩
    · simp [queueAlloc, hget] at halloc
    · simp only [queueAlloc, hget, Prod.mk.injEq] at halloc
      have hjoined := joinQueue_others hjoin hne
      rw [← halloc.2] at hjoined
      exact hjoined
  · obtain rfl := Option.some.inj (hp.symm.trans hp₁)
    exact giveUpResource_others hgive hp hne

theorem acceptMessage_others {q : Addr} {msg : Option Addr}
    (haccept : k.acceptMessage p q msg = some k') (hne : p' ≠ p) :
    k'.pcbs.syscallRetvalue p' = k.pcbs.syscallRetvalue p' := by
  unfold acceptMessage at haccept
  rcases hget : k.msgStrings.allocator.getBlock with ⟨_ | block, pool⟩ <;>
    rcases hgetMsg : k.messages.allocator.getBlock with ⟨_ | m, msgPool⟩ <;>
    simp only [msgStringAlloc, messageAlloc, hget, hgetMsg] at haccept
  case some.some =>
    obtain ⟨k₁, hstore, hk'⟩ := Option.bind_eq_some_iff.mp haccept
    rw [← Option.some.inj hk', storeMessage_eq hstore]
    exact Function.update_of_ne hne _ _
  all_goals
    rw [← Option.some.inj haccept]
    exact Function.update_of_ne hne _ _

/-! ### All system calls -/

/-- A system call writes the return value of its caller only, or that of a parent that waits. -/
theorem syscallVector_others {c : Syscall} (hc : c ≠ .shutdown)
    (hcall : syscallVector c k = some k') (hp : k.running = some p) (hne : p' ≠ p) :
    k'.pcbs.syscall = k.pcbs.syscall ∧
      (k'.pcbs.syscallRetvalue p' = k.pcbs.syscallRetvalue p' ∨
        ∃ pid result, k.pcbs.syscall p' = some (.wait pid result)) := by
  have hnew : ∀ {child : Addr} {k₁ : Kernel}, k.newProcess = some (child, k₁) →
      k₁.pcbs.syscall = k.pcbs.syscall ∧
        k₁.pcbs.syscallRetvalue p' = k.pcbs.syscallRetvalue p' := by
    intro child k₁ h
    obtain ⟨p₁, _, _, _, hp₁, -, -, -, rfl⟩ := newProcess_cases h
    obtain rfl := Option.some.inj (hp.symm.trans hp₁)
    exact ⟨rfl, Function.update_of_ne hne _ _⟩
  cases c with
  | preempt =>
    rw [internalSchedule_eq hcall]
    exact ⟨rfl, Or.inl rfl⟩
  | fork =>
    obtain ⟨⟨child, k₁⟩, h₁, hk'⟩ := Option.bind_eq_some_iff.mp hcall
    rw [← Option.some.inj hk']
    exact ⟨(hnew h₁).1, Or.inl (hnew h₁).2⟩
  | spawn =>
    obtain ⟨⟨child, k₁⟩, h₁, hk'⟩ := Option.bind_eq_some_iff.mp hcall
    rw [← Option.some.inj hk']
    exact ⟨(hnew h₁).1, Or.inl (hnew h₁).2⟩
  | wait pid result =>
    obtain ⟨p₁, hp₁, ⟨-, rfl⟩ | ⟨_, -, -, ⟨x, -, -, rfl⟩ | ⟨-, ⟨-, rfl⟩ | ⟨-, -, rfl⟩⟩⟩⟩ :=
        internalWait_cases hcall <;>
      obtain rfl := Option.some.inj (hp.symm.trans hp₁)
    · exact ⟨rfl, Or.inl (Function.update_of_ne hne _ _)⟩
    · exact ⟨rfl, Or.inl (Function.update_of_ne hne _ _)⟩
    · exact ⟨rfl, Or.inl rfl⟩
    · exact ⟨rfl, Or.inl (Function.update_of_ne hne _ _)⟩
  | exit value =>
    obtain ⟨p₁, k₁, parent, -, hzombie, -, ⟨hawaits, hexit⟩ | ⟨-, hexit⟩⟩ := internalExit_cases hcall
    · have hsyscall : (k₁.sendSignal parent dsosSigchld).pcbs.syscall = k.pcbs.syscall := by
        rw [becomeZombie_eq hzombie]
        rfl
      refine ⟨?_, ?_⟩
      · rw [exitToParent_eq hexit]
        exact hsyscall
      · by_cases hparent : p' = parent
        · right
          subst hparent
          simp only [awaits, Bool.and_eq_true] at hawaits
          rw [hsyscall] at hawaits
          split at hawaits
          · exact ⟨_, _, ‹_›⟩
          · simp at hawaits
        · left
          rw [exitToParent_eq hexit, becomeZombie_eq hzombie]
          exact Function.update_of_ne hparent _ _
    · rw [exitToReady_eq hexit, becomeZombie_eq hzombie]
      exact ⟨rfl, Or.inl rfl⟩
  | sleep cycles =>
    obtain ⟨p₁, hp₁, rfl | ⟨t, k₁, hadd, rfl⟩⟩ := internalSleep_cases hcall
    · obtain rfl := Option.some.inj (hp.symm.trans hp₁)
      exact ⟨rfl, Or.inl (Function.update_of_ne hne _ _)⟩
    · have hframe := timerListAdd_eq hadd
      rw [hframe]
      exact ⟨rfl, Or.inl rfl⟩
  | openResource id type mode =>
    refine ⟨?_, Or.inl (internalOpenResource_others hcall hp hne)⟩
    rw [internalOpenResource_eq hcall]
  | closeResource fd =>
    refine ⟨?_, Or.inl (internalCloseResource_others hcall hp hne)⟩
    rw [internalCloseResource_eq hcall]
  | destroyResource id =>
    refine ⟨?_, Or.inl (internalDestroyResource_others hcall hp hne)⟩
    rw [internalDestroyResource_eq hcall]
  | shutdown => exact absurd rfl hc
  | sendMsg msg fd =>
    obtain ⟨p₁, _, _, hp₁, -, -, ⟨-, haccept⟩ | ⟨-, hwait⟩⟩ := internalSendMessage_cases hcall <;>
      obtain rfl := Option.some.inj (hp.symm.trans hp₁)
    · refine ⟨?_, Or.inl (acceptMessage_others haccept hne)⟩
      rw [acceptMessage_eq haccept]
    · obtain ⟨_, _, -, -, rfl⟩ := waitForQueue_eq hwait
      exact ⟨rfl, Or.inl (Function.update_of_ne hne _ _)⟩
  | recvMsg msg fd =>
    obtain ⟨p₁, _, hp₁, -, ⟨-, rfl⟩ | ⟨_, _, -, -, ⟨_, k₁, hpop, hdeliver⟩ | ⟨k₁, hpop, hwait⟩⟩⟩ :=
        internalRecvMessage_cases hcall <;>
      obtain rfl := Option.some.inj (hp.symm.trans hp₁)
    · exact ⟨rfl, Or.inl (Function.update_of_ne hne _ _)⟩
    · rw [deliverMessage_eq hdeliver, ← (Prod.mk.inj hpop).2]
      exact ⟨rfl, Or.inl (Function.update_of_ne hne _ _)⟩
    · obtain ⟨_, _, -, -, rfl⟩ := waitForQueue_eq hwait
      rw [(popMessage_eq_none hpop).2]
      exact ⟨rfl, Or.inl (Function.update_of_ne hne _ _)⟩
  | wakeupQueue check q users =>
    obtain ⟨p₁, hp₁, ⟨_, _, -, -, rfl⟩ | ⟨-, rfl⟩⟩ := internalWakeUpQueue_cases hcall <;>
      obtain rfl := Option.some.inj (hp.symm.trans hp₁) <;>
      exact ⟨rfl, Or.inl (Function.update_of_ne hne _ _)⟩
  | openQueue id fd mode =>
    refine ⟨?_, Or.inl (internalOpenQueue_others hcall hp hne)⟩
    rw [internalOpenQueue_eq hcall]

/-- A step leaves the last system call and the return value of a process alone, unless the process
makes a system call itself or waits for a child. -/
theorem step_retvalue (hshutdown : k.request a ≠ some .shutdown) (hstep : k.step a = some k')
    (p : Addr) :
    (k'.pcbs.syscall p = k.pcbs.syscall p ∧
        k'.pcbs.syscallRetvalue p = k.pcbs.syscallRetvalue p) ∨
      (∃ pid result, k'.pcbs.syscall p = k.pcbs.syscall p ∧
        k.pcbs.syscall p = some (.wait pid result)) ∨
      k.running = some p ∧ ∃ c next, k.Calls p a c next := by
  obtain ⟨rfl, hstart⟩ | ⟨rfl, htimer⟩ | ⟨x, byte, rfl, -, rfl⟩ | ⟨c, p₁, ret, rfl, -, -, rfl⟩ |
    ⟨c, p₁, next, hp, hcalls, hcall⟩ | ⟨p₁, rfl, hp, -, hrun⟩ := step_cases hstep
  · obtain ⟨-, p₁, pool, -, rfl⟩ := startProcess_cases hstart
    exact Or.inl ⟨rfl, rfl⟩
  · obtain ⟨p₁, hp₁, hschedule⟩ := Option.bind_eq_some_iff.mp htimer
    rw [internalSchedule_eq hschedule]
    exact Or.inl ⟨rfl, rfl⟩
  · exact Or.inl ⟨rfl, rfl⟩
  · exact Or.inl ⟨rfl, rfl⟩
  · by_cases hne : p = p₁
    · subst hne
      exact Or.inr (Or.inr ⟨hp, c, next, hcalls⟩)
    · have hc : c ≠ .shutdown := fun hsame ↦ hshutdown (hsame ▸ hcalls.request hp)
      have htrap : (k.trap p₁ next c).pcbs.syscall p = k.pcbs.syscall p :=
        Function.update_of_ne hne _ _
      obtain ⟨hsyscall, hret⟩ := syscallVector_others hc hcall (p := p₁) hp hne
      rw [htrap] at hret
      have hsame : k'.pcbs.syscall p = k.pcbs.syscall p := by rw [hsyscall, htrap]
      obtain hret | ⟨pid, result, hwait⟩ := hret
      · exact Or.inl ⟨hsame, hret⟩
      · exact Or.inr (Or.inl ⟨pid, result, hsame, hwait⟩)
  · rw [runStatement_eq hrun]
    exact Or.inl ⟨rfl, rfl⟩

/-- A point to which only system calls lead: the last system call of a process that stands there was one
of them. -/
theorem lastCall_step {point : Context} {P : Syscall → Prop} (hnoShutdown : k.NoShutdown)
    (hrequest : ∀ (context : Context) c, context.request = some (c, point) → P c)
    (huser : ∀ ret, point ≠ .user ret) (hentry : ∀ c : DmqCall, c.entry ≠ point)
    (hstatement : ∀ p context, ¬ k.StatementNext p context point)
    (hshutdown : k.request a ≠ some .shutdown) (hstep : k.step a = some k') {p : Addr}
    (hbefore : k.pcbs.cpuState p = point → ∃ c, k.pcbs.syscall p = some c ∧ P c)
    (hcontext : k'.pcbs.cpuState p = point) : ∃ c, k'.pcbs.syscall p = some c ∧ P c := by
  obtain ⟨hsame, hquiet⟩ | ⟨ret, hret⟩ | ⟨call, hcall⟩ | ⟨call, next, hnext, hp, hcalls, hcall⟩ |
    ⟨next, hnext, hp, -, hleads⟩ := (step_contexts hnoShutdown hshutdown hstep).at p
  · obtain ⟨c, hc, hP⟩ := hbefore (hsame.symm.trans hcontext)
    obtain ⟨hsyscall, -⟩ | ⟨_, _, hsyscall, -⟩ | hcalls := step_retvalue hshutdown hstep p
    · exact ⟨c, hsyscall.trans hc, hP⟩
    · exact ⟨c, hsyscall.trans hc, hP⟩
    · exact absurd hcalls hquiet
  · exact absurd (hcontext.symm.trans hret) (huser ret)
  · exact absurd (hcall.symm.trans hcontext) (hentry call)
  · obtain rfl := hnext.symm.trans hcontext
    have hnot : call ≠ .shutdown := by
      rintro rfl
      exact hshutdown (hcalls.request hp)
    have hsucc : p + 1 ≠ p := by lia
    refine ⟨call, ?_, ?_⟩
    · rw [(syscallVector_others hnot hcall hp hsucc).1]
      exact Function.update_self ..
    · cases hcalls with
      | user _ ret => exact absurd rfl (huser ret)
      | statement _ _ hpoint => exact hrequest _ call hpoint
  · obtain rfl := hnext.symm.trans hcontext
    exact absurd hleads (hstatement p _)

end Kernel

end DisastrOS
