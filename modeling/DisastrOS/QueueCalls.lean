import DisastrOS.Steps

/-!
# Calls without interruption

`dmqCall` is a call of a queue function from its start to its return, with nobody else running in between.
For `dmq_open` and `dmq_close` it comes down to the system calls and the list operations they are made
of (`dmqCall_open`, `dmqCall_close`).
-/

set_option autoImplicit false
set_option relaxedAutoImplicit false

namespace DisastrOS

open Function (update)

namespace Kernel

variable {k k' k₁ : Kernel} {p q d : Addr} {id fd : ℤ} {mode : BitVec 32}

/-- The running process goes on until it is back in the user code. -/
def untilUser : ℕ → Kernel → Option Kernel
  | 0, k => if k.atUser then some k else none
  | turns + 1, k => if k.atUser then some k else (k.step .statement).bind (untilUser turns)

/-- A call of a queue function, up to its return. No function that is called here makes more than nine
statements without waiting. -/
def dmqCall (c : DmqCall) (k : Kernel) : Option Kernel := (k.step (.call c)).bind (untilUser 9)

/-- The running process is at the given point. -/
structure At (k : Kernel) (p : Addr) (context : Context) : Prop where
  running : k.running = some p
  context : k.pcbs.cpuState p = context

theorem At.setContext (hp : k.running = some p) (context : Context) :
    (k.setContext p context).At p context := ⟨hp, Function.update_self ..⟩

theorem At.trap (hp : k.running = some p) (next : Context) (c : Syscall) :
    (k.trap p next c).At p next := ⟨hp, Function.update_self ..⟩

theorem At.step_syscall {ret : ℤ} (h : k.At p (.user ret)) (c : Syscall) :
    k.step (.syscall c) =
      syscallVector c { k with pcbs.syscall := update k.pcbs.syscall p (some c) } := by
  have huser : k.atUser = true := atUser_iff.mpr ⟨p, ret, h.running, h.context⟩
  rw [step, if_pos huser]
  exact congrArg (fun o ↦ Option.bind o _) h.running

theorem At.internalOpenResource {context : Context} {type : ℤ} (h : k.At p context)
    (hopen : internalOpenResource id type mode k = some k') : k'.At p context := by
  rw [internalOpenResource_eq hopen]
  exact ⟨h.running, h.context⟩

theorem At.internalOpenQueue {context : Context} (h : k.At p context)
    (hopen : internalOpenQueue id fd mode k = some k') : k'.At p context := by
  rw [internalOpenQueue_eq hopen]
  exact ⟨h.running, h.context⟩

theorem At.internalCloseResource {context : Context} (h : k.At p context)
    (hclose : internalCloseResource fd k = some k') : k'.At p context := by
  rw [internalCloseResource_eq hclose]
  exact ⟨h.running, h.context⟩

theorem untilUser_user {ret : ℤ} (h : k.At p (.user ret)) (turns : ℕ) :
    untilUser turns k = some k := by
  have huser : k.atUser = true := atUser_iff.mpr ⟨p, ret, h.running, h.context⟩
  cases turns with
  | zero => rw [untilUser, if_pos huser]
  | succ turns => rw [untilUser, if_pos huser]

theorem not_atUser {context : Context} (h : k.At p context) (hne : ∀ ret, context ≠ .user ret) :
    ¬ k.atUser = true := by
  intro huser
  obtain ⟨p', ret, hp', hcontext⟩ := atUser_iff.mp huser
  obtain rfl := Option.some.inj (h.running.symm.trans hp')
  exact hne ret (h.context.symm.trans hcontext)

/-- A statement that is a system call. -/
theorem untilUser_syscall {context next : Context} {c : Syscall} (h : k.At p context)
    (hrequest : context.request = some (c, next)) (turns : ℕ) :
    untilUser (turns + 1) k = (syscallVector c (k.trap p next c)).bind (untilUser turns) := by
  have huser : ¬ k.atUser = true := by
    refine not_atUser h ?_
    rintro ret rfl
    cases hrequest
  have hstep : k.step .statement = syscallVector c (k.trap p next c) := by
    simp only [step, h.running, h.context, hrequest, disastrOSSyscall, Option.bind_eq_bind,
      Option.bind_some, trap, Kernel.setContext]
  rw [untilUser, if_neg huser, hstep]

/-- Another statement. -/
theorem untilUser_statement {context : Context} (h : k.At p context)
    (hrequest : context.request = none) (hne : ∀ ret, context ≠ .user ret) (turns : ℕ) :
    untilUser (turns + 1) k = (k.runStatement p context).bind (untilUser turns) := by
  have hstep : k.step .statement = k.runStatement p context := by
    simp only [step, h.running, h.context, hrequest, Option.bind_eq_bind, Option.bind_some]
  rw [untilUser, if_neg (not_atUser h hne), hstep]

theorem dmqCall_eq {ret : ℤ} (h : k.At p (.user ret)) (c : DmqCall) :
    dmqCall c k = untilUser 9 (k.setContext p c.entry) := by
  have huser : k.atUser = true := atUser_iff.mpr ⟨p, ret, h.running, h.context⟩
  rw [dmqCall, step, if_pos huser, h.running]
  rfl

theorem setContext_setContext (k : Kernel) (p : Addr) (context next : Context) :
    (k.setContext p context).setContext p next = k.setContext p next := by
  simp only [Kernel.setContext, Function.update_idem]

theorem trap_setContext (k : Kernel) (p : Addr) (context next : Context) (c : Syscall) :
    (k.setContext p context).trap p next c = k.trap p next c := by
  simp only [trap, Kernel.setContext, Function.update_idem]

/-! ### `dmq_open` -/

/-- The state in which `dmq_open` makes its second call, after the first one has ended in `k₁`. -/
def secondCall (k₁ : Kernel) (p : Addr) (id : ℤ) (mode : BitVec 32) : Kernel :=
  k₁.trap p .openReturn (.openQueue id (k₁.pcbs.syscallRetvalue p) mode)

/-- `dmq_open` is `OPEN_RESOURCE`, and if it returns no error, `OPEN_QUEUE`. -/
theorem dmqCall_open {ret : ℤ} (h : k.At p (.user ret)) (id : ℤ) (mode : BitVec 32) :
    dmqCall (.openQueue id mode) k =
      (internalOpenResource id 2 (resourceFlags mode) (k.trap p (.openResult id mode)
        (.openResource id 2 (resourceFlags mode)))).bind fun k₁ ↦
          if k₁.pcbs.syscallRetvalue p < 0 then
            some (k₁.setContext p (.user (k₁.pcbs.syscallRetvalue p)))
          else
            (internalOpenQueue id (k₁.pcbs.syscallRetvalue p) mode
              (k₁.secondCall p id mode)).bind fun k₂ ↦
                some (k₂.setContext p (.user (k₂.pcbs.syscallRetvalue p))) := by
  rw [dmqCall_eq h, untilUser_syscall (At.setContext h.running _) rfl, trap_setContext]
  refine Option.bind_congr fun k₁ hopen ↦ ?_
  have h₁ : k₁.At p (.openResult id mode) := (At.trap h.running _ _).internalOpenResource hopen
  rw [untilUser_statement h₁ rfl (fun _ ↦ Context.noConfusion)]
  by_cases hfailed : k₁.pcbs.syscallRetvalue p < 0
  · have hresult : k₁.runStatement p (.openResult id mode) =
        some (k₁.setContext p (.user (k₁.pcbs.syscallRetvalue p))) := if_pos hfailed
    rw [hresult, if_pos hfailed, Option.bind_some, untilUser_user (At.setContext h₁.running _)]
  · have hresult : k₁.runStatement p (.openResult id mode) =
        some (k₁.setContext p (.openQueue id (k₁.pcbs.syscallRetvalue p) mode)) := if_neg hfailed
    rw [hresult, if_neg hfailed, Option.bind_some,
      untilUser_syscall (At.setContext h₁.running _) rfl, trap_setContext]
    refine Option.bind_congr fun k₂ hopen₂ ↦ ?_
    have h₂ : k₂.At p .openReturn := (At.trap h₁.running _ _).internalOpenQueue hopen₂
    rw [untilUser_statement h₂ rfl (fun _ ↦ Context.noConfusion)]
    have hreturn : k₂.runStatement p .openReturn =
        some (k₂.setContext p (.user (k₂.pcbs.syscallRetvalue p))) := rfl
    rw [hreturn, Option.bind_some, untilUser_user (At.setContext h₂.running _)]

/-! ### `dmq_close` -/

/-- The part of `dmq_close` that takes an entry out of the list of its role and frees it. -/
def leaveRole (k : Kernel) (q ds : Addr) (role : Role) : Kernel :=
  (k.detachUser (q, role) (k.descriptors.rwn ds role)).queueUserFree (k.descriptors.rwn ds role)

@[simp]
theorem leaveRole_running (k : Kernel) (q ds : Addr) (role : Role) :
    (k.leaveRole q ds role).running = k.running := rfl

/-- The three of them. -/
def leaveRoles (k : Kernel) (q ds : Addr) : Kernel :=
  ((k.leaveRole q ds .reader).leaveRole q ds .writer).leaveRole q ds .nonBlock

@[simp]
theorem leaveRoles_running (k : Kernel) (q ds : Addr) :
    (k.leaveRoles q ds).running = k.running := by
  rw [leaveRoles, leaveRole_running, leaveRole_running, leaveRole_running]

/-- The state in which `dmq_close` makes its system call. -/
def closeCall (k : Kernel) (p q ds : Addr) (fd : ℤ) : Kernel :=
  (k.leaveRoles q ds).trap p (.closeResult q) (.closeResource fd)

/-- Where `dmq_close` goes on after an entry. -/
def afterRole (fd : ℤ) (q ds : Addr) (role : Role) : Context :=
  match role.next with
  | some next => .closeDetach fd q ds next
  | none => .closeResource fd q

/-- One entry after the other. -/
theorem untilUser_leaveRole {role : Role} (hp : k.running = some p) (fd : ℤ) (q d : Addr)
    (turns : ℕ) :
    untilUser (turns + 2) (k.setContext p (.closeDetach fd q d role)) =
      untilUser turns ((k.leaveRole q d role).setContext p (afterRole fd q d role)) := by
  rw [untilUser_statement (At.setContext hp _) rfl (fun _ ↦ Context.noConfusion)]
  have hdetach : (k.setContext p (.closeDetach fd q d role)).runStatement p
      (.closeDetach fd q d role) = some ((k.detachUser (q, role)
        (k.descriptors.rwn d role)).setContext p
          (.closeFree fd q d role (k.descriptors.rwn d role))) :=
    congrArg some (setContext_setContext (k.detachUser (q, role) (k.descriptors.rwn d role)) p _ _)
  have hp' : (k.detachUser (q, role) (k.descriptors.rwn d role)).running = some p := hp
  rw [hdetach, Option.bind_some, untilUser_statement (At.setContext hp' _) rfl
    (fun _ ↦ Context.noConfusion)]
  have hfree : ((k.detachUser (q, role) (k.descriptors.rwn d role)).setContext p
      (.closeFree fd q d role (k.descriptors.rwn d role))).runStatement p
        (.closeFree fd q d role (k.descriptors.rwn d role)) =
      some ((k.leaveRole q d role).setContext p (afterRole fd q d role)) := by
    unfold runStatement afterRole
    cases role <;> exact congrArg some (setContext_setContext (k.leaveRole q d _) p _ _)
  rw [hfree, Option.bind_some]

theorem untilUser_leaveRoles (hp : k.running = some p) (fd : ℤ) (q d : Addr) :
    untilUser 8 (k.setContext p (.closeDetach fd q d .reader)) =
      untilUser 2 ((k.leaveRoles q d).setContext p (.closeResource fd q)) := by
  have hreader : (k.leaveRole q d .reader).running = some p := by rw [leaveRole_running, hp]
  have hwriter : ((k.leaveRole q d .reader).leaveRole q d .writer).running = some p := by
    rw [leaveRole_running, hreader]
  calc untilUser 8 (k.setContext p (.closeDetach fd q d .reader))
      = untilUser 6 ((k.leaveRole q d .reader).setContext p (.closeDetach fd q d .writer)) :=
        untilUser_leaveRole hp fd q d 6
    _ = untilUser 4 (((k.leaveRole q d .reader).leaveRole q d .writer).setContext p
          (.closeDetach fd q d .nonBlock)) := untilUser_leaveRole hreader fd q d 4
    _ = untilUser 2 ((k.leaveRoles q d).setContext p (.closeResource fd q)) :=
        untilUser_leaveRole hwriter fd q d 2

/-- With one, it takes the process out of the lists of users, closes the resource, and counts the
opening off. -/
theorem dmqCall_close {ret : ℤ} (h : k.At p (.user ret)) (hqueue : k.queueByFd p fd = some (some q))
    (hentries : k.queueEntries p fd = some (some d)) :
    dmqCall (.close fd) k = (internalCloseResource fd (k.closeCall p q d fd)).bind fun k₁ ↦
      if k₁.pcbs.syscallRetvalue p ≠ 0 then
        some (k₁.setContext p (.user (k₁.pcbs.syscallRetvalue p)))
      else some ({ k₁ with
        queues.openings := update k₁.queues.openings q (k₁.queues.openings q - 1) }.setContext p
          (.user 0)) := by
  have hp := h.running
  have hp' : (k.leaveRoles q d).running = some p := by rw [leaveRoles_running, hp]
  have hclose : (k.setContext p (.close fd)).runStatement p (.close fd) =
      some (k.setContext p (.closeDetach fd q d .reader)) := by
    have hqueue' : (k.setContext p (.close fd)).queueByFd p fd = some (some q) := hqueue
    have hentries' : (k.setContext p (.close fd)).queueEntries p fd = some (some d) := hentries
    simp only [runStatement, hqueue', hentries', Option.bind_eq_bind, Option.bind_some,
      setContext_setContext]
  have hstart : dmqCall (.close fd) k =
      untilUser 8 (k.setContext p (.closeDetach fd q d .reader)) := by
    rw [dmqCall_eq h, DmqCall.entry, untilUser_statement (At.setContext hp _) rfl
      (fun _ ↦ Context.noConfusion), hclose, Option.bind_some]
  rw [hstart, untilUser_leaveRoles hp,
    untilUser_syscall (At.setContext hp' _) rfl, trap_setContext]
  refine Option.bind_congr fun k₁ hcall ↦ ?_
  have h₁ : k₁.At p (.closeResult q) := (At.trap hp' _ _).internalCloseResource hcall
  rw [untilUser_statement h₁ rfl (fun _ ↦ Context.noConfusion)]
  by_cases hret : k₁.pcbs.syscallRetvalue p ≠ 0
  · have hresult : k₁.runStatement p (.closeResult q) =
        some (k₁.setContext p (.user (k₁.pcbs.syscallRetvalue p))) := if_pos hret
    rw [hresult, if_pos hret, Option.bind_some, untilUser_user (At.setContext h₁.running _)]
  · have hresult : k₁.runStatement p (.closeResult q) = some ({ k₁ with
        queues.openings :=
          update k₁.queues.openings q (k₁.queues.openings q - 1) }.setContext p (.user 0)) :=
      if_neg hret
    have h₂ : { k₁ with
        queues.openings :=
          update k₁.queues.openings q (k₁.queues.openings q - 1) }.running = some p := h₁.running
    rw [hresult, if_neg hret, Option.bind_some, untilUser_user (At.setContext h₂ _)]

end Kernel

end DisastrOS
