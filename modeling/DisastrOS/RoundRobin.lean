import DisastrOS.ListSteps

/-!
# Turns of the ready processes

A process in `ready_list` gets its turn: it runs after the processes in front of it and the sleepers that
wake in the meantime, and nobody else is taken from `ready_list` before (`ready_runs_in_turn`). While it
waits, some process runs.
-/

set_option autoImplicit false
set_option relaxedAutoImplicit false

namespace DisastrOS

open LinkedLists
open Function (update)

namespace Kernel

variable {k k' : Kernel} {a : Action} {p q : Addr} {nodes : PcbList → List Addr}

/-- The step takes a process from `ready_list` to run. -/
def Dispatches (k : Kernel) (a : Action) (k' : Kernel) : Prop :=
  ∃ p ∈ k'.running, p ∈ k.wokenBy a ++ k.pcbNodes .ready

instance (k : Kernel) (a : Action) (k' : Kernel) : Decidable (k.Dispatches a k') :=
  inferInstanceAs (Decidable (∃ p ∈ k'.running, _))

/-- Counts the processes that are taken from `ready_list` to run, and the sleepers that are put in front
of it. -/
def noteTurns (m : ℕ × ℕ) (k : Kernel) (a : Action) (k' : Kernel) : ℕ × ℕ :=
  (m.1 + if k.Dispatches a k' then 1 else 0, m.2 + (k.wokenBy a).length)

/-- Process `q`, which had `i` processes in front of it in `ready_list`, waits for its turn: those that
have run since make up for those that have been put in front, and some process runs. -/
structure InTurn (q : Addr) (i : ℕ) (m : ℕ × ℕ) (k : Kernel) : Prop where
  busy : k.running ≠ none
  place : ∃ front back, k.pcbNodes .ready = front ++ q :: back ∧ front.length + m.1 = i + m.2

/-- It is the turn of process `q`. -/
structure TurnOf (q : Addr) (i : ℕ) (m : ℕ × ℕ) (k : Kernel) : Prop where
  runs : k.running = some q
  count : m.1 = i + m.2 + 1

/-! ### One step -/

theorem parkedNodes_ready {i : PcbList} (hi : i ≠ .ready) (p : Addr) :
    parkedNodes nodes i p .ready = nodes .ready := parkedNodes_of_ne p hi.symm

/-- A step that takes nobody from `ready_list` and puts nobody in front. -/
theorem InTurn.of_append {i : ℕ} {m : ℕ × ℕ} (h : InTurn q i m k) (hbusy : k'.running ≠ none)
    {l : List Addr} (hready : k'.pcbNodes .ready = k.pcbNodes .ready ++ l)
    (hwoken : k.wokenBy a = []) (hdispatches : ¬ k.Dispatches a k') :
    InTurn q i (noteTurns m k a k') k' := by
  obtain ⟨front, back, hplace, hcount⟩ := h.place
  refine ⟨hbusy, front, back ++ l, by rw [hready, hplace, List.append_assoc, List.cons_append], ?_⟩
  simp only [noteTurns, if_neg hdispatches, hwoken, List.length_nil]
  omega

/-- The first process of `ready_list` is taken to run, after `woken` were put in front. -/
theorem InTurn.of_dispatch {i : ℕ} {m : ℕ × ℕ} (h : InTurn q i m k) {next : Addr} {rest l : List Addr}
    (hfirst : k.wokenBy a ++ k.pcbNodes .ready = next :: rest) (hruns : k'.running = some next)
    (hready : k'.pcbNodes .ready = rest ++ l) :
    InTurn q i (noteTurns m k a k') k' ∨ TurnOf q i (noteTurns m k a k') k' := by
  obtain ⟨front, back, hplace, hcount⟩ := h.place
  have hdispatches : k.Dispatches a k' := ⟨next, hruns, hfirst ▸ List.mem_cons_self⟩
  have hnote : noteTurns m k a k' = (m.1 + 1, m.2 + (k.wokenBy a).length) := by
    simp only [noteTurns, if_pos hdispatches]
  rw [hplace, ← List.append_assoc] at hfirst
  rw [hnote]
  cases hcases : k.wokenBy a ++ front with
  | nil =>
    rw [hcases] at hfirst
    obtain ⟨rfl, -⟩ := List.cons.inj hfirst
    have hlength := congrArg List.length hcases
    rw [List.length_append, List.length_nil] at hlength
    exact Or.inr ⟨hruns, by dsimp only; omega⟩
  | cons first front' =>
    rw [hcases, List.cons_append] at hfirst
    obtain ⟨-, rfl⟩ := List.cons.inj hfirst
    have hlength := congrArg List.length hcases
    rw [List.length_append, List.length_cons] at hlength
    refine Or.inl ⟨by rw [hruns]; simp, front', back ++ l, ?_, by dsimp only; omega⟩
    rw [hready, List.append_assoc, List.cons_append]

/-- A step that leaves the running process leaves `ready_list` its first one. -/
theorem Ordered.not_dispatches (h : k.Ordered) (hrunning : k'.running = k.running)
    (hwoken : k.wokenBy a = []) : ¬ k.Dispatches a k' := by
  rintro ⟨p, hp, hmem⟩
  rw [hwoken, List.nil_append] at hmem
  exact h.scheduled.running_notReady p (hrunning.symm.trans hp) hmem

theorem InTurn.step {i : ℕ} {m : ℕ × ℕ} (h : InTurn q i m k) (hordered : k.Ordered)
    (hstep : k.ListStep a k') :
    InTurn q i (noteTurns m k a k') k' ∨ TurnOf q i (noteTurns m k a k') k' := by
  have hsame (hrunning : k'.running = k.running) (hwoken : k.wokenBy a = []) {l : List Addr}
      (hready : k'.pcbNodes .ready = k.pcbNodes .ready ++ l) :
      InTurn q i (noteTurns m k a k') k' :=
    h.of_append (hrunning ▸ h.busy) hready hwoken (hordered.not_dispatches hrunning hwoken)
  cases hstep with
  | stay hrunning hnodes _ hwoken =>
    exact .inl (hsame hrunning hwoken (l := []) (by rw [hnodes, List.append_nil]))
  | start p _ hidle => exact absurd hidle h.busy
  | create child hrequest _ hrunning hnodes =>
    have hwoken : k.wokenBy a = [] :=
      hrequest.elim (wokenBy_of_request · (by simp)) (wokenBy_of_request · (by simp))
    exact .inl (hsame hrunning hwoken (l := [child]) (by rw [hnodes, Function.update_self]))
  | schedule p next rest _ _ _ hfirst hrunning hnodes =>
    refine h.of_dispatch hfirst hrunning
      (l := if p ∈ wokenNodes k.pcbNodes [] (k.wokenBy a) (k.pcbNodes .ready) .waiting then [] else [p])
      ?_
    have hwoken : wokenNodes k.pcbNodes [] (k.wokenBy a) (k.pcbNodes .ready) .ready = next :: rest := by
      rw [wokenNodes, Function.update_self, List.nil_append]
      exact hfirst
    rw [hnodes, switchedNodes, Function.update_self, hwoken, List.tail_cons]
  | block p j hj hbefore hrequest hrunning hnodes =>
    have hwoken : k.wokenBy a = [] := by
      obtain ⟨_, hrequest, -⟩ | ⟨_, _, hrequest, -⟩ | ⟨_, hrequest, -⟩ := hrequest <;>
        exact wokenBy_of_request hrequest (by simp)
    obtain ⟨front, back, hplace, -⟩ := h.place
    obtain ⟨next, rest, hcons⟩ := List.exists_cons_of_ne_nil
      (by rw [hplace]; simp : k.pcbNodes .ready ≠ [])
    refine h.of_dispatch (by rw [hwoken, List.nil_append, hcons]) (by rw [hrunning, hcons]; rfl)
      (l := []) ?_
    rw [hnodes, Function.update_self, hcons, List.tail_cons, List.append_nil]
  | queueWait p _ hrequest hrunning hnodes =>
    have hwoken : k.wokenBy a = [] := by
      obtain ⟨_, _, hrequest | hrequest⟩ := hrequest <;> exact wokenBy_of_request hrequest (by simp)
    refine .inl (hsame hrunning hwoken (l := []) ?_)
    rw [hnodes, parkedNodes_ready (by decide), List.append_nil]
  | wake p q' _ _ _ hrequest hrunning hnodes =>
    obtain ⟨_, _, _, hrequest, -⟩ := hrequest
    refine .inl (hsame hrunning (wokenBy_of_request hrequest (by simp)) (l := [q']) ?_)
    rw [hnodes, wokenNodes, Function.update_self, List.append_nil]
  | reap child hrequest _ hrunning hnodes =>
    obtain ⟨_, _, hrequest⟩ := hrequest
    refine .inl (hsame hrunning (wokenBy_of_request hrequest (by simp)) (l := []) ?_)
    rw [hnodes, Function.update_of_ne (by decide), List.append_nil]
  | handOver p parent hbefore hrequest _ hparent hrunning hnodes =>
    obtain ⟨_, hrequest⟩ := hrequest
    have hwoken := wokenBy_of_request hrequest (by simp)
    refine .inl (h.of_append (by rw [hrunning]; simp) (l := []) ?_ hwoken ?_)
    · rw [hnodes, Function.update_of_ne (by decide), List.append_nil]
    · rintro ⟨p', hp', hmem⟩
      obtain rfl : parent = p' := Option.some.inj (hrunning.symm.trans hp')
      rw [hwoken, List.nil_append] at hmem
      exact absurd (hordered.scheduled.list_unique hparent hmem) (by decide)

/-- The lists are in order, and when no process runs none is ready. -/
structure Working (k : Kernel) : Prop where
  lists : ∃ failed, k.ListsInv failed
  busy : k.running = none → k.pcbNodes .ready = []

theorem Working.step (h : k.Working) (hsafe : k.ListsSafe a) (hstep : k.step a = some k') :
    k'.Working := by
  obtain ⟨failed, hlists⟩ := h.lists
  refine ⟨⟨_, hlists.step hsafe hstep⟩, fun hidle ↦ ?_⟩
  cases hlists.ordered.listStep hlists.noShutdown hsafe hstep with
  | stay hrunning hnodes => rw [hnodes, h.busy (hrunning.symm.trans hidle)]
  | start p _ _ _ hrunning => rw [hrunning] at hidle; cases hidle
  | create child hrequest _ hrunning =>
    obtain ⟨p, hp⟩ : ∃ p, k.running = some p := hrequest.elim running_of_request running_of_request
    rw [hrunning, hp] at hidle
    cases hidle
  | schedule p next rest _ _ _ _ hrunning => rw [hrunning] at hidle; cases hidle
  | block p i hi _ _ hrunning hnodes =>
    rw [hrunning, List.head?_eq_none_iff] at hidle
    rw [hnodes, Function.update_self, hidle, List.tail_nil]
  | queueWait p hbefore _ hrunning => rw [hrunning, hbefore] at hidle; cases hidle
  | wake p q hbefore _ _ _ hrunning => rw [hrunning, hbefore] at hidle; cases hidle
  | reap child hrequest _ hrunning =>
    obtain ⟨_, _, hrequest⟩ := hrequest
    obtain ⟨p, hp⟩ := running_of_request hrequest
    rw [hrunning, hp] at hidle
    cases hidle
  | handOver p parent _ _ _ _ hrunning => rw [hrunning] at hidle; cases hidle

end Kernel

/-! ### Whole runs -/

theorem Layout.boot_working (layout : Layout) : layout.boot.Working where
  lists := ⟨false, layout.boot_listsInv⟩
  busy _ := layout.boot_scheduled.pcbNodes_eq ▸ rfl

/-- In every run whose steps keep the lists of processes in order, a process that is ready runs after the
processes in front of it and the sleepers that wake in the meantime, and until then some process runs. -/
theorem ready_runs_in_turn (layout : Layout) {before after : List Action} {k k' : Kernel} {q : Addr}
    {front back : List Addr} (hbefore : Runs.Meets Kernel.step Kernel.ListsSafe layout.boot before)
    (hrun : Runs.run Kernel.step layout.boot before = some k)
    (hready : k.pcbNodes .ready = front ++ q :: back)
    (hafter : Runs.Meets Kernel.step Kernel.ListsSafe k after)
    (hrun' : Runs.run Kernel.step k after = some k') :
    Kernel.InTurn q front.length (Runs.monitor Kernel.step Kernel.noteTurns (0, 0) k after) k' ∨
      ∃ first last u, after = first ++ last ∧ Runs.run Kernel.step k first = some u ∧
        Kernel.TurnOf q front.length (Runs.monitor Kernel.step Kernel.noteTurns (0, 0) k first) u := by
  have hworking : k.Working :=
    Runs.run_invariant (fun _ _ _ hinv hok hstep ↦ hinv.step hok hstep) layout.boot_working hbefore hrun
  have hturn : Kernel.InTurn q front.length (0, 0) k := by
    refine ⟨fun hidle ↦ ?_, front, back, hready, rfl⟩
    have hnone := hworking.busy hidle
    rw [hready] at hnone
    simp at hnone
  have hstep : ∀ m s a t, (Kernel.Working s ∧ Kernel.InTurn q front.length m s) → s.ListsSafe a →
      s.step a = some t → (t.Working ∧ Kernel.InTurn q front.length (Kernel.noteTurns m s a t) t) ∨
        Kernel.TurnOf q front.length (Kernel.noteTurns m s a t) t := by
    rintro m s a t ⟨hworking, hturn⟩ hsafe hstep
    obtain ⟨failed, hlists⟩ := hworking.lists
    exact (hturn.step hlists.ordered (hlists.ordered.listStep hlists.noShutdown hsafe hstep)).imp_left
      fun hturn' ↦ ⟨hworking.step hsafe hstep, hturn'⟩
  exact (Runs.run_until hstep ⟨hworking, hturn⟩ hafter hrun').imp_left And.right

/-- The first process spawns two others and sleeps for one tick. -/
def sleeperPasses : List Action := [.syscall (.sleep 1), .timer, .timer]

/-- The third process is behind the second one, and when the tick wakes the first one, also behind that:
it is the third to run. -/
theorem ready_runs_in_turn_sleeperPasses : ∃ k k',
    Runs.run Kernel.step sampleLayout.boot [.start, .syscall .spawn, .syscall .spawn] = some k ∧
      k.pcbNodes .ready = [0x404488, 0x408910] ∧
      Runs.run Kernel.step k sleeperPasses = some k' ∧ k'.running = some 0x408910 ∧
      Runs.monitor Kernel.step Kernel.noteTurns (0, 0) k sleeperPasses = (3, 1) ∧
      (Kernel.InTurn 0x408910 1 (3, 1) k' ∨
        ∃ first last u, sleeperPasses = first ++ last ∧ Runs.run Kernel.step k first = some u ∧
          Kernel.TurnOf 0x408910 1 (Runs.monitor Kernel.step Kernel.noteTurns (0, 0) k first) u) := by
  have hends : ∃ k ∈ Runs.run Kernel.step sampleLayout.boot [.start, .syscall .spawn, .syscall .spawn],
      k.pcbNodes .ready = [0x404488, 0x408910] ∧
        Runs.Meets Kernel.step Kernel.ListsSafe k sleeperPasses ∧
        Runs.monitor Kernel.step Kernel.noteTurns (0, 0) k sleeperPasses = (3, 1) ∧
        ∃ k' ∈ Runs.run Kernel.step k sleeperPasses, k'.running = some 0x408910 := by decide +kernel
  obtain ⟨k, hk, hready, hsafe, hturns, k', hk', hruns⟩ := hends
  have hplace : k.pcbNodes .ready = [0x404488] ++ 0x408910 :: [] := hready
  have hturn := ready_runs_in_turn sampleLayout (by decide +kernel) hk hplace hsafe hk'
  rw [hturns] at hturn
  exact ⟨k, k', hk, hready, hk', hruns, hturns, hturn⟩

end DisastrOS
