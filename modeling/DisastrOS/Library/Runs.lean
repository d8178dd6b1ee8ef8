import Mathlib.Data.List.Basic

/-!
# Runs of a system

A system is a partial step function: `step s a` is the state after action `a`, or nothing when the
action cannot be taken. `run` takes a list of actions, `Meets` says that every step of a run meets a
condition on the state before it and the action, and `monitor` folds an observation of each step
along the run, without a part in it: the list of the events so far, a count, or a flag.

There is one induction rule. What holds at the start together with the first observation, and is kept
by every step that meets the condition, holds at the end of the run together with the observation
made there (`monitor_invariant`); without an observation it is `run_invariant`, and where each step can
be taken the run has an end (`run_total`). Where the condition on a step is to look at what has been
observed, the run is one of the system together with its observation (`observed`, `run_observed`). A
property that lasts until something happens has rules of its own (`run_until`, `run_until_step`). Two
runs with the same actions are compared by a relation that every step keeps (`run_simulates`), and a run
with one of another system by their events (`Trace`, `run_refines`).
-/

set_option autoImplicit false
set_option relaxedAutoImplicit false

namespace DisastrOS.Runs

variable {σ α μ : Type*}

/-- The state that a list of actions leads to. -/
def run (step : σ → α → Option σ) : σ → List α → Option σ
  | s, [] => some s
  | s, a :: rest => (step s a).bind fun t ↦ run step t rest

/-- Every step of the run meets the condition. -/
def Meets (step : σ → α → Option σ) (ok : σ → α → Prop) : σ → List α → Prop
  | _, [] => True
  | s, a :: rest =>
    ok s a ∧ match step s a with
      | none => True
      | some t => Meets step ok t rest

/-- The observation at the end of the run. -/
def monitor (step : σ → α → Option σ) (observe : μ → σ → α → σ → μ) : μ → σ → List α → μ
  | m, _, [] => m
  | m, s, a :: rest =>
    match step s a with
    | none => m
    | some t => monitor step observe (observe m s a t) t rest

instance decidableMeets (step : σ → α → Option σ) (ok : σ → α → Prop)
    [∀ s a, Decidable (ok s a)] : ∀ s actions, Decidable (Meets step ok s actions)
  | _, [] => isTrue trivial
  | s, a :: rest =>
    match hstep : step s a with
    | none => decidable_of_iff (ok s a) (by simp [Meets, hstep])
    | some t =>
      have := decidableMeets step ok t rest
      decidable_of_iff (ok s a ∧ Meets step ok t rest) (by simp [Meets, hstep])

variable {step : σ → α → Option σ} {ok ok' : σ → α → Prop} {observe : μ → σ → α → σ → μ}

theorem run_cons_eq_some {s t : σ} {a : α} {rest : List α} :
    run step s (a :: rest) = some t ↔ ∃ u, step s a = some u ∧ run step u rest = some t := by
  rw [run, Option.bind_eq_some_iff]

theorem run_append {s t : σ} {actions rest : List α} :
    run step s (actions ++ rest) = some t ↔
      ∃ u, run step s actions = some u ∧ run step u rest = some t := by
  induction actions generalizing s with
  | nil => simp [run]
  | cons a actions ih =>
    rw [List.cons_append, run_cons_eq_some]
    constructor
    · rintro ⟨u, hu, hrest⟩
      obtain ⟨v, hv, hrest⟩ := ih.mp hrest
      exact ⟨v, run_cons_eq_some.mpr ⟨u, hu, hv⟩, hrest⟩
    · rintro ⟨v, hv, hrest⟩
      obtain ⟨u, hu, hv⟩ := run_cons_eq_some.mp hv
      exact ⟨u, hu, ih.mpr ⟨v, hv, hrest⟩⟩

theorem Meets.mono {s : σ} {actions : List α} (h : Meets step ok s actions)
    (himp : ∀ s a, ok s a → ok' s a) : Meets step ok' s actions := by
  induction actions generalizing s with
  | nil => trivial
  | cons a rest ih =>
    refine ⟨himp s a h.1, ?_⟩
    have hrest := h.2
    cases hstep : step s a with
    | none => trivial
    | some t => exact ih (by simpa [hstep] using hrest)

/-- A run meets whatever its condition implies wherever an invariant of it holds. -/
theorem Meets.of_invariant {P : σ → Prop}
    (hstep : ∀ s a t, P s → ok s a → step s a = some t → P t)
    (himp : ∀ s a, P s → ok s a → ok' s a) {s : σ} {actions : List α} (hstart : P s)
    (h : Meets step ok s actions) : Meets step ok' s actions := by
  induction actions generalizing s with
  | nil => trivial
  | cons a rest ih =>
    refine ⟨himp s a hstart h.1, ?_⟩
    have hrest := h.2
    cases ht : step s a with
    | none => trivial
    | some t => exact ih (hstep s a t hstart h.1 ht) (by simpa [ht] using hrest)

/-- A condition on the actions alone is met by a run of such actions. -/
theorem Meets.of_forall {allowed : α → Prop} {actions : List α} (s : σ)
    (h : ∀ a ∈ actions, allowed a) : Meets step (fun _ a ↦ allowed a) s actions := by
  induction actions generalizing s with
  | nil => trivial
  | cons a rest ih =>
    refine ⟨h a List.mem_cons_self, ?_⟩
    cases step s a with
    | none => trivial
    | some t => exact ih t fun b hb ↦ h b (List.mem_cons_of_mem a hb)

/-- The induction rule with an observation. -/
theorem monitor_invariant {P : μ → σ → Prop}
    (hstep : ∀ m s a t, P m s → ok s a → step s a = some t → P (observe m s a t) t) {m : μ}
    {s t : σ} {actions : List α} (hstart : P m s) (hmeets : Meets step ok s actions)
    (hrun : run step s actions = some t) : P (monitor step observe m s actions) t := by
  induction actions generalizing m s with
  | nil =>
    obtain rfl := Option.some.inj hrun
    exact hstart
  | cons a rest ih =>
    obtain ⟨u, hu, hrest⟩ := run_cons_eq_some.mp hrun
    obtain ⟨hok, hmeets⟩ := hmeets
    simp only [hu] at hmeets
    rw [monitor]
    simp only [hu]
    exact ih (hstep m s a u hstart hok hu) hmeets hrest

/-- The induction rule: an invariant of the steps holds at the end of a run. -/
theorem run_invariant {P : σ → Prop}
    (hstep : ∀ s a t, P s → ok s a → step s a = some t → P t) {s t : σ} {actions : List α}
    (hstart : P s) (hmeets : Meets step ok s actions) (hrun : run step s actions = some t) :
    P t :=
  @monitor_invariant σ α Unit step ok (fun _ _ _ _ ↦ ()) (fun _ ↦ P) (fun _ ↦ hstep) () s t actions
    hstart hmeets hrun

/-- The rule for a property that lasts until something happens: it holds at the end of the run, or the run
has got to where it happens. -/
theorem run_until {P Q : μ → σ → Prop}
    (hstep : ∀ m s a t, P m s → ok s a → step s a = some t →
      P (observe m s a t) t ∨ Q (observe m s a t) t) {m : μ} {s t : σ} {actions : List α}
    (hstart : P m s) (hmeets : Meets step ok s actions) (hrun : run step s actions = some t) :
    P (monitor step observe m s actions) t ∨ ∃ before after u, actions = before ++ after ∧
      run step s before = some u ∧ Q (monitor step observe m s before) u := by
  induction actions generalizing m s with
  | nil =>
    obtain rfl := Option.some.inj hrun
    exact Or.inl hstart
  | cons a rest ih =>
    obtain ⟨v, hv, hrest⟩ := run_cons_eq_some.mp hrun
    obtain ⟨hok, hmeets⟩ := hmeets
    simp only [hv] at hmeets
    have hmonitor : ∀ l, monitor step observe m s (a :: l) =
        monitor step observe (observe m s a v) v l := by
      intro l
      rw [monitor]
      simp only [hv]
    rcases hstep m s a v hstart hok hv with hP | hQ
    · rw [hmonitor]
      refine (ih hP hmeets hrest).imp_right ?_
      rintro ⟨before, after, u, rfl, hbefore, hQ⟩
      refine ⟨a :: before, after, u, rfl, run_cons_eq_some.mpr ⟨v, hv, hbefore⟩, ?_⟩
      rw [hmonitor]
      exact hQ
    · exact Or.inr ⟨[a], rest, v, rfl, run_cons_eq_some.mpr ⟨v, hv, rfl⟩, (hmonitor []).symm ▸ hQ⟩

/-- The same rule without an observation, and with the step at which it happens: up to there the property
has lasted. -/
theorem run_until_step {P : σ → Prop} {Q : α → σ → Prop}
    (hstep : ∀ s a t, P s → ok s a → step s a = some t → P t ∨ Q a t) {s t : σ} {actions : List α}
    (hstart : P s) (hmeets : Meets step ok s actions) (hrun : run step s actions = some t) :
    P t ∨ ∃ before a after u, actions = before ++ a :: after ∧
      Meets step (fun s _ ↦ P s) s (before ++ [a]) ∧ run step s (before ++ [a]) = some u ∧ Q a u := by
  induction actions generalizing s with
  | nil =>
    obtain rfl := Option.some.inj hrun
    exact Or.inl hstart
  | cons a rest ih =>
    obtain ⟨v, hv, hrest⟩ := run_cons_eq_some.mp hrun
    obtain ⟨hok, hmeets⟩ := hmeets
    simp only [hv] at hmeets
    rcases hstep s a v hstart hok hv with hP | hQ
    · refine (ih hP hmeets hrest).imp_right ?_
      rintro ⟨before, b, after, u, rfl, hlasts, hbefore, hQ⟩
      refine ⟨a :: before, b, after, u, rfl, ⟨hstart, ?_⟩, run_cons_eq_some.mpr ⟨v, hv, hbefore⟩, hQ⟩
      simp only [hv]
      exact hlasts
    · refine Or.inr ⟨[], a, rest, v, rfl, ⟨hstart, ?_⟩, run_cons_eq_some.mpr ⟨v, hv, rfl⟩, hQ⟩
      simp only [hv, Meets]

/-- The step of the system together with the observation of the run. -/
def observed (step : σ → α → Option σ) (observe : μ → σ → α → σ → μ) (s : μ × σ) (a : α) : Option (μ × σ) :=
  (step s.2 a).map fun t ↦ (observe s.1 s.2 a t, t)

/-- A run of the system with its observation is a run of the system. -/
theorem run_observed (m : μ) (s : σ) (actions : List α) :
    run (observed step observe) (m, s) actions =
      (run step s actions).map fun t ↦ (monitor step observe m s actions, t) := by
  induction actions generalizing m s with
  | nil => rfl
  | cons a rest ih =>
    rw [run, run, monitor, observed]
    cases step s a with
    | none => rfl
    | some t => exact ih (observe m s a t) t

/-- The induction rule for a condition that looks at the observation. -/
theorem observed_invariant {P : μ → σ → Prop} {ok : μ × σ → α → Prop}
    (hstep : ∀ m s a t, P m s → ok (m, s) a → step s a = some t → P (observe m s a t) t) {m : μ}
    {s t : σ} {actions : List α} (hstart : P m s) (hmeets : Meets (observed step observe) ok (m, s) actions)
    (hrun : run step s actions = some t) : P (monitor step observe m s actions) t := by
  have hpair : run (observed step observe) (m, s) actions =
      some (monitor step observe m s actions, t) := by
    rw [run_observed, hrun]
    rfl
  refine run_invariant (P := fun pair ↦ P pair.1 pair.2) (fun pair a pair' h hok hpair ↦ ?_) hstart hmeets
    hpair
  obtain ⟨t, ht, rfl⟩ := Option.map_eq_some_iff.mp hpair
  exact hstep pair.1 pair.2 a t h hok ht

/-- The induction rule for steps that can be taken wherever the invariant and the condition hold: the
run goes through to its end. -/
theorem run_total {P : μ → σ → Prop}
    (hstep : ∀ m s a, P m s → ok s a → ∃ t, step s a = some t ∧ P (observe m s a t) t) {m : μ}
    {s : σ} {actions : List α} (hstart : P m s) (hmeets : Meets step ok s actions) :
    ∃ t, run step s actions = some t ∧ P (monitor step observe m s actions) t := by
  induction actions generalizing m s with
  | nil => exact ⟨s, rfl, hstart⟩
  | cons a rest ih =>
    obtain ⟨hok, hmeets⟩ := hmeets
    obtain ⟨u, hu, hafter⟩ := hstep m s a hstart hok
    simp only [hu] at hmeets
    obtain ⟨t, hrest, hend⟩ := ih hafter hmeets
    refine ⟨t, run_cons_eq_some.mpr ⟨u, hu, hrest⟩, ?_⟩
    rw [monitor]
    simp only [hu]
    exact hend

/-- An observation of the actions alone is their fold. -/
theorem monitor_eq_foldl {f : μ → α → μ} {m : μ} {s t : σ} {actions : List α}
    (hrun : run step s actions = some t) :
    monitor step (fun m _ a _ ↦ f m a) m s actions = actions.foldl f m := by
  induction actions generalizing m s with
  | nil => rfl
  | cons a rest ih =>
    obtain ⟨u, hu, hrest⟩ := run_cons_eq_some.mp hrun
    rw [monitor, List.foldl_cons]
    simp only [hu]
    exact ih hrest

/-- Two runs with the same actions: a relation that is kept by every step, and by which the second run
can take the steps of the first one, holds at the end. -/
theorem run_simulates {R : σ → σ → Prop}
    (hstep : ∀ s a t s', R s s' → ok s a → step s a = some t → ∃ t', step s' a = some t' ∧ R t t')
    {s t s' : σ} {actions : List α} (hstart : R s s') (hmeets : Meets step ok s actions)
    (hrun : run step s actions = some t) : ∃ t', run step s' actions = some t' ∧ R t t' := by
  induction actions generalizing s s' with
  | nil =>
    obtain rfl := Option.some.inj hrun
    exact ⟨s', rfl, hstart⟩
  | cons a rest ih =>
    obtain ⟨u, hu, hrest⟩ := run_cons_eq_some.mp hrun
    obtain ⟨hok, hmeets⟩ := hmeets
    simp only [hu] at hmeets
    obtain ⟨u', hu', hafter⟩ := hstep s a u s' hstart hok hu
    obtain ⟨t', hrest', hend⟩ := ih hafter hmeets hrest
    exact ⟨t', run_cons_eq_some.mpr ⟨u', hu', hrest'⟩, hend⟩

/-! ### Refinement -/

variable {τ ε : Type*}

/-- The events of a run, one for each step. -/
def events (step : σ → α → Option σ) (event : σ → α → σ → ε) : σ → List α → List ε
  | _, [] => []
  | s, a :: rest =>
    match step s a with
    | none => []
    | some t => event s a t :: events step event t rest

/-- A system whose steps are a relation goes from one state to another, with the events in between. -/
inductive Trace (next : τ → ε → τ → Prop) : τ → List ε → τ → Prop
  | nil (x : τ) : Trace next x [] x
  | cons {x y z : τ} {e : ε} {es : List ε} (he : next x e y) (hes : Trace next y es z) :
    Trace next x (e :: es) z

/-- The induction rule for traces: what every event keeps that is allowed. -/
theorem Trace.invariant {next : τ → ε → τ → Prop} {P : τ → Prop} {Q : ε → Prop} {x y : τ}
    {es : List ε} (h : Trace next x es y) (hallowed : ∀ e ∈ es, Q e)
    (hkeeps : ∀ x e y, P x → Q e → next x e y → P y) (hstart : P x) : P y := by
  induction h with
  | nil => exact hstart
  | cons he _ ih =>
    exact ih (fun e hmem ↦ hallowed e (List.mem_cons_of_mem _ hmem))
      (hkeeps _ _ _ hstart (hallowed _ List.mem_cons_self) he)

/-- The rule for refinements: where every step of a system is one of another system, with the same
event, and keeps a relation of their states, so is every run. -/
theorem run_refines {next : τ → ε → τ → Prop} {event : σ → α → σ → ε} {R : σ → τ → Prop}
    (hstep : ∀ s a t x, R s x → ok s a → step s a = some t → ∃ y, next x (event s a t) y ∧ R t y)
    {s t : σ} {x : τ} {actions : List α} (hstart : R s x) (hmeets : Meets step ok s actions)
    (hrun : run step s actions = some t) :
    ∃ y, Trace next x (events step event s actions) y ∧ R t y := by
  induction actions generalizing s x with
  | nil =>
    obtain rfl := Option.some.inj hrun
    exact ⟨x, .nil x, hstart⟩
  | cons a rest ih =>
    obtain ⟨u, hu, hrest⟩ := run_cons_eq_some.mp hrun
    obtain ⟨hok, hmeets⟩ := hmeets
    simp only [hu] at hmeets
    obtain ⟨y, hnext, hy⟩ := hstep s a u x hstart hok hu
    obtain ⟨z, htrace, hz⟩ := ih hy hmeets hrest
    refine ⟨z, ?_, hz⟩
    rw [events]
    simp only [hu]
    exact .cons hnext htrace

end DisastrOS.Runs
