import Mathlib.Data.List.Basic
import Mathlib.Data.List.Induction
import Mathlib.Tactic.Common

/-!
# Reactive systems: runs, histories and two-run arguments

A `Reactive` system has a deterministic step on every input and reports one event for
each step. `after` is the state a sequence of inputs leads to, `history` the list of
events it reports, oldest first.

Four induction rules are packaged once. `after_induction` carries an invariant of the
state through a run, `history_induction` an invariant that ties the state to the events
reported so far, and `Bisimulation` a relation between two states of the same system that
every step preserves: related states report the same events forever, so what the relation
forgets is unobservable; the coarsest such relation is `Indistinguishable`. `Simulation`
relates the states of two systems and may ask the steps of each for a rule; it carries the
relation along the runs whose steps satisfy the rules. A system may be watched through a
function of its events (`reporting`), so that systems that do corresponding things can be
compared, and by `turns`, several inputs at a time, so that one that takes more steps can be
compared with one that takes fewer.
-/

universe u v w x

/-- A deterministic system that reports one event for each input. -/
structure Reactive (σ : Type u) (α : Type v) (β : Type w) where
  /-- The state after an input. -/
  step : σ → α → σ
  /-- The event reported for an input. -/
  event : σ → α → β

namespace Reactive

variable {σ : Type u} {α : Type v} {β : Type w} (M : Reactive σ α β)

/-- The state after a sequence of inputs. -/
def after (s : σ) (inputs : List α) : σ := inputs.foldl M.step s

/-- The events reported for a sequence of inputs, oldest first. -/
def history : σ → List α → List β
  | _, [] => []
  | s, a :: inputs => M.event s a :: history (M.step s a) inputs

@[simp]
theorem after_nil (s : σ) : M.after s [] = s := rfl

@[simp]
theorem after_cons (s : σ) (a : α) (inputs : List α) :
    M.after s (a :: inputs) = M.after (M.step s a) inputs := rfl

theorem after_append (s : σ) (xs ys : List α) :
    M.after s (xs ++ ys) = M.after (M.after s xs) ys := List.foldl_append

@[simp]
theorem after_concat (s : σ) (inputs : List α) (a : α) :
    M.after s (inputs ++ [a]) = M.step (M.after s inputs) a := by
  rw [after_append, after_cons, after_nil]

theorem history_append (s : σ) (xs ys : List α) :
    M.history s (xs ++ ys) = M.history s xs ++ M.history (M.after s xs) ys := by
  induction xs generalizing s with
  | nil => rfl
  | cons a xs ih => exact congrArg _ (ih _)

@[simp]
theorem history_concat (s : σ) (inputs : List α) (a : α) :
    M.history s (inputs ++ [a]) = M.history s inputs ++ [M.event (M.after s inputs) a] := by
  rw [history_append, history, history]

/-! ### Invariants -/

/-- **Invariant rule.** A property of states that every allowed step preserves holds
after every run of allowed inputs. -/
theorem after_induction (allowed : α → Prop) {P : σ → Prop}
    (hstep : ∀ s a, allowed a → P s → P (M.step s a)) {s : σ} (hs : P s) {inputs : List α}
    (hinputs : ∀ a ∈ inputs, allowed a) : P (M.after s inputs) := by
  induction inputs generalizing s with
  | nil => exact hs
  | cons a inputs ih =>
    exact ih (hstep s a (hinputs a (by simp)) hs) fun b hb => hinputs b (by simp [hb])

/-- **History rule.** A relation between the events so far and the state that every
allowed step extends holds after every run of allowed inputs. -/
theorem history_induction (allowed : α → Prop) {P : List β → σ → Prop}
    (hstep : ∀ h s a, allowed a → P h s → P (h ++ [M.event s a]) (M.step s a)) {s : σ}
    (hs : P [] s) (inputs : List α) (hinputs : ∀ a ∈ inputs, allowed a) :
    P (M.history s inputs) (M.after s inputs) := by
  -- a history grows at its end, hence the induction on the last input
  induction inputs using List.reverseRecOn with
  | nil => exact hs
  | append_singleton inputs a ih =>
    rw [history_concat, after_concat]
    exact hstep _ _ _ (hinputs a (by simp)) (ih fun b hb => hinputs b (by simp [hb]))

/-! ### Two runs -/

/-- A relation on states that no sequence of inputs can tell apart: related states report
the same event and step to related states. -/
structure Bisimulation (R : σ → σ → Prop) : Prop where
  /-- Related states report the same event. -/
  event : ∀ {s t a}, R s t → M.event s a = M.event t a
  /-- Related states step to related states. -/
  step : ∀ {s t a}, R s t → R (M.step s a) (M.step t a)

variable {M} {R : σ → σ → Prop}

/-- Related states stay related along every run. -/
theorem Bisimulation.after (h : M.Bisimulation R) {s t : σ} (hst : R s t) (inputs : List α) :
    R (M.after s inputs) (M.after t inputs) :=
  List.foldl_rel hst fun _ _ _ _ hrel => h.step hrel

/-- Related states report the same history along every run. -/
theorem Bisimulation.history (h : M.Bisimulation R) {s t : σ} (hst : R s t)
    (inputs : List α) : M.history s inputs = M.history t inputs := by
  induction inputs generalizing s t with
  | nil => rfl
  | cons a inputs ih => rw [Reactive.history, Reactive.history, h.event hst, ih (h.step hst)]

variable (M) in
/-- No sequence of inputs tells two states apart. -/
def Indistinguishable (s t : σ) : Prop := ∀ inputs, M.history s inputs = M.history t inputs

/-- States that cannot be told apart report the same event. -/
theorem Indistinguishable.event {s t : σ} (h : M.Indistinguishable s t) (a : α) :
    M.event s a = M.event t a :=
  (List.cons.inj (h [a])).1

theorem Indistinguishable.step {s t : σ} (h : M.Indistinguishable s t) (a : α) :
    M.Indistinguishable (M.step s a) (M.step t a) :=
  fun inputs => (List.cons.inj (h (a :: inputs))).2

/-! ### Two systems -/

variable (M) in
/-- Every step of the run from a state satisfies a rule. -/
def Along (rule : σ → α → Prop) : σ → List α → Prop
  | _, [] => True
  | s, a :: inputs => rule s a ∧ Along rule (M.step s a) inputs

/-- What holds of every step holds along every run. -/
theorem along_of_forall {rule : σ → α → Prop} (h : ∀ s a, rule s a) (s : σ) (inputs : List α) :
    M.Along rule s inputs := by
  induction inputs generalizing s with
  | nil => trivial
  | cons a inputs ih => exact ⟨h s a, ih _⟩

variable (M) in
/-- A relation between the states of two systems that every step which satisfies their rules
carries on, with the same event. -/
structure Simulation {τ : Type x} (N : Reactive τ α β) (rule : σ → α → Prop)
    (rule' : τ → α → Prop) (R : σ → τ → Prop) : Prop where
  /-- Related states report the same event. -/
  event : ∀ {s t a}, R s t → rule s a → rule' t a → M.event s a = N.event t a
  /-- Related states step to related states. -/
  step : ∀ {s t a}, R s t → rule s a → rule' t a → R (M.step s a) (N.step t a)

section Simulation

variable {τ : Type x} {N : Reactive τ α β} {rule : σ → α → Prop} {rule' : τ → α → Prop}
  {S : σ → τ → Prop}

/-- Related states stay related along every run that satisfies the rules. -/
theorem Simulation.after (h : M.Simulation N rule rule' S) {s : σ} {t : τ} (hst : S s t)
    {inputs : List α} (hrule : M.Along rule s inputs) (hrule' : N.Along rule' t inputs) :
    S (M.after s inputs) (N.after t inputs) := by
  induction inputs generalizing s t with
  | nil => exact hst
  | cons a inputs ih => exact ih (h.step hst hrule.1 hrule'.1) hrule.2 hrule'.2

/-- Related states report the same history along every run that satisfies the rules. -/
theorem Simulation.history (h : M.Simulation N rule rule' S) {s : σ} {t : τ} (hst : S s t)
    {inputs : List α} (hrule : M.Along rule s inputs) (hrule' : N.Along rule' t inputs) :
    M.history s inputs = N.history t inputs := by
  induction inputs generalizing s t with
  | nil => rfl
  | cons a inputs ih =>
    rw [Reactive.history, Reactive.history, h.event hst hrule.1 hrule'.1,
      ih (h.step hst hrule.1 hrule'.1) hrule.2 hrule'.2]

/-- A rule that the relation carries over is satisfied along the related run as well. -/
theorem Simulation.along (h : M.Simulation N rule rule' S)
    (hrules : ∀ {s t a}, S s t → rule s a → rule' t a) {s : σ} {t : τ} (hst : S s t)
    {inputs : List α} (hrule : M.Along rule s inputs) : N.Along rule' t inputs := by
  induction inputs generalizing s t with
  | nil => trivial
  | cons a inputs ih =>
    have ha := hrules hst hrule.1
    exact ⟨ha, ih (h.step hst hrule.1 ha) hrule.2⟩

end Simulation

/-! ### Events seen through a function -/

section Reporting

variable {γ : Type x} (f : β → γ)

variable (M) in
/-- The system with a function of its events reported. -/
def reporting : Reactive σ α γ where
  step := M.step
  event s a := f (M.event s a)

@[simp]
theorem after_reporting (s : σ) (inputs : List α) :
    (M.reporting f).after s inputs = M.after s inputs := rfl

@[simp]
theorem history_reporting (s : σ) (inputs : List α) :
    (M.reporting f).history s inputs = (M.history s inputs).map f := by
  induction inputs generalizing s with
  | nil => rfl
  | cons a inputs ih => exact congrArg _ (ih _)

/-- What is reported makes no difference to the steps. -/
theorem along_reporting {rule : σ → α → Prop} {s : σ} {inputs : List α}
    (h : M.Along rule s inputs) : (M.reporting f).Along rule s inputs := by
  induction inputs generalizing s with
  | nil => trivial
  | cons a inputs ih => exact ⟨h.1, ih h.2⟩

end Reporting

/-! ### Turns -/

section Turns

variable {ψ : Type x} (inputs : ψ → List α) (reported : ψ → Bool)

variable (M) in
/-- The system that takes a list of inputs at each turn and reports what some of the turns
do. -/
def turns : Reactive σ ψ (List β) where
  step s t := M.after s (inputs t)
  event s t := if reported t then M.history s (inputs t) else []

theorem after_turns (s : σ) (ts : List ψ) :
    (M.turns inputs reported).after s ts = M.after s (ts.flatMap inputs) := by
  induction ts generalizing s with
  | nil => rfl
  | cons t ts ih => rw [after_cons, ih, List.flatMap_cons, after_append]; rfl

/-- If what is not reported is nothing, the turns report the history. -/
theorem flatten_history_turns (h : ∀ t, reported t = false → inputs t = []) (s : σ)
    (ts : List ψ) :
    ((M.turns inputs reported).history s ts).flatten = M.history s (ts.flatMap inputs) := by
  induction ts generalizing s with
  | nil => rfl
  | cons t ts ih =>
    rw [Reactive.history, List.flatten_cons, ih, List.flatMap_cons, history_append]
    refine congrArg (· ++ _) ?_
    by_cases ht : reported t = true
    · exact if_pos ht
    · exact (if_neg ht).trans (by rw [h t (Bool.eq_false_iff.mpr ht)]; rfl)

/-- A rule that a run satisfies is satisfied in every turn. -/
theorem along_turns {rule : σ → α → Prop} {s : σ} {ts : List ψ}
    (h : M.Along rule s (ts.flatMap inputs)) :
    (M.turns inputs reported).Along (fun s t => M.Along rule s (inputs t)) s ts := by
  have hsplit : ∀ (xs ys : List α) s, M.Along rule s (xs ++ ys) →
      M.Along rule s xs ∧ M.Along rule (M.after s xs) ys := by
    intro xs ys
    induction xs with
    | nil => exact fun s h => ⟨trivial, h⟩
    | cons x xs ih => exact fun s h => ⟨⟨h.1, (ih _ h.2).1⟩, (ih _ h.2).2⟩
  induction ts generalizing s with
  | nil => trivial
  | cons t ts ih =>
    obtain ⟨ht, hts⟩ := hsplit _ _ s h
    exact ⟨ht, ih hts⟩

end Turns

end Reactive
