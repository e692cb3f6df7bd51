import Mathlib.Data.List.Basic
import Mathlib.Logic.Function.Basic
import Mathlib.Tactic.Common

/-!
# Independent components

A family of components, each with a state of its own, is driven by a sequence of events. An
event concerns at most one component and changes no other. Then each component is where the
events that concern it take it, whatever happened in between to the others
(`foldl_apply`).
-/

universe u v w

namespace Components

variable {ι : Type u} {σ : Type v} {ε : Type w} [DecidableEq ι] (component : ε → Option ι)
  (act : ε → σ → σ)

/-- An event changes the component it concerns. -/
def step (states : ι → σ) (e : ε) : ι → σ :=
  match component e with
  | some i => Function.update states i (act e (states i))
  | none => states

theorem step_apply (states : ι → σ) (e : ε) (i : ι) :
    step component act states e i = if component e = some i then act e (states i) else states i := by
  rw [step]
  cases h : component e with
  | none => simp
  | some j =>
    by_cases hij : i = j
    · subst hij
      simp
    · simp [Function.update_of_ne hij, Ne.symm hij]

/-- **Components do not interfere.** Each is where its own events take it, in their order. -/
theorem foldl_apply (states : ι → σ) (events : List ε) (i : ι) :
    events.foldl (step component act) states i =
      (events.filter fun e => component e = some i).foldl (fun s e => act e s) (states i) := by
  induction events generalizing states with
  | nil => rfl
  | cons e events ih =>
    rw [List.foldl_cons, ih, step_apply, List.filter_cons]
    by_cases h : component e = some i <;> simp [h]

end Components
