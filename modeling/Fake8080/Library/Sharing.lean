import Fake8080.Library.Reactive
import Mathlib.Logic.Function.Basic

/-!
# Parties that share a state

A party is a reactive system on pairs of a state of its own and a shared one. `Reactive.shared`
is the system of any number of parties, in which each call is made by the party it is addressed
to. Parties that are `Independent`, whose steps do what they would do alone and leave alone what
the others make of the shared state, do in every interleaving what each does alone
(`Independent.history_shared`).
-/

universe u v w x y

namespace Reactive

variable {κ : Type u} {σ : Type v} {τ : Type w} {α : Type x} {β : Type y} [DecidableEq κ]

/-- What is addressed to a party, in its order. -/
def addressed {γ : Type x} (k : κ) (calls : List (κ × γ)) : List γ :=
  (calls.filter fun call => call.1 = k).map Prod.snd

@[simp]
theorem addressed_nil {γ : Type x} (k : κ) : addressed k ([] : List (κ × γ)) = [] := rfl

theorem addressed_cons_self {γ : Type x} (k : κ) (a : γ) (calls : List (κ × γ)) :
    addressed k ((k, a) :: calls) = a :: addressed k calls := by
  rw [addressed, List.filter_cons_of_pos (by simp)]
  rfl

theorem addressed_cons_of_ne {γ : Type x} {j k : κ} (h : j ≠ k) (a : γ) (calls : List (κ × γ)) :
    addressed k ((j, a) :: calls) = addressed k calls := by
  rw [addressed, List.filter_cons_of_neg (by simpa using h)]
  rfl

/-- The parties on a shared state. -/
def shared (κ : Type u) [DecidableEq κ] (M : Reactive (σ × τ) α β) :
    Reactive ((κ → σ) × τ) (κ × α) (κ × β) where
  step s call :=
    (Function.update s.1 call.1 (M.step (s.1 call.1, s.2) call.2).1,
      (M.step (s.1 call.1, s.2) call.2).2)
  event s call := (call.1, M.event (s.1 call.1, s.2) call.2)

/-- Relations that tie a party alone to the party among the others: a step that keeps to the
rule is the same for both, and among the others it keeps the relations of the others. -/
structure Independent (M : Reactive (σ × τ) α β) (rule : κ → σ × τ → α → Prop)
    (R : κ → σ × τ → σ × τ → Prop) : Prop where
  /-- The party reports the same event. -/
  event : ∀ {k s t a}, R k s t → rule k s a → M.event s a = M.event t a
  /-- The party stays related. -/
  own : ∀ {k s t a}, R k s t → rule k s a → R k (M.step s a) (M.step t a)
  /-- The other parties stay related. -/
  other : ∀ {j k s t a}, j ≠ k → R j s t → rule j s a →
    ∀ {s' l}, R k s' (l, t.2) → R k s' (l, (M.step t a).2)

variable {M : Reactive (σ × τ) α β} {rule : κ → σ × τ → α → Prop}
  {R : κ → σ × τ → σ × τ → Prop}

/-- **Independent parties do not interfere.** In every interleaving each party does what it does
alone, and is left related to where it would be alone. -/
theorem Independent.history_shared (h : M.Independent rule R) (alone : κ → σ × τ) (own : κ → σ)
    (common : τ) (hstart : ∀ k, R k (alone k) (own k, common)) {calls : List (κ × α)}
    (hrule : ∀ k, M.Along (rule k) (alone k) (addressed k calls)) (k : κ) :
    addressed k ((M.shared κ).history (own, common) calls) =
        M.history (alone k) (addressed k calls) ∧
      R k (M.after (alone k) (addressed k calls))
        (((M.shared κ).after (own, common) calls).1 k,
          ((M.shared κ).after (own, common) calls).2) := by
  induction calls generalizing alone own common with
  | nil => exact ⟨rfl, hstart k⟩
  | cons call calls ih =>
    obtain ⟨j, a⟩ := call
    have hj := hrule j
    rw [addressed_cons_self] at hj
    -- the party called is one step further, alone and among the others
    have hstart' : ∀ k, R k (Function.update alone j (M.step (alone j) a) k)
        (Function.update own j (M.step (own j, common) a).1 k, (M.step (own j, common) a).2) := by
      intro k
      by_cases hk : k = j
      · subst hk
        rw [Function.update_self, Function.update_self]
        exact h.own (hstart k) hj.1
      · rw [Function.update_of_ne hk, Function.update_of_ne hk]
        exact h.other (Ne.symm hk) (hstart j) hj.1 (hstart k)
    have hrule' : ∀ k, M.Along (rule k) (Function.update alone j (M.step (alone j) a) k)
        (addressed k calls) := by
      intro k
      by_cases hk : k = j
      · subst hk
        rw [Function.update_self]
        exact hj.2
      · have hkrule := hrule k
        rw [addressed_cons_of_ne (Ne.symm hk)] at hkrule
        rwa [Function.update_of_ne hk]
    obtain ⟨hhistory, hafter⟩ := ih _ _ _ hstart' hrule'
    rw [history, after_cons]
    by_cases hk : k = j
    · subst hk
      rw [Function.update_self] at hhistory hafter
      rw [addressed_cons_self, history, after_cons, ← hhistory]
      refine ⟨?_, hafter⟩
      rw [h.event (hstart k) hj.1]
      exact addressed_cons_self k _ _
    · rw [Function.update_of_ne hk] at hhistory hafter
      rw [addressed_cons_of_ne (Ne.symm hk), ← hhistory]
      exact ⟨addressed_cons_of_ne (Ne.symm hk) _ _, hafter⟩

end Reactive
