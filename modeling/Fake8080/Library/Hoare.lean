import Fake8080.Library.Reactive

/-!
# Triples for reactive systems

`Triple P inputs Q` says that from every state with `P` the inputs lead to a state with `Q`.
The inputs are given, so a triple is about total correctness and says how many steps it takes.
Triples compose along concatenation (`Triple.seq`), a loop is a triple that counts its
invariant down (`Triple.iterate`), and what holds of a system holds of every system it
simulates (`Triple.of_simulation`).
-/

universe u v w x

namespace Reactive

variable {σ : Type u} {α : Type v} {β : Type w} {M : Reactive σ α β} {P Q Q' : σ → Prop}
  {inputs inputs' : List α}

/-- From every state with `P` the inputs lead to a state with `Q`. -/
def Triple (M : Reactive σ α β) (P : σ → Prop) (inputs : List α) (Q : σ → Prop) : Prop :=
  ∀ s, P s → Q (M.after s inputs)

theorem Triple.nil (h : ∀ s, P s → Q s) : M.Triple P [] Q := h

/-- Triples compose. -/
theorem Triple.seq (h : M.Triple P inputs Q) (h' : M.Triple Q inputs' Q') :
    M.Triple P (inputs ++ inputs') Q' := by
  intro s hs
  rw [after_append]
  exact h' _ (h s hs)

/-- **Loop rule.** An invariant that every round counts down by one reaches zero after as many
rounds. -/
theorem Triple.iterate {I : ℕ → σ → Prop} (h : ∀ n, M.Triple (I (n + 1)) inputs (I n)) (n : ℕ) :
    M.Triple (I n) (List.replicate n inputs).flatten (I 0) := by
  induction n with
  | zero => exact .nil fun _ hs => hs
  | succ n ih =>
    rw [List.replicate_succ, List.flatten_cons]
    exact (h n).seq ih

/-- What inputs do to a system they do to every system it simulates by all its steps. -/
theorem Triple.of_simulation {τ : Type x} {N : Reactive τ α β} {R : σ → τ → Prop}
    (hR : M.Simulation N (fun _ _ => True) (fun _ _ => True) R) {P Q : τ → Prop}
    (h : N.Triple P inputs Q) :
    M.Triple (fun s => ∃ t, R s t ∧ P t) inputs fun s => ∃ t, R s t ∧ Q t := by
  rintro s ⟨t, hst, ht⟩
  have hM : M.Along (fun _ _ => True) s inputs := along_of_forall (fun _ _ => trivial) s inputs
  have hN : N.Along (fun _ _ => True) t inputs := along_of_forall (fun _ _ => trivial) t inputs
  exact ⟨_, hR.after hst hM hN, h t ht⟩

end Reactive
