import Mathlib.Logic.Function.Basic
import Mathlib.Tactic.Common

/-!
# Stacks kept in a store

A store holds a stack if entry number `n`, counted from the bottom, is the content of cell
number `n`. The cells may lie anywhere as long as a push does not hit a cell in use; then
a push stores one entry and keeps the ones below, a pop stores nothing, and the top is the
content of the last cell in use.
-/

universe u v

variable {κ : Type u} {β : Type v}

/-- The cells hold the entries of the stack, the bottom one in cell 0. -/
def StoredStack (cell : ℕ → κ) (store : κ → β) : List β → Prop
  | [] => True
  | b :: stack => store (cell stack.length) = b ∧ StoredStack cell store stack

namespace StoredStack

variable {cell : ℕ → κ} {store store' : κ → β} {b : β} {stack : List β}

@[simp]
theorem nil : StoredStack cell store [] := trivial

/-- The top of the stack is the content of the last cell in use. -/
theorem top (h : StoredStack cell store (b :: stack)) : store (cell stack.length) = b := h.1

/-- A pop keeps the entries below. -/
theorem pop (h : StoredStack cell store (b :: stack)) : StoredStack cell store stack := h.2

/-- A store that agrees on the cells in use holds the same stack. -/
theorem congr (h : StoredStack cell store stack)
    (hagree : ∀ n < stack.length, store' (cell n) = store (cell n)) :
    StoredStack cell store' stack := by
  induction stack with
  | nil => trivial
  | cons b stack ih =>
    refine ⟨?_, ih h.2 fun n hn => hagree n (Nat.lt_succ_of_lt hn)⟩
    rw [hagree _ (Nat.lt_succ_self _), h.1]

/-- A push into a cell not in use keeps the entries below. -/
theorem push [DecidableEq κ] (h : StoredStack cell store stack)
    (hfree : ∀ n < stack.length, cell n ≠ cell stack.length) (b : β) :
    StoredStack cell (Function.update store (cell stack.length) b) (b :: stack) :=
  ⟨Function.update_self _ _ _, h.congr fun n hn => Function.update_of_ne (hfree n hn) _ _⟩

end StoredStack
