import Mathlib.Data.List.Induction
import Mathlib.Tactic.Common

/-!
# Overlays

A partial write gives some keys a value and leaves the others. After any sequence of partial
writes a key has the value that the last write to give it one gave it, and what it had before
if none did (`foldl_overlay_apply`).
-/

universe u v

namespace Overlay

variable {κ : Type u} {β : Type v}

/-- A partial write on top of a store. -/
def overlay (store : κ → β) (write : κ → Option β) : κ → β := fun k => (write k).getD (store k)

/-- The value that the last write to give a key one gives it. -/
def last (writes : List (κ → Option β)) (k : κ) : Option β := writes.reverse.findSome? (· k)

/-- The last write comes first. -/
theorem last_concat (writes : List (κ → Option β)) (write : κ → Option β) (k : κ) :
    last (writes ++ [write]) k = (write k).or (last writes k) := by
  rw [last, List.reverse_append, List.reverse_singleton, List.singleton_append, List.findSome?_cons]
  cases write k <;> rfl

/-- **A key has the value last written to it.** -/
theorem foldl_overlay_apply (store : κ → β) (writes : List (κ → Option β)) (k : κ) :
    writes.foldl overlay store k = (last writes k).getD (store k) := by
  -- the last write decides, so writes are peeled off the end
  induction writes using List.reverseRecOn with
  | nil => rfl
  | append_singleton writes write ih =>
    rw [List.foldl_append, List.foldl_cons, List.foldl_nil, last_concat, overlay, ih]
    cases write k <;> rfl

end Overlay
