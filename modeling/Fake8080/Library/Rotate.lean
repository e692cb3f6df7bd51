import Mathlib.Data.Nat.ModEq
import Mathlib.Tactic.Common

/-!
# Rotations of words

A rotation to the left takes bit `j` to bit `j + r`, modulo the width (`getLsbD_rotateLeft_add`),
so rotations add up (`rotateLeft_rotateLeft`), and one by a multiple of the width does nothing
(`rotateLeft_mul`).
-/

namespace Rotate

variable {w : ℕ} (x : BitVec w)

/-- A rotation moves bits up, and around at the end. -/
theorem getLsbD_rotateLeft_add (r j : ℕ) (hw : 0 < w) :
    (x.rotateLeft r).getLsbD ((j + r) % w) = x.getLsbD (j % w) := by
  have hr : r % w < w := Nat.mod_lt r hw
  have hj : j % w < w := Nat.mod_lt j hw
  rw [BitVec.getLsbD_rotateLeft, Nat.add_mod]
  by_cases h : j % w + r % w < w
  · rw [Nat.mod_eq_of_lt h, decide_eq_false (by omega), decide_eq_true h, Nat.add_sub_cancel]
    exact Bool.true_and _
  · have hsum : (j % w + r % w) % w = j % w + r % w - w := by
      rw [Nat.mod_eq_sub_mod (Nat.le_of_not_lt h), Nat.mod_eq_of_lt (by omega)]
    rw [hsum, decide_eq_true (by omega)]
    exact congrArg x.getLsbD (by omega)

theorem eq_of_getLsbD_add {y : BitVec w} (r : ℕ)
    (h : 0 < w → ∀ j, x.getLsbD ((j + r) % w) = y.getLsbD ((j + r) % w)) : x = y := by
  refine BitVec.eq_of_getLsbD_eq fun i hi => ?_
  have hw : 0 < w := by omega
  have hindex : (i + r * (w - 1) + r) % w = i := by
    rw [Nat.add_assoc, ← Nat.mul_succ, Nat.succ_eq_add_one, Nat.sub_add_cancel hw,
      Nat.add_mul_mod_self_right, Nat.mod_eq_of_lt hi]
  have hbit := h hw (i + r * (w - 1))
  rwa [hindex] at hbit

/-- **Rotations add up.** -/
theorem rotateLeft_rotateLeft (m n : ℕ) : (x.rotateLeft m).rotateLeft n = x.rotateLeft (m + n) := by
  refine eq_of_getLsbD_add _ (m + n) fun hw j => ?_
  rw [getLsbD_rotateLeft_add x (m + n) j hw, ← Nat.add_assoc,
    getLsbD_rotateLeft_add (x.rotateLeft m) n (j + m) hw, getLsbD_rotateLeft_add x m j hw]

/-- All the way round is where one began. -/
theorem rotateLeft_mul (n : ℕ) : x.rotateLeft (n * w) = x := by
  refine eq_of_getLsbD_add _ (n * w) fun hw j => ?_
  rw [getLsbD_rotateLeft_add x (n * w) j hw, Nat.add_mul_mod_self_right]

end Rotate
