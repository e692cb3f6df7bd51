import Mathlib.Data.Nat.Digits.Defs
import Mathlib.Tactic.Common
import Mathlib.Tactic.Linarith
import Mathlib.Tactic.Ring

/-!
# Digit by digit with a carry

Arithmetic on numbers of any length works on one digit at a time and hands a carry from each
digit to the next. A `CarryChain` is a run of such stages, one for each digit of a list, with
idle steps before, between and after them. If every stage conserves what it is given, its
digit and the carry in, as its result and the carry out, then so does the chain as a whole:
`CarryChain.conserves` for chains that start at the least significant digit, where a carry
weighs the base, and `CarryChain.conserves_down` for chains that start at the most
significant one.

`add_of_conserved` and `sub_of_conserved` turn a conservation law into the result modulo the
range and the meaning of the last carry.
-/

universe u v w

/-- A run of one stage for each digit, in order, with idle steps in between. -/
inductive CarryChain {σ : Type u} {α : Type v} (idle : σ → σ → Prop) (stage : α → σ → σ → Prop) :
    List α → σ → σ → Prop
  | done {s t} (hidle : idle s t) : CarryChain idle stage [] s t
  | digit {a as s t u v} (hidle : idle s t) (hstage : stage a t u)
      (hrest : CarryChain idle stage as u v) : CarryChain idle stage (a :: as) s v

/-- A chain whose first stage is of another kind, with no idle step before it. -/
def SeededChain {σ : Type u} {α : Type v} (idle : σ → σ → Prop) (first stage : α → σ → σ → Prop)
    (digits : List α) (s t : σ) : Prop :=
  ∃ a rest u, digits = a :: rest ∧ first a s u ∧ CarryChain idle stage rest u t

namespace CarryChain

open Nat (ofDigits)

variable {σ : Type u} {α : Type v} {idle : σ → σ → Prop} {first stage : α → σ → σ → Prop}

/-- What every stage and every idle step of the chain keeps, the chain keeps. -/
theorem keeps {β : Type w} {f : σ → β} (hidle : ∀ s t, idle s t → f t = f s) {digits : List α}
    {s t : σ} (hstage : ∀ a ∈ digits, ∀ s t, stage a s t → f t = f s)
    (h : CarryChain idle stage digits s t) : f t = f s := by
  induction h with
  | done hst => exact hidle _ _ hst
  | digit hst htu _ ih =>
    have hrest := ih fun a ha => hstage a (List.mem_cons_of_mem _ ha)
    rw [hrest, hstage _ List.mem_cons_self _ _ htu, hidle _ _ hst]

/-! ### Conservation -/

section Conservation

variable {b : ℕ} {carry : σ → ℕ} {input output : α → ℕ}

/-- A digit conserved in front of a conserved number makes a conserved number. -/
theorem conserves_cons {o i k₀ k₁ k₂ O I n : ℕ} (hdigit : o + b * k₁ = i + k₀)
    (hrest : O + b ^ n * k₂ = I + k₁) : (o + b * O) + b ^ (n + 1) * k₂ = (i + b * I) + k₀ := by
  calc (o + b * O) + b ^ (n + 1) * k₂ = o + b * (O + b ^ n * k₂) := by ring
    _ = o + b * k₁ + b * I := by rw [hrest]; ring
    _ = (i + b * I) + k₀ := by rw [hdigit]; ring

/-- **Conservation from the least significant digit.** If every stage turns its digit and
the carry in into a result and a carry out that weighs `b`, the chain turns its number and
the carry in into the number of the results and a carry out that weighs `b ^ n`. -/
theorem conserves (hidle : ∀ s t, idle s t → carry t = carry s)
    (hstage : ∀ a s t, stage a s t → output a + b * carry t = input a + carry s)
    {digits : List α} {s t : σ} (h : CarryChain idle stage digits s t) :
    ofDigits b (digits.map output) + b ^ digits.length * carry t =
      ofDigits b (digits.map input) + carry s := by
  induction h with
  | done hst => simp [hidle _ _ hst]
  | digit hst htu _ ih =>
    have hdigit := hstage _ _ _ htu
    rw [hidle _ _ hst] at hdigit
    exact conserves_cons hdigit ih

/-- **Conservation from the most significant digit.** There it is the carry in that weighs
`b`, or `b ^ n` for the chain. -/
theorem conserves_down (hidle : ∀ s t, idle s t → carry t = carry s)
    (hstage : ∀ a s t, stage a s t → output a + carry t = input a + b * carry s)
    {digits : List α} {s t : σ} (h : CarryChain idle stage digits s t) :
    ofDigits b (digits.map output).reverse + carry t =
      ofDigits b (digits.map input).reverse + b ^ digits.length * carry s := by
  induction h with
  | done hst => simp [hidle _ _ hst]
  | @digit a as s t u v hst htu _ ih =>
    have hdigit := hstage _ _ _ htu
    rw [hidle _ _ hst] at hdigit
    simp only [List.map_cons, Nat.ofDigits_reverse_cons, List.length_map, List.length_cons]
    calc ofDigits b (as.map output).reverse + b ^ as.length * output a + carry v
        = ofDigits b (as.map input).reverse + b ^ as.length * (output a + carry u) := by
          rw [mul_add]; omega
      _ = ofDigits b (as.map input).reverse + b ^ as.length * input a +
          b ^ (as.length + 1) * carry s := by rw [hdigit]; ring

/-- A seeded chain whose first stage ignores the carry starts from none. -/
theorem conserves_of_seeded (hidle : ∀ s t, idle s t → carry t = carry s)
    (hfirst : ∀ a s t, first a s t → output a + b * carry t = input a)
    (hstage : ∀ a s t, stage a s t → output a + b * carry t = input a + carry s)
    {digits : List α} {s t : σ} (h : SeededChain idle first stage digits s t) :
    ofDigits b (digits.map output) + b ^ digits.length * carry t =
      ofDigits b (digits.map input) := by
  obtain ⟨a, rest, u, rfl, ha, hrest⟩ := h
  have hdigit : output a + b * carry u = input a + 0 := hfirst a s u ha
  -- there is no carry in
  rw [← Nat.add_zero (ofDigits b ((a :: rest).map input))]
  exact conserves_cons hdigit (hrest.conserves hidle hstage)

end Conservation

end CarryChain

/-! ### What a conserved number says -/

namespace Nat

variable {B x y z : ℕ} {k : Bool}

/-- The number of digitwise sums is the sum of the numbers. -/
theorem ofDigits_map_add {α : Type u} (b : ℕ) (f g : α → ℕ) (digits : List α) :
    ofDigits b (digits.map fun a => f a + g a) =
      ofDigits b (digits.map f) + ofDigits b (digits.map g) := by
  rw [ofDigits_add_ofDigits_eq_ofDigits_zipWith_of_length_eq (by simp), List.zipWith_map,
    List.zipWith_self]

/-- Remainder and overflow of a sum below `2 * B` conserve it. -/
theorem conserved_of_add (hx : x < 2 * B) (hz : z = x % B) (hk : k = true ↔ B ≤ x) :
    z + B * k.toNat = x := by
  cases k
  · have hlt : x < B := by simpa using hk
    rw [hz, Nat.mod_eq_of_lt hlt, Bool.toNat_false, Nat.mul_zero, Nat.add_zero]
  · have hle : B ≤ x := hk.mp rfl
    have hlt : x - B < B := by omega
    rw [hz, Nat.mod_eq_sub_mod hle, Nat.mod_eq_of_lt hlt, Bool.toNat_true, Nat.mul_one]
    omega

theorem conserved_of_sub (hx : x < B) (hy : y ≤ B) (hz : (z : ℤ) = (x - y) % B)
    (hk : k = true ↔ x < y) : x + B * k.toNat = z + y := by
  cases k
  · have hle : y ≤ x := by simpa using hk
    rw [Int.emod_eq_of_lt (by omega) (by omega)] at hz
    rw [Bool.toNat_false, Nat.mul_zero]
    omega
  · have hlt : x < y := hk.mp rfl
    rw [← Int.add_emod_right, Int.emod_eq_of_lt (by omega) (by omega)] at hz
    rw [Bool.toNat_true, Nat.mul_one]
    omega

/-- A result below `B` and one carry that weighs `B` are remainder and overflow. -/
theorem add_of_conserved (hz : z < B) (h : z + B * k.toNat = x) :
    z = x % B ∧ (k = true ↔ B ≤ x) := by
  subst h
  refine ⟨by rw [Nat.add_mul_mod_self_left, Nat.mod_eq_of_lt hz], ?_⟩
  cases k
  · simpa using hz
  · simp

/-- A result below `B` and one borrow that weighs `B` are the difference modulo `B` and the
comparison. -/
theorem sub_of_conserved (hz : z < B) (h : x + B * k.toNat = z + y) :
    (z : ℤ) = (x - y) % B ∧ (k = true ↔ x < y) := by
  have hcast : (x : ℤ) - y = z - B * k.toNat := by
    have h' : ((x + B * k.toNat : ℕ) : ℤ) = (z + y : ℕ) := congrArg _ h
    push_cast at h'
    linarith
  refine ⟨?_, ?_⟩
  · rw [hcast, Int.sub_mul_emod_self_left, Int.emod_eq_of_lt (by omega) (by omega)]
  · cases k
    · simp at h ⊢
      omega
    · simp at h ⊢
      omega

/-- A number below `B` and a carry that weighs `B` are determined by their sum. -/
theorem eq_of_conserved {k' : Bool} (hx : x < B) (hy : y < B)
    (h : x + B * k.toNat = y + B * k'.toNat) : x = y ∧ k = k' := by
  cases k <;> cases k' <;> simp at h ⊢ <;> omega

/-- A number and the bit below it are determined by their sum. -/
theorem eq_of_two_mul_add {k' : Bool} (h : 2 * x + k.toNat = 2 * y + k'.toNat) :
    x = y ∧ k = k' := by
  cases k <;> cases k' <;> simp at h ⊢ <;> omega

end Nat
