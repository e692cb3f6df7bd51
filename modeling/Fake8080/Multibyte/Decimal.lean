import Fake8080.Multibyte.Addition
import Mathlib.Tactic.Linarith

/-!
# Decimal addition of numbers of any length

`DAA` after `ADD` and `ADC` is meant to add packed-BCD numbers of any length. Its first
correction adds 6 to an 8-bit accumulator and drops the carry: when the binary sum of two
bytes and the carry in lies in `0xFA` to `0xFF`, the accumulator wraps to a value below 6,
and the second correction, which looks at that value and at the old `CY`, is left out. The
sum is right exactly if no byte position adds up to one of those six values.
-/

namespace Fake8080

universe u v

variable {ι : Type u} {δ : Type v}

/-! ### Packed decimal numbers -/

/-- Both nibbles of the byte are decimal digits. -/
def IsBcd (byte : Byte) : Prop := byte.toNat / 16 ≤ 9 ∧ byte.toNat % 16 ≤ 9

instance : DecidablePred IsBcd := fun _ => inferInstanceAs (Decidable (_ ∧ _))

/-- The two-digit number of a packed-BCD byte. -/
def bcdValue (byte : Byte) : ℕ := 10 * (byte.toNat / 16) + byte.toNat % 16

/-- The number that packed-BCD bytes stand for, the least significant first. -/
def decimalValue (bytes : List Byte) : ℕ := Nat.ofDigits 100 (bytes.map bcdValue)

theorem IsBcd.bcdValue_lt {byte : Byte} (h : IsBcd byte) : bcdValue byte < 100 := by
  obtain ⟨hhigh, hlow⟩ := h
  rw [bcdValue]
  omega

/-- Packed-BCD bytes stand for a number below `100 ^ n`. -/
theorem decimalValue_lt {bytes : List Byte} (h : ∀ byte ∈ bytes, IsBcd byte) :
    decimalValue bytes < 100 ^ bytes.length := by
  have hdigits : ∀ x ∈ bytes.map bcdValue, x < 100 := by
    intro x hx
    obtain ⟨byte, hbyte, rfl⟩ := List.mem_map.mp hx
    exact (h byte hbyte).bcdValue_lt
  have hlt := Nat.ofDigits_lt_base_pow_length (by decide : 1 < 100) hdigits
  rwa [List.length_map] at hlt

theorem decimalValue_map_lt (f : BinaryDigit → Byte) {digits : List BinaryDigit}
    (h : ∀ d ∈ digits, IsBcd (f d)) : decimalValue (digits.map f) < 100 ^ digits.length := by
  have hbcd : ∀ byte ∈ digits.map f, IsBcd byte := by
    intro byte hbyte
    obtain ⟨d, hd, rfl⟩ := List.mem_map.mp hbyte
    exact h d hd
  have hlt := decimalValue_lt hbcd
  rwa [List.length_map] at hlt

@[simp]
theorem decimalValue_nil : decimalValue [] = 0 := rfl

@[simp]
theorem decimalValue_cons (byte : Byte) (bytes : List Byte) :
    decimalValue (byte :: bytes) = bcdValue byte + 100 * decimalValue bytes := rfl

/-! ### One byte -/

namespace Registers

/-- The accumulator after the first correction of `DAA`. -/
def adjustLow (r : Registers) : Byte :=
  if r.getFlag .ac || decide ((r.getRegister .a &&& 0x0F) > 9) then r.getRegister .a + 0x06
  else r.getRegister .a

/-- The first correction, in numbers: the carry out of the accumulator is dropped. -/
theorem toNat_adjustLow (r : Registers) :
    let a := (r.getRegister .a).toNat
    r.adjustLow.toNat = if r.getFlag .ac = true ∨ 9 < a % 16 then (a + 6) % 256 else a := by
  intro a
  have hnibble : (r.getRegister .a &&& 0x0F) > 9 ↔ 9 < a % 16 := by
    rw [gt_iff_lt, BitVec.lt_def, toNat_and_0x0F]
    rfl
  rw [adjustLow]
  simp only [Bool.or_eq_true, decide_eq_true_eq, hnibble]
  split
  · rw [BitVec.toNat_add]
    rfl
  · rfl

/-- `DAA` makes the second correction. -/
def correctsHigh (r : Registers) : Bool :=
  r.getFlag .cy || decide ((r.adjustLow >>> 4) > 9)

/-- The accumulator after both corrections. -/
def adjusted (r : Registers) : Byte :=
  if r.correctsHigh then r.adjustLow + 0x60 else r.adjustLow

theorem decimalAdjust_eq (r : Registers) : r.decimalAdjust =
    ((r.setRegister .a r.adjusted).setFlag .cy
      (if r.correctsHigh then true else r.getFlag .cy)).describe r.adjusted := rfl

/-- The second correction looks at the accumulator after the first and at the old `CY`. -/
theorem correctsHigh_iff (r : Registers) :
    r.correctsHigh = true ↔ r.getFlag .cy = true ∨ 9 < r.adjustLow.toNat / 16 := by
  have hnibble : (r.adjustLow >>> 4) > 9 ↔ 9 < r.adjustLow.toNat / 16 := by
    rw [gt_iff_lt, BitVec.lt_def, BitVec.toNat_ushiftRight, Nat.shiftRight_eq_div_pow]
    rfl
  rw [correctsHigh, Bool.or_eq_true, decide_eq_true_eq, hnibble]

/-- What `DAA` leaves, in numbers. -/
theorem toNat_decimalAdjust (r : Registers) :
    let low := r.adjustLow.toNat
    (r.decimalAdjust.getFlag .cy = true ↔ r.getFlag .cy = true ∨ 9 < low / 16) ∧
      (r.decimalAdjust.getRegister .a).toNat =
        if r.getFlag .cy = true ∨ 9 < low / 16 then (low + 96) % 256 else low := by
  intro low
  -- the flags written last are neither `CY` nor in `A`
  have hcy : r.decimalAdjust.getFlag .cy = if r.correctsHigh then true else r.getFlag .cy := by
    simp [decimalAdjust_eq, describe]
  have ha : r.decimalAdjust.getRegister .a = r.adjusted := by
    simp [decimalAdjust_eq, describe, getRegister_setFlag_of_ne]
  have hcorrects : r.correctsHigh = true ↔ r.getFlag .cy = true ∨ 9 < low / 16 :=
    r.correctsHigh_iff
  rw [hcy, ha, adjusted]
  by_cases h : r.getFlag .cy = true ∨ 9 < low / 16
  · rw [if_pos (hcorrects.mpr h), if_pos (hcorrects.mpr h), if_pos h, BitVec.toNat_add]
    exact ⟨iff_of_true rfl h, rfl⟩
  · have hne := mt hcorrects.mp h
    rw [if_neg hne, if_neg hne, if_neg h]
    exact ⟨iff_of_false (fun hset => h (.inl hset)) h, rfl⟩

end Registers

/-- The binary sum of two bytes and a carry at which the first correction of `DAA` wraps the
accumulator. -/
def WrapsAdjustment (sum : ℕ) : Prop := 250 ≤ sum ∧ sum ≤ 255

instance : DecidablePred WrapsAdjustment := fun _ => inferInstanceAs (Decidable (_ ∧ _))

/-- The two corrections, in numbers: `low` is the accumulator after the first one. -/
theorem decimal_correction {x y k low z carry : ℕ} (hx : x / 16 ≤ 9 ∧ x % 16 ≤ 9)
    (hy : y / 16 ≤ 9 ∧ y % 16 ≤ 9) (hk : k ≤ 1)
    (hlow : low = if 15 < x % 16 + y % 16 + k ∨ 9 < (x + y + k) % 256 % 16 then
      ((x + y + k) % 256 + 6) % 256 else (x + y + k) % 256)
    (hcarry : carry = if 255 < x + y + k ∨ 9 < low / 16 then 1 else 0)
    (hz : z = if 255 < x + y + k ∨ 9 < low / 16 then (low + 96) % 256 else low) :
    (¬ WrapsAdjustment (x + y + k) → (z / 16 ≤ 9 ∧ z % 16 ≤ 9) ∧
      10 * (z / 16) + z % 16 + 100 * carry =
        10 * (x / 16) + x % 16 + (10 * (y / 16) + y % 16) + k) ∧
    (WrapsAdjustment (x + y + k) → 10 * (z / 16) + z % 16 + 160 =
      10 * (x / 16) + x % 16 + (10 * (y / 16) + y % 16) + k) := by
  rw [WrapsAdjustment]
  -- the low nibbles decide the first correction
  have hnibbles : (15 < x % 16 + y % 16 + k ∨ 9 < (x + y + k) % 256 % 16) ↔
      9 < x % 16 + y % 16 + k := by omega
  rw [if_congr hnibbles rfl rfl] at hlow
  by_cases hfirst : 9 < x % 16 + y % 16 + k
  · rw [if_pos hfirst] at hlow
    by_cases hsecond : 255 < x + y + k ∨ 9 < low / 16
    · rw [if_pos hsecond] at hcarry hz
      omega
    · rw [if_neg hsecond] at hcarry hz
      omega
  · rw [if_neg hfirst] at hlow
    by_cases hsecond : 255 < x + y + k ∨ 9 < low / 16
    · rw [if_pos hsecond] at hcarry hz
      omega
    · rw [if_neg hsecond] at hcarry hz
      omega

/-- What `DAA` makes of the sum of two packed-BCD bytes and a carry. -/
theorem Registers.decimalAdjust_of_sum {r : Registers} {x y : Byte} {k : ℕ} (hx : IsBcd x)
    (hy : IsBcd y) (hk : k ≤ 1) (ha : (r.getRegister .a).toNat = (x.toNat + y.toNat + k) % 256)
    (hcy : r.getFlag .cy = true ↔ 255 < x.toNat + y.toNat + k)
    (hac : r.getFlag .ac = true ↔ 15 < x.toNat % 16 + y.toNat % 16 + k) :
    let z := r.decimalAdjust.getRegister .a
    let carry := (r.decimalAdjust.getFlag .cy).toNat
    (¬ WrapsAdjustment (x.toNat + y.toNat + k) →
      IsBcd z ∧ bcdValue z + 100 * carry = bcdValue x + bcdValue y + k) ∧
    (WrapsAdjustment (x.toNat + y.toNat + k) →
      bcdValue z + 160 = bcdValue x + bcdValue y + k) := by
  intro z carry
  obtain ⟨hset, hz⟩ := r.toNat_decimalAdjust
  have hlow := r.toNat_adjustLow
  simp only [hac, ha] at hlow
  simp only [hcy] at hset hz
  have hcarry : carry =
      if 255 < x.toNat + y.toNat + k ∨ 9 < r.adjustLow.toNat / 16 then 1 else 0 := by
    by_cases h : 255 < x.toNat + y.toNat + k ∨ 9 < r.adjustLow.toNat / 16
    · rw [if_pos h]
      exact Bool.toNat_eq_one.mpr (hset.mpr h)
    · rw [if_neg h]
      exact Bool.toNat_eq_zero.mpr (Bool.eq_false_iff.mpr (mt hset.mp h))
  exact decimal_correction hx hy hk hlow hcarry hz

namespace Cpu

/-- The states have the same `A`, `CY` and `AC`. -/
structure KeepsSum (c c' : Cpu ι δ) : Prop where
  a : c'.registers.getRegister .a = c.registers.getRegister .a
  cy : c'.registers.getFlag .cy = c.registers.getFlag .cy
  ac : c'.registers.getFlag .ac = c.registers.getFlag .ac

variable [IOPort ι δ]

theorem registers_cycle_daa {c : Cpu ι δ} (h : c.cycleEvent = .exec 0x27) :
    c.cycle.registers = c.registers.decimalAdjust := by
  have hf : Superfunction.ofOpcode 0x27 = .daa := Superfunction.ofOpcode_eq_decode _
  rw [cycle_eq_superfunction_next h, hf]
  rfl

/-- One cycle executes an addition on a byte position and a later one `DAA`. -/
structure DecimalStage (operation : AluOperation) (digit : BinaryDigit) (c c' : Cpu ι δ) :
    Prop where
  executes : ∃ sum c₁ c₂, AluStage operation ⟨digit.first, digit.second, sum⟩ c c₁ ∧
    c₁.KeepsSum c₂ ∧ c₂.cycleEvent = .exec 0x27 ∧ c' = c₂.cycle
  result : c'.registers.getRegister .a = digit.result

/-- A run of `ADD` and `DAA` on the lowest bytes and of `ADC` and `DAA` on the others. -/
abbrev DecimalChain : List BinaryDigit → Cpu ι δ → Cpu ι δ → Prop :=
  SeededChain KeepsCarry (DecimalStage .add) (DecimalStage .adc)

/-- What one position leaves. -/
theorem DecimalStage.adjusts {operation : AluOperation} {digit : BinaryDigit} {c c' : Cpu ι δ}
    (h : DecimalStage operation digit c c') (hop : operation = .add ∨ operation = .adc)
    (hfirst : IsBcd digit.first) (hsecond : IsBcd digit.second) :
    let k := operation.carryIn (c.registers.getFlag .cy)
    (¬ WrapsAdjustment (digit.first.toNat + digit.second.toNat + k) →
      IsBcd digit.result ∧ bcdValue digit.result + 100 * c'.carry =
        bcdValue digit.first + bcdValue digit.second + k) ∧
    (WrapsAdjustment (digit.first.toNat + digit.second.toNat + k) →
      bcdValue digit.result + 160 = bcdValue digit.first + bcdValue digit.second + k) := by
  obtain ⟨sum, c₁, c₂, halu, hkeeps, hdaa, hnext⟩ := h.executes
  obtain ⟨o, source, rfl, hexec, hvalue⟩ := halu.executes
  obtain ⟨hresult, hreports⟩ := cycle_of_addition hexec hop
  have hcy := hreports.cy
  have hac := hreports.ac
  rw [← halu.next, hvalue, halu.first] at hresult hcy hac
  rw [← hkeeps.a] at hresult
  rw [← hkeeps.cy] at hcy
  rw [← hkeeps.ac] at hac
  rw [← h.result, carry, hnext, registers_cycle_daa hdaa]
  exact Registers.decimalAdjust_of_sum hfirst hsecond (AluOperation.carryIn_le _ _) hresult
    hcy hac

end Cpu

/-! ### All bytes -/

/-- At some position the two bytes and the decimal carry into it, with `k` carried into the
lowest one, add up to a sum at which `DAA` wraps. -/
def LosesCarry (k : ℕ) (digits : List BinaryDigit) : Prop :=
  ∃ before d after, digits = before ++ d :: after ∧
    WrapsAdjustment (d.first.toNat + d.second.toNat +
      (decimalValue (before.map (·.first)) + decimalValue (before.map (·.second)) + k) /
        100 ^ before.length)

/-- The results are packed BCD and, with the carry out of the highest position, the sum. -/
structure IsDecimalSum (k : ℕ) (digits : List BinaryDigit) (carry : ℕ) : Prop where
  isBcd : ∀ d ∈ digits, IsBcd d.result
  value : decimalValue (digits.map (·.result)) + 100 ^ digits.length * carry =
    decimalValue (digits.map (·.first)) + decimalValue (digits.map (·.second)) + k

theorem not_losesCarry_nil (k : ℕ) : ¬ LosesCarry k [] := by
  rintro ⟨before, d, after, h, -⟩
  simp at h

/-- A carry is lost at the lowest position or above it. -/
theorem losesCarry_cons (k : ℕ) (d : BinaryDigit) (digits : List BinaryDigit) :
    LosesCarry k (d :: digits) ↔ WrapsAdjustment (d.first.toNat + d.second.toNat + k) ∨
      LosesCarry ((bcdValue d.first + bcdValue d.second + k) / 100) digits := by
  have hcarry : ∀ before : List BinaryDigit,
      (decimalValue ((d :: before).map (·.first)) + decimalValue ((d :: before).map (·.second)) +
          k) / 100 ^ (d :: before).length =
        (decimalValue (before.map (·.first)) + decimalValue (before.map (·.second)) +
          (bcdValue d.first + bcdValue d.second + k) / 100) / 100 ^ before.length := by
    intro before
    simp only [List.map_cons, decimalValue_cons, List.length_cons, pow_succ']
    rw [← Nat.div_div_eq_div_mul]
    congr 1
    omega
  constructor
  · rintro ⟨before, e, after, heq, hwraps⟩
    cases before with
    | nil =>
      obtain ⟨rfl, rfl⟩ : d = e ∧ digits = after := by simpa using heq
      exact .inl (by simpa using hwraps)
    | cons d' before =>
      obtain ⟨rfl, rfl⟩ : d = d' ∧ digits = before ++ e :: after := by simpa using heq
      rw [hcarry] at hwraps
      exact .inr ⟨before, e, after, rfl, hwraps⟩
  · rintro (hwraps | ⟨before, e, after, rfl, hwraps⟩)
    · exact ⟨[], d, digits, rfl, by simpa using hwraps⟩
    · refine ⟨d :: before, e, after, rfl, ?_⟩
      rw [hcarry]
      exact hwraps

instance decidableLosesCarry : (k : ℕ) → (digits : List BinaryDigit) →
    Decidable (LosesCarry k digits)
  | k, [] => isFalse (not_losesCarry_nil k)
  | k, d :: digits =>
    haveI := decidableLosesCarry ((bcdValue d.first + bcdValue d.second + k) / 100) digits
    decidable_of_iff _ (losesCarry_cons k d digits).symm

theorem isDecimalSum_cons {d : BinaryDigit} {digits : List BinaryDigit} {k k₁ carry : ℕ}
    (hbcd : IsBcd d.result)
    (hvalue : bcdValue d.result + 100 * k₁ = bcdValue d.first + bcdValue d.second + k) :
    IsDecimalSum k (d :: digits) carry ↔ IsDecimalSum k₁ digits carry := by
  constructor
  · rintro ⟨hall, hsum⟩
    refine ⟨fun e he => hall e (List.mem_cons_of_mem _ he), ?_⟩
    simp only [List.map_cons, decimalValue_cons, List.length_cons, pow_succ', mul_assoc] at hsum
    omega
  · rintro ⟨hall, hsum⟩
    refine ⟨?_, ?_⟩
    · intro e he
      rcases List.mem_cons.mp he with rfl | he
      · exact hbcd
      · exact hall e he
    · simp only [List.map_cons, decimalValue_cons, List.length_cons, pow_succ', mul_assoc]
      omega

/-- A position that is 160 short leaves a wrong sum. -/
theorem not_isDecimalSum_cons {d : BinaryDigit} {digits : List BinaryDigit} {k carry : ℕ}
    (hvalue : bcdValue d.result + 160 = bcdValue d.first + bcdValue d.second + k) :
    ¬ IsDecimalSum k (d :: digits) carry := by
  rintro ⟨-, hsum⟩
  simp only [List.map_cons, decimalValue_cons, List.length_cons, pow_succ', mul_assoc] at hsum
  -- the two sides differ modulo 100
  omega

namespace Cpu

variable {digits : List BinaryDigit} {c c' : Cpu ι δ}

/-- The results are the packed-BCD digits of the sum modulo `100 ^ n`, and the last carry
tells whether the sum fits. -/
structure AddsDecimally (digits : List BinaryDigit) (c' : Cpu ι δ) : Prop where
  isBcd : ∀ d ∈ digits, IsBcd d.result
  value : decimalValue (digits.map (·.result)) = (decimalValue (digits.map (·.first)) +
    decimalValue (digits.map (·.second))) % 100 ^ digits.length
  cy : c'.registers.getFlag .cy = true ↔ 100 ^ digits.length ≤
    decimalValue (digits.map (·.first)) + decimalValue (digits.map (·.second))

/-- Remainder and overflow are what the conserved sum says. -/
theorem addsDecimally_iff (hbcd : ∀ d ∈ digits, IsBcd d.first ∧ IsBcd d.second) :
    AddsDecimally digits c' ↔ IsDecimalSum 0 digits c'.carry := by
  constructor
  · rintro ⟨hall, hvalue, hcy⟩
    have hfirst := decimalValue_map_lt (·.first) fun d hd => (hbcd d hd).1
    have hsecond := decimalValue_map_lt (·.second) fun d hd => (hbcd d hd).2
    exact ⟨hall, Nat.conserved_of_add (by omega) hvalue hcy⟩
  · rintro ⟨hall, hsum⟩
    obtain ⟨hvalue, hcy⟩ := Nat.add_of_conserved (decimalValue_map_lt (·.result) hall) hsum
    exact ⟨hall, hvalue, hcy⟩

variable [IOPort ι δ]

/-- A position in front of the others: the sum is right exactly if this position does not
wrap and the sum of the others, with the carry that it hands on, is right. -/
theorem DecimalStage.isDecimalSum_cons_iff {operation : AluOperation} {d : BinaryDigit}
    {carry : ℕ} (h : DecimalStage operation d c c') (hop : operation = .add ∨ operation = .adc)
    (hfirst : IsBcd d.first) (hsecond : IsBcd d.second)
    (ih : IsDecimalSum c'.carry digits carry ↔ ¬ LosesCarry c'.carry digits) :
    let k := operation.carryIn (c.registers.getFlag .cy)
    IsDecimalSum k (d :: digits) carry ↔ ¬ LosesCarry k (d :: digits) := by
  intro k
  obtain ⟨hright, hwrong⟩ := h.adjusts hop hfirst hsecond
  rw [losesCarry_cons]
  by_cases hwraps : WrapsAdjustment (d.first.toNat + d.second.toNat + k)
  · exact iff_of_false (not_isDecimalSum_cons (hwrong hwraps)) (fun h => h (.inl hwraps))
  · obtain ⟨hbcd, hvalue⟩ := hright hwraps
    have hcarry : (bcdValue d.first + bcdValue d.second + k) / 100 = c'.carry := by
      have hlt := hbcd.bcdValue_lt
      omega
    rw [isDecimalSum_cons hbcd hvalue, ih, hcarry, or_iff_right hwraps]

/-- The positions after the lowest one: the sum is right exactly if no carry is lost. -/
theorem isDecimalSum_iff_of_carryChain (h : CarryChain KeepsCarry (DecimalStage .adc) digits c c')
    (hbcd : ∀ d ∈ digits, IsBcd d.first ∧ IsBcd d.second) :
    IsDecimalSum c.carry digits c'.carry ↔ ¬ LosesCarry c.carry digits := by
  induction h with
  | done hidle =>
    refine iff_of_true ⟨fun d hd => absurd hd List.not_mem_nil, ?_⟩ (not_losesCarry_nil _)
    simp [KeepsCarry.carry_eq hidle]
  | digit hidle hstage _ ih =>
    have hrest := ih fun d hd => hbcd d (List.mem_cons_of_mem _ hd)
    obtain ⟨hfirst, hsecond⟩ := hbcd _ List.mem_cons_self
    rw [← KeepsCarry.carry_eq hidle]
    exact hstage.isDecimalSum_cons_iff (.inr rfl) hfirst hsecond hrest

/-- All positions, with no carry into the lowest one. -/
theorem isDecimalSum_iff (h : DecimalChain digits c c')
    (hbcd : ∀ d ∈ digits, IsBcd d.first ∧ IsBcd d.second) :
    IsDecimalSum 0 digits c'.carry ↔ ¬ LosesCarry 0 digits := by
  obtain ⟨d, rest, u, rfl, hstage, hrest⟩ := h
  obtain ⟨hfirst, hsecond⟩ := hbcd _ List.mem_cons_self
  refine hstage.isDecimalSum_cons_iff (.inl rfl) hfirst hsecond ?_
  exact isDecimalSum_iff_of_carryChain hrest fun d hd => hbcd d (List.mem_cons_of_mem _ hd)

/-- **Decimal addition of any length.** `ADD` and `DAA` on the lowest bytes and `ADC` and
`DAA` on the others leave the packed-BCD digits of the sum modulo `100 ^ n`, and a carry
exactly if the sum does not fit, if and only if at no position the two bytes and the
decimal carry into it add up, in binary, to a value from 250 to 255. -/
theorem decimal_addition_iff (h : DecimalChain digits c c')
    (hbcd : ∀ d ∈ digits, IsBcd d.first ∧ IsBcd d.second) :
    AddsDecimally digits c' ↔ ¬ LosesCarry 0 digits :=
  (addsDecimally_iff hbcd).trans (isDecimalSum_iff h hbcd)

/-- `ADD B`, `DAA`, `MOV A, D`, `ADC C` and `DAA`, with the packed-BCD numbers 1799 in `D`
and `A` and 3805 in `C` and `B`. -/
def decimalProgram : Cpu Empty Unit :=
  ((((Cpu.new (Buses.mapMemory [0x80, 0x27, 0x7A, 0x89, 0x27])).setRegister .a 0x99).setRegister
    .b 0x05).setRegister .d 0x17).setRegister .c 0x38

/-- The sum of 1799 and 3805 is 5604. -/
theorem decimalProgram_adds : AddsDecimally [⟨0x99, 0x05, 0x04⟩, ⟨0x17, 0x38, 0x56⟩]
    decimalProgram.cycle.cycle.cycle.cycle.cycle := by
  have hadd : DecimalStage .add ⟨0x99, 0x05, 0x04⟩ decimalProgram decimalProgram.cycle.cycle :=
    ⟨⟨0x9E, _, _, ⟨⟨0, .operand 0, rfl, by decide, by decide⟩, by decide, rfl, by decide⟩,
      ⟨rfl, rfl, rfl⟩, by decide, rfl⟩, by decide⟩
  have hadc : DecimalStage .adc ⟨0x17, 0x38, 0x56⟩ decimalProgram.cycle.cycle.cycle
      decimalProgram.cycle.cycle.cycle.cycle.cycle :=
    ⟨⟨0x50, _, _, ⟨⟨1, .operand 1, rfl, by decide, by decide⟩, by decide, rfl, by decide⟩,
      ⟨rfl, rfl, rfl⟩, by decide, rfl⟩, by decide⟩
  have hchain : DecimalChain [⟨0x99, 0x05, 0x04⟩, ⟨0x17, 0x38, 0x56⟩] decimalProgram
      decimalProgram.cycle.cycle.cycle.cycle.cycle :=
    ⟨_, _, _, rfl, hadd, .digit (by rw [KeepsCarry]; decide) hadc (.done rfl)⟩
  exact (decimal_addition_iff hchain (by decide)).mpr (by decide)

/-- `ADD B` and `DAA` with the packed-BCD numbers 79 in `A` and 86 in `B`. -/
def wrappingProgram : Cpu Empty Unit :=
  ((Cpu.new (Buses.mapMemory [0x80, 0x27])).setRegister .a 0x79).setRegister .b 0x86

/-- The binary sum 0xFF of 79 and 86 wraps: the result is 5 with no carry, not 65 with one. -/
theorem not_addsDecimally : ¬ ∀ (digits : List BinaryDigit) (c c' : Cpu Empty Unit),
    DecimalChain digits c c' → (∀ d ∈ digits, IsBcd d.first ∧ IsBcd d.second) →
      AddsDecimally digits c' := by
  intro hadds
  have hadd : DecimalStage .add ⟨0x79, 0x86, 0x05⟩ wrappingProgram wrappingProgram.cycle.cycle :=
    ⟨⟨0xFF, _, _, ⟨⟨0, .operand 0, rfl, by decide, by decide⟩, by decide, rfl, by decide⟩,
      ⟨rfl, rfl, rfl⟩, by decide, rfl⟩, by decide⟩
  have hvalue := (hadds _ _ _ ⟨_, _, _, rfl, hadd, .done rfl⟩ (by decide)).value
  exact absurd hvalue (by decide)

theorem exists_decimalStage (o : BitVec 3) (first second : Byte) (cy : Bool) :
    ∃ result, ∃ c c' : Cpu Empty Unit, c.registers.getFlag .cy = cy ∧
      DecimalStage (.ofCode o) ⟨first, second, result⟩ c c' := by
  obtain ⟨sum, c, c₁, hcy, hstage⟩ := exists_aluStage o first second cy
  obtain ⟨c₂, hregisters, hexec⟩ : ∃ c₂ : Cpu Empty Unit, c₂.registers = c₁.registers ∧
      c₂.cycleEvent = .exec 0x27 :=
    ⟨executing 0x27 c₁.registers, rfl, cycleEvent_executing _ _⟩
  have hkeeps : c₁.KeepsSum c₂ := ⟨by rw [hregisters], by rw [hregisters], by rw [hregisters]⟩
  exact ⟨_, c, c₂.cycle, hcy, ⟨sum, c₁, c₂, hstage, hkeeps, hexec, rfl⟩, rfl⟩

theorem exists_decimalChain (first second : Byte) (operands : List (Byte × Byte)) :
    ∃ digits, ∃ c c' : Cpu Empty Unit, DecimalChain digits c c' ∧
      digits.map (fun d => (d.first, d.second)) = (first, second) :: operands :=
  exists_seededChain (exists_decimalStage 0) (exists_decimalStage 1) first second operands

end Cpu

end Fake8080
