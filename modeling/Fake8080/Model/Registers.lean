import Mathlib.Logic.Function.Basic
import Mathlib.Tactic.Common

/-!
# Bytes, words and the register file

The bit helpers of `BitsUtilities.hpp` and the class `Registers`. A `uint8_t` is a
`BitVec 8` and a `uint16_t` a `BitVec 16`; the member suffix `_m` and the underscores of
the source names are dropped, so `registers_m` is `registers` and `SP_high` is `spHigh`.

The array `std::array<uint8_t, 12>` is only ever indexed by the enumeration `Register`,
so it is a function on that enumeration. The constructor and `setRegister` are the only
writers of the array and both force bit 1 of `F`; the structure `Registers` carries that
as the field `fBit1`, so a register file without the bit cannot be built.
-/

namespace Fake8080

/-- A `uint8_t`. -/
abbrev Byte := BitVec 8

/-- A `uint16_t`. -/
abbrev Word := BitVec 16

/-! ### Bit utilities -/

/-- The high byte of a word. -/
def getHighByte (value : Word) : Byte := (value >>> 8).setWidth 8

/-- The low byte of a word. -/
def getLowByte (value : Word) : Byte := value.setWidth 8

/-- The source's `high << Byte_Shift | low` on a `uint16_t`. -/
def combineBytes (high low : Byte) : Word := high.setWidth 16 <<< 8 ||| low.setWidth 16

/-- Bit `position` of a byte. -/
def getBit (value : Byte) (position : ℕ) : Bool := (value >>> position) &&& 1#8 != 0#8

/-- The byte with bit `position` set to `state`. -/
def setBit (value : Byte) (position : ℕ) (state : Bool) : Byte :=
  if state then value ||| (1#8 <<< position) else value &&& ~~~(1#8 <<< position)

theorem toNat_getHighByte (value : Word) : (getHighByte value).toNat = value.toNat / 256 := by
  have h : value.toNat < 65536 := value.isLt
  simp only [getHighByte, BitVec.toNat_setWidth, BitVec.toNat_ushiftRight,
    Nat.shiftRight_eq_div_pow]
  omega

theorem toNat_getLowByte (value : Word) : (getLowByte value).toNat = value.toNat % 256 := by
  simp [getLowByte]

theorem toNat_combineBytes (high low : Byte) :
    (combineBytes high low).toNat = 256 * high.toNat + low.toNat := by
  have hh : high.toNat < 256 := high.isLt
  have hl : low.toNat < 2 ^ 8 := low.isLt
  simp only [combineBytes, BitVec.toNat_or, BitVec.toNat_shiftLeft, BitVec.toNat_setWidth,
    Nat.shiftLeft_eq]
  rw [Nat.mod_eq_of_lt (by omega : high.toNat < 2 ^ 16),
    Nat.mod_eq_of_lt (by omega : high.toNat * 2 ^ 8 < 2 ^ 16),
    Nat.mod_eq_of_lt (by omega : low.toNat < 2 ^ 16), ← Nat.shiftLeft_eq,
    ← Nat.shiftLeft_add_eq_or_of_lt hl, Nat.shiftLeft_eq]
  omega

@[simp]
theorem getHighByte_combineBytes (high low : Byte) :
    getHighByte (combineBytes high low) = high := by
  refine BitVec.eq_of_toNat_eq ?_
  rw [toNat_getHighByte, toNat_combineBytes]
  omega

@[simp]
theorem getLowByte_combineBytes (high low : Byte) :
    getLowByte (combineBytes high low) = low := by
  refine BitVec.eq_of_toNat_eq ?_
  rw [toNat_getLowByte, toNat_combineBytes]
  omega

@[simp]
theorem combineBytes_getHighByte_getLowByte (value : Word) :
    combineBytes (getHighByte value) (getLowByte value) = value := by
  refine BitVec.eq_of_toNat_eq ?_
  rw [toNat_combineBytes, toNat_getHighByte, toNat_getLowByte]
  omega

theorem getBit_eq_getLsbD (value : Byte) (position : ℕ) :
    getBit value position = value.getLsbD position := by
  have h : (value >>> position) &&& 1#8 = if value.getLsbD position then 1#8 else 0#8 := by
    refine BitVec.eq_of_getLsbD_eq fun i hi => ?_
    cases hv : value.getLsbD position <;> rcases i with _ | i <;> simp [hv]
  rw [getBit, h]
  cases value.getLsbD position <;> rfl

theorem getBit_setBit (value : Byte) {position i : ℕ} (state : Bool) (hi : i < 8) :
    getBit (setBit value position state) i =
      if i = position then state else getBit value i := by
  -- the mask has the one bit `position`
  have hone : (1#8 <<< position).getLsbD i = decide (i = position) := by
    rw [BitVec.getLsbD_shiftLeft, BitVec.getLsbD_one]
    rcases Nat.lt_trichotomy i position with h | h | h
    · simp [h, Nat.ne_of_lt h]
    · subst h
      simp [hi]
    · have hne : ¬ i - position = 0 := by omega
      simp [hi, hne, Nat.ne_of_gt h]
  simp only [getBit_eq_getLsbD, setBit]
  cases state
  · rw [if_neg Bool.false_ne_true, BitVec.getLsbD_and, BitVec.getLsbD_not, hone]
    by_cases h : i = position <;> simp [h, hi]
  · rw [if_pos rfl, BitVec.getLsbD_or, hone]
    by_cases h : i = position <;> simp [h]

/-! ### The register file -/

/-- The 8-bit registers. -/
inductive Register
  | a | b | c | d | e | h | l | f | spHigh | spLow | w | z
  deriving DecidableEq

/-- The register pairs. -/
inductive CombinedRegister
  | bc | de | hl | sp | wz | psw
  deriving DecidableEq

/-- The condition flags. -/
inductive Flags
  | s | z | ac | p | cy
  deriving DecidableEq

/-- The bit of `F` that holds a flag (`FlagsShifts`). -/
def Flags.shift : Flags → ℕ
  | .s => 7
  | .z => 6
  | .ac => 4
  | .p => 2
  | .cy => 0

/-- The high and low register of a pair (`RegisterPairs`). -/
def CombinedRegister.registerPairs : CombinedRegister → Register × Register
  | .bc => (.b, .c)
  | .de => (.d, .e)
  | .hl => (.h, .l)
  | .sp => (.spHigh, .spLow)
  | .wz => (.w, .z)
  | .psw => (.a, .f)

/-- The register file, with the invariant its two writers maintain: bit 1 of `F` is
set. -/
@[ext]
structure Registers where
  /-- The array `registers_m`. -/
  registers : Register → Byte
  /-- Bit 1 of `F` is always set. -/
  fBit1 : registers .f ||| 2 = registers .f

namespace Registers

/-- The constructor: all registers zero but `F`, which holds
`Initial_Flags_Register_Value`. -/
def initial : Registers where
  registers := Function.update (fun _ => 0) .f (2 ||| 2)
  fBit1 := rfl

/-- The value of a register. -/
def getRegister (r : Registers) (reg : Register) : Byte := r.registers reg

/-- The register file with one register written; a write to `F` forces bit 1. -/
def setRegister (r : Registers) (reg : Register) (value : Byte) : Registers where
  registers := Function.update r.registers reg (if reg = .f then value ||| 2 else value)
  fBit1 := by
    by_cases h : reg = .f
    · subst h
      simp [BitVec.or_assoc]
    · rw [Function.update_of_ne (Ne.symm h), r.fBit1]

/-- Two registers as one word. -/
def combineRegisters (r : Registers) (high low : Register) : Word :=
  combineBytes (r.getRegister high) (r.getRegister low)

/-- The value of a register pair. -/
def getCombinedRegister (r : Registers) (reg : CombinedRegister) : Word :=
  r.combineRegisters reg.registerPairs.1 reg.registerPairs.2

/-- The register file with a pair written, high register first. -/
def setCombinedRegister (r : Registers) (reg : CombinedRegister) (value : Word) :
    Registers :=
  (r.setRegister reg.registerPairs.1 (getHighByte value)).setRegister
    reg.registerPairs.2 (getLowByte value)

/-- The state of a flag. -/
def getFlag (r : Registers) (flag : Flags) : Bool := getBit (r.getRegister .f) flag.shift

/-- The register file with one flag written. -/
def setFlag (r : Registers) (flag : Flags) (value : Bool) : Registers :=
  r.setRegister .f (setBit (r.getRegister .f) flag.shift value)

/-! ### Reading after writing -/

section Lemmas

variable (r : Registers)

@[simp]
theorem getRegister_setRegister (reg reg' : Register) (value : Byte) :
    (r.setRegister reg value).getRegister reg' =
      if reg' = reg then (if reg = .f then value ||| 2 else value)
      else r.getRegister reg' := by
  simp [getRegister, setRegister, Function.update_apply]

/-- Bit 1 of `F` is set. -/
theorem getRegister_f_or_two : r.getRegister .f ||| 2 = r.getRegister .f := r.fBit1

/-- Two register files agree when all their registers do. -/
theorem ext_getRegister {r r' : Registers}
    (h : ∀ reg, r.getRegister reg = r'.getRegister reg) : r = r' :=
  Registers.ext (funext h)

/-- A second write to a register overrides the first. -/
@[simp]
theorem setRegister_setRegister (reg : Register) (value value' : Byte) :
    (r.setRegister reg value).setRegister reg value' = r.setRegister reg value' := by
  refine ext_getRegister fun reg' => ?_
  simp only [getRegister_setRegister]
  by_cases h : reg' = reg <;> simp [h]

theorem setRegister_comm {reg reg' : Register} (h : reg ≠ reg') (value value' : Byte) :
    (r.setRegister reg value).setRegister reg' value' =
      (r.setRegister reg' value').setRegister reg value := by
  refine ext_getRegister fun reg'' => ?_
  simp only [getRegister_setRegister]
  by_cases h1 : reg'' = reg
  · subst h1
    simp [h]
  · simp [h1]

/-- The bytes of a pair are its registers. -/
theorem getHighByte_getCombinedRegister (reg : CombinedRegister) :
    getHighByte (r.getCombinedRegister reg) = r.getRegister reg.registerPairs.1 :=
  getHighByte_combineBytes _ _

theorem getLowByte_getCombinedRegister (reg : CombinedRegister) :
    getLowByte (r.getCombinedRegister reg) = r.getRegister reg.registerPairs.2 :=
  getLowByte_combineBytes _ _

/-- A pair other than `PSW` reads back the word written to it. -/
theorem getCombinedRegister_setCombinedRegister_self {reg : CombinedRegister}
    (h : reg ≠ .psw) (value : Word) :
    (r.setCombinedRegister reg value).getCombinedRegister reg = value := by
  cases reg <;>
    simp [getCombinedRegister, setCombinedRegister, combineRegisters,
      CombinedRegister.registerPairs] at h ⊢

/-- The pair `PSW` reads back the word written to it with bit 1 of `F` set. -/
theorem getCombinedRegister_setCombinedRegister_psw (value : Word) :
    (r.setCombinedRegister .psw value).getCombinedRegister .psw = value ||| 2 := by
  have htwo : combineBytes 0 2 = 2 := rfl
  -- the forced bit of the low byte is bit 1 of the word
  have hor : ∀ high low low' : Byte,
      combineBytes high (low ||| low') = combineBytes high low ||| combineBytes 0 low' := by
    intro high low low'
    simp [combineBytes, BitVec.setWidth_or, BitVec.or_assoc]
  simp only [getCombinedRegister, setCombinedRegister, combineRegisters,
    CombinedRegister.registerPairs, getRegister_setRegister, reduceCtorEq, if_true, if_false]
  rw [hor, htwo, combineBytes_getHighByte_getLowByte]

/-- Writing a pair leaves the other pairs alone. -/
theorem getCombinedRegister_setCombinedRegister_of_ne {reg reg' : CombinedRegister}
    (h : reg ≠ reg') (value : Word) :
    (r.setCombinedRegister reg' value).getCombinedRegister reg = r.getCombinedRegister reg := by
  revert h
  cases reg <;> cases reg' <;>
    simp [getCombinedRegister, setCombinedRegister, combineRegisters,
      CombinedRegister.registerPairs]

/-- Bit 1 of `PSW` is always set. -/
theorem getCombinedRegister_psw_or_two :
    r.getCombinedRegister .psw ||| 2 = r.getCombinedRegister .psw := by
  -- writing a register file's own `PSW` back forces a bit that is already set
  have hself : r.setCombinedRegister .psw (r.getCombinedRegister .psw) = r := by
    refine ext_getRegister fun reg => ?_
    simp only [setCombinedRegister, getCombinedRegister, combineRegisters,
      CombinedRegister.registerPairs, getHighByte_combineBytes, getLowByte_combineBytes,
      getRegister_setRegister, reduceCtorEq, if_true, if_false, getRegister_f_or_two]
    by_cases hf : reg = .f
    · rw [if_pos hf, hf]
    · rw [if_neg hf]
      by_cases ha : reg = .a
      · rw [if_pos ha, ha]
      · rw [if_neg ha]
  rw [← getCombinedRegister_setCombinedRegister_psw, hself]

@[simp]
theorem setCombinedRegister_setCombinedRegister (reg : CombinedRegister)
    (value value' : Word) :
    (r.setCombinedRegister reg value).setCombinedRegister reg value' =
      r.setCombinedRegister reg value' := by
  have hne : reg.registerPairs.1 ≠ reg.registerPairs.2 := by
    cases reg <;> simp [CombinedRegister.registerPairs]
  simp only [setCombinedRegister]
  rw [setRegister_comm _ hne, setRegister_setRegister, setRegister_comm _ hne.symm,
    setRegister_setRegister]

theorem getRegister_setCombinedRegister_of_ne {reg : CombinedRegister} {reg' : Register}
    (hh : reg' ≠ reg.registerPairs.1) (hl : reg' ≠ reg.registerPairs.2) (value : Word) :
    (r.setCombinedRegister reg value).getRegister reg' = r.getRegister reg' := by
  simp [setCombinedRegister, hh, hl]

theorem getRegister_setFlag_of_ne {reg : Register} (h : reg ≠ .f) (flag : Flags)
    (value : Bool) : (r.setFlag flag value).getRegister reg = r.getRegister reg := by
  simp [setFlag, h]

/-- Writing a flag touches no pair but `PSW`. -/
theorem getCombinedRegister_setFlag {reg : CombinedRegister} (h : reg ≠ .psw) (flag : Flags)
    (value : Bool) :
    (r.setFlag flag value).getCombinedRegister reg = r.getCombinedRegister reg := by
  have hpair : reg.registerPairs.1 ≠ .f ∧ reg.registerPairs.2 ≠ .f := by
    revert h
    cases reg <;> simp [CombinedRegister.registerPairs]
  rw [getCombinedRegister, getCombinedRegister, combineRegisters, combineRegisters,
    getRegister_setFlag_of_ne r hpair.1, getRegister_setFlag_of_ne r hpair.2]

theorem getCombinedRegister_setRegister_of_ne {reg : CombinedRegister} {reg' : Register}
    (hh : reg.registerPairs.1 ≠ reg') (hl : reg.registerPairs.2 ≠ reg') (value : Byte) :
    (r.setRegister reg' value).getCombinedRegister reg = r.getCombinedRegister reg := by
  rw [getCombinedRegister, getCombinedRegister, combineRegisters, combineRegisters,
    getRegister_setRegister, getRegister_setRegister, if_neg hh, if_neg hl]

theorem getBit_one_f : getBit (r.getRegister .f) 1 = true := by
  rw [getBit_eq_getLsbD, ← r.getRegister_f_or_two, BitVec.getLsbD_or]
  simp

/-- Writing a flag writes its bit of `F` and no other. -/
theorem getBit_setFlag (flag : Flags) (value : Bool) {i : ℕ} (hi : i < 8) :
    getBit ((r.setFlag flag value).getRegister .f) i =
      if i = flag.shift then value else getBit (r.getRegister .f) i := by
  -- no flag lives in the bit that a write to `F` forces
  have hshift : flag.shift ≠ 1 := by cases flag <;> decide
  rw [setFlag, getRegister_setRegister, if_pos rfl, if_pos rfl, getBit_eq_getLsbD,
    BitVec.getLsbD_or, ← getBit_eq_getLsbD, getBit_setBit _ _ hi]
  by_cases h : i = 1
  · subst h
    rw [if_neg hshift.symm, getBit_one_f, Bool.true_or]
  · have htwo : ∀ i < 8, i ≠ 1 → (2 : Byte).getLsbD i = false := by decide
    rw [htwo i hi h, Bool.or_false]

/-- Writing a flag sets that flag and no other. -/
@[simp]
theorem getFlag_setFlag (flag flag' : Flags) (value : Bool) :
    (r.setFlag flag value).getFlag flag' =
      if flag' = flag then value else r.getFlag flag' := by
  have hshift : flag'.shift = flag.shift ↔ flag' = flag := by
    cases flag <;> cases flag' <;> simp [Flags.shift]
  have hlt : flag'.shift < 8 := by cases flag' <;> simp [Flags.shift]
  rw [getFlag, getBit_setFlag r flag value hlt]
  simp only [hshift, getFlag]

theorem getFlag_setRegister_of_ne {reg : Register} (h : reg ≠ .f) (value : Byte) (flag : Flags) :
    (r.setRegister reg value).getFlag flag = r.getFlag flag := by
  rw [getFlag, getFlag, getRegister_setRegister, if_neg h.symm]

theorem getRegister_f_setCombinedRegister {reg : CombinedRegister} (h : reg ≠ .psw)
    (value : Word) : (r.setCombinedRegister reg value).getRegister .f = r.getRegister .f := by
  have hpair : .f ≠ reg.registerPairs.1 ∧ .f ≠ reg.registerPairs.2 := by
    revert h
    cases reg <;> simp [CombinedRegister.registerPairs]
  exact getRegister_setCombinedRegister_of_ne r hpair.1 hpair.2 value

/-- Writing a pair other than `PSW` leaves the flags alone. -/
theorem getFlag_setCombinedRegister {reg : CombinedRegister} (h : reg ≠ .psw) (value : Word)
    (flag : Flags) : (r.setCombinedRegister reg value).getFlag flag = r.getFlag flag := by
  rw [getFlag, getFlag, getRegister_f_setCombinedRegister r h]

/-- Two register files agree when their registers other than `F` and the bits of `F`
do. -/
theorem ext_getBit {r r' : Registers} (h : ∀ reg, reg ≠ .f → r.getRegister reg = r'.getRegister reg)
    (hf : ∀ i, i < 8 → getBit (r.getRegister .f) i = getBit (r'.getRegister .f) i) : r = r' := by
  refine ext_getRegister fun reg => ?_
  by_cases hreg : reg = .f
  · subst hreg
    refine BitVec.eq_of_getLsbD_eq fun i hi => ?_
    rw [← getBit_eq_getLsbD, ← getBit_eq_getLsbD, hf i hi]
  · exact h reg hreg

end Lemmas

end Registers

end Fake8080
