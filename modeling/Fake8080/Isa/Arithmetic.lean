import Fake8080.Isa.Refinement
import Fake8080.Library.CarryChain

/-!
# The numbers behind the arithmetic instructions

What an addition, a subtraction, a comparison, an increment, a decrement or a 16-bit
addition leaves, as equations between natural numbers: the result modulo 256, the carry
out of bit 7 and the carry out of bit 3, with everything else kept. The register, memory
and immediate forms are treated alike through `AluSource`.
-/

namespace Fake8080

universe u v

variable {ι : Type u} {δ : Type v}

namespace Registers

/-- `S`, `Z` and `P` describe a byte: its sign, whether it is zero, its parity. -/
structure Describes (r : Registers) (result : Byte) : Prop where
  s : r.getFlag .s = result.getLsbD 7
  z : r.getFlag .z = decide (result = 0)
  p : r.getFlag .p = evenParity result

/-- The register files agree on every register that is neither listed nor scratch. -/
def Keeps (changed : List Register) (r r' : Registers) : Prop :=
  ∀ reg, reg ∉ changed → reg ≠ .w → reg ≠ .z → r'.getRegister reg = r.getRegister reg

/-- What is kept stays kept up to the scratch registers. -/
theorem Keeps.trans_sameButScratch {changed : List Register} {r r' r'' : Registers}
    (h : Keeps changed r r') (hs : r''.SameButScratch r') : Keeps changed r r'' := by
  intro reg hreg hw hz
  rw [hs reg hw hz, h reg hreg hw hz]

theorem getFlag_setResultFlags (r : Registers) (result : Byte) (flag : Flags) :
    (r.setResultFlags result).getFlag flag =
      match flag with
      | .s => result.getLsbD 7
      | .z => decide (result = 0)
      | .p => evenParity result
      | .ac => r.getFlag .ac
      | .cy => r.getFlag .cy := by
  cases flag <;> simp [setResultFlags]

theorem describes_setResultFlags (r : Registers) (result : Byte) :
    (r.setResultFlags result).Describes result where
  s := r.getFlag_setResultFlags result .s
  z := r.getFlag_setResultFlags result .z
  p := r.getFlag_setResultFlags result .p

theorem getRegister_setResultFlags_of_ne (r : Registers) {reg : Register} (h : reg ≠ .f)
    (result : Byte) : (r.setResultFlags result).getRegister reg = r.getRegister reg := by
  simp only [setResultFlags, getRegister_setFlag_of_ne _ h]

/-- A description depends on the flags only. -/
theorem Describes.congr {r r' : Registers} {result : Byte} (h : r.Describes result)
    (hflags : ∀ flag, r'.getFlag flag = r.getFlag flag) : r'.Describes result where
  s := (hflags .s).trans h.s
  z := (hflags .z).trans h.z
  p := (hflags .p).trans h.p

end Registers

namespace AluOperation

variable (operation : AluOperation) (r : Registers) (x : Byte)

theorem getFlag_apply (flag : Flags) :
    (operation.apply r x).getFlag flag =
      match flag with
      | .s => (operation.result (r.getRegister .a) x (r.getFlag .cy)).getLsbD 7
      | .z => decide (operation.result (r.getRegister .a) x (r.getFlag .cy) = 0)
      | .p => evenParity (operation.result (r.getRegister .a) x (r.getFlag .cy))
      | .ac => operation.halfCarryOut (r.getRegister .a) x (r.getFlag .cy)
      | .cy => operation.carryOut (r.getRegister .a) x (r.getFlag .cy) := by
  have hflags : (operation.apply r x).getFlag flag =
      (((r.setFlag .ac (operation.halfCarryOut (r.getRegister .a) x (r.getFlag .cy))).setFlag .cy
        (operation.carryOut (r.getRegister .a) x (r.getFlag .cy))).setResultFlags
          (operation.result (r.getRegister .a) x (r.getFlag .cy))).getFlag flag := by
    rw [apply]
    split
    · rfl
    · exact Registers.getFlag_setRegister_of_ne _ (by decide) _ _
  rw [hflags, Registers.getFlag_setResultFlags]
  cases flag <;> simp

/-- An operation other than `CMP` puts its result in `A`. -/
theorem getRegister_a_apply (h : operation ≠ cmp) :
    (operation.apply r x).getRegister .a =
      operation.result (r.getRegister .a) x (r.getFlag .cy) := by
  simp [apply, h]

theorem keeps_apply : Registers.Keeps [.a, .f] r (operation.apply r x) := by
  intro reg hreg _ _
  obtain ⟨ha, hf⟩ : reg ≠ .a ∧ reg ≠ .f := by simpa using hreg
  rw [apply]
  split
  · simp only [Registers.getRegister_setResultFlags_of_ne _ hf,
      Registers.getRegister_setFlag_of_ne _ hf]
  · simp only [Registers.getRegister_setRegister, if_neg ha,
      Registers.getRegister_setResultFlags_of_ne _ hf, Registers.getRegister_setFlag_of_ne _ hf]

/-- `CMP` changes only `F`. -/
theorem getRegister_a_apply_cmp : (cmp.apply r x).getRegister .a = r.getRegister .a := by
  rw [apply, if_pos rfl]
  simp only [Registers.getRegister_setResultFlags_of_ne _ (by decide : Register.a ≠ .f),
    Registers.getRegister_setFlag_of_ne _ (by decide : Register.a ≠ .f)]

/-- The carry an operation adds or subtracts. -/
def carryIn (operation : AluOperation) (carry : Bool) : ℕ :=
  match operation with
  | adc | sbb => carry.toNat
  | _ => 0

theorem carryIn_le (operation : AluOperation) (carry : Bool) : operation.carryIn carry ≤ 1 := by
  have hle := Bool.toNat_le carry
  cases operation <;> simp [carryIn, hle]

theorem toNat_result_of_addition {operation : AluOperation} (h : operation = add ∨ operation = adc)
    (a x : Byte) (carry : Bool) : (operation.result a x carry).toNat =
      (a.toNat + x.toNat + operation.carryIn carry) % 256 := by
  rcases h with rfl | rfl
  · simp [result, carryIn]
  · simp [result, carryIn, Nat.add_mod]

theorem toNat_result_of_subtraction {operation : AluOperation}
    (h : operation = sub ∨ operation = sbb ∨ operation = cmp) (a x : Byte) (carry : Bool) :
    ((operation.result a x carry).toNat : ℤ) =
      (a.toNat - x.toNat - operation.carryIn carry) % 256 := by
  have hcarry := Bool.toNat_le carry
  rcases h with rfl | rfl | rfl
  · simp only [result, carryIn, BitVec.toNat_sub]
    omega
  · simp only [result, carryIn, BitVec.toNat_sub, BitVec.toNat_ofNat]
    omega
  · simp only [result, carryIn, BitVec.toNat_sub]
    omega

theorem carries_of_addition {operation : AluOperation} (h : operation = add ∨ operation = adc)
    (a x : Byte) (carry : Bool) :
    (operation.carryOut a x carry = true ↔
        255 < a.toNat + x.toNat + operation.carryIn carry) ∧
      (operation.halfCarryOut a x carry = true ↔
        15 < a.toNat % 16 + x.toNat % 16 + operation.carryIn carry) := by
  rcases h with rfl | rfl
  · simp [carryOut, halfCarryOut, carryIn, Nat.lt_iff_add_one_le]
  · simp [carryOut, halfCarryOut, carryIn, Nat.lt_iff_add_one_le]

theorem carries_of_subtraction {operation : AluOperation}
    (h : operation = sub ∨ operation = sbb ∨ operation = cmp) (a x : Byte) (carry : Bool) :
    (operation.carryOut a x carry = true ↔ a.toNat < x.toNat + operation.carryIn carry) ∧
      (operation.halfCarryOut a x carry = true ↔
        a.toNat % 16 < x.toNat % 16 + operation.carryIn carry) := by
  rcases h with rfl | rfl | rfl
  · simp [carryOut, halfCarryOut, carryIn]
  · simp [carryOut, halfCarryOut, carryIn]
  · simp [carryOut, halfCarryOut, carryIn]

end AluOperation

/-! ### Eight bits -/

/-- The flags report a result and two carries. -/
structure Registers.Reports (r : Registers) (result : Byte) (carry halfCarry : Prop) : Prop where
  describes : r.Describes result
  cy : r.getFlag .cy = true ↔ carry
  ac : r.getFlag .ac = true ↔ halfCarry

/-- The flags of an operation report its result and its carries. -/
theorem AluOperation.reports_apply (operation : AluOperation) (r : Registers) (x : Byte) :
    (operation.apply r x).Reports (operation.result (r.getRegister .a) x (r.getFlag .cy))
      (operation.carryOut (r.getRegister .a) x (r.getFlag .cy) = true)
      (operation.halfCarryOut (r.getRegister .a) x (r.getFlag .cy) = true) where
  describes := ⟨getFlag_apply operation r x .s, getFlag_apply operation r x .z,
    getFlag_apply operation r x .p⟩
  cy := by rw [getFlag_apply]
  ac := by rw [getFlag_apply]

namespace Registers

theorem SameFlags.getFlag {r r' : Registers} (h : r.SameFlags r') (flag : Flags) :
    r.getFlag flag = r'.getFlag flag := congrArg (getBit · _) h

/-- Reports are about the flags and depend on what is reported up to equivalence. -/
theorem Reports.congr {r r' : Registers} {result : Byte} {carry carry' halfCarry halfCarry' : Prop}
    (h : r.Reports result carry halfCarry) (hs : ∀ flag, r'.getFlag flag = r.getFlag flag)
    (hcarry : carry ↔ carry') (hhalf : halfCarry ↔ halfCarry') :
    r'.Reports result carry' halfCarry' where
  describes := h.describes.congr hs
  cy := by rw [hs, h.cy, hcarry]
  ac := by rw [hs, h.ac, hhalf]

/-- Flags that describe a result and a carry out of bit 3 keep `CY`. -/
theorem reports_of_setFlag_ac (r : Registers) (result : Byte) {p halfCarry : Prop} [Decidable p]
    (h : p ↔ halfCarry) : ((r.setFlag .ac (decide p)).setResultFlags result).Reports result
      (r.getFlag .cy = true) halfCarry where
  describes := describes_setResultFlags _ _
  cy := by
    rw [getFlag_setResultFlags]
    simp
  ac := by
    rw [getFlag_setResultFlags]
    simp [h]

theorem keeps_of_setFlag_ac (r : Registers) (result : Byte) (halfCarry : Bool) :
    r.Keeps [.f] ((r.setFlag .ac halfCarry).setResultFlags result) := by
  intro reg hreg _ _
  have hf : reg ≠ .f := by simpa using hreg
  rw [getRegister_setResultFlags_of_ne _ hf, getRegister_setFlag_of_ne _ hf]

theorem reports_incrementFlags (r : Registers) (x : Byte) :
    (r.incrementFlags x).Reports (x + 1) (r.getFlag .cy = true) (15 < x.toNat % 16 + 1) :=
  r.reports_of_setFlag_ac (x + 1) (by omega)

theorem reports_decrementFlags (r : Registers) (x : Byte) :
    (r.decrementFlags x).Reports (x - 1) (r.getFlag .cy = true) (x.toNat % 16 < 1) :=
  r.reports_of_setFlag_ac (x - 1) (by omega)

end Registers

namespace Cpu

/-- The operand a code names is replaced, and nothing else changes but the flags. -/
def UpdatesOperand (c c' : Cpu ι δ) (code : BitVec 3) (value : Byte) : Prop :=
  match operandRegister code with
  | some reg => c'.registers.getRegister reg = value ∧
      c.registers.Keeps [reg, .f] c'.registers ∧ c'.buses = c.buses
  | none => c.registers.Keeps [.f] c'.registers ∧ c'.buses = c.buses.write c.hl value

/-- Writing the flags and an operand updates the operand. -/
theorem updatesOperand_of_setOperand {c c' d : Cpu ι δ} {code : BitVec 3} {value : Byte}
    (h : c'.SameButScratch (d.setOperand code value)) (hregs : c.registers.Keeps [.f] d.registers)
    (hbuses : d.buses = c.buses) : c.UpdatesOperand c' code value := by
  have hcode : ∀ code : BitVec 3, operandRegister code ≠ some .f ∧
      operandRegister code ≠ some .w ∧ operandRegister code ≠ some .z := by decide
  rw [UpdatesOperand]
  rw [setOperand] at h
  cases hop : operandRegister code with
  | none =>
    have hhl : d.hl = c.hl := by
      have hh := hregs .h (by decide) (by decide) (by decide)
      have hl := hregs .l (by decide) (by decide) (by decide)
      exact congrArg₂ combineBytes hh hl
    simp only [hop] at h ⊢
    refine ⟨hregs.trans_sameButScratch h.registers, ?_⟩
    rw [h.buses, hbuses, hhl]
  | some reg =>
    obtain ⟨hf, hw, hz⟩ : reg ≠ .f ∧ reg ≠ .w ∧ reg ≠ .z := by simpa [hop] using hcode code
    simp only [hop] at h ⊢
    refine ⟨?_, ?_, h.buses.trans hbuses⟩
    · rw [h.registers reg hw hz, Registers.getRegister_setRegister, if_pos rfl, if_neg hf]
    · intro reg' hreg' hw' hz'
      obtain ⟨hne, hf'⟩ : reg' ≠ reg ∧ reg' ≠ .f := by simpa using hreg'
      rw [h.registers reg' hw' hz', Registers.getRegister_setRegister, if_neg hne]
      exact hregs reg' (by simpa using hf') hw' hz'

/-- A state that agrees with one an operand was written in has the flags from before. -/
theorem getFlag_of_setOperand {c' d : Cpu ι δ} {code : BitVec 3} {value : Byte}
    (h : c'.SameButScratch (d.setOperand code value)) (flag : Flags) :
    c'.registers.getFlag flag = d.registers.getFlag flag :=
  (h.registers.getFlag flag).trans ((setOperand_sameFlags d code value).getFlag flag)

section Cycle

variable [IOPort ι δ] {c : Cpu ι δ} {o : BitVec 3} {source : AluSource}

/-- What an ALU instruction leaves of the registers, up to `W` and `Z`. -/
theorem registers_cycle_alu (h : c.cycleEvent = .exec (Instruction.alu o source).encode) :
    c.cycle.registers.SameButScratch
      ((AluOperation.ofCode o).apply c.registers (source.value c.fetched)) := by
  have hexec := (cycle_sameButScratch_exec h).registers
  rw [registers_exec_alu] at hexec
  exact hexec

theorem buses_cycle_alu (h : c.cycleEvent = .exec (Instruction.alu o source).encode) :
    c.cycle.buses = c.buses := by
  rw [(cycle_sameButScratch_exec h).buses]
  cases source <;> rfl

theorem getRegister_a_cycle_alu (h : c.cycleEvent = .exec (Instruction.alu o source).encode)
    (hop : AluOperation.ofCode o ≠ .cmp) :
    c.cycle.registers.getRegister .a = (AluOperation.ofCode o).result
      (c.registers.getRegister .a) (source.value c.fetched) (c.registers.getFlag .cy) := by
  rw [registers_cycle_alu h .a (by decide) (by decide),
    AluOperation.getRegister_a_apply _ _ _ hop]

theorem reports_cycle_alu (h : c.cycleEvent = .exec (Instruction.alu o source).encode)
    {carry halfCarry : Prop}
    (hcarries : ((AluOperation.ofCode o).carryOut (c.registers.getRegister .a)
          (source.value c.fetched) (c.registers.getFlag .cy) = true ↔ carry) ∧
        ((AluOperation.ofCode o).halfCarryOut (c.registers.getRegister .a)
          (source.value c.fetched) (c.registers.getFlag .cy) = true ↔ halfCarry)) :
    c.cycle.registers.Reports ((AluOperation.ofCode o).result (c.registers.getRegister .a)
      (source.value c.fetched) (c.registers.getFlag .cy)) carry halfCarry :=
  ((AluOperation.ofCode o).reports_apply _ _).congr (registers_cycle_alu h).getFlag
    hcarries.1 hcarries.2

theorem cycle_of_addition (h : c.cycleEvent = .exec (Instruction.alu o source).encode)
    (hop : AluOperation.ofCode o = .add ∨ AluOperation.ofCode o = .adc) :
    let a := (c.registers.getRegister .a).toNat
    let b := (source.value c.fetched).toNat
    let k := (AluOperation.ofCode o).carryIn (c.registers.getFlag .cy)
    let r := c.cycle.registers
    (r.getRegister .a).toNat = (a + b + k) % 256 ∧
      r.Reports (r.getRegister .a) (255 < a + b + k) (15 < a % 16 + b % 16 + k) := by
  have hne : AluOperation.ofCode o ≠ .cmp := by rcases hop with hop | hop <;> simp [hop]
  intro a b k r
  rw [getRegister_a_cycle_alu h hne]
  exact ⟨AluOperation.toNat_result_of_addition hop _ _ _,
    reports_cycle_alu h (AluOperation.carries_of_addition hop _ _ _)⟩

theorem cycle_of_subtraction (h : c.cycleEvent = .exec (Instruction.alu o source).encode)
    (hop : AluOperation.ofCode o = .sub ∨ AluOperation.ofCode o = .sbb) :
    let a := (c.registers.getRegister .a).toNat
    let b := (source.value c.fetched).toNat
    let k := (AluOperation.ofCode o).carryIn (c.registers.getFlag .cy)
    let r := c.cycle.registers
    ((r.getRegister .a).toNat : ℤ) = (a - b - k) % 256 ∧
      r.Reports (r.getRegister .a) (a < b + k) (a % 16 < b % 16 + k) := by
  have hne : AluOperation.ofCode o ≠ .cmp := by rcases hop with hop | hop <;> simp [hop]
  have hop' : AluOperation.ofCode o = .sub ∨ AluOperation.ofCode o = .sbb ∨
      AluOperation.ofCode o = .cmp := hop.imp_right .inl
  intro a b k r
  rw [getRegister_a_cycle_alu h hne]
  exact ⟨AluOperation.toNat_result_of_subtraction hop' _ _ _,
    reports_cycle_alu h (AluOperation.carries_of_subtraction hop' _ _ _)⟩

theorem cycle_of_comparison (h : c.cycleEvent = .exec (Instruction.alu o source).encode)
    (hop : AluOperation.ofCode o = .cmp) :
    let a := (c.registers.getRegister .a).toNat
    let b := (source.value c.fetched).toNat
    let r := c.cycle.registers
    r.getRegister .a = c.registers.getRegister .a ∧
      (∃ result : Byte, (result.toNat : ℤ) = (a - b) % 256 ∧
        r.Reports result (a < b) (a % 16 < b % 16)) ∧
      (r.getFlag .z = true ↔ a = b) := by
  intro a b r
  have ha : r.getRegister .a = c.registers.getRegister .a := by
    rw [registers_cycle_alu h .a (by decide) (by decide), hop,
      AluOperation.getRegister_a_apply_cmp]
  have hresult := AluOperation.toNat_result_of_subtraction (.inr (.inr hop))
    (c.registers.getRegister .a) (source.value c.fetched) (c.registers.getFlag .cy)
  have hcarries := AluOperation.carries_of_subtraction (.inr (.inr hop))
    (c.registers.getRegister .a) (source.value c.fetched) (c.registers.getFlag .cy)
  have hk : (AluOperation.ofCode o).carryIn (c.registers.getFlag .cy) = 0 := by
    rw [hop]
    rfl
  rw [hk, Nat.cast_zero, sub_zero] at hresult
  rw [hk, Nat.add_zero, Nat.add_zero] at hcarries
  have hreports := reports_cycle_alu h hcarries
  refine ⟨ha, ⟨_, hresult, hreports⟩, ?_⟩
  -- the difference modulo 256 of two bytes is 0 only if they are equal
  have ha256 : a < 256 := (c.registers.getRegister .a).isLt
  have hb256 : b < 256 := (source.value c.fetched).isLt
  have hzero : (0 : Byte).toNat = 0 := rfl
  rw [hreports.describes.z, decide_eq_true_iff, ← BitVec.toNat_inj, hzero]
  omega

theorem cycle_of_increment {d : BitVec 3}
    (h : c.cycleEvent = .exec (Instruction.inr d).encode) :
    ∃ result : Byte, result.toNat = ((c.fetched.operand d).toNat + 1) % 256 ∧
      c.UpdatesOperand c.cycle d result ∧
      c.cycle.registers.Reports result (c.registers.getFlag .cy = true)
        (15 < (c.fetched.operand d).toNat % 16 + 1) := by
  have hexec := cycle_sameButScratch_exec h
  rw [Instruction.exec] at hexec
  refine ⟨c.fetched.operand d + 1, ?_,
    updatesOperand_of_setOperand hexec (c.registers.keeps_of_setFlag_ac _ _) rfl, ?_⟩
  · have hone : (1 : Byte).toNat = 1 := rfl
    rw [BitVec.toNat_add, hone]
  · have hreports := c.registers.reports_incrementFlags (c.fetched.operand d)
    have hflags := getFlag_of_setOperand hexec
    exact hreports.congr hflags Iff.rfl Iff.rfl

theorem cycle_of_decrement {d : BitVec 3}
    (h : c.cycleEvent = .exec (Instruction.dcr d).encode) :
    ∃ result : Byte, (result.toNat : ℤ) = ((c.fetched.operand d).toNat - 1) % 256 ∧
      c.UpdatesOperand c.cycle d result ∧
      c.cycle.registers.Reports result (c.registers.getFlag .cy = true)
        ((c.fetched.operand d).toNat % 16 < 1) := by
  have hexec := cycle_sameButScratch_exec h
  rw [Instruction.exec] at hexec
  refine ⟨c.fetched.operand d - 1, ?_,
    updatesOperand_of_setOperand hexec (c.registers.keeps_of_setFlag_ac _ _) rfl, ?_⟩
  · have hone : (1 : Byte).toNat = 1 := rfl
    rw [BitVec.toNat_sub, hone]
    omega
  · have hreports := c.registers.reports_decrementFlags (c.fetched.operand d)
    have hflags := getFlag_of_setOperand hexec
    exact hreports.congr hflags Iff.rfl Iff.rfl

end Cycle

variable [IOPort ι δ]

/-- **Eight-bit arithmetic.** For every operand form, with `a` and `b` the bytes operated on
and `k` the carry in: an addition leaves the sum modulo 256 in `A`, a subtraction the
difference, a comparison nothing but the flags of the subtraction; `INR` and `DCR` replace
their operand and keep `CY`. The flags are the carries out of bits 7 and 3 and describe the
result. Every other register, and all memory but the operand of `INR M` and `DCR M`, is
unchanged. -/
theorem arithmetic_of_cycle (c : Cpu ι δ) :
    (∀ o source, c.cycleEvent = .exec (Instruction.alu o source).encode →
      let operation := AluOperation.ofCode o
      let a := (c.registers.getRegister .a).toNat
      let b := (source.value c.fetched).toNat
      let k := operation.carryIn (c.registers.getFlag .cy)
      let r := c.cycle.registers
      (operation = .add ∨ operation = .adc →
        (r.getRegister .a).toNat = (a + b + k) % 256 ∧
          r.Reports (r.getRegister .a) (255 < a + b + k) (15 < a % 16 + b % 16 + k)) ∧
      (operation = .sub ∨ operation = .sbb →
        ((r.getRegister .a).toNat : ℤ) = (a - b - k) % 256 ∧
          r.Reports (r.getRegister .a) (a < b + k) (a % 16 < b % 16 + k)) ∧
      (operation = .cmp → r.getRegister .a = c.registers.getRegister .a ∧
        (∃ result : Byte, (result.toNat : ℤ) = (a - b) % 256 ∧
          r.Reports result (a < b) (a % 16 < b % 16)) ∧
        (r.getFlag .z = true ↔ a = b)) ∧
      c.registers.Keeps [.a, .f] r ∧ c.cycle.buses = c.buses) ∧
    (∀ d, c.cycleEvent = .exec (Instruction.inr d).encode →
      let b := (c.fetched.operand d).toNat
      ∃ result : Byte, result.toNat = (b + 1) % 256 ∧ c.UpdatesOperand c.cycle d result ∧
        c.cycle.registers.Reports result (c.registers.getFlag .cy = true) (15 < b % 16 + 1)) ∧
    (∀ d, c.cycleEvent = .exec (Instruction.dcr d).encode →
      let b := (c.fetched.operand d).toNat
      ∃ result : Byte, (result.toNat : ℤ) = (b - 1) % 256 ∧ c.UpdatesOperand c.cycle d result ∧
        c.cycle.registers.Reports result (c.registers.getFlag .cy = true) (b % 16 < 1)) := by
  refine ⟨fun o source h => ⟨cycle_of_addition h, cycle_of_subtraction h, cycle_of_comparison h,
    ?_, buses_cycle_alu h⟩, fun d => cycle_of_increment, fun d => cycle_of_decrement⟩
  exact (AluOperation.keeps_apply _ _ _).trans_sameButScratch (registers_cycle_alu h)

/-- `ADD B` of a new CPU with 0x91 in `A` and 0x7F in `B`. -/
theorem arithmetic_of_cycle_addB :
    let c : Cpu Empty Unit := ((Cpu.new (Buses.mapMemory [0x80])).setRegister .a 0x91).setRegister
      .b 0x7F
    (c.cycle.registers.getRegister .a).toNat = 0x10 ∧
      c.cycle.registers.getFlag .cy = true ∧ c.cycle.registers.getFlag .ac = true := by
  intro c
  obtain ⟨hsum, hreports⟩ :=
    ((arithmetic_of_cycle c).1 0 (.operand 0) (by decide)).1 (.inl rfl)
  exact ⟨hsum.trans (by decide), hreports.cy.mpr (by decide), hreports.ac.mpr (by decide)⟩

/-! ### Sixteen bits -/

section Pairs

omit [IOPort ι δ] in
/-- The code's adder neither loses nor makes up a carry. -/
theorem aritmeticOperation8bits_add (c : Cpu ι δ) (first second : Byte) (useCarry : Bool) :
    let sum := c.aritmeticOperation8bits first second .add useCarry true
    sum.1.toNat + 256 * (sum.2.registers.getFlag .cy).toNat =
      first.toNat + second.toNat + c.carryValue useCarry := by
  intro sum
  have hcarry : c.carryValue useCarry ≤ 1 := Bool.toNat_le _
  have hresult : sum.1.toNat = (first.toNat + second.toNat + c.carryValue useCarry) % 256 := by
    simp only [sum, aritmeticOperation8bits_eq, Registers.arithmeticResult_add]
    simp [carryValue, Registers.carryIn, Nat.add_mod]
  have hcy : sum.2.registers.getFlag .cy = true ↔
      256 ≤ first.toNat + second.toNat + c.carryValue useCarry := by
    simp only [sum, aritmeticOperation8bits_eq, Registers.arithmeticFlags_add,
      Registers.getFlag_setResultFlags, Registers.getFlag_setFlag, if_true]
    exact decide_eq_true_iff
  have hfirst := first.isLt
  have hsecond := second.isLt
  exact Nat.conserved_of_add (by omega) hresult hcy

omit [IOPort ι δ] in
/-- Two passes of the adder, low bytes first, add words. -/
theorem aritmeticOperation8bits_add_twice (c : Cpu ι δ) (high low high' low' : Byte) :
    let l := c.aritmeticOperation8bits low low' .add false true
    let h := l.2.aritmeticOperation8bits high high' .add true true
    (combineBytes h.1 l.1).toNat + 65536 * (h.2.registers.getFlag .cy).toNat =
      (combineBytes high low).toNat + (combineBytes high' low').toNat := by
  intro l h
  have hlow : l.1.toNat + 256 * (l.2.registers.getFlag .cy).toNat = low.toNat + low'.toNat :=
    c.aritmeticOperation8bits_add low low' false
  -- the second pass adds the carry the first one left
  have hhigh : h.1.toNat + 256 * (h.2.registers.getFlag .cy).toNat =
      high.toNat + high'.toNat + (l.2.registers.getFlag .cy).toNat :=
    l.2.aritmeticOperation8bits_add high high' true
  simp only [toNat_combineBytes]
  omega

/-- The registers after `DAD`, `W` and `Z` included. -/
theorem registers_cycle_dad {c : Cpu ι δ} {p : BitVec 2}
    (h : c.cycleEvent = .exec (Instruction.dad p).encode) :
    let value := c.registers.getCombinedRegister (registerPair p)
    c.cycle.registers = (c.registers.setFlag .cy
      (decide (65536 ≤ c.hl.toNat + value.toNat))).setCombinedRegister .hl (c.hl + value) := by
  intro value
  rw [cycle_eq_superfunction_next h, Instruction.ofOpcode_encode, Instruction.superfunction,
    ← Registers.decide_add_lt]
  rfl

theorem hl_cycle_dad {c : Cpu ι δ} {p : BitVec 2}
    (h : c.cycleEvent = .exec (Instruction.dad p).encode) :
    c.cycle.registers.getCombinedRegister .hl =
      c.hl + c.registers.getCombinedRegister (registerPair p) := by
  rw [registers_cycle_dad h, Registers.getCombinedRegister_setCombinedRegister_self _ (by decide)]

theorem getFlag_cycle_dad {c : Cpu ι δ} {p : BitVec 2}
    (h : c.cycleEvent = .exec (Instruction.dad p).encode) (flag : Flags) :
    c.cycle.registers.getFlag flag = if flag = .cy then
      decide (65536 ≤ c.hl.toNat + (c.registers.getCombinedRegister (registerPair p)).toNat)
    else c.registers.getFlag flag := by
  rw [registers_cycle_dad h, Registers.getFlag_setCombinedRegister _ (by decide),
    Registers.getFlag_setFlag]

/-- `DAD` neither loses nor makes up a carry. -/
theorem conserves_cycle_dad {c : Cpu ι δ} {p : BitVec 2}
    (h : c.cycleEvent = .exec (Instruction.dad p).encode) :
    let r' := c.cycle.registers
    (r'.getCombinedRegister .hl).toNat + 65536 * (r'.getFlag .cy).toNat =
      c.hl.toNat + (c.registers.getCombinedRegister (registerPair p)).toNat := by
  intro r'
  have hx := c.hl.isLt
  have hy := (c.registers.getCombinedRegister (registerPair p)).isLt
  have hvalue : (r'.getCombinedRegister .hl).toNat =
      (c.hl.toNat + (c.registers.getCombinedRegister (registerPair p)).toNat) % 65536 := by
    rw [hl_cycle_dad h, BitVec.toNat_add]
  refine Nat.conserved_of_add (by omega) hvalue ?_
  rw [getFlag_cycle_dad h, if_pos rfl, decide_eq_true_iff]

/-- `DAD` leaves the bytes and the carry of two passes of the code's adder. -/
theorem cycle_of_dad_eq_adder {c : Cpu ι δ} {p : BitVec 2}
    (h : c.cycleEvent = .exec (Instruction.dad p).encode) :
    let pair := registerPair p
    let r := c.registers
    let r' := c.cycle.registers
    let low := c.aritmeticOperation8bits (r.getRegister .l)
      (r.getRegister pair.registerPairs.2) .add false true
    let high := low.2.aritmeticOperation8bits (r.getRegister .h)
      (r.getRegister pair.registerPairs.1) .add true true
    r'.getRegister .l = low.1 ∧ r'.getRegister .h = high.1 ∧
      r'.getFlag .cy = high.2.registers.getFlag .cy := by
  intro pair r r' low high
  have htwice : (combineBytes high.1 low.1).toNat +
      65536 * (high.2.registers.getFlag .cy).toNat =
        c.hl.toNat + (r.getCombinedRegister pair).toNat :=
    c.aritmeticOperation8bits_add_twice _ _ _ _
  -- a sum below 2 ^ 17 has one carry and one remainder
  obtain ⟨hvalue, hcy⟩ := Nat.eq_of_conserved (r'.getCombinedRegister .hl).isLt
    (combineBytes high.1 low.1).isLt ((conserves_cycle_dad h).trans htwice.symm)
  have hword : r'.getCombinedRegister .hl = combineBytes high.1 low.1 :=
    BitVec.eq_of_toNat_eq hvalue
  refine ⟨?_, ?_, hcy⟩
  · rw [← getLowByte_combineBytes high.1 low.1, ← hword, Registers.getLowByte_getCombinedRegister]
    rfl
  · rw [← getHighByte_combineBytes high.1 low.1, ← hword,
      Registers.getHighByte_getCombinedRegister]
    rfl

/-- **Sixteen-bit addition.** `DAD` adds its pair to `HL` with the carry in `CY`, exactly as
`ADD` of the low bytes followed by `ADC` of the high bytes, and leaves the other flags and
registers alone. -/
theorem dad_of_cycle (c : Cpu ι δ) (p : BitVec 2)
    (h : c.cycleEvent = .exec (Instruction.dad p).encode) :
    let pair := registerPair p
    let r := c.registers
    let r' := c.cycle.registers
    65536 * (r'.getFlag .cy).toNat + (r'.getCombinedRegister .hl).toNat =
        (r.getCombinedRegister .hl).toNat + (r.getCombinedRegister pair).toNat ∧
      (let low := c.aritmeticOperation8bits (r.getRegister .l)
          (r.getRegister pair.registerPairs.2) .add false true
        let high := low.2.aritmeticOperation8bits (r.getRegister .h)
          (r.getRegister pair.registerPairs.1) .add true true
        r'.getRegister .l = low.1 ∧ r'.getRegister .h = high.1 ∧
          r'.getFlag .cy = high.2.registers.getFlag .cy) ∧
      (∀ flag, flag ≠ .cy → r'.getFlag flag = r.getFlag flag) ∧
      ∀ reg, reg ≠ .h → reg ≠ .l → reg ≠ .f → r'.getRegister reg = r.getRegister reg := by
  intro pair r r'
  refine ⟨?_, cycle_of_dad_eq_adder h, ?_, ?_⟩
  · rw [Nat.add_comm]
    exact conserves_cycle_dad h
  · intro flag hne
    exact (getFlag_cycle_dad h flag).trans (if_neg hne)
  · intro reg hh hl hf
    have hr := registers_cycle_dad h
    exact (congrArg (·.getRegister reg) hr).trans
      ((Registers.getRegister_setCombinedRegister_of_ne _ hh hl _).trans
        (Registers.getRegister_setFlag_of_ne _ hf _ _))

/-- `DAD B` of a new CPU with 0x8001 in `BC` and 0x80FF in `HL`. -/
theorem dad_of_cycle_dadB :
    let c : Cpu Empty Unit := ((Cpu.new (Buses.mapMemory [0x09])).setCombinedRegister .bc
      0x8001).setCombinedRegister .hl 0x80FF
    65536 * (c.cycle.registers.getFlag .cy).toNat +
      (c.cycle.registers.getCombinedRegister .hl).toNat = 0x10100 := by
  intro c
  exact (dad_of_cycle c 0 (by decide)).1.trans (by decide)

end Pairs

end Cpu

end Fake8080
