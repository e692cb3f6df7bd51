import Fake8080.Isa.Semantics
import Mathlib.Tactic.IntervalCases

/-!
# The code implements the instruction set

The arithmetic of the code, in `int` and with flags set one by one, is the arithmetic of
the architecture; the table entry of an instruction's opcode is the template instance for
its operands; and one cycle that executes the opcode does what `Instruction.exec` says, up
to the scratch registers.
-/

namespace Fake8080

universe u v

variable {ι : Type u} {δ : Type v}

/-! ### Arithmetic -/

namespace Registers

/-- The flags of the adder, in the architecture's terms. -/
theorem arithmeticFlags_add (r : Registers) (a x : Byte) (useCarry : Bool) :
    r.arithmeticFlags a x .add useCarry true =
      ((r.setFlag .ac (decide (16 ≤ a.toNat % 16 + x.toNat % 16 + r.carryIn useCarry))).setFlag .cy
        (decide (256 ≤ a.toNat + x.toNat + r.carryIn useCarry))).setResultFlags
          (a + x + BitVec.ofNat 8 (r.carryIn useCarry)) := by
  rw [← arithmeticResult_add, ← describe_eq_setResultFlags, ← toNat_and_0x0F, ← toNat_and_0x0F]
  rfl

theorem arithmeticFlags_sub (r : Registers) (a x : Byte) (useCarry : Bool) :
    r.arithmeticFlags a x .sub useCarry true =
      ((r.setFlag .ac (decide (a.toNat % 16 < x.toNat % 16 + r.carryIn useCarry))).setFlag .cy
        (decide (a.toNat < x.toNat + r.carryIn useCarry))).setResultFlags
          (a - x - BitVec.ofNat 8 (r.carryIn useCarry)) := by
  rw [← arithmeticResult_sub, ← describe_eq_setResultFlags, ← toNat_and_0x0F, ← toNat_and_0x0F]
  rfl

/-- A logic operation sets its flags in another order than the adder. -/
theorem logic_eq (r : Registers) (x : Byte) (op : LogicOperation) :
    r.logic x op = (((r.setFlag .ac (op == .and)).setFlag .cy false).setResultFlags
      (logicResult op (r.getRegister .a) x)).setRegister .a
        (logicResult op (r.getRegister .a) x) := by
  rw [logic, parityAccumulator_even, signed_eq_getLsbD]
  refine congrArg (fun flags : Registers =>
    flags.setRegister .a (logicResult op (r.getRegister .a) x)) ?_
  refine ext_getBit (fun reg hreg => ?_) fun i hi => ?_
  · simp only [setResultFlags, getRegister_setFlag_of_ne _ hreg]
  · -- bit by bit, the order in which the flags are written is no longer visible
    simp only [setResultFlags, getBit_setFlag _ _ _ hi]
    interval_cases i <;> simp [Flags.shift]
    rfl

/-- Incrementing adds 1 with no carry in. -/
theorem arithmeticResult_increment (r : Registers) (x : Byte) :
    r.arithmeticResult x 1 .add false = x + 1 := by
  rw [arithmeticResult_add]
  exact BitVec.add_zero _

theorem arithmeticResult_decrement (r : Registers) (x : Byte) :
    r.arithmeticResult x 1 .sub false = x - 1 := by
  rw [arithmeticResult_sub]
  exact BitVec.sub_zero _

theorem arithmeticFlags_increment (r : Registers) (x : Byte) :
    r.arithmeticFlags x 1 .add false false = r.incrementFlags x := by
  have hhalf : decide ((x &&& 0x0F).toNat + (1 &&& 0x0F : Byte).toNat + 0 > 0x0F) =
      decide (x.toNat % 16 = 15) := by
    rw [toNat_and_0x0F, toNat_and_0x0F, decide_eq_decide]
    have hone : (1 : Byte).toNat = 1 := rfl
    omega
  rw [incrementFlags, ← arithmeticResult_increment r, ← describe_eq_setResultFlags, ← hhalf]
  rfl

theorem arithmeticFlags_decrement (r : Registers) (x : Byte) :
    r.arithmeticFlags x 1 .sub false false = r.decrementFlags x := by
  have hhalf : decide ((x &&& 0x0F).toNat < (1 &&& 0x0F : Byte).toNat + 0) =
      decide (x.toNat % 16 = 0) := by
    rw [toNat_and_0x0F, toNat_and_0x0F, decide_eq_decide]
    have hone : (1 : Byte).toNat = 1 := rfl
    omega
  rw [decrementFlags, ← arithmeticResult_decrement r, ← describe_eq_setResultFlags, ← hhalf]
  rfl

/-- The wrap of a 16-bit sum is its carry. -/
theorem decide_add_lt (x y : Word) : decide (x + y < x) = decide (65536 ≤ x.toNat + y.toNat) := by
  rw [decide_eq_decide, BitVec.lt_def, BitVec.toNat_add]
  have hx := x.isLt
  have hy := y.isLt
  omega

theorem SameButScratch.apply {r r' : Registers} (h : r.SameButScratch r')
    (operation : AluOperation) (x : Byte) :
    (operation.apply r x).SameButScratch (operation.apply r' x) := by
  simp only [AluOperation.apply, h .a (by decide) (by decide), h.getFlag]
  have hflags := fun result ac cy =>
    ((((h.setFlag .ac ac).setFlag .cy cy).setFlag .z (decide (result = 0))).setFlag .p
      (evenParity result)).setFlag .s (result.getLsbD 7)
  split
  · exact hflags _ _ _
  · exact (hflags _ _ _).setRegister _ _

end Registers

namespace AluOperation

/-- What the code computes for an operation. -/
def compute (operation : AluOperation) (r : Registers) (x : Byte) : Registers :=
  match operation with
  | add => r.accumulate x .add false true
  | adc => r.accumulate x .add true true
  | sub => r.accumulate x .sub false true
  | sbb => r.accumulate x .sub true true
  | cmp => r.accumulate x .sub false false
  | ana => r.logic x .and
  | xra => r.logic x .xor
  | ora => r.logic x .or

/-- What the code computes for an operation is the operation. -/
theorem compute_eq_apply (operation : AluOperation) (r : Registers) (x : Byte) :
    operation.compute r x = operation.apply r x := by
  -- without a carry in, the adder adds or subtracts a zero
  have hadd : ∀ a : Byte, a + x + BitVec.ofNat 8 (r.carryIn false) = a + x := by
    intro a
    exact BitVec.add_zero (a + x)
  have hsub : ∀ a : Byte, a - x - BitVec.ofNat 8 (r.carryIn false) = a - x := by
    intro a
    exact BitVec.sub_zero (a - x)
  cases operation with
  | add =>
    rw [compute, Registers.accumulate, if_pos rfl, Registers.arithmeticFlags_add,
      Registers.arithmeticResult_add, hadd]
    rfl
  | adc =>
    rw [compute, Registers.accumulate, if_pos rfl, Registers.arithmeticFlags_add,
      Registers.arithmeticResult_add]
    rfl
  | sub =>
    rw [compute, Registers.accumulate, if_pos rfl, Registers.arithmeticFlags_sub,
      Registers.arithmeticResult_sub, hsub]
    rfl
  | sbb =>
    rw [compute, Registers.accumulate, if_pos rfl, Registers.arithmeticFlags_sub,
      Registers.arithmeticResult_sub]
    rfl
  | cmp =>
    rw [compute, Registers.accumulate, if_neg Bool.false_ne_true,
      Registers.arithmeticFlags_sub, hsub]
    rfl
  | ana => exact r.logic_eq x .and
  | xra => exact r.logic_eq x .xor
  | ora => exact r.logic_eq x .or

end AluOperation

/-! ### The table entries -/

namespace Instruction

/-- The template instance that runs an instruction. -/
def superfunction : Instruction → Superfunction
  | mov d s => .movOf (operandRegister d) (operandRegister s)
  | alu o (.operand s) => .aluOf (.ofCode o) (operandRegister s)
  | alu o .immediate => .aluImmediateOf (.ofCode o)
  | mvi d => .mviOf (operandRegister d)
  | inr d => .inrDcrOf .add (operandRegister d)
  | dcr d => .inrDcrOf .sub (operandRegister d)
  | lxi p => .lxiRRD16 (registerPair p)
  | inx p => .inxDcxRR (registerPair p) .add
  | dcx p => .inxDcxRR (registerPair p) .sub
  | dad p => .dadRR (registerPair p)
  | push p => .pushRR (stackPair p)
  | pop p => .popRR (stackPair p)

theorem ofOpcode_encode (i : Instruction) : Superfunction.ofOpcode i.encode = i.superfunction := by
  -- the opcodes with a pair code have a low field of four bits
  have hpair : ∀ p : BitVec 2,
      Superfunction.decode (0b00#2 ++ p ++ 0b0001#4) = .lxiRRD16 (registerPair p) ∧
      Superfunction.decode (0b00#2 ++ p ++ 0b0011#4) = .inxDcxRR (registerPair p) .add ∧
      Superfunction.decode (0b00#2 ++ p ++ 0b1011#4) = .inxDcxRR (registerPair p) .sub ∧
      Superfunction.decode (0b00#2 ++ p ++ 0b1001#4) = .dadRR (registerPair p) ∧
      Superfunction.decode (0b11#2 ++ p ++ 0b0101#4) = .pushRR (stackPair p) ∧
      Superfunction.decode (0b11#2 ++ p ++ 0b0001#4) = .popRR (stackPair p) := by decide
  cases i with
  | mov d s => exact Superfunction.ofOpcode_append _ _ _
  | alu o source => cases source <;> exact Superfunction.ofOpcode_append _ _ _
  | mvi d => exact Superfunction.ofOpcode_append _ _ _
  | inr d => exact Superfunction.ofOpcode_append _ _ _
  | dcr d => exact Superfunction.ofOpcode_append _ _ _
  | lxi p => exact (Superfunction.ofOpcode_eq_decode _).trans (hpair p).1
  | inx p => exact (Superfunction.ofOpcode_eq_decode _).trans (hpair p).2.1
  | dcx p => exact (Superfunction.ofOpcode_eq_decode _).trans (hpair p).2.2.1
  | dad p => exact (Superfunction.ofOpcode_eq_decode _).trans (hpair p).2.2.2.1
  | push p => exact (Superfunction.ofOpcode_eq_decode _).trans (hpair p).2.2.2.2.1
  | pop p => exact (Superfunction.ofOpcode_eq_decode _).trans (hpair p).2.2.2.2.2

end Instruction

/-! ### One cycle -/

namespace Instruction

variable [IOPort ι δ]

theorem mov_next (c : Cpu ι δ) (d s : BitVec 3) :
    (mov d s).superfunction.next c = (mov d s).exec c := by
  have hmemory : ∀ code : BitVec 3, operandRegister code = none ↔ code = 6 := by decide
  rw [superfunction, exec]
  -- a move from memory to memory is `HLT`
  by_cases hhlt : d = 6 ∧ s = 6
  · obtain ⟨rfl, rfl⟩ := hhlt
    rfl
  · rw [if_neg hhlt, Cpu.setOperand, Cpu.operand]
    cases hd : operandRegister d with
    | some reg => cases operandRegister s <;> rfl
    | none =>
      cases hs : operandRegister s with
      | some reg => rfl
      | none => exact absurd ⟨(hmemory d).mp hd, (hmemory s).mp hs⟩ hhlt

theorem aluOf_some_next (c : Cpu ι δ) (operation : AluOperation) (reg : Register) :
    (Superfunction.aluOf operation (some reg)).next c = { c with
      registers := operation.apply c.registers (c.registers.getRegister reg) } := by
  rw [← operation.compute_eq_apply]
  cases operation <;> rfl

/-- An ALU operation on memory, through `W`. -/
theorem aluOf_none_next (c : Cpu ι δ) (operation : AluOperation) :
    (Superfunction.aluOf operation none).next c = { c with
      registers := operation.apply (c.registers.setRegister .w c.getM) c.getM } := by
  rw [← operation.compute_eq_apply]
  cases operation <;> rfl

/-- An ALU operation on the immediate byte, through `W`. -/
theorem aluImmediateOf_next (c : Cpu ι δ) (operation : AluOperation) :
    (Superfunction.aluImmediateOf operation).next c = { c with
      pc := c.pc + 1
      registers := operation.apply (c.registers.setRegister .w c.operandByte) c.operandByte } := by
  rw [← operation.compute_eq_apply]
  cases operation <;> rfl

theorem alu_next (c : Cpu ι δ) (o : BitVec 3) (source : AluSource) :
    ((alu o source).superfunction.next c).SameButScratch ((alu o source).exec c) := by
  -- the memory and immediate forms leave their operand behind in `W`
  have hscratch : ∀ x, (AluOperation.apply (.ofCode o) (c.registers.setRegister .w x)
      x).SameButScratch (AluOperation.apply (.ofCode o) c.registers x) := by
    intro x
    exact ((Registers.SameButScratch.refl _).setRegister_left (.inl rfl) x).apply _ x
  cases source with
  | immediate =>
    rw [superfunction, exec, aluImmediateOf_next]
    exact ⟨rfl, hscratch _, rfl, rfl⟩
  | operand s =>
    rw [superfunction, exec, Cpu.operand]
    cases operandRegister s with
    | some reg =>
      rw [aluOf_some_next]
      exact ⟨rfl, .refl _, rfl, rfl⟩
    | none =>
      rw [aluOf_none_next]
      exact ⟨rfl, hscratch _, rfl, rfl⟩

theorem inrDcrOf_next (c : Cpu ι δ) (op : AritmeticOperation) (d : BitVec 3) :
    ((Superfunction.inrDcrOf op (operandRegister d)).next c).SameButScratch
      ((⟨c.pc, c.registers.arithmeticFlags (c.operand d) 1 op false false, c.latches,
          c.buses⟩ : Cpu ι δ).setOperand d
        (c.registers.arithmeticResult (c.operand d) 1 op false)) := by
  rw [Cpu.setOperand, Cpu.operand]
  cases operandRegister d with
  | some reg => exact ⟨rfl, .refl _, rfl, rfl⟩
  | none =>
    refine ⟨rfl, ?_, rfl, ?_⟩
    · exact (((Registers.SameButScratch.refl _).setRegister_left (.inl rfl) _).arithmeticFlags
        _ _ _ _ _).setRegister_left (.inl rfl) _
    · simp only [Cpu.hl]
      rw [Registers.getCombinedRegister_arithmeticFlags _ (by decide)]
      rfl

/-- The state the semantics gives is the one the code leaves, up to `W` and `Z`. -/
theorem superfunction_next (c : Cpu ι δ) (i : Instruction) :
    (i.superfunction.next c).SameButScratch (i.exec c) := by
  cases i with
  | mov d s =>
    rw [mov_next]
    exact ⟨rfl, .refl _, rfl, rfl⟩
  | alu o source => exact alu_next c o source
  | mvi d =>
    rw [superfunction, exec, Cpu.setOperand]
    cases operandRegister d <;> exact ⟨rfl, .refl _, rfl, rfl⟩
  | inr d =>
    rw [superfunction, exec, ← Registers.arithmeticFlags_increment,
      ← Registers.arithmeticResult_increment c.registers]
    exact inrDcrOf_next c .add d
  | dcr d =>
    rw [superfunction, exec, ← Registers.arithmeticFlags_decrement,
      ← Registers.arithmeticResult_decrement c.registers]
    exact inrDcrOf_next c .sub d
  | dcx p =>
    refine ⟨rfl, ?_, rfl, rfl⟩
    rw [exec, BitVec.sub_eq_add_neg]
    exact .refl _
  | dad p =>
    refine ⟨rfl, ?_, rfl, rfl⟩
    rw [exec, ← Registers.decide_add_lt]
    exact .refl _
  | lxi p => exact ⟨rfl, .refl _, rfl, rfl⟩
  | inx p => exact ⟨rfl, .refl _, rfl, rfl⟩
  | push p => exact ⟨rfl, .refl _, rfl, rfl⟩
  | pop p => exact ⟨rfl, .refl _, rfl, rfl⟩

end Instruction

namespace Cpu

variable [IOPort ι δ]

/-- Executing the opcode of an instruction does what the semantics says, up to `W` and
`Z`. -/
theorem cycle_sameButScratch_exec {c : Cpu ι δ} {i : Instruction}
    (h : c.cycleEvent = .exec i.encode) : c.cycle.SameButScratch (i.exec c.fetched) := by
  rw [cycle_eq_superfunction_next h, Instruction.ofOpcode_encode]
  exact i.superfunction_next c.fetched

end Cpu

/-! ### One operation, several forms -/

namespace Registers

/-- The register files have the same `F`. -/
def SameFlags (r r' : Registers) : Prop := r.getRegister .f = r'.getRegister .f

variable {r r' : Registers}

theorem SameFlags.setFlag (h : r.SameFlags r') (flag : Flags) (value : Bool) :
    (r.setFlag flag value).SameFlags (r'.setFlag flag value) := by
  rw [SameFlags] at h
  rw [SameFlags, Registers.setFlag, Registers.setFlag, getRegister_setRegister,
    getRegister_setRegister, h, if_pos rfl, if_pos rfl]

theorem SameFlags.setResultFlags (h : r.SameFlags r') (result : Byte) :
    (r.setResultFlags result).SameFlags (r'.setResultFlags result) :=
  ((h.setFlag _ _).setFlag _ _).setFlag _ _

theorem SameFlags.apply (h : r.SameFlags r') (ha : r.getRegister .a = r'.getRegister .a)
    (operation : AluOperation) (x : Byte) :
    (operation.apply r x).SameFlags (operation.apply r' x) ∧
      (operation.apply r x).getRegister .a = (operation.apply r' x).getRegister .a := by
  have hcy : r.getFlag .cy = r'.getFlag .cy := congrArg (getBit · _) h
  have hflags := fun ac cy result =>
    ((h.setFlag .ac ac).setFlag .cy cy).setResultFlags result
  have hkept : ∀ (s : Registers) ac cy result,
      (((s.setFlag .ac ac).setFlag .cy cy).setResultFlags result).getRegister .a =
        s.getRegister .a := by
    intro s ac cy result
    simp only [Registers.setResultFlags,
      getRegister_setFlag_of_ne _ (by decide : Register.a ≠ .f)]
  simp only [AluOperation.apply, ha, hcy]
  split
  · exact ⟨hflags _ _ _, by rw [hkept, hkept, ha]⟩
  · refine ⟨?_, by simp⟩
    simp only [SameFlags, getRegister_setRegister, reduceCtorEq, if_false]
    exact hflags _ _ _

end Registers

namespace Cpu

theorem setOperand_sameFlags (c : Cpu ι δ) (code : BitVec 3) (value : Byte) :
    (c.setOperand code value).registers.SameFlags c.registers := by
  have hoperand : ∀ code : BitVec 3, operandRegister code ≠ some .f := by decide
  rw [setOperand]
  cases h : operandRegister code with
  | none => rfl
  | some reg =>
    have hne : Register.f ≠ reg := fun hreg => hoperand code (hreg ▸ h)
    simp only [Registers.SameFlags, Registers.getRegister_setRegister, if_neg hne]

/-- Flags that are the same stay the same when operands are written. -/
theorem sameFlags_setOperand {c c' : Cpu ι δ} (h : c.registers.SameFlags c'.registers)
    (code code' : BitVec 3) (value value' : Byte) :
    (c.setOperand code value).registers.SameFlags (c'.setOperand code' value').registers := by
  rw [Registers.SameFlags, setOperand_sameFlags, setOperand_sameFlags]
  exact h

/-- An ALU instruction leaves the registers the operation gives for its operand. -/
theorem registers_exec_alu (c : Cpu ι δ) (o : BitVec 3) (source : AluSource) :
    ((Instruction.alu o source).exec c).registers =
      (AluOperation.ofCode o).apply c.registers (source.value c) := by
  cases source <;> rfl

variable [IOPort ι δ]

/-- Cycles leave the same flags if the semantics of their instructions do. -/
theorem sameFlags_cycle {c c' : Cpu ι δ} {i i' : Instruction}
    (h : c.cycleEvent = .exec i.encode) (h' : c'.cycleEvent = .exec i'.encode)
    (hexec : (i.exec c.fetched).registers.SameFlags (i'.exec c'.fetched).registers) :
    c.cycle.registers.SameFlags c'.cycle.registers := by
  have hf : Register.f ≠ .w ∧ Register.f ≠ .z := by decide
  rw [Registers.SameFlags, (cycle_sameButScratch_exec h).registers _ hf.1 hf.2,
    (cycle_sameButScratch_exec h').registers _ hf.1 hf.2]
  exact hexec

/-- **The opcode table implements the instruction set.** One cycle that executes the opcode
of an instruction does, up to `W` and `Z`, what the semantics says for its operands. In
particular an ALU operation gives the same `A` and the same flags in its register, memory
and immediate forms, and `INR` and `DCR` the same flags in their register and memory
forms, for the same operand byte. -/
theorem cycle_of_encode (c : Cpu ι δ) (i : Instruction) (h : c.cycleEvent = .exec i.encode) :
    c.cycle.SameButScratch (i.exec c.fetched) ∧
    ∀ c' : Cpu ι δ, c.registers.SameFlags c'.registers →
      (∀ o source source', i = .alu o source →
        c'.cycleEvent = .exec (Instruction.alu o source').encode →
        c.registers.getRegister .a = c'.registers.getRegister .a →
        source.value c.fetched = source'.value c'.fetched →
          c.cycle.registers.SameFlags c'.cycle.registers ∧
            c.cycle.registers.getRegister .a = c'.cycle.registers.getRegister .a) ∧
      (∀ d d', i = .inr d → c'.cycleEvent = .exec (Instruction.inr d').encode →
        c.fetched.operand d = c'.fetched.operand d' →
          c.cycle.registers.SameFlags c'.cycle.registers) ∧
      (∀ d d', i = .dcr d → c'.cycleEvent = .exec (Instruction.dcr d').encode →
        c.fetched.operand d = c'.fetched.operand d' →
          c.cycle.registers.SameFlags c'.cycle.registers) := by
  have hexec := cycle_sameButScratch_exec h
  refine ⟨hexec, fun c' hflags => ⟨?_, ?_, ?_⟩⟩
  · rintro o source source' rfl h' hacc hvalue
    have hexec' := cycle_sameButScratch_exec h'
    have hfetched : c.fetched.registers.SameFlags c'.fetched.registers := hflags
    obtain ⟨hf, ha⟩ := hfetched.apply hacc (.ofCode o) (source.value c.fetched)
    refine ⟨sameFlags_cycle h h' ?_, ?_⟩
    · rw [registers_exec_alu, registers_exec_alu, ← hvalue]
      exact hf
    · rw [hexec.registers .a (by decide) (by decide), hexec'.registers .a (by decide) (by decide),
        registers_exec_alu, registers_exec_alu, ← hvalue]
      exact ha
  · rintro d d' rfl h' hvalue
    refine sameFlags_cycle h h' (sameFlags_setOperand ?_ _ _ _ _)
    rw [hvalue]
    exact (hflags.setFlag _ _).setResultFlags _
  · rintro d d' rfl h' hvalue
    refine sameFlags_cycle h h' (sameFlags_setOperand ?_ _ _ _ _)
    rw [hvalue]
    exact (hflags.setFlag _ _).setResultFlags _

/-- `ADD M` at address 0 adds its own opcode to `A`. -/
theorem cycle_addM :
    (Cpu.new (Buses.mapMemory [0x86])).cycle.registers.getRegister .a = 0x86 := by
  have h := (cycle_of_encode (Cpu.new (Buses.mapMemory [0x86])) (.alu 0 (.operand 6))
    (by decide)).1
  rw [h.registers .a (by decide) (by decide)]
  decide

end Cpu

end Fake8080
