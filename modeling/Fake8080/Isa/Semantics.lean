import Fake8080.Isa.Decode
import Fake8080.Step.Scratch

/-!
# The instruction set by its operands

What the instructions that work on operands mean, stated once for all operands. An
operand is read by `Cpu.operand` and written by `Cpu.setOperand`, whatever its code; an
ALU operation is `AluOperation.apply`, wherever its second operand comes from; and
`Instruction.exec` says what an instruction does to the state whose `pc` is past the
opcode. Results, carries and half carries are the numbers the architecture defines.
-/

namespace Fake8080

universe u v

variable {ι : Type u} {δ : Type v}

/-! ### The ALU -/

/-- The byte has an even number of set bits. -/
def evenParity (value : Byte) : Bool := (List.range 8).countP value.getLsbD % 2 == 0

/-- The register file with `S`, `Z` and `P` describing a result. -/
def Registers.setResultFlags (r : Registers) (result : Byte) : Registers :=
  ((r.setFlag .z (decide (result = 0))).setFlag .p (evenParity result)).setFlag .s
    (result.getLsbD 7)

namespace AluOperation

/-- The result of an operation on `A`, an operand and the carry. -/
def result (operation : AluOperation) (a x : Byte) (carry : Bool) : Byte :=
  match operation with
  | add => a + x
  | adc => a + x + BitVec.ofNat 8 carry.toNat
  | sub => a - x
  | sbb => a - x - BitVec.ofNat 8 carry.toNat
  | ana => a &&& x
  | xra => a ^^^ x
  | ora => a ||| x
  | cmp => a - x

/-- The carry out of bit 7, or the borrow into it. -/
def carryOut (operation : AluOperation) (a x : Byte) (carry : Bool) : Bool :=
  match operation with
  | add => decide (256 ≤ a.toNat + x.toNat)
  | adc => decide (256 ≤ a.toNat + x.toNat + carry.toNat)
  | sub => decide (a.toNat < x.toNat)
  | sbb => decide (a.toNat < x.toNat + carry.toNat)
  | cmp => decide (a.toNat < x.toNat)
  | ana | xra | ora => false

/-- The carry out of bit 3, or the borrow into it; set by `ANA`. -/
def halfCarryOut (operation : AluOperation) (a x : Byte) (carry : Bool) : Bool :=
  match operation with
  | add => decide (16 ≤ a.toNat % 16 + x.toNat % 16)
  | adc => decide (16 ≤ a.toNat % 16 + x.toNat % 16 + carry.toNat)
  | sub => decide (a.toNat % 16 < x.toNat % 16)
  | sbb => decide (a.toNat % 16 < x.toNat % 16 + carry.toNat)
  | cmp => decide (a.toNat % 16 < x.toNat % 16)
  | ana => true
  | xra | ora => false

/-- The register file after an operation on `A` and an operand. Only `CMP` keeps `A`. -/
def apply (operation : AluOperation) (r : Registers) (x : Byte) : Registers :=
  let a := r.getRegister .a
  let carry := r.getFlag .cy
  let result := operation.result a x carry
  let flags := ((r.setFlag .ac (operation.halfCarryOut a x carry)).setFlag .cy
    (operation.carryOut a x carry)).setResultFlags result
  if operation = cmp then flags else flags.setRegister .a result

end AluOperation

/-- The flags `INR` leaves: a carry out of bit 3 and the result; `CY` is kept. -/
def Registers.incrementFlags (r : Registers) (x : Byte) : Registers :=
  (r.setFlag .ac (decide (x.toNat % 16 = 15))).setResultFlags (x + 1)

/-- The flags `DCR` leaves: a borrow into bit 3 and the result; `CY` is kept. -/
def Registers.decrementFlags (r : Registers) (x : Byte) : Registers :=
  (r.setFlag .ac (decide (x.toNat % 16 = 0))).setResultFlags (x - 1)

/-! ### Operands -/

namespace Cpu

/-- The operand a code names. -/
def operand (c : Cpu ι δ) (code : BitVec 3) : Byte :=
  match operandRegister code with
  | some reg => c.registers.getRegister reg
  | none => c.buses.read c.hl

/-- The state with the operand a code names written. -/
def setOperand (c : Cpu ι δ) (code : BitVec 3) (value : Byte) : Cpu ι δ :=
  match operandRegister code with
  | some reg => { c with registers := c.registers.setRegister reg value }
  | none => { c with buses := c.buses.write c.hl value }

end Cpu

/-- Where the second operand of an ALU operation comes from. -/
inductive AluSource
  | operand (s : BitVec 3)
  | immediate
  deriving DecidableEq

/-- The second operand. -/
def AluSource.value (source : AluSource) (c : Cpu ι δ) : Byte :=
  match source with
  | operand s => c.operand s
  | immediate => c.operandByte

/-! ### Instructions -/

/-- An instruction of the groups that work on operands. -/
inductive Instruction
  | mov (d s : BitVec 3)
  | alu (o : BitVec 3) (source : AluSource)
  | mvi (d : BitVec 3)
  | inr (d : BitVec 3)
  | dcr (d : BitVec 3)
  | lxi (p : BitVec 2)
  | inx (p : BitVec 2)
  | dcx (p : BitVec 2)
  | dad (p : BitVec 2)
  | push (p : BitVec 2)
  | pop (p : BitVec 2)
  deriving DecidableEq

namespace Instruction

/-- The opcode of an instruction. -/
def encode : Instruction → Byte
  | mov d s => 0b01#2 ++ d ++ s
  | alu o (.operand s) => 0b10#2 ++ o ++ s
  | alu o .immediate => 0b11#2 ++ o ++ 0b110#3
  | mvi d => 0b00#2 ++ d ++ 0b110#3
  | inr d => 0b00#2 ++ d ++ 0b100#3
  | dcr d => 0b00#2 ++ d ++ 0b101#3
  | lxi p => 0b00#2 ++ p ++ 0b0001#4
  | inx p => 0b00#2 ++ p ++ 0b0011#4
  | dcx p => 0b00#2 ++ p ++ 0b1011#4
  | dad p => 0b00#2 ++ p ++ 0b1001#4
  | push p => 0b11#2 ++ p ++ 0b0101#4
  | pop p => 0b11#2 ++ p ++ 0b0001#4

/-- What an instruction does to a state whose `pc` is past the opcode. -/
def exec (c : Cpu ι δ) : Instruction → Cpu ι δ
  | mov d s =>
    if d = 6 ∧ s = 6 then { c with latches := { c.latches with halted := true } }
    else c.setOperand d (c.operand s)
  | alu o (.operand s) =>
    { c with registers := (AluOperation.ofCode o).apply c.registers (c.operand s) }
  | alu o .immediate =>
    { c with
      pc := c.pc + 1
      registers := (AluOperation.ofCode o).apply c.registers c.operandByte }
  | mvi d => ({ c with pc := c.pc + 1 } : Cpu ι δ).setOperand d c.operandByte
  | inr d =>
    ({ c with registers := c.registers.incrementFlags (c.operand d) } : Cpu ι δ).setOperand d
      (c.operand d + 1)
  | dcr d =>
    ({ c with registers := c.registers.decrementFlags (c.operand d) } : Cpu ι δ).setOperand d
      (c.operand d - 1)
  | lxi p =>
    { c with
      pc := c.pc + 2
      registers := c.registers.setCombinedRegister (registerPair p) c.operandWord }
  | inx p => c.setCombinedRegister (registerPair p)
      (c.registers.getCombinedRegister (registerPair p) + 1)
  | dcx p => c.setCombinedRegister (registerPair p)
      (c.registers.getCombinedRegister (registerPair p) - 1)
  | dad p =>
    let value := c.registers.getCombinedRegister (registerPair p)
    { c with
      registers := (c.registers.setFlag .cy
        (decide (65536 ≤ c.hl.toNat + value.toNat))).setCombinedRegister .hl (c.hl + value) }
  | push p =>
    let value := c.registers.getCombinedRegister (stackPair p)
    { c with
      registers := c.registers.setCombinedRegister .sp (c.sp - 2)
      buses := (c.buses.write (c.sp - 1) (getHighByte value)).write (c.sp - 2)
        (getLowByte value) }
  | pop p =>
    { c with
      registers := (c.registers.setCombinedRegister .sp (c.sp + 2)).setCombinedRegister
        (stackPair p) (c.readTwoBytes c.sp) }

end Instruction

/-! ### The code's arithmetic is the architecture's -/

namespace Registers

/-- The parity loop counts the set bits. -/
theorem parityAccumulator_even : ∀ value : Byte,
    (Cpu.parityAccumulator value % 2 == 0) = evenParity value := by
  decide

/-- The sign test reads bit 7. -/
theorem signed_eq_getLsbD : ∀ value : Byte, (value >>> 7 != 0) = value.getLsbD 7 := by
  decide

/-- The flag managers describe a result as the architecture does. -/
theorem describe_eq_setResultFlags (r : Registers) (result : Byte) :
    r.describe result = r.setResultFlags result := by
  rw [describe, setResultFlags, parityAccumulator_even, signed_eq_getLsbD]
  rfl

theorem toNat_and_0x0F (value : Byte) : (value &&& 0x0F).toNat = value.toNat % 16 := by
  rw [BitVec.toNat_and]
  exact Nat.and_two_pow_sub_one_eq_mod value.toNat 4

/-- The adder adds modulo 256. -/
theorem arithmeticResult_add (r : Registers) (a x : Byte) (useCarry : Bool) :
    r.arithmeticResult a x .add useCarry = a + x + BitVec.ofNat 8 (r.carryIn useCarry) := by
  -- the sum is formed in `int` and truncated once
  refine BitVec.eq_of_toNat_eq ?_
  simp [arithmeticResult, BitVec.toNat_ofInt]
  omega

theorem arithmeticResult_sub (r : Registers) (a x : Byte) (useCarry : Bool) :
    r.arithmeticResult a x .sub useCarry = a - x - BitVec.ofNat 8 (r.carryIn useCarry) := by
  -- the difference may be negative, down to `-256`, before it is truncated
  refine BitVec.eq_of_toNat_eq ?_
  simp [arithmeticResult, BitVec.toNat_ofInt]
  omega

end Registers

end Fake8080
