import Fake8080.Model.IOBus

/-!
# The CPU state and its helpers

The data members of the class `Fake8080` and the private helpers its instructions are
built from: operand fetch, stack pointer arithmetic, access through `HL`, two-byte memory
access, the flag managers, the 8-bit adder and `callAddress`'s push.

A member function becomes a function from the state before to the value returned, if any,
and the state after. Arithmetic the source does in `int` after promotion is done in `ℕ`
or `ℤ` and truncated where the source truncates.
-/

namespace Fake8080

universe u v

/-- The five members behind interrupts and `HLT`. -/
structure Latches where
  /-- `EI` was executed and the next cycle turns it into `interruptsEnabled`. -/
  interruptsEnableRequested : Bool
  /-- Interrupts are accepted. -/
  interruptsEnabled : Bool
  /-- An interrupt is pending. -/
  interruptRequested : Bool
  /-- The vector of the pending interrupt. -/
  interruptVectorRequested : Byte
  /-- The CPU is halted. -/
  halted : Bool
  deriving DecidableEq

/-- The default member initializers. -/
def Latches.initial : Latches where
  interruptsEnableRequested := false
  interruptsEnabled := false
  interruptRequested := false
  interruptVectorRequested := 0
  halted := false

/-- The class `Fake8080`, with what its two references reach. -/
structure Cpu (ι : Type u) (δ : Type v) where
  /-- The program counter. -/
  pc : Word
  /-- The register file. -/
  registers : Registers
  /-- The interrupt and halt latches. -/
  latches : Latches
  /-- The buses behind `memoryBus_m` and `IOBus_m`. -/
  buses : Buses ι δ

/-- `AritmeticOperation`. -/
inductive AritmeticOperation
  | add | sub
  deriving DecidableEq

/-- `LogicOperation`. -/
inductive LogicOperation
  | and | or | xor
  deriving DecidableEq

/-- `ShiftDirection`. -/
inductive ShiftDirection
  | right | left
  deriving DecidableEq

namespace Cpu

variable {ι : Type u} {δ : Type v}

/-- The constructor: a CPU on two buses, everything else at its default. -/
def new (buses : Buses ι δ) : Cpu ι δ := ⟨0, .initial, .initial, buses⟩

/-! ### Operand fetch -/

/-- `readNextByte`: the byte at `pc`, which moves on. -/
def readNextByte (c : Cpu ι δ) : Byte × Cpu ι δ :=
  (c.buses.read c.pc, { c with pc := c.pc + 1 })

/-- `readNextTwoBytes`: a little-endian word at `pc`. -/
def readNextTwoBytes (c : Cpu ι δ) : Word × Cpu ι δ :=
  let (lowByte, c) := c.readNextByte
  let (highByte, c) := c.readNextByte
  (combineBytes highByte lowByte, c)

/-! ### Registers and memory -/

/-- `registers_m.setRegister`. -/
def setRegister (c : Cpu ι δ) (reg : Register) (value : Byte) : Cpu ι δ :=
  { c with registers := c.registers.setRegister reg value }

/-- `registers_m.setCombinedRegister`. -/
def setCombinedRegister (c : Cpu ι δ) (reg : CombinedRegister) (value : Word) : Cpu ι δ :=
  { c with registers := c.registers.setCombinedRegister reg value }

/-- `registers_m.setFlag`. -/
def setFlag (c : Cpu ι δ) (flag : Flags) (value : Bool) : Cpu ι δ :=
  { c with registers := c.registers.setFlag flag value }

/-- `memoryBus_m.write`. -/
def write (c : Cpu ι δ) (address : Word) (value : Byte) : Cpu ι δ :=
  { c with buses := c.buses.write address value }

/-- `decreaseSP`. -/
def decreaseSP (c : Cpu ι δ) : Cpu ι δ :=
  c.setCombinedRegister .sp (c.registers.getCombinedRegister .sp - 1)

/-- `increaseSP`. -/
def increaseSP (c : Cpu ι δ) : Cpu ι δ :=
  c.setCombinedRegister .sp (c.registers.getCombinedRegister .sp + 1)

/-- `getM`: the byte `HL` points at. -/
def getM (c : Cpu ι δ) : Byte := c.buses.read (c.registers.getCombinedRegister .hl)

/-- `loadMtoW`. -/
def loadMtoW (c : Cpu ι δ) : Cpu ι δ := c.setRegister .w c.getM

/-- `writeWtoM`. -/
def writeWtoM (c : Cpu ι δ) : Cpu ι δ :=
  c.write (c.registers.getCombinedRegister .hl) (c.registers.getRegister .w)

/-- `writeToM`. -/
def writeToM (c : Cpu ι δ) (value : Byte) : Cpu ι δ :=
  c.write (c.registers.getCombinedRegister .hl) value

/-- `writeTwoBytes`: low byte first. -/
def writeTwoBytes (c : Cpu ι δ) (address value : Word) : Cpu ι δ :=
  let c := c.write address (getLowByte value)
  c.write (address + 1) (getHighByte value)

/-- `readTwoBytes`. -/
def readTwoBytes (c : Cpu ι δ) (address : Word) : Word :=
  combineBytes (c.buses.read (address + 1)) (c.buses.read address)

/-! ### Flags and the 8-bit adder -/

/-- `manageZeroFlag`. -/
def manageZeroFlag (c : Cpu ι δ) (value : Byte) : Cpu ι δ := c.setFlag .z (value == 0)

/-- The parity loop: the number of set bits among the eight of `value`. -/
def parityAccumulator (value : Byte) : Byte :=
  (List.range 8).foldl (fun accumulator i => accumulator + ((value >>> i) &&& 1)) 0

/-- `manageParityFlag`. -/
def manageParityFlag (c : Cpu ι δ) (value : Byte) : Cpu ι δ :=
  c.setFlag .p (parityAccumulator value % 2 == 0)

/-- `manageSignedFlag`. -/
def manageSignedFlag (c : Cpu ι δ) (value : Byte) : Cpu ι δ :=
  c.setFlag .s (value >>> 7 != 0)

/-- The `carryValue` of the flag managers: `CY` if the operation uses it. -/
def carryValue (c : Cpu ι δ) (useCarry : Bool) : ℕ :=
  (useCarry && c.registers.getFlag .cy).toNat

/-- `manageCarryFlag`. -/
def manageCarryFlag (c : Cpu ι δ) (first second : Byte) (op : AritmeticOperation)
    (useCarry : Bool) : Cpu ι δ :=
  let carryValue := c.carryValue useCarry
  let isCarry := match op with
    | .add => decide (first.toNat + second.toNat + carryValue > 0xFF)
    | .sub => decide (first.toNat < second.toNat + carryValue)
  c.setFlag .cy isCarry

/-- `manageAuxilaryCarryFlag`. -/
def manageAuxilaryCarryFlag (c : Cpu ι δ) (first second : Byte) (op : AritmeticOperation)
    (useCarry : Bool) : Cpu ι δ :=
  let carryValue := c.carryValue useCarry
  let isHalfCarry := match op with
    | .add => decide ((first &&& 0x0F).toNat + (second &&& 0x0F).toNat + carryValue > 0x0F)
    | .sub => decide ((first &&& 0x0F).toNat < (second &&& 0x0F).toNat + carryValue)
  c.setFlag .ac isHalfCarry

/-- `aritmeticOperation_8bits`: the result and the flags of an addition or subtraction.
`AC` is computed before `CY` is overwritten. -/
def aritmeticOperation8bits (c : Cpu ι δ) (first second : Byte) (op : AritmeticOperation)
    (useCarry modifyCarry : Bool) : Byte × Cpu ι δ :=
  let result : Byte := BitVec.ofInt 8
    (first.toNat + (second.toNat + c.carryValue useCarry) * (if op = .add then 1 else -1))
  let c := c.manageAuxilaryCarryFlag first second op useCarry
  let c := if modifyCarry then c.manageCarryFlag first second op useCarry else c
  let c := c.manageZeroFlag result
  let c := c.manageParityFlag result
  let c := c.manageSignedFlag result
  (result, c)

end Cpu

end Fake8080
