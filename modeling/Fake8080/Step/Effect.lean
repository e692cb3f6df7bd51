import Fake8080.Step.Superfunction

/-!
# What an instruction does

`Superfunction.call_eq` says once, for every superfunction, what running it does: the next
`pc`, the next register file, the next latches, and the calls made on the buses, each an
explicit function of the state before. Everything proved later about instructions is
derived from this equation, and nothing later unfolds an instruction.

The bus part is a list of events, `footprint`; `Buses.performAll` carries the buses
through it. So the equation also says that an instruction touches the outside only through
the events of its footprint, in that order.
-/

namespace Fake8080

universe u v

variable {ι : Type u} {δ : Type v}

/-! ### Performing events on the buses -/

namespace Buses

variable [IOPort ι δ]

/-- The buses after one event. -/
def perform (b : Buses ι δ) : BusEvent ι → Buses ι δ
  | .write address value => b.write address value
  | .deviceIn device =>
    { b with
      devices := (IOPort.inp device b.devices).2
      log := b.log ++ [.deviceIn device] }
  | .deviceOut device value =>
    { b with
      devices := IOPort.out device value b.devices
      log := b.log ++ [.deviceOut device value] }

/-- The buses after a list of events, in order. -/
def performAll (b : Buses ι δ) (events : List (BusEvent ι)) : Buses ι δ :=
  events.foldl perform b

@[simp]
theorem performAll_nil (b : Buses ι δ) : b.performAll [] = b := rfl

@[simp]
theorem performAll_cons (b : Buses ι δ) (e : BusEvent ι) (events : List (BusEvent ι)) :
    b.performAll (e :: events) = (b.perform e).performAll events := rfl

/-- Performed events are logged, and nothing else is. -/
theorem log_performAll (b : Buses ι δ) (events : List (BusEvent ι)) :
    (b.performAll events).log = b.log ++ events := by
  induction events generalizing b with
  | nil => simp
  | cons e events ih =>
    have he : (b.perform e).log = b.log ++ [e] := by cases e <;> rfl
    rw [performAll_cons, ih, he, List.append_assoc, List.singleton_append]

@[simp]
theorem memoryBus_performAll (b : Buses ι δ) (events : List (BusEvent ι)) :
    (b.performAll events).memoryBus = b.memoryBus := by
  induction events generalizing b with
  | nil => rfl
  | cons e events ih =>
    rw [performAll_cons, ih]
    cases e <;> rfl

end Buses

/-! ### Operands and flags as functions of the state -/

namespace Cpu

/-- The byte at `pc`. -/
def operandByte (c : Cpu ι δ) : Byte := c.buses.read c.pc

/-- The little-endian word at `pc`. -/
def operandWord (c : Cpu ι δ) : Word :=
  combineBytes (c.buses.read (c.pc + 1)) (c.buses.read c.pc)

/-- The value of the stack pointer. -/
def sp (c : Cpu ι δ) : Word := c.registers.getCombinedRegister .sp

/-- The value of the pair `HL`. -/
def hl (c : Cpu ι δ) : Word := c.registers.getCombinedRegister .hl

/-- A flag, against the sense a conditional instruction tests it in. -/
def taken (c : Cpu ι δ) (flagToVerify : Flags) (negate : Bool) : Bool :=
  c.registers.getFlag flagToVerify != negate

/-- Fetching a word moves `pc` on by two. -/
theorem readNextTwoBytes_eq (c : Cpu ι δ) :
    c.readNextTwoBytes = (c.operandWord, { c with pc := c.pc + 2 }) := by
  have hpc : c.pc + 1 + 1 = c.pc + 2 := BitVec.add_assoc _ _ _
  simp only [readNextTwoBytes, readNextByte, operandWord, hpc]

end Cpu

namespace Registers

/-- The flags `Z`, `P` and `S` of a result. -/
def describe (r : Registers) (result : Byte) : Registers :=
  ((r.setFlag .z (result == 0)).setFlag .p (Cpu.parityAccumulator result % 2 == 0)).setFlag .s
    (result >>> 7 != 0)

/-- The carry into an operation. -/
def carryIn (r : Registers) (useCarry : Bool) : ℕ := (useCarry && r.getFlag .cy).toNat

/-- The register file after the 8-bit adder has set its flags. -/
def arithmeticFlags (r : Registers) (first second : Byte) (op : AritmeticOperation)
    (useCarry modifyCarry : Bool) : Registers :=
  let carry := r.carryIn useCarry
  let halfCarry := match op with
    | .add => decide ((first &&& 0x0F).toNat + (second &&& 0x0F).toNat + carry > 0x0F)
    | .sub => decide ((first &&& 0x0F).toNat < (second &&& 0x0F).toNat + carry)
  let carryOut := match op with
    | .add => decide (first.toNat + second.toNat + carry > 0xFF)
    | .sub => decide (first.toNat < second.toNat + carry)
  let result : Byte := BitVec.ofInt 8
    (first.toNat + (second.toNat + carry) * (if op = .add then 1 else -1))
  let r := r.setFlag .ac halfCarry
  (if modifyCarry then r.setFlag .cy carryOut else r).describe result

/-- The result of the 8-bit adder. -/
def arithmeticResult (r : Registers) (first second : Byte) (op : AritmeticOperation)
    (useCarry : Bool) : Byte :=
  BitVec.ofInt 8
    (first.toNat + (second.toNat + r.carryIn useCarry) * (if op = .add then 1 else -1))

theorem getCombinedRegister_arithmeticFlags (r : Registers) {reg : CombinedRegister}
    (h : reg ≠ .psw) (first second : Byte) (op : AritmeticOperation)
    (useCarry modifyCarry : Bool) :
    (r.arithmeticFlags first second op useCarry modifyCarry).getCombinedRegister reg =
      r.getCombinedRegister reg := by
  cases modifyCarry <;> simp only [arithmeticFlags, describe, if_true, if_false,
    Bool.false_eq_true, getCombinedRegister_setFlag _ h]

/-- The register file after an 8-bit operation of `A` and a byte. -/
def accumulate (r : Registers) (second : Byte) (op : AritmeticOperation)
    (useCarry storeResult : Bool) : Registers :=
  let flags := r.arithmeticFlags (r.getRegister .a) second op useCarry true
  if storeResult then
    flags.setRegister .a (r.arithmeticResult (r.getRegister .a) second op useCarry)
  else flags

/-- The result of a logic operation. -/
def logicResult (op : LogicOperation) (first second : Byte) : Byte :=
  match op with
  | .and => first &&& second
  | .or => first ||| second
  | .xor => first ^^^ second

/-- The register file after a logic operation of `A` and a byte. -/
def logic (r : Registers) (second : Byte) (op : LogicOperation) : Registers :=
  let result := logicResult op (r.getRegister .a) second
  (((((r.setFlag .z (result == 0)).setFlag .s (result >>> 7 != 0)).setFlag .p
    (Cpu.parityAccumulator result % 2 == 0)).setFlag .cy false).setFlag .ac
      (op == .and)).setRegister .a result

/-- The register file after a rotation. -/
def rotate (r : Registers) (reg : Register) (direction : ShiftDirection)
    (rotateThrough : Bool) : Registers :=
  let value := r.getRegister reg
  let exitBit := getBit value (if direction = .right then 0 else 7)
  let shifted := if direction = .right then value >>> 1 else value <<< 1
  let entryBit := if rotateThrough then r.getFlag .cy else exitBit
  (r.setFlag .cy exitBit).setRegister reg
    (setBit shifted (if direction = .right then 7 else 0) entryBit)

/-- The register file after a decimal adjustment. -/
def decimalAdjust (r : Registers) : Registers :=
  let a := r.getRegister .a
  let low := if r.getFlag .ac || decide ((a &&& 0x0F) > 9) then a + 0x06 else a
  let correctHigh := r.getFlag .cy || decide ((low >>> 4) > 9)
  let result := if correctHigh then low + 0x60 else low
  ((r.setRegister .a result).setFlag .cy
    (if correctHigh then true else r.getFlag .cy)).describe result

end Registers

/-! ### The effect of each superfunction -/

namespace Superfunction

/-- What an instruction does to the latches. -/
def latchEffect : Superfunction → Latches → Latches
  | .ei, l => { l with interruptsEnableRequested := true }
  | .di, l => { l with interruptsEnabled := false }
  | .hlt, l => { l with halted := true }
  | _, l => l

/-- The `pc` an instruction leaves, from a state whose `pc` is past the opcode. -/
def nextPc (c : Cpu ι δ) : Superfunction → Word
  | .adiAciSuiSbiCpiD8 .. | .aniOriXriD8 .. | .mviRD8 .. | .mviMD8 | .inD8 | .outD8 =>
    c.pc + 1
  | .lxiRRD16 .. | .shldA16 | .lhldA16 | .staA16 | .ldaA16 => c.pc + 2
  | .jmpA16 | .callA16 => c.operandWord
  | .conditionalJmpA16 flagToVerify negate | .conditionalCallA16 flagToVerify negate =>
    if c.taken flagToVerify negate then c.operandWord else c.pc + 2
  | .ret => c.readTwoBytes c.sp
  | .conditionalRet flagToVerify negate =>
    if c.taken flagToVerify negate then c.readTwoBytes c.sp else c.pc
  | .pchl => c.hl
  | .rstN rstVector => BitVec.ofNat 16 (8 * rstVector)
  | _ => c.pc

/-- The registers after a call of `callAddress` that pushes `returnAddress`. -/
def pushedRegisters (r : Registers) (returnAddress : Word) : Registers :=
  (r.setCombinedRegister .wz returnAddress).setCombinedRegister .sp
    (r.getCombinedRegister .sp - 2)

/-- The registers after a return to `returnAddress`. -/
def poppedRegisters (r : Registers) (returnAddress : Word) : Registers :=
  (r.setCombinedRegister .sp (r.getCombinedRegister .sp + 2)).setCombinedRegister .wz
    returnAddress

/-- The register file an instruction leaves. -/
def nextRegisters [IOPort ι δ] (c : Cpu ι δ) : Superfunction → Registers
  | .nop | .conditionalJmpA16 .. | .jmpA16 | .pchl | .ei | .di | .hlt | .outD8 => c.registers
  | .mviMD8 | .movMR .. | .shldA16 | .staxRR .. => c.registers
  | .stc => c.registers.setFlag .cy true
  | .cma => c.registers.setRegister .a (~~~ c.registers.getRegister .a)
  | .cmc => c.registers.setFlag .cy (!c.registers.getFlag .cy)
  | .daa => c.registers.decimalAdjust
  | .addAdcSubSbbCmpR reg op useCarry storeResult =>
    c.registers.accumulate (c.registers.getRegister reg) op useCarry storeResult
  | .addAdcSubSbbCmpM op useCarry storeResult =>
    (c.registers.setRegister .w c.getM).accumulate c.getM op useCarry storeResult
  | .adiAciSuiSbiCpiD8 op useCarry storeResult =>
    (c.registers.setRegister .w c.operandByte).accumulate c.operandByte op useCarry storeResult
  | .inrDcrR reg op =>
    (c.registers.arithmeticFlags (c.registers.getRegister reg) 1 op false false).setRegister reg
      (c.registers.arithmeticResult (c.registers.getRegister reg) 1 op false)
  | .inrDcrM op =>
    ((c.registers.setRegister .w c.getM).arithmeticFlags c.getM 1 op false false).setRegister .w
      (c.registers.arithmeticResult c.getM 1 op false)
  | .anaOraXraR reg op => c.registers.logic (c.registers.getRegister reg) op
  | .anaOraXraM op => (c.registers.setRegister .w c.getM).logic c.getM op
  | .aniOriXriD8 op => (c.registers.setRegister .w c.operandByte).logic c.operandByte op
  | .rlcRrcRalRarR reg direction rotateThrough =>
    c.registers.rotate reg direction rotateThrough
  | .movRR source destination =>
    c.registers.setRegister destination (c.registers.getRegister source)
  | .mviRD8 reg => c.registers.setRegister reg c.operandByte
  | .movRM reg => c.registers.setRegister reg c.getM
  | .inxDcxRR reg op => c.registers.setCombinedRegister reg
      (c.registers.getCombinedRegister reg + (if op = .add then 1 else -1))
  | .dadRR reg =>
    (c.registers.setFlag .cy
      (decide (c.hl + c.registers.getCombinedRegister reg < c.hl))).setCombinedRegister .hl
        (c.hl + c.registers.getCombinedRegister reg)
  | .lxiRRD16 reg => c.registers.setCombinedRegister reg c.operandWord
  | .lhldA16 => c.registers.setCombinedRegister .hl (c.readTwoBytes c.operandWord)
  | .staA16 => c.registers.setCombinedRegister .wz c.operandWord
  | .ldaxRR reg =>
    c.registers.setRegister .a (c.buses.read (c.registers.getCombinedRegister reg))
  | .ldaA16 => (c.registers.setCombinedRegister .wz c.operandWord).setRegister .a
      (c.buses.read c.operandWord)
  | .pushRR _ => c.registers.setCombinedRegister .sp (c.sp - 2)
  | .popRR reg =>
    (c.registers.setCombinedRegister .sp (c.sp + 2)).setCombinedRegister reg
      (c.readTwoBytes c.sp)
  | .xthl => c.registers.setCombinedRegister .hl (c.readTwoBytes c.sp)
  | .xchg => (c.registers.setCombinedRegister .hl
      (c.registers.getCombinedRegister .de)).setCombinedRegister .de c.hl
  | .sphl => c.registers.setCombinedRegister .sp c.hl
  | .callA16 => pushedRegisters c.registers (c.pc + 2)
  | .conditionalCallA16 flagToVerify negate =>
    if c.taken flagToVerify negate then pushedRegisters c.registers (c.pc + 2)
    else c.registers
  | .ret => poppedRegisters c.registers (c.readTwoBytes c.sp)
  | .conditionalRet flagToVerify negate =>
    if c.taken flagToVerify negate then poppedRegisters c.registers (c.readTwoBytes c.sp)
    else c.registers
  | .rstN _ => pushedRegisters c.registers c.pc
  | .inD8 => c.registers.setRegister .a (c.buses.inp c.operandByte).1

/-- A word pushed on the stack: high byte just below `SP`, low byte below that. -/
def pushEvents (sp value : Word) : List (BusEvent ι) :=
  [.write (sp - 1) (getHighByte value), .write (sp - 2) (getLowByte value)]

/-- A word stored at an address, low byte first. -/
def storeEvents (address value : Word) : List (BusEvent ι) :=
  [.write address (getLowByte value), .write (address + 1) (getHighByte value)]

/-- The calls an instruction makes on the buses. -/
def footprint (c : Cpu ι δ) : Superfunction → List (BusEvent ι)
  | .inrDcrM op => [.write c.hl (c.registers.arithmeticResult c.getM 1 op false)]
  | .movMR reg => [.write c.hl (c.registers.getRegister reg)]
  | .mviMD8 => [.write c.hl c.operandByte]
  | .shldA16 => storeEvents c.operandWord c.hl
  | .staxRR reg =>
    [.write (c.registers.getCombinedRegister reg) (c.registers.getRegister .a)]
  | .staA16 => [.write c.operandWord (c.registers.getRegister .a)]
  | .pushRR reg => pushEvents c.sp (c.registers.getCombinedRegister reg)
  | .xthl => storeEvents c.sp c.hl
  | .callA16 => pushEvents c.sp (c.pc + 2)
  | .conditionalCallA16 flagToVerify negate =>
    if c.taken flagToVerify negate then pushEvents c.sp (c.pc + 2) else []
  | .rstN _ => pushEvents c.sp c.pc
  | .inD8 => ((c.buses.ioBus.ports c.operandByte).map .deviceIn).toList
  | .outD8 => ((c.buses.ioBus.ports c.operandByte).map fun device =>
      .deviceOut device (c.registers.getRegister .a)).toList
  | _ => []

end Superfunction

/-! ### The families, one equation each -/

namespace Cpu

/-- The adder returns its result and sets the flags. -/
theorem aritmeticOperation8bits_eq (c : Cpu ι δ) (first second : Byte)
    (op : AritmeticOperation) (useCarry modifyCarry : Bool) :
    c.aritmeticOperation8bits first second op useCarry modifyCarry =
      (c.registers.arithmeticResult first second op useCarry,
        ⟨c.pc, c.registers.arithmeticFlags first second op useCarry modifyCarry, c.latches,
          c.buses⟩) := by
  -- `CY` is read again after `AC` is written, and is still the old one
  have hcy : ∀ value, (c.registers.setFlag .ac value).getFlag .cy = c.registers.getFlag .cy :=
    fun value => by rw [Registers.getFlag_setFlag, if_neg (by simp)]
  cases modifyCarry
  · rfl
  · simp only [aritmeticOperation8bits, manageAuxilaryCarryFlag, manageCarryFlag, carryValue,
      setFlag, hcy, if_true]
    rfl

theorem addAdcSubSbbCmpR_eq (c : Cpu ι δ) (reg : Register) (op : AritmeticOperation)
    (useCarry storeResult : Bool) :
    (addAdcSubSbbCmpR reg op useCarry storeResult c).2 =
      ⟨c.pc, c.registers.accumulate (c.registers.getRegister reg) op useCarry storeResult,
        c.latches, c.buses⟩ := by
  simp only [addAdcSubSbbCmpR, aritmeticOperation8bits_eq]
  cases storeResult <;> rfl

/-- `INR` and `DCR` on a register: `CY` is not an output of the adder. -/
theorem inrDcrR_eq (c : Cpu ι δ) (reg : Register) (op : AritmeticOperation) :
    (inrDcrR reg op c).2 =
      ⟨c.pc, (c.registers.arithmeticFlags (c.registers.getRegister reg) 1 op false
          false).setRegister reg
            (c.registers.arithmeticResult (c.registers.getRegister reg) 1 op false),
        c.latches, c.buses⟩ := by
  simp only [inrDcrR, aritmeticOperation8bits_eq]
  rfl

/-- `DAD`: the wrap of the sum is its carry. -/
theorem dadRR_eq (c : Cpu ι δ) (reg : CombinedRegister) :
    (dadRR reg c).2 = ⟨c.pc, (c.registers.setFlag .cy
        (decide (c.hl + c.registers.getCombinedRegister reg < c.hl))).setCombinedRegister .hl
          (c.hl + c.registers.getCombinedRegister reg), c.latches, c.buses⟩ := by
  simp only [dadRR, hl, setFlag, setCombinedRegister]
  split <;> rename_i h <;> simp [h]

/-- The memory form is the register form on `W`, once loaded. -/
theorem addAdcSubSbbCmpM_eq (c : Cpu ι δ) (op : AritmeticOperation)
    (useCarry storeResult : Bool) :
    (addAdcSubSbbCmpM op useCarry storeResult c).2 =
      ⟨c.pc, (c.registers.setRegister .w c.getM).accumulate c.getM op useCarry storeResult,
        c.latches, c.buses⟩ := by
  simp only [addAdcSubSbbCmpM, addAdcSubSbbCmpR_eq, loadMtoW, setRegister,
    Registers.getRegister_setRegister, reduceCtorEq, if_true, if_false]

/-- The immediate form is the register form on `W`, once loaded. -/
theorem adiAciSuiSbiCpiD8_eq (c : Cpu ι δ) (op : AritmeticOperation)
    (useCarry storeResult : Bool) :
    (adiAciSuiSbiCpiD8 op useCarry storeResult c).2 =
      ⟨c.pc + 1, (c.registers.setRegister .w c.operandByte).accumulate c.operandByte op useCarry
        storeResult, c.latches, c.buses⟩ := by
  simp only [adiAciSuiSbiCpiD8, readNextByte, addAdcSubSbbCmpR_eq, setRegister, operandByte,
    Registers.getRegister_setRegister, reduceCtorEq, if_true, if_false]

/-- `INR` and `DCR` on memory go through `W` and leave the result there. -/
theorem inrDcrM_eq [IOPort ι δ] (c : Cpu ι δ) (op : AritmeticOperation) :
    (inrDcrM op c).2 = ⟨c.pc, ((c.registers.setRegister .w c.getM).arithmeticFlags c.getM 1 op
        false false).setRegister .w (c.registers.arithmeticResult c.getM 1 op false), c.latches,
      c.buses.performAll [.write c.hl (c.registers.arithmeticResult c.getM 1 op false)]⟩ := by
  have hw : (c.registers.setRegister .w c.getM).getRegister .w = c.getM := by simp
  have hresult : (c.registers.setRegister .w c.getM).arithmeticResult c.getM 1 op false =
      c.registers.arithmeticResult c.getM 1 op false := rfl
  simp only [inrDcrM, loadMtoW, setRegister, inrDcrR_eq, hw, hresult, writeWtoM]
  generalize c.registers.arithmeticResult c.getM 1 op false = result
  -- neither `W` nor the flags move `HL`, so the store goes where the load came from
  have hhl : (((c.registers.setRegister .w c.getM).arithmeticFlags c.getM 1 op false
      false).setRegister .w result).getCombinedRegister .hl = c.hl := by
    rw [Registers.getCombinedRegister_setRegister_of_ne _ (by decide) (by decide),
      Registers.getCombinedRegister_arithmeticFlags _ (by decide),
      Registers.getCombinedRegister_setRegister_of_ne _ (by decide) (by decide), hl]
  rw [hhl, Registers.getRegister_setRegister, if_pos rfl, if_neg (by decide)]
  rfl

theorem anaOraXraR_eq (c : Cpu ι δ) (reg : Register) (op : LogicOperation) :
    (anaOraXraR reg op c).2 = ⟨c.pc, c.registers.logic (c.registers.getRegister reg) op,
      c.latches, c.buses⟩ := rfl

theorem anaOraXraM_eq (c : Cpu ι δ) (op : LogicOperation) :
    (anaOraXraM op c).2 = ⟨c.pc, (c.registers.setRegister .w c.getM).logic c.getM op,
      c.latches, c.buses⟩ := by
  simp only [anaOraXraM, anaOraXraR_eq, loadMtoW, setRegister,
    Registers.getRegister_setRegister, reduceCtorEq, if_true, if_false]

theorem aniOriXriD8_eq (c : Cpu ι δ) (op : LogicOperation) :
    (aniOriXriD8 op c).2 = ⟨c.pc + 1,
      (c.registers.setRegister .w c.operandByte).logic c.operandByte op, c.latches,
      c.buses⟩ := by
  simp only [aniOriXriD8, readNextByte, anaOraXraR_eq, setRegister, operandByte,
    Registers.getRegister_setRegister, reduceCtorEq, if_true, if_false]

variable [IOPort ι δ]

/-- A push: two writes below `SP`, which ends two lower. -/
theorem pushRR_eq (c : Cpu ι δ) (reg : CombinedRegister) :
    (pushRR reg c).2 = ⟨c.pc, c.registers.setCombinedRegister .sp (c.sp - 2), c.latches,
      c.buses.performAll
        (Superfunction.pushEvents c.sp (c.registers.getCombinedRegister reg))⟩ := by
  have hsub : ∀ x : Word, x - 1 - 1 = x - 2 := fun x => by rw [BitVec.sub_sub]; rfl
  have hsp : CombinedRegister.sp ≠ .psw := by decide
  simp only [pushRR, decreaseSP, setCombinedRegister, write, Superfunction.pushEvents,
    Registers.getCombinedRegister_setCombinedRegister_self _ hsp,
    Registers.setCombinedRegister_setCombinedRegister, hsub, sp]
  rfl

omit [IOPort ι δ] in
theorem popRR_eq (c : Cpu ι δ) (reg : CombinedRegister) :
    (popRR reg c).2 = ⟨c.pc, (c.registers.setCombinedRegister .sp (c.sp + 2)).setCombinedRegister
        reg (c.readTwoBytes c.sp), c.latches, c.buses⟩ := by
  have hadd : ∀ x : Word, x + 1 + 1 = x + 2 := fun x => by rw [BitVec.add_assoc]; rfl
  have hsp : CombinedRegister.sp ≠ .psw := by decide
  simp only [popRR, increaseSP, setCombinedRegister,
    Registers.getCombinedRegister_setCombinedRegister_self _ hsp,
    Registers.setCombinedRegister_setCombinedRegister, hadd, sp]
  rfl

/-- `callAddress` pushes `pc` and leaves it in `WZ`. -/
theorem callAddress_eq (c : Cpu ι δ) (address : Word) :
    c.callAddress address = ⟨address, Superfunction.pushedRegisters c.registers c.pc, c.latches,
      c.buses.performAll (Superfunction.pushEvents c.sp c.pc)⟩ := by
  have hsp : (c.registers.setCombinedRegister .wz c.pc).getCombinedRegister .sp = c.sp := by
    simp [Registers.getCombinedRegister, Registers.setCombinedRegister,
      Registers.combineRegisters, CombinedRegister.registerPairs, sp]
  have hwz : CombinedRegister.wz ≠ .psw := by decide
  simp only [callAddress, pushRR_eq, setCombinedRegister]
  simp only [sp] at hsp ⊢
  rw [hsp, Registers.getCombinedRegister_setCombinedRegister_self _ hwz]
  rfl

omit [IOPort ι δ] in
/-- A return leaves its target in `WZ` as well. -/
theorem ret_eq (c : Cpu ι δ) :
    (ret c).2 = ⟨c.readTwoBytes c.sp,
      Superfunction.poppedRegisters c.registers (c.readTwoBytes c.sp), c.latches, c.buses⟩ := by
  have hwz : CombinedRegister.wz ≠ .psw := by decide
  simp only [ret, popRR_eq, Registers.getCombinedRegister_setCombinedRegister_self _ hwz]
  rfl

/-- The input performs at most one device call. -/
theorem inp_snd (b : Buses ι δ) (port : Byte) :
    (b.inp port).2 = b.performAll ((b.ioBus.ports port).map BusEvent.deviceIn).toList := by
  rw [Buses.inp]
  cases b.ioBus.ports port <;> rfl

theorem out_eq (b : Buses ι δ) (port value : Byte) :
    b.out port value = b.performAll ((b.ioBus.ports port).map fun device =>
      BusEvent.deviceOut device value).toList := by
  rw [Buses.out]
  cases b.ioBus.ports port <;> rfl

end Cpu

namespace Superfunction

variable [IOPort ι δ]

/-- The state an instruction leaves, from a state whose `pc` is past the opcode. -/
def next (f : Superfunction) (c : Cpu ι δ) : Cpu ι δ :=
  ⟨f.nextPc c, f.nextRegisters c, f.latchEffect c.latches, c.buses.performAll (f.footprint c)⟩

/-- **The effect of an instruction.** Running a superfunction leaves the `pc`, the
registers and the latches the functions above give, and performs its footprint on the
buses. -/
theorem call_eq (f : Superfunction) (c : Cpu ι δ) : (f.call c).2 = f.next c := by
  cases f with
  | addAdcSubSbbCmpR reg op useCarry storeResult =>
    exact c.addAdcSubSbbCmpR_eq reg op useCarry storeResult
  | addAdcSubSbbCmpM op useCarry storeResult =>
    exact c.addAdcSubSbbCmpM_eq op useCarry storeResult
  | adiAciSuiSbiCpiD8 op useCarry storeResult =>
    exact c.adiAciSuiSbiCpiD8_eq op useCarry storeResult
  | inrDcrR reg op => exact c.inrDcrR_eq reg op
  | inrDcrM op => exact c.inrDcrM_eq op
  | anaOraXraM op => exact c.anaOraXraM_eq op
  | aniOriXriD8 op => exact c.aniOriXriD8_eq op
  | dadRR reg => exact c.dadRR_eq reg
  | pushRR reg => exact c.pushRR_eq reg
  | popRR reg => exact c.popRR_eq reg
  | ret => exact c.ret_eq
  | rstN rstVector => exact c.callAddress_eq _
  | lxiRRD16 reg => simp only [call, Cpu.lxiRRD16, Cpu.readNextTwoBytes_eq]; rfl
  | shldA16 => simp only [call, Cpu.shldA16, Cpu.readNextTwoBytes_eq]; rfl
  | lhldA16 => simp only [call, Cpu.lhldA16, Cpu.readNextTwoBytes_eq]; rfl
  | staA16 =>
    have hwz : CombinedRegister.wz ≠ .psw := by decide
    -- `WZ` holds the operand when `STAX` stores through it
    have ha : ∀ value, (c.registers.setCombinedRegister .wz value).getRegister .a =
        c.registers.getRegister .a := by
      intro value
      exact Registers.getRegister_setCombinedRegister_of_ne _ (by decide) (by decide) value
    simp only [call, Cpu.staA16, Cpu.readNextTwoBytes_eq, Cpu.setCombinedRegister, Cpu.staxRR,
      Registers.getCombinedRegister_setCombinedRegister_self _ hwz, ha]
    rfl
  | ldaA16 =>
    have hwz : CombinedRegister.wz ≠ .psw := by decide
    simp only [call, Cpu.ldaA16, Cpu.readNextTwoBytes_eq, Cpu.setCombinedRegister, Cpu.ldaxRR,
      Registers.getCombinedRegister_setCombinedRegister_self _ hwz]
    rfl
  | jmpA16 => simp only [call, Cpu.jmpA16, Cpu.readNextTwoBytes_eq]; rfl
  | callA16 => simp only [call, Cpu.callA16, Cpu.readNextTwoBytes_eq, Cpu.callAddress_eq]; rfl
  | conditionalJmpA16 flagToVerify negate =>
    -- the operand is fetched before the test, so an untaken jump moves on by two
    simp only [call, Cpu.conditionalJmpA16, Cpu.readNextTwoBytes_eq, Superfunction.next, nextPc]
    by_cases h : c.taken flagToVerify negate = true
    · have hflag : (c.registers.getFlag flagToVerify != negate) = true := h
      rw [if_pos h, if_pos hflag]
      rfl
    · have hflag : ¬ (c.registers.getFlag flagToVerify != negate) = true := h
      rw [if_neg h, if_neg hflag]
      rfl
  | conditionalCallA16 flagToVerify negate =>
    simp only [call, Cpu.conditionalCallA16, Cpu.callA16, Cpu.readNextTwoBytes_eq,
      Cpu.callAddress_eq, Superfunction.next, nextPc, nextRegisters, footprint]
    by_cases h : c.taken flagToVerify negate = true
    · have hflag : (c.registers.getFlag flagToVerify != negate) = true := h
      rw [if_pos h, if_pos h, if_pos h, if_pos hflag]
      rfl
    · have hflag : ¬ (c.registers.getFlag flagToVerify != negate) = true := h
      rw [if_neg h, if_neg h, if_neg h, if_neg hflag]
      rfl
  | conditionalRet flagToVerify negate =>
    simp only [call, Cpu.conditionalRet, Superfunction.next, nextPc, nextRegisters]
    by_cases h : c.taken flagToVerify negate = true
    · have hflag : (c.registers.getFlag flagToVerify != negate) = true := h
      rw [if_pos h, if_pos h, if_pos hflag, Cpu.ret_eq]
      rfl
    · have hflag : ¬ (c.registers.getFlag flagToVerify != negate) = true := h
      rw [if_neg h, if_neg h, if_neg hflag]
      rfl
  | inD8 => simp only [call, Cpu.inD8, Cpu.readNextByte, Cpu.inp_snd]; rfl
  | outD8 => simp only [call, Cpu.outD8, Cpu.readNextByte, Cpu.out_eq]; rfl
  -- what is left computes its effect as the functions above write it
  | nop => rfl
  | stc => rfl
  | cma => rfl
  | cmc => rfl
  | daa => rfl
  | anaOraXraR reg op => rfl
  | rlcRrcRalRarR reg direction rotateThrough => rfl
  | movRR source destination => rfl
  | mviRD8 reg => rfl
  | movMR reg => rfl
  | movRM reg => rfl
  | mviMD8 => rfl
  | inxDcxRR reg op => rfl
  | staxRR reg => rfl
  | ldaxRR reg => rfl
  | xthl => rfl
  | xchg => rfl
  | sphl => rfl
  | pchl => rfl
  | ei => rfl
  | di => rfl
  | hlt => rfl

end Superfunction

end Fake8080
