import Fake8080.Model.Cpu

/-!
# The instructions

One definition for each member function of `Fake8080` that implements an instruction, and
for each of the templates they share. Template parameters are arguments. Every function
returns the number of clock cycles of `OpcodesCycles.hpp` and the state afterwards;
`cycle` discards the number.
-/

namespace Fake8080

universe u v

/-! ### Clock cycles (`OpcodesCycles.hpp`) -/

section Cycles

def addAdcSubSbbCmpRCycles : Byte := 4
def addAdcSubSbbCmpMCycles : Byte := 7
def adiAciSuiSbiCpiD8Cycles : Byte := 7
def inrDcrRCycles : Byte := 5
def inrDcrMCycles : Byte := 10
def anaOraXraRCycles : Byte := 4
def anaOraXraMCycles : Byte := 7
def aniOriXriD8Cycles : Byte := 7
def rlcRrcRalRarCycles : Byte := 4
def stcDaaCmaCmcCycles : Byte := 4
def movRRCycles : Byte := 5
def mviRD8Cycles : Byte := 7
def movMRCycles : Byte := 7
def movRMCycles : Byte := 7
def mviMD8Cycles : Byte := 10
def inxDcxRRCycles : Byte := 5
def dadRRCycles : Byte := 10
def lxiCycles : Byte := 10
def shldCycles : Byte := 16
def lhldCycles : Byte := 16
def staxRRCycles : Byte := 7
def staA16Cycles : Byte := 13
def ldaxRRCycles : Byte := 7
def ldaA16Cycles : Byte := 13
def pushRRCycles : Byte := 11
def popRRCycles : Byte := 10
def xthlCycles : Byte := 18
def xchgCycles : Byte := 5
def jmpConditionalJumpA16Cycles : Byte := 10
def callA16Cycles : Byte := 17
def retCycles : Byte := 10
def sphlCycles : Byte := 5
def pchlCycles : Byte := 5
def ignoredCallCycles : Byte := 11
def takenConditionalRetCycles : Byte := 11
def ignoredRetCycles : Byte := 5
def rstCycles : Byte := 11
def nopCycles : Byte := 4
def eiDiCycles : Byte := 4
def inD8Cycles : Byte := 10
def outD8Cycles : Byte := 10
def hltCycles : Byte := 7

end Cycles

/-- A member function that implements an instruction. -/
abbrev Handler (ι : Type u) (δ : Type v) := Cpu ι δ → Byte × Cpu ι δ

namespace Cpu

variable {ι : Type u} {δ : Type v}

/-! ### Stack operations and `callAddress` -/

/-- `PUSH_RR`: high byte first, each below the other. -/
def pushRR (reg : CombinedRegister) : Handler ι δ := fun c =>
  let value := c.registers.getCombinedRegister reg
  let c := c.decreaseSP
  let c := c.write (c.registers.getCombinedRegister .sp) (getHighByte value)
  let c := c.decreaseSP
  let c := c.write (c.registers.getCombinedRegister .sp) (getLowByte value)
  (pushRRCycles, c)

/-- `POP_RR`: low byte first. -/
def popRR (reg : CombinedRegister) : Handler ι δ := fun c =>
  let lowByte := c.buses.read (c.registers.getCombinedRegister .sp)
  let c := c.increaseSP
  let highByte := c.buses.read (c.registers.getCombinedRegister .sp)
  let c := c.increaseSP
  (popRRCycles, c.setCombinedRegister reg (combineBytes highByte lowByte))

/-- `callAddress`: push `pc` through the scratch pair `WZ` and jump. -/
def callAddress (c : Cpu ι δ) (address : Word) : Cpu ι δ :=
  let addressToCall := address
  let c := c.setCombinedRegister .wz c.pc
  let c := (pushRR .wz c).2
  { c with pc := addressToCall }

/-! ### Arithmetic -/

/-- The template behind `ADD`, `ADC`, `SUB`, `SBB` and `CMP` on a register. -/
def addAdcSubSbbCmpR (reg : Register) (op : AritmeticOperation)
    (useCarry storeResult : Bool) : Handler ι δ := fun c =>
  let registerA := c.registers.getRegister .a
  let registerR := c.registers.getRegister reg
  let (result, c) := c.aritmeticOperation8bits registerA registerR op useCarry true
  let c := if storeResult then c.setRegister .a result else c
  (addAdcSubSbbCmpRCycles, c)

/-- The same on the byte at `HL`, loaded into `W` first. -/
def addAdcSubSbbCmpM (op : AritmeticOperation) (useCarry storeResult : Bool) :
    Handler ι δ := fun c =>
  let c := c.loadMtoW
  let c := (addAdcSubSbbCmpR .w op useCarry storeResult c).2
  (addAdcSubSbbCmpMCycles, c)

/-- The same on the immediate byte, loaded into `W` first. -/
def adiAciSuiSbiCpiD8 (op : AritmeticOperation) (useCarry storeResult : Bool) :
    Handler ι δ := fun c =>
  let (byte, c) := c.readNextByte
  let c := c.setRegister .w byte
  let c := (addAdcSubSbbCmpR .w op useCarry storeResult c).2
  (adiAciSuiSbiCpiD8Cycles, c)

/-- The template behind `INR` and `DCR` on a register. -/
def inrDcrR (reg : Register) (op : AritmeticOperation) : Handler ι δ := fun c =>
  let (result, c) := c.aritmeticOperation8bits (c.registers.getRegister reg) 1 op false false
  (inrDcrRCycles, c.setRegister reg result)

/-- The same on the byte at `HL`, through `W`. -/
def inrDcrM (op : AritmeticOperation) : Handler ι δ := fun c =>
  let c := c.loadMtoW
  let c := (inrDcrR .w op c).2
  (inrDcrMCycles, c.writeWtoM)

def addR (reg : Register) : Handler ι δ := addAdcSubSbbCmpR reg .add false true
def adcR (reg : Register) : Handler ι δ := addAdcSubSbbCmpR reg .add true true
def subR (reg : Register) : Handler ι δ := addAdcSubSbbCmpR reg .sub false true
def sbbR (reg : Register) : Handler ι δ := addAdcSubSbbCmpR reg .sub true true
def cmpR (reg : Register) : Handler ι δ := addAdcSubSbbCmpR reg .sub false false
def addM : Handler ι δ := addAdcSubSbbCmpM .add false true
def adcM : Handler ι δ := addAdcSubSbbCmpM .add true true
def subM : Handler ι δ := addAdcSubSbbCmpM .sub false true
def sbbM : Handler ι δ := addAdcSubSbbCmpM .sub true true
def cmpM : Handler ι δ := addAdcSubSbbCmpM .sub false false
def adiD8 : Handler ι δ := adiAciSuiSbiCpiD8 .add false true
def aciD8 : Handler ι δ := adiAciSuiSbiCpiD8 .add true true
def suiD8 : Handler ι δ := adiAciSuiSbiCpiD8 .sub false true
def sbiD8 : Handler ι δ := adiAciSuiSbiCpiD8 .sub true true
def cpiD8 : Handler ι δ := adiAciSuiSbiCpiD8 .sub false false
def inrR (reg : Register) : Handler ι δ := inrDcrR reg .add
def dcrR (reg : Register) : Handler ι δ := inrDcrR reg .sub
def inrM : Handler ι δ := inrDcrM .add
def dcrM : Handler ι δ := inrDcrM .sub

/-! ### Logic, rotation and single-flag instructions -/

/-- The template behind `ANA`, `ORA` and `XRA` on a register. -/
def anaOraXraR (reg : Register) (op : LogicOperation) : Handler ι δ := fun c =>
  let registerA := c.registers.getRegister .a
  let registerR := c.registers.getRegister reg
  let result := match op with
    | .and => registerA &&& registerR
    | .or => registerA ||| registerR
    | .xor => registerA ^^^ registerR
  let c := c.manageZeroFlag result
  let c := c.manageSignedFlag result
  let c := c.manageParityFlag result
  let c := c.setFlag .cy false
  let c := c.setFlag .ac (op == .and)
  (anaOraXraRCycles, c.setRegister .a result)

/-- The same on the byte at `HL`, loaded into `W` first. -/
def anaOraXraM (op : LogicOperation) : Handler ι δ := fun c =>
  let c := c.loadMtoW
  let c := (anaOraXraR .w op c).2
  (anaOraXraMCycles, c)

/-- The same on the immediate byte, loaded into `W` first. -/
def aniOriXriD8 (op : LogicOperation) : Handler ι δ := fun c =>
  let (byte, c) := c.readNextByte
  let c := c.setRegister .w byte
  let c := (anaOraXraR .w op c).2
  (aniOriXriD8Cycles, c)

/-- The template behind `RLC`, `RRC`, `RAL` and `RAR`. -/
def rlcRrcRalRarR (reg : Register) (direction : ShiftDirection) (rotateThrough : Bool) :
    Handler ι δ := fun c =>
  let registerValue := c.registers.getRegister reg
  let exitBitPosition := if direction = .right then 0 else 7
  let entryBitPosition := if direction = .right then 7 else 0
  let exitBit := getBit registerValue exitBitPosition
  let registerValue := if direction = .right then registerValue >>> 1 else registerValue <<< 1
  let entryBit := if rotateThrough then c.registers.getFlag .cy else exitBit
  let registerValue := setBit registerValue entryBitPosition entryBit
  let c := c.setFlag .cy exitBit
  (rlcRrcRalRarCycles, c.setRegister reg registerValue)

def anaR (reg : Register) : Handler ι δ := anaOraXraR reg .and
def oraR (reg : Register) : Handler ι δ := anaOraXraR reg .or
def xraR (reg : Register) : Handler ι δ := anaOraXraR reg .xor
def anaM : Handler ι δ := anaOraXraM .and
def oraM : Handler ι δ := anaOraXraM .or
def xraM : Handler ι δ := anaOraXraM .xor
def aniD8 : Handler ι δ := aniOriXriD8 .and
def oriD8 : Handler ι δ := aniOriXriD8 .or
def xriD8 : Handler ι δ := aniOriXriD8 .xor
def rlcR (reg : Register) : Handler ι δ := rlcRrcRalRarR reg .left false
def ralR (reg : Register) : Handler ι δ := rlcRrcRalRarR reg .left true
def rrcR (reg : Register) : Handler ι δ := rlcRrcRalRarR reg .right false
def rarR (reg : Register) : Handler ι δ := rlcRrcRalRarR reg .right true

def nop : Handler ι δ := fun c => (nopCycles, c)

def stc : Handler ι δ := fun c => (stcDaaCmaCmcCycles, c.setFlag .cy true)

def cma : Handler ι δ := fun c =>
  (stcDaaCmaCmcCycles, c.setRegister .a (~~~ c.registers.getRegister .a))

def cmc : Handler ι δ := fun c =>
  (stcDaaCmaCmcCycles, c.setFlag .cy (!c.registers.getFlag .cy))

/-- `DAA`: the second correction looks at the accumulator after the first. -/
def daa : Handler ι δ := fun c =>
  let accumulator := c.registers.getRegister .a
  let carry := c.registers.getFlag .cy
  let auxCarry := c.registers.getFlag .ac
  let accumulator :=
    if auxCarry || decide ((accumulator &&& 0x0F) > 9) then accumulator + 0x06
    else accumulator
  let correctHigh := carry || decide ((accumulator >>> 4) > 9)
  let accumulator := if correctHigh then accumulator + 0x60 else accumulator
  let carry := if correctHigh then true else carry
  let c := c.setRegister .a accumulator
  let c := c.setFlag .cy carry
  let c := c.manageZeroFlag accumulator
  let c := c.manageParityFlag accumulator
  let c := c.manageSignedFlag accumulator
  (stcDaaCmaCmcCycles, c)

/-! ### Moves and 16-bit operations -/

def movRR (source destination : Register) : Handler ι δ := fun c =>
  (movRRCycles, c.setRegister destination (c.registers.getRegister source))

def mviRD8 (reg : Register) : Handler ι δ := fun c =>
  let (byte, c) := c.readNextByte
  (mviRD8Cycles, c.setRegister reg byte)

def movMR (reg : Register) : Handler ι δ := fun c =>
  (movMRCycles, c.writeToM (c.registers.getRegister reg))

def movRM (reg : Register) : Handler ι δ := fun c =>
  (movRMCycles, c.setRegister reg (c.buses.read (c.registers.getCombinedRegister .hl)))

def mviMD8 : Handler ι δ := fun c =>
  let (byte, c) := c.readNextByte
  (mviMD8Cycles, c.writeToM byte)

/-- The template behind `INX` and `DCX`. -/
def inxDcxRR (reg : CombinedRegister) (op : AritmeticOperation) : Handler ι δ := fun c =>
  let result : Word := c.registers.getCombinedRegister reg + (if op = .add then 1 else -1)
  (inxDcxRRCycles, c.setCombinedRegister reg result)

def inxRR (reg : CombinedRegister) : Handler ι δ := inxDcxRR reg .add
def dcxRR (reg : CombinedRegister) : Handler ι δ := inxDcxRR reg .sub

/-- `DAD_RR`: the carry is the wrap of the truncated sum below `HL`. -/
def dadRR (reg : CombinedRegister) : Handler ι δ := fun c =>
  let hlValue := c.registers.getCombinedRegister .hl
  let rrValue := c.registers.getCombinedRegister reg
  let result : Word := hlValue + rrValue
  let c := if result < hlValue then c.setFlag .cy true else c.setFlag .cy false
  (dadRRCycles, c.setCombinedRegister .hl result)

def lxiRRD16 (reg : CombinedRegister) : Handler ι δ := fun c =>
  let (value, c) := c.readNextTwoBytes
  (lxiCycles, c.setCombinedRegister reg value)

def shldA16 : Handler ι δ := fun c =>
  let (address, c) := c.readNextTwoBytes
  (shldCycles, c.writeTwoBytes address (c.registers.getCombinedRegister .hl))

def lhldA16 : Handler ι δ := fun c =>
  let (address, c) := c.readNextTwoBytes
  (lhldCycles, c.setCombinedRegister .hl (c.readTwoBytes address))

def staxRR (reg : CombinedRegister) : Handler ι δ := fun c =>
  (staxRRCycles,
    c.write (c.registers.getCombinedRegister reg) (c.registers.getRegister .a))

def staA16 : Handler ι δ := fun c =>
  let (address, c) := c.readNextTwoBytes
  let c := c.setCombinedRegister .wz address
  let c := (staxRR .wz c).2
  (staA16Cycles, c)

def ldaxRR (reg : CombinedRegister) : Handler ι δ := fun c =>
  (ldaxRRCycles, c.setRegister .a (c.buses.read (c.registers.getCombinedRegister reg)))

def ldaA16 : Handler ι δ := fun c =>
  let (address, c) := c.readNextTwoBytes
  let c := c.setCombinedRegister .wz address
  let c := (ldaxRR .wz c).2
  (ldaA16Cycles, c)

def xthl : Handler ι δ := fun c =>
  let spValue := c.registers.getCombinedRegister .sp
  let hlValue := c.registers.getCombinedRegister .hl
  let stackValue := c.readTwoBytes spValue
  let c := c.writeTwoBytes spValue hlValue
  (xthlCycles, c.setCombinedRegister .hl stackValue)

def xchg : Handler ι δ := fun c =>
  let swapAux := c.registers.getCombinedRegister .hl
  let c := c.setCombinedRegister .hl (c.registers.getCombinedRegister .de)
  (xchgCycles, c.setCombinedRegister .de swapAux)

def sphl : Handler ι δ := fun c =>
  (sphlCycles, c.setCombinedRegister .sp (c.registers.getCombinedRegister .hl))

/-! ### Jumps, calls and returns -/

def pchl : Handler ι δ := fun c =>
  (pchlCycles, { c with pc := c.registers.getCombinedRegister .hl })

def jmpA16 : Handler ι δ := fun c =>
  let (address, c) := c.readNextTwoBytes
  (jmpConditionalJumpA16Cycles, { c with pc := address })

def callA16 : Handler ι δ := fun c =>
  let (address, c) := c.readNextTwoBytes
  (callA16Cycles, c.callAddress address)

def ret : Handler ι δ := fun c =>
  let c := (popRR .wz c).2
  (retCycles, { c with pc := c.registers.getCombinedRegister .wz })

/-- The template behind the conditional jumps: the operand is read before the test. -/
def conditionalJmpA16 (flagToVerify : Flags) (negate : Bool) : Handler ι δ := fun c =>
  let (addressToJump, c) := c.readNextTwoBytes
  let c := if c.registers.getFlag flagToVerify != negate then { c with pc := addressToJump }
    else c
  (jmpConditionalJumpA16Cycles, c)

/-- The template behind the conditional calls: the operand is read in either branch. -/
def conditionalCallA16 (flagToVerify : Flags) (negate : Bool) : Handler ι δ := fun c =>
  if c.registers.getFlag flagToVerify != negate then callA16 c
  else (ignoredCallCycles, c.readNextTwoBytes.2)

/-- The template behind the conditional returns. -/
def conditionalRet (flagToVerify : Flags) (negate : Bool) : Handler ι δ := fun c =>
  if c.registers.getFlag flagToVerify != negate then (takenConditionalRetCycles, (ret c).2)
  else (ignoredRetCycles, c)

def jmA16 : Handler ι δ := conditionalJmpA16 .s false
def jzA16 : Handler ι δ := conditionalJmpA16 .z false
def jcA16 : Handler ι δ := conditionalJmpA16 .cy false
def jpeA16 : Handler ι δ := conditionalJmpA16 .p false
def jpA16 : Handler ι δ := conditionalJmpA16 .s true
def jpoA16 : Handler ι δ := conditionalJmpA16 .p true
def jncA16 : Handler ι δ := conditionalJmpA16 .cy true
def jnzA16 : Handler ι δ := conditionalJmpA16 .z true
def czA16 : Handler ι δ := conditionalCallA16 .z false
def ccA16 : Handler ι δ := conditionalCallA16 .cy false
def cpeA16 : Handler ι δ := conditionalCallA16 .p false
def cmA16 : Handler ι δ := conditionalCallA16 .s false
def cnzA16 : Handler ι δ := conditionalCallA16 .z true
def cncA16 : Handler ι δ := conditionalCallA16 .cy true
def cpoA16 : Handler ι δ := conditionalCallA16 .p true
def cpA16 : Handler ι δ := conditionalCallA16 .s true
def rz : Handler ι δ := conditionalRet .z false
def rc : Handler ι δ := conditionalRet .cy false
def rpe : Handler ι δ := conditionalRet .p false
def rm : Handler ι δ := conditionalRet .s false
def rnz : Handler ι δ := conditionalRet .z true
def rnc : Handler ι δ := conditionalRet .cy true
def rpo : Handler ι δ := conditionalRet .p true
def rp : Handler ι δ := conditionalRet .s true

/-- `RST_N`, whose template parameter is at most 7. -/
def rstN (rstVector : Fin 8) : Handler ι δ := fun c =>
  (rstCycles, c.callAddress (BitVec.ofNat 16 (8 * rstVector)))

/-! ### Interrupt enable, I/O and halt -/

def ei : Handler ι δ := fun c =>
  (eiDiCycles, { c with latches := { c.latches with interruptsEnableRequested := true } })

def di : Handler ι δ := fun c =>
  (eiDiCycles, { c with latches := { c.latches with interruptsEnabled := false } })

def hlt : Handler ι δ := fun c =>
  (hltCycles, { c with latches := { c.latches with halted := true } })

variable [IOPort ι δ]

def inD8 : Handler ι δ := fun c =>
  let (port, c) := c.readNextByte
  let (byte, buses) := c.buses.inp port
  let c := { c with buses := buses }
  (inD8Cycles, c.setRegister .a byte)

def outD8 : Handler ι δ := fun c =>
  let (port, c) := c.readNextByte
  (outD8Cycles, { c with buses := c.buses.out port (c.registers.getRegister .a) })

end Cpu

end Fake8080
