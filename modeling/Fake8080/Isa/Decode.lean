import Fake8080.Step.Superfunction

/-!
# Decoding an opcode by its bit fields

The opcodes of the 8080 are regular: the top two bits select a quadrant, and inside a
quadrant fixed fields name an operand, a register pair, an ALU operation or a condition.
`decode` is that reading of an opcode. The source instead lists 256 table entries by
hand; `ofOpcode_eq_decode` says that the table is the decoder.

Facts about every opcode are decided on the decoder, never on the table.
-/

namespace Fake8080

/-! ### The fields -/

/-- The register an operand code names; code 6 names the byte at `HL`. -/
def operandRegister (code : BitVec 3) : Option Register :=
  match code with
  | 0 => some .b
  | 1 => some .c
  | 2 => some .d
  | 3 => some .e
  | 4 => some .h
  | 5 => some .l
  | 6 => none
  | _ => some .a

/-- The pair a pair code names. -/
def registerPair (code : BitVec 2) : CombinedRegister :=
  match code with
  | 0 => .bc
  | 1 => .de
  | 2 => .hl
  | _ => .sp

/-- The pair a pair code names in `PUSH` and `POP`. -/
def stackPair (code : BitVec 2) : CombinedRegister :=
  match code with
  | 0 => .bc
  | 1 => .de
  | 2 => .hl
  | _ => .psw

/-- The flag a condition code tests and whether it must be clear. -/
def condition (code : BitVec 3) : Flags × Bool :=
  match code with
  | 0 => (.z, true)
  | 1 => (.z, false)
  | 2 => (.cy, true)
  | 3 => (.cy, false)
  | 4 => (.p, true)
  | 5 => (.p, false)
  | 6 => (.s, true)
  | _ => (.s, false)

/-- The ALU operations, in the order of their codes. -/
inductive AluOperation
  | add | adc | sub | sbb | ana | xra | ora | cmp
  deriving DecidableEq

/-- The operation an ALU code names. -/
def AluOperation.ofCode (code : BitVec 3) : AluOperation :=
  match code with
  | 0 => .add
  | 1 => .adc
  | 2 => .sub
  | 3 => .sbb
  | 4 => .ana
  | 5 => .xra
  | 6 => .ora
  | _ => .cmp

/-! ### What runs each group -/

namespace Superfunction

/-- A move between two operands; memory to memory is `HLT`. -/
def movOf (destination source : Option Register) : Superfunction :=
  match destination, source with
  | some reg, some reg' => .movRR reg' reg
  | some reg, none => .movRM reg
  | none, some reg' => .movMR reg'
  | none, none => .hlt

/-- An ALU operation on an operand. -/
def aluOf (operation : AluOperation) (source : Option Register) : Superfunction :=
  match operation, source with
  | .add, some reg => .addAdcSubSbbCmpR reg .add false true
  | .adc, some reg => .addAdcSubSbbCmpR reg .add true true
  | .sub, some reg => .addAdcSubSbbCmpR reg .sub false true
  | .sbb, some reg => .addAdcSubSbbCmpR reg .sub true true
  | .cmp, some reg => .addAdcSubSbbCmpR reg .sub false false
  | .ana, some reg => .anaOraXraR reg .and
  | .xra, some reg => .anaOraXraR reg .xor
  | .ora, some reg => .anaOraXraR reg .or
  | .add, none => .addAdcSubSbbCmpM .add false true
  | .adc, none => .addAdcSubSbbCmpM .add true true
  | .sub, none => .addAdcSubSbbCmpM .sub false true
  | .sbb, none => .addAdcSubSbbCmpM .sub true true
  | .cmp, none => .addAdcSubSbbCmpM .sub false false
  | .ana, none => .anaOraXraM .and
  | .xra, none => .anaOraXraM .xor
  | .ora, none => .anaOraXraM .or

/-- An ALU operation on the immediate byte. -/
def aluImmediateOf : AluOperation → Superfunction
  | .add => .adiAciSuiSbiCpiD8 .add false true
  | .adc => .adiAciSuiSbiCpiD8 .add true true
  | .sub => .adiAciSuiSbiCpiD8 .sub false true
  | .sbb => .adiAciSuiSbiCpiD8 .sub true true
  | .cmp => .adiAciSuiSbiCpiD8 .sub false false
  | .ana => .aniOriXriD8 .and
  | .xra => .aniOriXriD8 .xor
  | .ora => .aniOriXriD8 .or

/-- An immediate move to an operand. -/
def mviOf : Option Register → Superfunction
  | some reg => .mviRD8 reg
  | none => .mviMD8

/-- An increment or decrement of an operand. -/
def inrDcrOf (op : AritmeticOperation) : Option Register → Superfunction
  | some reg => .inrDcrR reg op
  | none => .inrDcrM op

/-- The accumulator instructions of the first quadrant. -/
def accumulatorOf (code : BitVec 3) : Superfunction :=
  match code with
  | 0 => .rlcRrcRalRarR .a .left false
  | 1 => .rlcRrcRalRarR .a .right false
  | 2 => .rlcRrcRalRarR .a .left true
  | 3 => .rlcRrcRalRarR .a .right true
  | 4 => .daa
  | 5 => .cma
  | 6 => .stc
  | _ => .cmc

/-- The loads and stores of the first quadrant. -/
def transferOf (code : BitVec 3) : Superfunction :=
  match code with
  | 0 => .staxRR .bc
  | 1 => .ldaxRR .bc
  | 2 => .staxRR .de
  | 3 => .ldaxRR .de
  | 4 => .shldA16
  | 5 => .lhldA16
  | 6 => .staA16
  | _ => .ldaA16

/-- The instructions of the last quadrant that have an opcode of their own. -/
def miscellaneousOf (code : BitVec 3) : Superfunction :=
  match code with
  | 2 => .outD8
  | 3 => .inD8
  | 4 => .xthl
  | 5 => .xchg
  | 6 => .di
  | 7 => .ei
  -- `0xC3` and its undocumented copy `0xCB`
  | _ => .jmpA16

/-- The first quadrant, by its low field `z` and high field `y`. -/
def decodeFirst (y z : BitVec 3) : Superfunction :=
  let pair := registerPair (y.extractLsb' 1 2)
  let odd := y.getLsbD 0
  match z with
  | 0 => .nop
  | 1 => if odd then .dadRR pair else .lxiRRD16 pair
  | 2 => transferOf y
  | 3 => .inxDcxRR pair (if odd then .sub else .add)
  | 4 => inrDcrOf .add (operandRegister y)
  | 5 => inrDcrOf .sub (operandRegister y)
  | 6 => mviOf (operandRegister y)
  | _ => accumulatorOf y

/-- The last quadrant, by its low field `z` and high field `y`. -/
def decodeLast (y z : BitVec 3) : Superfunction :=
  let pair := stackPair (y.extractLsb' 1 2)
  let odd := y.getLsbD 0
  match z with
  | 0 => .conditionalRet (condition y).1 (condition y).2
  | 1 => if odd then (if y = 5 then .pchl else if y = 7 then .sphl else .ret) else .popRR pair
  | 2 => .conditionalJmpA16 (condition y).1 (condition y).2
  | 3 => miscellaneousOf y
  | 4 => .conditionalCallA16 (condition y).1 (condition y).2
  | 5 => if odd then .callA16 else .pushRR pair
  | 6 => aluImmediateOf (.ofCode y)
  | _ => .rstN y.toFin

/-- What an opcode with given fields runs. -/
def decodeFields (x : BitVec 2) (y z : BitVec 3) : Superfunction :=
  match x with
  | 0 => decodeFirst y z
  | 1 => movOf (operandRegister y) (operandRegister z)
  | 2 => aluOf (.ofCode y) (operandRegister z)
  | _ => decodeLast y z

/-- What an opcode runs, read off its bit fields. -/
def decode (opcode : Byte) : Superfunction :=
  decodeFields (opcode.extractLsb' 6 2) (opcode.extractLsb' 3 3) (opcode.extractLsb' 0 3)

/-- **The opcode table is the decoder.** -/
theorem ofOpcode_eq_decode : ∀ opcode, ofOpcode opcode = decode opcode := by
  decide +kernel

/-- An opcode put together from its fields decodes by them. -/
theorem decode_append : ∀ (x : BitVec 2) (y z : BitVec 3),
    decode (x ++ y ++ z) = decodeFields x y z := by
  decide +kernel

/-- An opcode put together from its fields runs what they say. -/
theorem ofOpcode_append (x : BitVec 2) (y z : BitVec 3) :
    ofOpcode (x ++ y ++ z) = decodeFields x y z := by
  rw [ofOpcode_eq_decode, decode_append]

/-- A property the decoder has on every opcode the table has as well. -/
theorem ofOpcode_of_decode {P : Byte → Superfunction → Prop}
    (h : ∀ opcode, P opcode (decode opcode)) (opcode : Byte) : P opcode (ofOpcode opcode) := by
  rw [ofOpcode_eq_decode]
  exact h opcode

/-- Every entry of the opcode table has programmable arguments. -/
theorem programmable_ofOpcode (opcode : Byte) : (ofOpcode opcode).Programmable :=
  ofOpcode_of_decode (P := fun _ f => f.Programmable) (by decide +kernel) opcode

end Superfunction

end Fake8080
