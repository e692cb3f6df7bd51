import Fake8080.Model.Cycle

/-!
# The instruction set by superfunctions

Most of the 91 member functions in the opcode table only instantiate one of the shared
templates, which the source calls superfunctions. `Superfunction` lists the templates and
the functions that stand alone, and `MemberFunction.superfunction` says which one, with
which arguments, each entry of the table runs. A statement about every instruction is
proved by one case for each superfunction.

`Superfunction.Programmable` records which template arguments occur in the table: the
seven operand registers and the pairs a program can name, never the scratch registers `W`
and `Z`.
-/

namespace Fake8080

universe u v

/-- A shared template, or a member function that uses none, with its arguments. -/
inductive Superfunction
  | nop | stc | cma | cmc | daa
  | addAdcSubSbbCmpR (reg : Register) (op : AritmeticOperation) (useCarry storeResult : Bool)
  | addAdcSubSbbCmpM (op : AritmeticOperation) (useCarry storeResult : Bool)
  | adiAciSuiSbiCpiD8 (op : AritmeticOperation) (useCarry storeResult : Bool)
  | inrDcrR (reg : Register) (op : AritmeticOperation)
  | inrDcrM (op : AritmeticOperation)
  | anaOraXraR (reg : Register) (op : LogicOperation)
  | anaOraXraM (op : LogicOperation)
  | aniOriXriD8 (op : LogicOperation)
  | rlcRrcRalRarR (reg : Register) (direction : ShiftDirection) (rotateThrough : Bool)
  | movRR (source destination : Register)
  | mviRD8 (reg : Register)
  | movMR (reg : Register)
  | movRM (reg : Register)
  | mviMD8
  | inxDcxRR (reg : CombinedRegister) (op : AritmeticOperation)
  | dadRR (reg : CombinedRegister)
  | lxiRRD16 (reg : CombinedRegister)
  | shldA16 | lhldA16
  | staxRR (reg : CombinedRegister)
  | staA16
  | ldaxRR (reg : CombinedRegister)
  | ldaA16
  | pushRR (reg : CombinedRegister)
  | popRR (reg : CombinedRegister)
  | xthl | xchg | sphl | pchl | jmpA16
  | conditionalJmpA16 (flagToVerify : Flags) (negate : Bool)
  | callA16
  | conditionalCallA16 (flagToVerify : Flags) (negate : Bool)
  | ret
  | conditionalRet (flagToVerify : Flags) (negate : Bool)
  | rstN (rstVector : Fin 8)
  | ei | di | inD8 | outD8 | hlt
  deriving DecidableEq

namespace Superfunction

/-- The function a superfunction names. -/
def call {ι : Type u} {δ : Type v} [IOPort ι δ] : Superfunction → Handler ι δ
  | nop => Cpu.nop
  | stc => Cpu.stc
  | cma => Cpu.cma
  | cmc => Cpu.cmc
  | daa => Cpu.daa
  | addAdcSubSbbCmpR reg op useCarry storeResult =>
    Cpu.addAdcSubSbbCmpR reg op useCarry storeResult
  | addAdcSubSbbCmpM op useCarry storeResult => Cpu.addAdcSubSbbCmpM op useCarry storeResult
  | adiAciSuiSbiCpiD8 op useCarry storeResult =>
    Cpu.adiAciSuiSbiCpiD8 op useCarry storeResult
  | inrDcrR reg op => Cpu.inrDcrR reg op
  | inrDcrM op => Cpu.inrDcrM op
  | anaOraXraR reg op => Cpu.anaOraXraR reg op
  | anaOraXraM op => Cpu.anaOraXraM op
  | aniOriXriD8 op => Cpu.aniOriXriD8 op
  | rlcRrcRalRarR reg direction rotateThrough =>
    Cpu.rlcRrcRalRarR reg direction rotateThrough
  | movRR source destination => Cpu.movRR source destination
  | mviRD8 reg => Cpu.mviRD8 reg
  | movMR reg => Cpu.movMR reg
  | movRM reg => Cpu.movRM reg
  | mviMD8 => Cpu.mviMD8
  | inxDcxRR reg op => Cpu.inxDcxRR reg op
  | dadRR reg => Cpu.dadRR reg
  | lxiRRD16 reg => Cpu.lxiRRD16 reg
  | shldA16 => Cpu.shldA16
  | lhldA16 => Cpu.lhldA16
  | staxRR reg => Cpu.staxRR reg
  | staA16 => Cpu.staA16
  | ldaxRR reg => Cpu.ldaxRR reg
  | ldaA16 => Cpu.ldaA16
  | pushRR reg => Cpu.pushRR reg
  | popRR reg => Cpu.popRR reg
  | xthl => Cpu.xthl
  | xchg => Cpu.xchg
  | sphl => Cpu.sphl
  | pchl => Cpu.pchl
  | jmpA16 => Cpu.jmpA16
  | conditionalJmpA16 flagToVerify negate => Cpu.conditionalJmpA16 flagToVerify negate
  | callA16 => Cpu.callA16
  | conditionalCallA16 flagToVerify negate => Cpu.conditionalCallA16 flagToVerify negate
  | ret => Cpu.ret
  | conditionalRet flagToVerify negate => Cpu.conditionalRet flagToVerify negate
  | rstN rstVector => Cpu.rstN rstVector
  | ei => Cpu.ei
  | di => Cpu.di
  | inD8 => Cpu.inD8
  | outD8 => Cpu.outD8
  | hlt => Cpu.hlt

end Superfunction

/-- The superfunction a member function instantiates. -/
def MemberFunction.superfunction : MemberFunction → Superfunction
  | addR reg => .addAdcSubSbbCmpR reg .add false true
  | adcR reg => .addAdcSubSbbCmpR reg .add true true
  | subR reg => .addAdcSubSbbCmpR reg .sub false true
  | sbbR reg => .addAdcSubSbbCmpR reg .sub true true
  | cmpR reg => .addAdcSubSbbCmpR reg .sub false false
  | addM => .addAdcSubSbbCmpM .add false true
  | adcM => .addAdcSubSbbCmpM .add true true
  | subM => .addAdcSubSbbCmpM .sub false true
  | sbbM => .addAdcSubSbbCmpM .sub true true
  | cmpM => .addAdcSubSbbCmpM .sub false false
  | adiD8 => .adiAciSuiSbiCpiD8 .add false true
  | aciD8 => .adiAciSuiSbiCpiD8 .add true true
  | suiD8 => .adiAciSuiSbiCpiD8 .sub false true
  | sbiD8 => .adiAciSuiSbiCpiD8 .sub true true
  | cpiD8 => .adiAciSuiSbiCpiD8 .sub false false
  | inrR reg => .inrDcrR reg .add
  | dcrR reg => .inrDcrR reg .sub
  | inrM => .inrDcrM .add
  | dcrM => .inrDcrM .sub
  | anaR reg => .anaOraXraR reg .and
  | oraR reg => .anaOraXraR reg .or
  | xraR reg => .anaOraXraR reg .xor
  | anaM => .anaOraXraM .and
  | oraM => .anaOraXraM .or
  | xraM => .anaOraXraM .xor
  | aniD8 => .aniOriXriD8 .and
  | oriD8 => .aniOriXriD8 .or
  | xriD8 => .aniOriXriD8 .xor
  | rlcR reg => .rlcRrcRalRarR reg .left false
  | ralR reg => .rlcRrcRalRarR reg .left true
  | rrcR reg => .rlcRrcRalRarR reg .right false
  | rarR reg => .rlcRrcRalRarR reg .right true
  | nop => .nop
  | stc => .stc
  | cma => .cma
  | cmc => .cmc
  | daa => .daa
  | movRR source destination => .movRR source destination
  | mviRD8 reg => .mviRD8 reg
  | movMR reg => .movMR reg
  | movRM reg => .movRM reg
  | mviMD8 => .mviMD8
  | inxRR reg => .inxDcxRR reg .add
  | dcxRR reg => .inxDcxRR reg .sub
  | dadRR reg => .dadRR reg
  | lxiRRD16 reg => .lxiRRD16 reg
  | shldA16 => .shldA16
  | lhldA16 => .lhldA16
  | staxRR reg => .staxRR reg
  | staA16 => .staA16
  | ldaxRR reg => .ldaxRR reg
  | ldaA16 => .ldaA16
  | pushRR reg => .pushRR reg
  | popRR reg => .popRR reg
  | xthl => .xthl
  | xchg => .xchg
  | sphl => .sphl
  | pchl => .pchl
  | jmpA16 => .jmpA16
  | jmA16 => .conditionalJmpA16 .s false
  | jzA16 => .conditionalJmpA16 .z false
  | jcA16 => .conditionalJmpA16 .cy false
  | jpeA16 => .conditionalJmpA16 .p false
  | jpA16 => .conditionalJmpA16 .s true
  | jpoA16 => .conditionalJmpA16 .p true
  | jncA16 => .conditionalJmpA16 .cy true
  | jnzA16 => .conditionalJmpA16 .z true
  | callA16 => .callA16
  | czA16 => .conditionalCallA16 .z false
  | ccA16 => .conditionalCallA16 .cy false
  | cpeA16 => .conditionalCallA16 .p false
  | cmA16 => .conditionalCallA16 .s false
  | cnzA16 => .conditionalCallA16 .z true
  | cncA16 => .conditionalCallA16 .cy true
  | cpoA16 => .conditionalCallA16 .p true
  | cpA16 => .conditionalCallA16 .s true
  | ret => .ret
  | rz => .conditionalRet .z false
  | rc => .conditionalRet .cy false
  | rpe => .conditionalRet .p false
  | rm => .conditionalRet .s false
  | rnz => .conditionalRet .z true
  | rnc => .conditionalRet .cy true
  | rpo => .conditionalRet .p true
  | rp => .conditionalRet .s true
  | rstN rstVector => .rstN rstVector
  | ei => .ei
  | di => .di
  | inD8 => .inD8
  | outD8 => .outD8
  | hlt => .hlt

/-- A member function is its superfunction at its arguments. -/
theorem MemberFunction.call_eq_superfunction {ι : Type u} {δ : Type v} [IOPort ι δ]
    (f : MemberFunction) : f.call (ι := ι) (δ := δ) = f.superfunction.call := by
  cases f <;> rfl

/-- The superfunction behind an opcode. -/
def Superfunction.ofOpcode (opcode : Byte) : Superfunction :=
  (MemberFunction.ofOpcode opcode).superfunction

/-- A register an operand field can name. -/
def Register.IsOperand (reg : Register) : Prop :=
  reg = .a ∨ reg = .b ∨ reg = .c ∨ reg = .d ∨ reg = .e ∨ reg = .h ∨ reg = .l

instance (reg : Register) : Decidable reg.IsOperand := by
  unfold Register.IsOperand
  infer_instance

namespace Superfunction

/-- The arguments name registers a program can name. -/
def Programmable : Superfunction → Prop
  | addAdcSubSbbCmpR reg _ _ _ => reg.IsOperand
  | inrDcrR reg _ => reg.IsOperand
  | anaOraXraR reg _ => reg.IsOperand
  | rlcRrcRalRarR reg _ _ => reg.IsOperand
  | movRR source destination => source.IsOperand ∧ destination.IsOperand
  | mviRD8 reg => reg.IsOperand
  | movMR reg => reg.IsOperand
  | movRM reg => reg.IsOperand
  | inxDcxRR reg _ => reg ≠ .wz ∧ reg ≠ .psw
  | dadRR reg => reg ≠ .wz ∧ reg ≠ .psw
  | lxiRRD16 reg => reg ≠ .wz ∧ reg ≠ .psw
  | staxRR reg => reg ≠ .wz ∧ reg ≠ .psw
  | ldaxRR reg => reg ≠ .wz ∧ reg ≠ .psw
  | pushRR reg => reg ≠ .wz ∧ reg ≠ .sp
  | popRR reg => reg ≠ .wz ∧ reg ≠ .sp
  | _ => True

instance (f : Superfunction) : Decidable f.Programmable := by
  unfold Programmable
  split <;> infer_instance

end Superfunction

namespace Cpu

variable {ι : Type u} {δ : Type v} [IOPort ι δ]

/-- Executing an instruction runs its superfunction on the fetched state. -/
theorem cycle_of_exec_superfunction {c : Cpu ι δ} {opcode : Byte}
    (h : c.cycleEvent = .exec opcode) :
    c.cycle = ((Superfunction.ofOpcode opcode).call c.fetched).2 := by
  rw [cycle_of_exec h, MemberFunction.call_eq_superfunction]
  rfl

end Cpu

end Fake8080
