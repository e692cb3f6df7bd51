import Fake8080.Model.Instructions

/-!
# The opcode table

`opcodes_m` is an array of 256 pointers to member functions. A pointer is modelled by the
name of the function it points at, template arguments included (`MemberFunction`), and
calling through it by `MemberFunction.call`. The table is transcribed entry by entry.
-/

namespace Fake8080

universe u v

/-- A pointer to a member function, by the function's name and template arguments. -/
inductive MemberFunction
  | addR (reg : Register) | adcR (reg : Register) | subR (reg : Register)
  | sbbR (reg : Register) | cmpR (reg : Register) | inrR (reg : Register)
  | dcrR (reg : Register) | anaR (reg : Register) | oraR (reg : Register)
  | xraR (reg : Register) | rlcR (reg : Register) | ralR (reg : Register)
  | rrcR (reg : Register) | rarR (reg : Register) | mviRD8 (reg : Register)
  | movMR (reg : Register) | movRM (reg : Register)
  | movRR (source destination : Register)
  | inxRR (reg : CombinedRegister) | dcxRR (reg : CombinedRegister)
  | dadRR (reg : CombinedRegister) | lxiRRD16 (reg : CombinedRegister)
  | staxRR (reg : CombinedRegister) | ldaxRR (reg : CombinedRegister)
  | pushRR (reg : CombinedRegister) | popRR (reg : CombinedRegister)
  | nop | stc | cma | cmc | daa
  | addM | subM | adcM | sbbM | cmpM | anaM | oraM | xraM | inrM | dcrM | mviMD8
  | shldA16 | lhldA16 | staA16 | ldaA16 | xthl | xchg | sphl | pchl
  | adiD8 | aciD8 | suiD8 | sbiD8 | cpiD8 | aniD8 | oriD8 | xriD8
  | jmpA16 | jmA16 | jzA16 | jcA16 | jpeA16 | jpA16 | jpoA16 | jncA16 | jnzA16
  | callA16 | czA16 | ccA16 | cpeA16 | cmA16 | cnzA16 | cncA16 | cpoA16 | cpA16
  | ret | rz | rc | rpe | rm | rnz | rnc | rpo | rp
  | ei | di | inD8 | outD8 | hlt
  | rstN (rstVector : Fin 8)
  deriving DecidableEq

namespace MemberFunction

variable {ι : Type u} {δ : Type v} [IOPort ι δ]

/-- `(this->*f)()`. -/
def call : MemberFunction → Handler ι δ
  | .addR reg => Cpu.addR reg
  | .adcR reg => Cpu.adcR reg
  | .subR reg => Cpu.subR reg
  | .sbbR reg => Cpu.sbbR reg
  | .cmpR reg => Cpu.cmpR reg
  | .inrR reg => Cpu.inrR reg
  | .dcrR reg => Cpu.dcrR reg
  | .anaR reg => Cpu.anaR reg
  | .oraR reg => Cpu.oraR reg
  | .xraR reg => Cpu.xraR reg
  | .rlcR reg => Cpu.rlcR reg
  | .ralR reg => Cpu.ralR reg
  | .rrcR reg => Cpu.rrcR reg
  | .rarR reg => Cpu.rarR reg
  | .mviRD8 reg => Cpu.mviRD8 reg
  | .movMR reg => Cpu.movMR reg
  | .movRM reg => Cpu.movRM reg
  | .inxRR reg => Cpu.inxRR reg
  | .dcxRR reg => Cpu.dcxRR reg
  | .dadRR reg => Cpu.dadRR reg
  | .lxiRRD16 reg => Cpu.lxiRRD16 reg
  | .staxRR reg => Cpu.staxRR reg
  | .ldaxRR reg => Cpu.ldaxRR reg
  | .pushRR reg => Cpu.pushRR reg
  | .popRR reg => Cpu.popRR reg
  | .movRR source destination => Cpu.movRR source destination
  | .nop => Cpu.nop
  | .stc => Cpu.stc
  | .cma => Cpu.cma
  | .cmc => Cpu.cmc
  | .daa => Cpu.daa
  | .addM => Cpu.addM
  | .subM => Cpu.subM
  | .adcM => Cpu.adcM
  | .sbbM => Cpu.sbbM
  | .cmpM => Cpu.cmpM
  | .anaM => Cpu.anaM
  | .oraM => Cpu.oraM
  | .xraM => Cpu.xraM
  | .inrM => Cpu.inrM
  | .dcrM => Cpu.dcrM
  | .mviMD8 => Cpu.mviMD8
  | .shldA16 => Cpu.shldA16
  | .lhldA16 => Cpu.lhldA16
  | .staA16 => Cpu.staA16
  | .ldaA16 => Cpu.ldaA16
  | .xthl => Cpu.xthl
  | .xchg => Cpu.xchg
  | .sphl => Cpu.sphl
  | .pchl => Cpu.pchl
  | .adiD8 => Cpu.adiD8
  | .aciD8 => Cpu.aciD8
  | .suiD8 => Cpu.suiD8
  | .sbiD8 => Cpu.sbiD8
  | .cpiD8 => Cpu.cpiD8
  | .aniD8 => Cpu.aniD8
  | .oriD8 => Cpu.oriD8
  | .xriD8 => Cpu.xriD8
  | .jmpA16 => Cpu.jmpA16
  | .jmA16 => Cpu.jmA16
  | .jzA16 => Cpu.jzA16
  | .jcA16 => Cpu.jcA16
  | .jpeA16 => Cpu.jpeA16
  | .jpA16 => Cpu.jpA16
  | .jpoA16 => Cpu.jpoA16
  | .jncA16 => Cpu.jncA16
  | .jnzA16 => Cpu.jnzA16
  | .callA16 => Cpu.callA16
  | .czA16 => Cpu.czA16
  | .ccA16 => Cpu.ccA16
  | .cpeA16 => Cpu.cpeA16
  | .cmA16 => Cpu.cmA16
  | .cnzA16 => Cpu.cnzA16
  | .cncA16 => Cpu.cncA16
  | .cpoA16 => Cpu.cpoA16
  | .cpA16 => Cpu.cpA16
  | .ret => Cpu.ret
  | .rz => Cpu.rz
  | .rc => Cpu.rc
  | .rpe => Cpu.rpe
  | .rm => Cpu.rm
  | .rnz => Cpu.rnz
  | .rnc => Cpu.rnc
  | .rpo => Cpu.rpo
  | .rp => Cpu.rp
  | .ei => Cpu.ei
  | .di => Cpu.di
  | .inD8 => Cpu.inD8
  | .outD8 => Cpu.outD8
  | .hlt => Cpu.hlt
  | .rstN rstVector => Cpu.rstN rstVector

set_option maxRecDepth 4000 in
/-- `opcodes_m`. -/
def opcodes : Vector MemberFunction 256 := #v[
  .nop, .lxiRRD16 .bc, .staxRR .bc, .inxRR .bc,
  .inrR .b, .dcrR .b, .mviRD8 .b, .rlcR .a,
  .nop, .dadRR .bc, .ldaxRR .bc, .dcxRR .bc,
  .inrR .c, .dcrR .c, .mviRD8 .c, .rrcR .a,
  .nop, .lxiRRD16 .de, .staxRR .de, .inxRR .de,
  .inrR .d, .dcrR .d, .mviRD8 .d, .ralR .a,
  .nop, .dadRR .de, .ldaxRR .de, .dcxRR .de,
  .inrR .e, .dcrR .e, .mviRD8 .e, .rarR .a,
  .nop, .lxiRRD16 .hl, .shldA16, .inxRR .hl,
  .inrR .h, .dcrR .h, .mviRD8 .h, .daa,
  .nop, .dadRR .hl, .lhldA16, .dcxRR .hl,
  .inrR .l, .dcrR .l, .mviRD8 .l, .cma,
  .nop, .lxiRRD16 .sp, .staA16, .inxRR .sp,
  .inrM, .dcrM, .mviMD8, .stc,
  .nop, .dadRR .sp, .ldaA16, .dcxRR .sp,
  .inrR .a, .dcrR .a, .mviRD8 .a, .cmc,
  .movRR .b .b, .movRR .c .b, .movRR .d .b, .movRR .e .b,
  .movRR .h .b, .movRR .l .b, .movRM .b, .movRR .a .b,
  .movRR .b .c, .movRR .c .c, .movRR .d .c, .movRR .e .c,
  .movRR .h .c, .movRR .l .c, .movRM .c, .movRR .a .c,
  .movRR .b .d, .movRR .c .d, .movRR .d .d, .movRR .e .d,
  .movRR .h .d, .movRR .l .d, .movRM .d, .movRR .a .d,
  .movRR .b .e, .movRR .c .e, .movRR .d .e, .movRR .e .e,
  .movRR .h .e, .movRR .l .e, .movRM .e, .movRR .a .e,
  .movRR .b .h, .movRR .c .h, .movRR .d .h, .movRR .e .h,
  .movRR .h .h, .movRR .l .h, .movRM .h, .movRR .a .h,
  .movRR .b .l, .movRR .c .l, .movRR .d .l, .movRR .e .l,
  .movRR .h .l, .movRR .l .l, .movRM .l, .movRR .a .l,
  .movMR .b, .movMR .c, .movMR .d, .movMR .e,
  .movMR .h, .movMR .l, .hlt, .movMR .a,
  .movRR .b .a, .movRR .c .a, .movRR .d .a, .movRR .e .a,
  .movRR .h .a, .movRR .l .a, .movRM .a, .movRR .a .a,
  .addR .b, .addR .c, .addR .d, .addR .e,
  .addR .h, .addR .l, .addM, .addR .a,
  .adcR .b, .adcR .c, .adcR .d, .adcR .e,
  .adcR .h, .adcR .l, .adcM, .adcR .a,
  .subR .b, .subR .c, .subR .d, .subR .e,
  .subR .h, .subR .l, .subM, .subR .a,
  .sbbR .b, .sbbR .c, .sbbR .d, .sbbR .e,
  .sbbR .h, .sbbR .l, .sbbM, .sbbR .a,
  .anaR .b, .anaR .c, .anaR .d, .anaR .e,
  .anaR .h, .anaR .l, .anaM, .anaR .a,
  .xraR .b, .xraR .c, .xraR .d, .xraR .e,
  .xraR .h, .xraR .l, .xraM, .xraR .a,
  .oraR .b, .oraR .c, .oraR .d, .oraR .e,
  .oraR .h, .oraR .l, .oraM, .oraR .a,
  .cmpR .b, .cmpR .c, .cmpR .d, .cmpR .e,
  .cmpR .h, .cmpR .l, .cmpM, .cmpR .a,
  .rnz, .popRR .bc, .jnzA16, .jmpA16,
  .cnzA16, .pushRR .bc, .adiD8, .rstN 0,
  .rz, .ret, .jzA16, .jmpA16,
  .czA16, .callA16, .aciD8, .rstN 1,
  .rnc, .popRR .de, .jncA16, .outD8,
  .cncA16, .pushRR .de, .suiD8, .rstN 2,
  .rc, .ret, .jcA16, .inD8,
  .ccA16, .callA16, .sbiD8, .rstN 3,
  .rpo, .popRR .hl, .jpoA16, .xthl,
  .cpoA16, .pushRR .hl, .aniD8, .rstN 4,
  .rpe, .pchl, .jpeA16, .xchg,
  .cpeA16, .callA16, .xriD8, .rstN 5,
  .rp, .popRR .psw, .jpA16, .di,
  .cpA16, .pushRR .psw, .oriD8, .rstN 6,
  .rm, .sphl, .jmA16, .ei,
  .cmA16, .callA16, .cpiD8, .rstN 7]

/-- The entry of `opcodes_m` at an opcode byte. -/
def ofOpcode (opcode : Byte) : MemberFunction := opcodes.get opcode.toFin

end MemberFunction

end Fake8080
