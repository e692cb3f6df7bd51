import Fake8080.Isa.Footprint

/-!
# Instruction lengths and operand bytes

`instructionLength` gives the length of the instruction with an opcode, and
`Superfunction.execWith` what the instruction does when its operand bytes are handed to it
and `pc` is already past them. A cycle is `execWith` on the bytes stored after the opcode
before the cycle, so no instruction fetches a byte too few or too many, and one that
overwrites its own bytes still works on the old ones.
-/

namespace Fake8080

universe u v

variable {ι : Type u} {δ : Type v}

/-! ### By opcode -/

/-- The number of bytes of the instruction with an opcode. -/
def instructionLength (opcode : Byte) : Word :=
  match opcode with
  -- `LXI`, `SHLD`, `LHLD`, `STA` and `LDA`
  | 0x01 | 0x11 | 0x21 | 0x31 | 0x22 | 0x2A | 0x32 | 0x3A => 3
  -- jumps
  | 0xC3 | 0xCB | 0xC2 | 0xCA | 0xD2 | 0xDA | 0xE2 | 0xEA | 0xF2 | 0xFA => 3
  -- calls
  | 0xCD | 0xDD | 0xED | 0xFD | 0xC4 | 0xCC | 0xD4 | 0xDC | 0xE4 | 0xEC | 0xF4 | 0xFC => 3
  -- `MVI`
  | 0x06 | 0x0E | 0x16 | 0x1E | 0x26 | 0x2E | 0x36 | 0x3E => 2
  -- the ALU operations on an immediate byte, `IN` and `OUT`
  | 0xC6 | 0xCE | 0xD6 | 0xDE | 0xE6 | 0xEE | 0xF6 | 0xFE | 0xDB | 0xD3 => 2
  | _ => 1

/-- Whether an instruction transfers control. -/
inductive ControlFlow
  | straight
  | always
  | conditional (flag : Flags) (negate : Bool)
  deriving DecidableEq

/-- Whether the instruction with an opcode transfers control. -/
def ControlFlow.ofOpcode (opcode : Byte) : ControlFlow :=
  match opcode with
  -- `JMP`, `CALL`, `RET`, `PCHL` and `RST`
  | 0xC3 | 0xCB | 0xCD | 0xDD | 0xED | 0xFD | 0xC9 | 0xD9 | 0xE9 => always
  | 0xC7 | 0xCF | 0xD7 | 0xDF | 0xE7 | 0xEF | 0xF7 | 0xFF => always
  | 0xC0 | 0xC2 | 0xC4 => conditional .z true
  | 0xC8 | 0xCA | 0xCC => conditional .z false
  | 0xD0 | 0xD2 | 0xD4 => conditional .cy true
  | 0xD8 | 0xDA | 0xDC => conditional .cy false
  | 0xE0 | 0xE2 | 0xE4 => conditional .p true
  | 0xE8 | 0xEA | 0xEC => conditional .p false
  | 0xF0 | 0xF2 | 0xF4 => conditional .s true
  | 0xF8 | 0xFA | 0xFC => conditional .s false
  | _ => straight

/-- With these flags control is transferred. -/
def ControlFlow.transfers (r : Registers) : ControlFlow → Bool
  | straight => false
  | always => true
  | conditional flag negate => r.getFlag flag != negate

/-! ### By superfunction -/

namespace Superfunction

/-- The number of bytes a superfunction consumes, its opcode included. -/
def length : Superfunction → Word
  | .lxiRRD16 _ | .shldA16 | .lhldA16 | .staA16 | .ldaA16 => 3
  | .jmpA16 | .conditionalJmpA16 .. | .callA16 | .conditionalCallA16 .. => 3
  | .adiAciSuiSbiCpiD8 .. | .aniOriXriD8 _ | .mviRD8 _ | .mviMD8 | .inD8 | .outD8 => 2
  | _ => 1

/-- Whether a superfunction transfers control. -/
def controlFlow : Superfunction → ControlFlow
  | .jmpA16 | .callA16 | .ret | .pchl | .rstN _ => .always
  | .conditionalJmpA16 flagToVerify negate | .conditionalCallA16 flagToVerify negate
  | .conditionalRet flagToVerify negate => .conditional flagToVerify negate
  | _ => .straight

theorem length_ofOpcode (opcode : Byte) : (ofOpcode opcode).length = instructionLength opcode :=
  ofOpcode_of_decode (P := fun opcode f => f.length = instructionLength opcode)
    (by decide +kernel) opcode

/-- The instructions that transfer control are those listed. -/
theorem controlFlow_ofOpcode (opcode : Byte) :
    (ofOpcode opcode).controlFlow = .ofOpcode opcode :=
  ofOpcode_of_decode (P := fun opcode f => f.controlFlow = .ofOpcode opcode)
    (by decide +kernel) opcode

/-- What an instruction does with given operand bytes to a state whose `pc` is past
them. -/
def execWith [IOPort ι δ] (low high : Byte) (c : Cpu ι δ) : Superfunction → Cpu ι δ
  | .adiAciSuiSbiCpiD8 op useCarry storeResult =>
    { c with registers := (c.registers.setRegister .w low).accumulate low op useCarry storeResult }
  | .aniOriXriD8 op => { c with registers := (c.registers.setRegister .w low).logic low op }
  | .mviRD8 reg => c.setRegister reg low
  | .mviMD8 => c.writeToM low
  | .inD8 => ({ c with buses := (c.buses.inp low).2 } : Cpu ι δ).setRegister .a (c.buses.inp low).1
  | .outD8 => { c with buses := c.buses.out low (c.registers.getRegister .a) }
  | .lxiRRD16 reg => c.setCombinedRegister reg (combineBytes high low)
  | .shldA16 => c.writeTwoBytes (combineBytes high low) c.hl
  | .lhldA16 => c.setCombinedRegister .hl (c.readTwoBytes (combineBytes high low))
  | .staA16 => (c.setCombinedRegister .wz (combineBytes high low)).write (combineBytes high low)
      (c.registers.getRegister .a)
  | .ldaA16 => (c.setCombinedRegister .wz (combineBytes high low)).setRegister .a
      (c.buses.read (combineBytes high low))
  | .jmpA16 => { c with pc := combineBytes high low }
  | .callA16 => c.callAddress (combineBytes high low)
  | .conditionalJmpA16 flagToVerify negate =>
    if c.taken flagToVerify negate then { c with pc := combineBytes high low } else c
  | .conditionalCallA16 flagToVerify negate =>
    if c.taken flagToVerify negate then c.callAddress (combineBytes high low) else c
  -- the others have no operand bytes
  | f => f.next c

variable [IOPort ι δ]

/-- An instruction without a second operand byte does not use one. -/
theorem execWith_of_length_ne_three {f : Superfunction} (h : f.length ≠ 3) (low high high' : Byte)
    (c : Cpu ι δ) : f.execWith low high c = f.execWith low high' c := by
  cases f <;> first | exact absurd rfl h | rfl

theorem execWith_of_length_one {f : Superfunction} (h : f.length = 1) (low high low' high' : Byte)
    (c : Cpu ι δ) : f.execWith low high c = f.execWith low' high' c := by
  have htwo : (2 : Word) ≠ 1 := by decide
  have hthree : (3 : Word) ≠ 1 := by decide
  cases f <;> first | exact absurd h htwo | exact absurd h hthree | rfl

/-- An instruction works on the bytes stored after its opcode and moves past them. -/
theorem next_fetched (f : Superfunction) (c : Cpu ι δ) :
    f.next c.fetched = f.execWith c.immediate (c.buses.read (c.pc + 2))
      { c.fetched with pc := c.pc + f.length } := by
  have htwo : c.fetched.pc + 1 = c.pc + 2 := BitVec.add_assoc _ _ _
  have hthree : c.fetched.pc + 2 = c.pc + 3 := BitVec.add_assoc _ _ _
  have hword : c.fetched.operandWord = combineBytes (c.buses.read (c.pc + 2)) c.immediate :=
    c.operandWord_fetched
  cases f with
  -- one operand byte
  | adiAciSuiSbiCpiD8 op useCarry storeResult => rw [next, nextPc, htwo]; rfl
  | aniOriXriD8 op => rw [next, nextPc, htwo]; rfl
  | mviRD8 reg => rw [next, nextPc, htwo]; rfl
  | mviMD8 => rw [next, nextPc, htwo]; rfl
  | inD8 =>
    rw [next, nextPc, htwo, execWith, Cpu.inp_snd]
    rfl
  | outD8 =>
    rw [next, nextPc, htwo, execWith, Cpu.out_eq]
    rfl
  -- two operand bytes
  | lxiRRD16 reg => rw [next, nextPc, nextRegisters, hthree, hword]; rfl
  | shldA16 => rw [next, nextPc, footprint, hthree, hword]; rfl
  | lhldA16 => rw [next, nextPc, nextRegisters, hthree, hword]; rfl
  | staA16 => rw [next, nextPc, nextRegisters, footprint, hthree, hword]; rfl
  | ldaA16 => rw [next, nextPc, nextRegisters, hthree, hword]; rfl
  | jmpA16 => rw [next, nextPc, hword]; rfl
  | callA16 =>
    rw [next, nextPc, nextRegisters, footprint, hword, hthree, execWith, Cpu.callAddress_eq]
    rfl
  | conditionalJmpA16 flagToVerify negate =>
    -- the length of `pc` makes no difference to the flags tested
    have hflag : ({ c.fetched with pc := c.pc + 3 } : Cpu ι δ).taken flagToVerify negate =
        c.fetched.taken flagToVerify negate := rfl
    rw [next, nextPc, hword, hthree, execWith, length, hflag]
    by_cases htaken : c.fetched.taken flagToVerify negate = true
    · rw [if_pos htaken, if_pos htaken]
      rfl
    · rw [if_neg htaken, if_neg htaken]
      rfl
  | conditionalCallA16 flagToVerify negate =>
    have hflag : ({ c.fetched with pc := c.pc + 3 } : Cpu ι δ).taken flagToVerify negate =
        c.fetched.taken flagToVerify negate := rfl
    rw [next, nextPc, nextRegisters, footprint, hword, hthree, execWith, length, hflag,
      Cpu.callAddress_eq]
    by_cases htaken : c.fetched.taken flagToVerify negate = true
    · rw [if_pos htaken, if_pos htaken, if_pos htaken, if_pos htaken]
      rfl
    · rw [if_neg htaken, if_neg htaken, if_neg htaken, if_neg htaken]
      rfl
  -- none
  | _ => rfl

/-- An instruction that does not transfer control leaves `pc` where its bytes end. -/
theorem pc_execWith {f : Superfunction} {c : Cpu ι δ}
    (h : f.controlFlow.transfers c.registers = false) (low high : Byte) :
    (f.execWith low high c).pc = c.pc := by
  have hne : true ≠ false := Bool.noConfusion
  have huntaken : ∀ flag negate, (ControlFlow.conditional flag negate).transfers c.registers =
      false → ¬ c.taken flag negate = true := by
    intro flag negate hflag
    have hflag' : c.taken flag negate = false := hflag
    rw [hflag']
    exact hne.symm
  cases f with
  | jmpA16 => exact absurd h hne
  | callA16 => exact absurd h hne
  | ret => exact absurd h hne
  | pchl => exact absurd h hne
  | rstN rstVector => exact absurd h hne
  | conditionalJmpA16 flagToVerify negate => rw [execWith, if_neg (huntaken _ _ h)]
  | conditionalCallA16 flagToVerify negate => rw [execWith, if_neg (huntaken _ _ h)]
  | conditionalRet flagToVerify negate => exact if_neg (huntaken _ _ h)
  | _ => rfl

/-- The operand bytes an instruction does not have make no difference. -/
theorem execWith_congr {f : Superfunction} {low high low' high' : Byte}
    (hlow : f.length ≠ 1 → low = low') (hhigh : f.length = 3 → high = high') (c : Cpu ι δ) :
    f.execWith low high c = f.execWith low' high' c := by
  have hthree : (3 : Word) ≠ 1 := by decide
  by_cases hone : f.length = 1
  · exact execWith_of_length_one hone _ _ _ _ c
  · rw [hlow hone]
    by_cases htwo : f.length = 3
    · rw [hhigh htwo]
    · exact execWith_of_length_ne_three htwo _ _ _ c

end Superfunction

namespace Cpu

variable [IOPort ι δ]

/-- **Instruction lengths.** A cycle that executes an instruction works on the bytes stored at
`pc + 1` and `pc + 2` before the cycle, as many of them as the instruction's length says, from
a state whose `pc` is past them. So `pc` ends up past the instruction unless control is
transferred, and calls push the address after their operand and `RST` the one after its
opcode. -/
theorem length_of_cycle (c : Cpu ι δ) (opcode : Byte) (h : c.cycleEvent = .exec opcode) :
    (∀ low high : Byte, (instructionLength opcode ≠ 1 → low = c.buses.read (c.pc + 1)) →
      (instructionLength opcode = 3 → high = c.buses.read (c.pc + 2)) →
        c.cycle = (Superfunction.ofOpcode opcode).execWith low high
          { c.fetched with pc := c.pc + instructionLength opcode }) ∧
    ((ControlFlow.ofOpcode opcode).transfers c.registers = false →
      c.cycle.pc = c.pc + instructionLength opcode) ∧
    (BusAction.ofOpcode opcode = .call → c.cycle.buses =
      c.buses.performAll (Superfunction.pushEvents c.sp (c.pc + 3))) ∧
    (∀ flag negate, BusAction.ofOpcode opcode = .conditionalCall flag negate →
      (c.registers.getFlag flag != negate) = true → c.cycle.buses =
        c.buses.performAll (Superfunction.pushEvents c.sp (c.pc + 3))) ∧
    (BusAction.ofOpcode opcode = .rst → c.cycle.buses =
      c.buses.performAll (Superfunction.pushEvents c.sp (c.pc + 1))) := by
  have hcycle : c.cycle = (Superfunction.ofOpcode opcode).execWith c.immediate
      (c.buses.read (c.pc + 2)) { c.fetched with pc := c.pc + instructionLength opcode } := by
    rw [cycle_eq_superfunction_next h, Superfunction.next_fetched, Superfunction.length_ofOpcode]
  have hbuses : c.cycle.buses = c.buses.performAll
      (c.busCalls c.buses.ioBus.ports (.ofOpcode opcode)) := by
    rw [buses_cycle, cycleCalls, h]
  refine ⟨fun low high hlow hhigh => ?_, fun hstraight => ?_, fun hcall => ?_, ?_,
    fun hrst => ?_⟩
  · rw [← Superfunction.length_ofOpcode] at hlow hhigh
    rw [hcycle]
    exact (Superfunction.execWith_congr hlow hhigh _).symm
  · rw [← Superfunction.controlFlow_ofOpcode] at hstraight
    rw [hcycle]
    exact Superfunction.pc_execWith
      (c := { c.fetched with pc := c.pc + instructionLength opcode }) hstraight _ _
  · rw [hbuses, hcall, busCalls]
  · intro flag negate hcall htaken
    rw [hbuses, hcall, busCalls, if_pos htaken]
  · rw [hbuses, hrst, busCalls]

/-- Memory full of `0xFF`, but for a `STA` at the top address. -/
def staProgram : Cpu Empty Unit :=
  { Cpu.new (Buses.fullRam fun a => if a = 65535 then 0x32 else 0xFF) with pc := 0xFFFF }

/-- The `STA` takes its operand from the bottom of memory and overwrites its own opcode. -/
theorem staProgram_wraps :
    staProgram.cycle.pc = 2 ∧ staProgram.cycle.buses.log = [.write 0xFFFF 0x00] := by
  have h := length_of_cycle staProgram 0x32 (by decide)
  refine ⟨(h.2.1 (by decide)).trans (by decide), ?_⟩
  rw [h.1 0xFF 0xFF (fun _ => by decide) (fun _ => by decide)]
  decide

end Cpu

end Fake8080
