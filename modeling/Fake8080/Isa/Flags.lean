import Fake8080.Step.Cycle

/-!
# The flags an instruction may change

`changeableFlags` lists, opcode by opcode, the flags that executing an instruction may
change. `Cpu.flags_of_cycle` says that a cycle changes no other flag, and none when it
accepts an interrupt or finds the CPU halted.
-/

namespace Fake8080

universe u v

variable {ι : Type u} {δ : Type v}

/-- The flags the instruction with an opcode may change. -/
def changeableFlags (opcode : Byte) : List Flags :=
  -- `DAD`, the rotations, `STC` and `CMC`
  if opcode ∈ [0x09, 0x19, 0x29, 0x39, 0x07, 0x0F, 0x17, 0x1F, 0x37, 0x3F] then [.cy]
  -- `INR` and `DCR`
  else if opcode ∈ [0x04, 0x0C, 0x14, 0x1C, 0x24, 0x2C, 0x34, 0x3C,
      0x05, 0x0D, 0x15, 0x1D, 0x25, 0x2D, 0x35, 0x3D] then [.s, .z, .ac, .p]
  -- the ALU operations, `DAA` and `POP PSW`
  else if 0x80 ≤ opcode ∧ opcode ≤ 0xBF ∨
      opcode ∈ [0xC6, 0xCE, 0xD6, 0xDE, 0xE6, 0xEE, 0xF6, 0xFE, 0x27, 0xF1] then
    [.s, .z, .ac, .p, .cy]
  else []

namespace Superfunction

/-- The flags a superfunction writes. -/
def writtenFlags : Superfunction → List Flags
  | .stc | .cmc | .dadRR _ | .rlcRrcRalRarR .. => [.cy]
  | .inrDcrR .. | .inrDcrM _ => [.s, .z, .ac, .p]
  | .addAdcSubSbbCmpR .. | .addAdcSubSbbCmpM .. | .adiAciSuiSbiCpiD8 ..
  | .anaOraXraR .. | .anaOraXraM _ | .aniOriXriD8 _ | .daa | .popRR .psw =>
    [.s, .z, .ac, .p, .cy]
  | _ => []

/-- `changeableFlags` lists the flags the opcode's superfunction writes. -/
theorem writtenFlags_ofOpcode (opcode : Byte) :
    (ofOpcode opcode).writtenFlags = changeableFlags opcode :=
  ofOpcode_of_decode (P := fun opcode f => f.writtenFlags = changeableFlags opcode)
    (by decide +kernel) opcode

theorem ne_f_of_isOperand {reg : Register} (h : reg.IsOperand) : reg ≠ .f := by
  revert h
  cases reg <;> decide

end Superfunction

namespace Registers

/-- The adder keeps `CY` if it is told to. -/
theorem getFlag_cy_arithmeticFlags (r : Registers) (first second : Byte) (op : AritmeticOperation)
    (useCarry : Bool) :
    (r.arithmeticFlags first second op useCarry false).getFlag .cy = r.getFlag .cy := by
  simp [arithmeticFlags, describe]

/-- A rotation of a register other than `F` writes `CY` only. -/
theorem getFlag_rotate (r : Registers) {reg : Register} (h : reg ≠ .f)
    (direction : ShiftDirection) (rotateThrough : Bool) {flag : Flags} (hflag : flag ≠ .cy) :
    (r.rotate reg direction rotateThrough).getFlag flag = r.getFlag flag := by
  rw [rotate, getFlag_setRegister_of_ne _ h, getFlag_setFlag, if_neg hflag]

theorem getFlag_pushedRegisters (r : Registers) (returnAddress : Word) (flag : Flags) :
    (Superfunction.pushedRegisters r returnAddress).getFlag flag = r.getFlag flag := by
  rw [Superfunction.pushedRegisters, getFlag_setCombinedRegister _ (by decide),
    getFlag_setCombinedRegister _ (by decide)]

theorem getFlag_poppedRegisters (r : Registers) (returnAddress : Word) (flag : Flags) :
    (Superfunction.poppedRegisters r returnAddress).getFlag flag = r.getFlag flag := by
  rw [Superfunction.poppedRegisters, getFlag_setCombinedRegister _ (by decide),
    getFlag_setCombinedRegister _ (by decide)]

end Registers

namespace Superfunction

variable [IOPort ι δ]

theorem getFlag_nextRegisters {f : Superfunction} (hf : f.Programmable) (c : Cpu ι δ)
    {flag : Flags} (h : flag ∉ f.writtenFlags) :
    (f.nextRegisters c).getFlag flag = c.registers.getFlag flag := by
  have hall : flag ∈ ([.s, .z, .ac, .p, .cy] : List Flags) := by cases flag <;> decide
  have hcy : ∀ flag : Flags, flag ∉ ([.s, .z, .ac, .p] : List Flags) → flag = .cy := by
    intro flag
    cases flag <;> decide
  cases f with
  -- the superfunctions that write every flag
  | addAdcSubSbbCmpR reg op useCarry storeResult => exact absurd hall h
  | addAdcSubSbbCmpM op useCarry storeResult => exact absurd hall h
  | adiAciSuiSbiCpiD8 op useCarry storeResult => exact absurd hall h
  | anaOraXraR reg op => exact absurd hall h
  | anaOraXraM op => exact absurd hall h
  | aniOriXriD8 op => exact absurd hall h
  | daa => exact absurd hall h
  | popRR reg =>
    by_cases hpsw : reg = .psw
    · subst hpsw
      exact absurd hall h
    · rw [nextRegisters, Registers.getFlag_setCombinedRegister _ hpsw,
        Registers.getFlag_setCombinedRegister _ (by decide)]
  -- those that write `CY` only
  | stc =>
    rw [nextRegisters, Registers.getFlag_setFlag, if_neg (by simpa [writtenFlags] using h)]
  | cmc =>
    rw [nextRegisters, Registers.getFlag_setFlag, if_neg (by simpa [writtenFlags] using h)]
  | dadRR reg =>
    rw [nextRegisters, Registers.getFlag_setCombinedRegister _ (by decide),
      Registers.getFlag_setFlag, if_neg (by simpa [writtenFlags] using h)]
  | rlcRrcRalRarR reg direction rotateThrough =>
    exact c.registers.getFlag_rotate (ne_f_of_isOperand hf) _ _ (by simpa [writtenFlags] using h)
  -- those that keep `CY`
  | inrDcrR reg op =>
    rw [hcy flag h, nextRegisters, Registers.getFlag_setRegister_of_ne _ (ne_f_of_isOperand hf),
      Registers.getFlag_cy_arithmeticFlags]
  | inrDcrM op =>
    rw [hcy flag h, nextRegisters, Registers.getFlag_setRegister_of_ne _ (by decide),
      Registers.getFlag_cy_arithmeticFlags, Registers.getFlag_setRegister_of_ne _ (by decide)]
  -- those that write a register or a pair, never `F`
  | cma => exact c.registers.getFlag_setRegister_of_ne (by decide) _ _
  | movRR source destination =>
    exact c.registers.getFlag_setRegister_of_ne (ne_f_of_isOperand hf.2) _ _
  | mviRD8 reg => exact c.registers.getFlag_setRegister_of_ne (ne_f_of_isOperand hf) _ _
  | movRM reg => exact c.registers.getFlag_setRegister_of_ne (ne_f_of_isOperand hf) _ _
  | ldaxRR reg => exact c.registers.getFlag_setRegister_of_ne (by decide) _ _
  | inD8 => exact c.registers.getFlag_setRegister_of_ne (by decide) _ _
  | inxDcxRR reg op => exact c.registers.getFlag_setCombinedRegister hf.2 _ _
  | lxiRRD16 reg => exact c.registers.getFlag_setCombinedRegister hf.2 _ _
  | lhldA16 => exact c.registers.getFlag_setCombinedRegister (by decide) _ _
  | staA16 => exact c.registers.getFlag_setCombinedRegister (by decide) _ _
  | pushRR reg => exact c.registers.getFlag_setCombinedRegister (by decide) _ _
  | xthl => exact c.registers.getFlag_setCombinedRegister (by decide) _ _
  | sphl => exact c.registers.getFlag_setCombinedRegister (by decide) _ _
  | ldaA16 =>
    rw [nextRegisters, Registers.getFlag_setRegister_of_ne _ (by decide),
      Registers.getFlag_setCombinedRegister _ (by decide)]
  | xchg =>
    rw [nextRegisters, Registers.getFlag_setCombinedRegister _ (by decide),
      Registers.getFlag_setCombinedRegister _ (by decide)]
  -- calls and returns, taken or not
  | callA16 => exact c.registers.getFlag_pushedRegisters _ _
  | rstN rstVector => exact c.registers.getFlag_pushedRegisters _ _
  | ret => exact c.registers.getFlag_poppedRegisters _ _
  | conditionalCallA16 flagToVerify negate =>
    rw [nextRegisters]
    split
    · exact c.registers.getFlag_pushedRegisters _ _
    · rfl
  | conditionalRet flagToVerify negate =>
    rw [nextRegisters]
    split
    · exact c.registers.getFlag_poppedRegisters _ _
    · rfl
  -- what is left writes no register
  | _ => rfl

end Superfunction

namespace Cpu

variable [IOPort ι δ]

/-- **The flag frame.** A cycle changes a flag only by executing an instruction that may
change it: none when an interrupt is accepted or the CPU is halted, and otherwise only those
`changeableFlags` lists for the opcode. In every state a CPU can reach, bit 1 of `F` is
set. -/
theorem flags_of_cycle :
    (∀ (c : Cpu ι δ) (flag : Flags), c.cycle.registers.getFlag flag ≠ c.registers.getFlag flag →
      ∃ opcode, c.cycleEvent = .exec opcode ∧ flag ∈ changeableFlags opcode) ∧
    ∀ (buses : Buses ι δ) (calls : List Action),
      getBit ((system.after (Cpu.new buses) calls).registers.getRegister .f) 1 = true := by
  refine ⟨fun c flag hchanged => ?_, fun buses calls => ?_⟩
  · rcases c.cycleEvent_cases with he | he | ⟨opcode, he⟩
    · rw [cycle_eq_of_accept he] at hchanged
      exact absurd (c.registers.getFlag_pushedRegisters _ _) hchanged
    · rw [cycle_eq_of_idle he] at hchanged
      exact absurd rfl hchanged
    · refine ⟨opcode, he, ?_⟩
      rw [← Superfunction.writtenFlags_ofOpcode]
      by_contra hflag
      rw [cycle_eq_superfunction_next he] at hchanged
      exact hchanged (Superfunction.getFlag_nextRegisters
        (Superfunction.programmable_ofOpcode opcode) c.fetched hflag)
  · exact Registers.getBit_one_f _

/-- `STC` changes `CY` of a new CPU, and may. -/
theorem flags_of_cycle_stc : ∃ opcode,
    (Cpu.new (Buses.mapMemory [0x37]) : Cpu Empty Unit).cycleEvent = .exec opcode ∧
      Flags.cy ∈ changeableFlags opcode :=
  flags_of_cycle.1 _ .cy (by decide)

end Cpu

end Fake8080
