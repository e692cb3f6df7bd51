import Fake8080.Arch.Abstraction

/-!
# The emulator refines the architecture

Every instruction the emulator executes does to what a program sees exactly what the
architecture says, and so does every call of the public interface; by the simulation rule
the same holds of every run (`Cpu.refines_machine`). The bus calls a run logs are those of
the machine's history.

The proof is one commuting square for each instruction: `Op.footprint_eq` for its calls on
the buses, `Op.nextPc_eq`, `Op.nextRegisters_eq` and `Op.arch_next` for the rest.
-/

namespace Fake8080

universe u v w

variable {ι : Type u} {δ : Type v}

namespace Arch

/-! ### The table -/

/-- The superfunction that runs an instruction. -/
def Op.superfunction : Op → Superfunction
  | .nop => .nop
  | .hlt => .hlt
  | .ei => .ei
  | .di => .di
  | .mov destination source => .movOf destination.register? source.register?
  | .mvi destination => .mviOf destination.register?
  | .alu operation source => .aluOf operation source.register?
  | .aluImmediate operation => .aluImmediateOf operation
  | .inr destination => .inrDcrOf .add destination.register?
  | .dcr destination => .inrDcrOf .sub destination.register?
  | .lxi p => .lxiRRD16 p.combined
  | .inx p => .inxDcxRR p.combined .add
  | .dcx p => .inxDcxRR p.combined .sub
  | .dad p => .dadRR p.combined
  | .stax p => .staxRR p.combined
  | .ldax p => .ldaxRR p.combined
  | .sta => .staA16
  | .lda => .ldaA16
  | .shld => .shldA16
  | .lhld => .lhldA16
  | .push p => .pushRR p.combined
  | .pop p => .popRR p.combined
  | .xchg => .xchg
  | .xthl => .xthl
  | .sphl => .sphl
  | .pchl => .pchl
  | .jmp none => .jmpA16
  | .jmp (some (flag, negate)) => .conditionalJmpA16 flag negate
  | .call none => .callA16
  | .call (some (flag, negate)) => .conditionalCallA16 flag negate
  | .ret none => .ret
  | .ret (some (flag, negate)) => .conditionalRet flag negate
  | .rst n => .rstN n
  | .rlc => .rlcRrcRalRarR .a .left false
  | .rrc => .rlcRrcRalRarR .a .right false
  | .ral => .rlcRrcRalRarR .a .left true
  | .rar => .rlcRrcRalRarR .a .right true
  | .daa => .daa
  | .cma => .cma
  | .stc => .stc
  | .cmc => .cmc
  | .input => .inD8
  | .output => .outD8

/-- The table runs the instruction an opcode decodes to. -/
theorem Op.superfunction_decode (opcode : Byte) :
    Superfunction.ofOpcode opcode = (Op.decode opcode).superfunction :=
  Superfunction.ofOpcode_of_decode (P := fun opcode f => f = (Op.decode opcode).superfunction)
    (by decide +kernel) opcode

/-- The one move that is no move: its opcode is that of `HLT`. -/
theorem Op.decode_ne_mov_memory (opcode : Byte) : Op.decode opcode ≠ .mov .memory .memory := by
  revert opcode
  decide +kernel

/-! ### Operands -/

variable (c : Cpu ι δ)

theorem arch_holds (flag : Flags) (negate : Bool) :
    c.arch.holds (some (flag, negate)) = c.taken flag negate := rfl

/-! ### The calls on the buses -/

/-- What stores amount to as calls on the bus. -/
def writes (stores : List (Word × Byte)) : List (BusEvent ι) :=
  stores.map fun w => .write w.1 w.2

/-- An instruction calls the buses for its stores and its device call, in this order. -/
theorem Op.footprint_eq (op : Op) (hop : op ≠ .mov .memory .memory) :
    op.superfunction.footprint c =
      writes (op.stores c.arch) ++ (op.deviceCall c.buses.environment c.arch).toList := by
  cases op with
  | mov destination source =>
    cases destination with
    | reg r => cases source <;> rfl
    | memory =>
      cases source with
      | reg r => rfl
      | memory => exact absurd rfl hop
  | mvi destination => cases destination <;> rfl
  | alu operation source => cases operation <;> cases source <;> rfl
  | aluImmediate operation => cases operation <;> rfl
  | inr destination =>
    cases destination with
    | reg r => rfl
    | memory =>
      change [BusEvent.write _ (c.registers.arithmeticResult c.getM 1 .add false)] = _
      rw [Registers.arithmeticResult_increment]
      rfl
  | dcr destination =>
    cases destination with
    | reg r => rfl
    | memory =>
      change [BusEvent.write _ (c.registers.arithmeticResult c.getM 1 .sub false)] = _
      rw [Registers.arithmeticResult_decrement]
      rfl
  | stax p => cases p <;> rfl
  | push p =>
    change Superfunction.pushEvents c.sp (c.registers.getCombinedRegister p.combined) = _
    rw [Registers.getCombinedRegister_stackPair]
    rfl
  | shld =>
    change Superfunction.storeEvents c.operandWord c.hl = _
    rw [Superfunction.storeEvents, show c.hl = c.registers.getCombinedRegister .hl from rfl,
      Registers.getLowByte_getCombinedRegister, Registers.getHighByte_getCombinedRegister]
    rfl
  | xthl =>
    change Superfunction.storeEvents c.sp c.hl = _
    rw [Superfunction.storeEvents, show c.hl = c.registers.getCombinedRegister .hl from rfl,
      Registers.getLowByte_getCombinedRegister, Registers.getHighByte_getCombinedRegister]
    rfl
  | call condition =>
    rcases condition with _ | ⟨flag, negate⟩
    · rfl
    · simp only [superfunction, Superfunction.footprint, stores]
      by_cases h : c.taken flag negate = true
      · rw [if_pos h, if_pos ((arch_holds c flag negate).trans h)]
        rfl
      · rw [if_neg h, if_neg fun h' => h ((arch_holds c flag negate).symm.trans h')]
        rfl
  | jmp condition => rcases condition with _ | ⟨flag, negate⟩ <;> rfl
  | ret condition => rcases condition with _ | ⟨flag, negate⟩ <;> rfl
  | _ => rfl

/-! ### Where it continues and what it leaves in the registers -/

variable [IOPort ι δ]

theorem Op.nextPc_eq (op : Op) :
    op.superfunction.nextPc c = (op.operate c.buses.environment c.arch).pc := by
  cases op with
  | mov destination source => cases destination <;> cases source <;> rfl
  | mvi destination => cases destination <;> rfl
  | alu operation source => cases operation <;> cases source <;> rfl
  | aluImmediate operation => cases operation <;> rfl
  | inr destination => cases destination <;> rfl
  | dcr destination => cases destination <;> rfl
  | call condition =>
    rcases condition with _ | ⟨flag, negate⟩
    · rfl
    · simp only [superfunction, Superfunction.nextPc, operate]
      by_cases h : c.taken flag negate = true
      · rw [if_pos h, if_pos ((arch_holds c flag negate).trans h)]
        rfl
      · rw [if_neg h, if_neg fun h' => h ((arch_holds c flag negate).symm.trans h')]
        rfl
  | jmp condition => rcases condition with _ | ⟨flag, negate⟩ <;> rfl
  | ret condition =>
    rcases condition with _ | ⟨flag, negate⟩
    · rfl
    · simp only [superfunction, Superfunction.nextPc, operate]
      by_cases h : c.taken flag negate = true
      · rw [if_pos h, if_pos ((arch_holds c flag negate).trans h)]
        rfl
      · rw [if_neg h, if_neg fun h' => h ((arch_holds c flag negate).symm.trans h')]
        rfl
  | input =>
    simp only [superfunction, Superfunction.nextPc, operate]
    cases c.buses.environment.ports c.arch.immediate <;> rfl
  | output =>
    simp only [superfunction, Superfunction.nextPc, operate]
    cases c.buses.environment.ports c.arch.immediate <;> rfl
  | _ => rfl

theorem Op.nextRegisters_inrDcr (op : AritmeticOperation) (destination : Operand) {result : Byte}
    {halfCarry : Bool}
    (hresult : ∀ r : Registers,
      r.arithmeticResult (c.arch.operand destination) 1 op false = result)
    (hflags : ∀ r : Registers, (r.arithmeticFlags (c.arch.operand destination) 1 op false false).file =
      r.file.describe result halfCarry (r.file.flag .cy)) :
    ((Superfunction.inrDcrOf op destination.register?).nextRegisters c).file =
      (c.arch.toFile.describe result halfCarry (c.arch.flag .cy)).setOperand result destination := by
  cases destination with
  | reg r =>
    change ((c.registers.arithmeticFlags (c.arch.operand (.reg r)) 1 op false false).setRegister
      r.register (c.registers.arithmeticResult (c.arch.operand (.reg r)) 1 op false)).file = _
    rw [Registers.file_setRegister, hflags, hresult]
    rfl
  | memory =>
    change (((c.registers.setRegister .w c.getM).arithmeticFlags (c.arch.operand .memory) 1 op false
      false).setRegister .w _).file = _
    rw [Registers.file_setRegister_scratch _ (.inl rfl), hflags,
      Registers.file_setRegister_scratch _ (.inl rfl)]
    rfl

/-- An instruction leaves the registers the architecture says. -/
theorem Op.nextRegisters_eq (op : Op) :
    (op.superfunction.nextRegisters c).file =
      (op.operate c.buses.environment c.arch).toFile := by
  have hhl : c.hl = c.arch.pair .hl := rfl
  cases op with
  | mov destination source =>
    cases destination with
    | reg r => cases source <;> exact c.registers.file_setRegister r _
    | memory => cases source <;> rfl
  | mvi destination =>
    cases destination with
    | reg r => exact c.registers.file_setRegister r _
    | memory => rfl
  | alu operation source =>
    cases source with
    | reg r =>
      have hnext := congrArg Cpu.registers (Instruction.aluOf_some_next c operation r.register)
      exact (congrArg Registers.file hnext).trans (Registers.file_apply _ _ _)
    | memory =>
      have hnext := congrArg Cpu.registers (Instruction.aluOf_none_next c operation)
      refine (congrArg Registers.file hnext).trans ((Registers.file_apply _ _ _).trans ?_)
      rw [Registers.file_setRegister_scratch _ (.inl rfl)]
      rfl
  | aluImmediate operation =>
    have hnext := congrArg Cpu.registers (Instruction.aluImmediateOf_next c operation)
    refine (congrArg Registers.file hnext).trans ((Registers.file_apply _ _ _).trans ?_)
    rw [Registers.file_setRegister_scratch _ (.inl rfl)]
    rfl
  | inr destination =>
    refine nextRegisters_inrDcr c .add destination (fun r => r.arithmeticResult_increment _) ?_
    intro r
    rw [Registers.arithmeticFlags_increment, Registers.incrementFlags,
      Registers.file_setResultFlags_keep]
  | dcr destination =>
    refine nextRegisters_inrDcr c .sub destination (fun r => r.arithmeticResult_decrement _) ?_
    intro r
    rw [Registers.arithmeticFlags_decrement, Registers.decrementFlags,
      Registers.file_setResultFlags_keep]
  | lxi p => exact c.registers.file_setCombinedRegister p _
  | inx p =>
    refine (c.registers.file_setCombinedRegister p _).trans ?_
    rw [Registers.getCombinedRegister_combined]
    rfl
  | dcx p =>
    refine (c.registers.file_setCombinedRegister p _).trans ?_
    rw [Registers.getCombinedRegister_combined, if_neg (by decide), ← BitVec.sub_eq_add_neg]
    rfl
  | dad p =>
    simp only [superfunction, Superfunction.nextRegisters, operate,
      Registers.getCombinedRegister_combined, Registers.decide_add_lt, hhl]
    refine (Registers.file_setCombinedRegister _ .hl _).trans ?_
    rw [Registers.file_setFlag]
    rfl
  | ldax p =>
    refine (c.registers.file_setRegister .a _).trans ?_
    rw [Registers.getCombinedRegister_combined]
    rfl
  | lda =>
    refine (Registers.file_setRegister _ .a _).trans ?_
    rw [Registers.file_setCombinedRegister_wz]
    rfl
  | sta => exact c.registers.file_setCombinedRegister_wz _
  | lhld => exact c.registers.file_setCombinedRegister .hl _
  | push p => exact c.registers.file_setCombinedRegister .sp _
  | pop p =>
    refine (Registers.file_setCombinedRegister_stackPair _ p _).trans ?_
    rw [show (c.registers.setCombinedRegister .sp (c.sp + 2)).file = _ from
      c.registers.file_setCombinedRegister .sp _]
    rfl
  | xthl => exact c.registers.file_setCombinedRegister .hl _
  | xchg =>
    refine (Registers.file_setCombinedRegister _ .de _).trans ?_
    rw [show (c.registers.setCombinedRegister .hl (c.registers.getCombinedRegister .de)).file = _
      from c.registers.file_setCombinedRegister .hl _]
    rfl
  | sphl => exact c.registers.file_setCombinedRegister .sp _
  | jmp condition => rcases condition with _ | ⟨flag, negate⟩ <;> rfl
  | call condition =>
    rcases condition with _ | ⟨flag, negate⟩
    · exact c.registers.file_pushedRegisters _
    · simp only [superfunction, Superfunction.nextRegisters, operate]
      by_cases h : c.taken flag negate = true
      · rw [if_pos h, if_pos ((arch_holds c flag negate).trans h)]
        exact c.registers.file_pushedRegisters _
      · rw [if_neg h, if_neg fun h' => h ((arch_holds c flag negate).symm.trans h')]
        rfl
  | ret condition =>
    rcases condition with _ | ⟨flag, negate⟩
    · exact c.registers.file_poppedRegisters _
    · simp only [superfunction, Superfunction.nextRegisters, operate]
      by_cases h : c.taken flag negate = true
      · rw [if_pos h, if_pos ((arch_holds c flag negate).trans h)]
        exact c.registers.file_poppedRegisters _
      · rw [if_neg h, if_neg fun h' => h ((arch_holds c flag negate).symm.trans h')]
        rfl
  | rst n => exact c.registers.file_pushedRegisters _
  | rlc =>
    have hrotate : ∀ a : Byte, setBit (a <<< 1) 0 (a.getLsbD 7) = a.rotateLeft 1 := by decide
    exact c.registers.file_rotate (getBit_eq_getLsbD _ 7) (hrotate _)
  | rrc =>
    have hrotate : ∀ a : Byte, setBit (a >>> 1) 7 (a.getLsbD 0) = a.rotateRight 1 := by decide
    exact c.registers.file_rotate (getBit_eq_getLsbD _ 0) (hrotate _)
  | ral =>
    have hrotate : ∀ (a : Byte) carry,
        setBit (a <<< 1) 0 carry = a.extractLsb' 0 7 ++ BitVec.ofBool carry := by decide
    exact c.registers.file_rotate (getBit_eq_getLsbD _ 7) (hrotate _ _)
  | rar =>
    have hrotate : ∀ (a : Byte) carry,
        setBit (a >>> 1) 7 carry = BitVec.ofBool carry ++ a.extractLsb' 1 7 := by decide
    exact c.registers.file_rotate (getBit_eq_getLsbD _ 0) (hrotate _ _)
  | daa => exact c.registers.file_decimalAdjust
  | cma => exact c.registers.file_setRegister .a _
  | stc => exact c.registers.file_setFlag .cy true
  | cmc => exact c.registers.file_setFlag .cy _
  | input =>
    refine (c.registers.file_setRegister .a _).trans ?_
    rw [operate, Buses.inp]
    cases hport : c.buses.ioBus.ports c.operandByte with
    | none => rw [show c.buses.environment.ports c.arch.immediate = none from hport]; rfl
    | some device =>
      rw [show c.buses.environment.ports c.arch.immediate = some device from hport]; rfl
  | output =>
    simp only [superfunction, Superfunction.nextRegisters, operate]
    cases c.buses.environment.ports c.arch.immediate <;> rfl
  | _ => rfl

/-! ### One instruction -/

omit [IOPort ι δ] in
/-- A pending interrupt has a vector and nothing else does. -/
theorem pending_congr {l l' : Latches} (h : l.interruptRequested = l'.interruptRequested)
    (hvector : l.interruptVectorRequested = l'.interruptVectorRequested) :
    l.pending = l'.pending := by
  rw [Latches.pending, Latches.pending, h, hvector]

/-- `EI`, `DI` and `HLT` write one latch each, and nothing else writes any. -/
theorem Op.operate_latches (env : Environment ι) (s : State δ) (op : Op) :
    (op.operate env s).enableRequested = (if op = .ei then true else s.enableRequested) ∧
    (op.operate env s).enabled = (if op = .di then false else s.enabled) ∧
    (op.operate env s).pending = s.pending ∧
    (op.operate env s).halted = (if op = .hlt then true else s.halted) := by
  cases op with
  | call condition => simp only [operate]; split <;> exact ⟨rfl, rfl, rfl, rfl⟩
  | ret condition => simp only [operate]; split <;> exact ⟨rfl, rfl, rfl, rfl⟩
  | input => simp only [operate]; split <;> exact ⟨rfl, rfl, rfl, rfl⟩
  | output => simp only [operate]; split <;> exact ⟨rfl, rfl, rfl, rfl⟩
  | _ => exact ⟨rfl, rfl, rfl, rfl⟩

theorem Op.superfunction_latches (op : Op) (hop : op ≠ .mov .memory .memory) :
    (op.superfunction = .ei ↔ op = .ei) ∧ (op.superfunction = .di ↔ op = .di) ∧
      (op.superfunction = .hlt ↔ op = .hlt) := by
  cases op with
  | mov destination source =>
    cases destination with
    | reg r => cases source <;> simp [superfunction, Superfunction.movOf, Operand.register?]
    | memory =>
      cases source with
      | reg r => simp [superfunction, Superfunction.movOf, Operand.register?]
      | memory => exact absurd rfl hop
  | mvi destination => cases destination <;> simp [superfunction, Superfunction.mviOf, Operand.register?]
  | alu operation source =>
    cases operation <;> cases source <;>
      simp [superfunction, Superfunction.aluOf, Operand.register?]
  | aluImmediate operation =>
    cases operation <;> simp [superfunction, Superfunction.aluImmediateOf]
  | inr destination =>
    cases destination <;> simp [superfunction, Superfunction.inrDcrOf, Operand.register?]
  | dcr destination =>
    cases destination <;> simp [superfunction, Superfunction.inrDcrOf, Operand.register?]
  | jmp condition => rcases condition with _ | ⟨flag, negate⟩ <;> simp [superfunction]
  | call condition => rcases condition with _ | ⟨flag, negate⟩ <;> simp [superfunction]
  | ret condition => rcases condition with _ | ⟨flag, negate⟩ <;> simp [superfunction]
  | _ => simp [superfunction]

theorem Op.devices_performAll (op : Op) :
    (c.buses.performAll (writes (op.stores c.arch) ++
      (op.deviceCall c.buses.environment c.arch).toList)).devices =
        (op.operate c.buses.environment c.arch).devices := by
  have hwrites := c.buses.devices_performAll_writes (op.stores c.arch)
  rw [Buses.performAll, List.foldl_append]
  change ((c.buses.performAll (writes (op.stores c.arch))).performAll _).devices = _
  cases op with
  | input =>
    simp only [operate, deviceCall]
    cases c.buses.environment.ports c.arch.immediate <;> rfl
  | output =>
    simp only [operate, deviceCall]
    cases c.buses.environment.ports c.arch.immediate <;> rfl
  | call condition =>
    refine hwrites.trans ?_
    simp only [operate]
    split <;> rfl
  | ret condition =>
    refine hwrites.trans ?_
    simp only [operate]
    split <;> rfl
  | _ => exact hwrites

theorem Op.read_performAll (op : Op) :
    (c.buses.performAll (writes (op.stores c.arch) ++
      (op.deviceCall c.buses.environment c.arch).toList)).read =
        c.buses.environment.store c.arch.memory (op.stores c.arch) := by
  rw [Buses.performAll, List.foldl_append]
  change ((c.buses.performAll (writes (op.stores c.arch))).performAll _).read = _
  have hdevice : ∀ (b : Buses ι δ) call, op.deviceCall c.buses.environment c.arch = some call →
      (b.perform call).read = b.read := by
    intro b call
    cases op <;> simp only [deviceCall, reduceCtorEq, false_implies, Option.map_eq_some_iff]
    all_goals
      rintro ⟨device, -, rfl⟩
      rfl
  refine Eq.trans ?_ (c.buses.read_performAll_stores (op.stores c.arch))
  cases hcall : op.deviceCall c.buses.environment c.arch with
  | none => rfl
  | some call => exact hdevice _ call hcall

/-- **One instruction.** What the emulator leaves of an instruction is, to a program, what the
architecture says. -/
theorem Op.arch_next (op : Op) (hop : op ≠ .mov .memory .memory) :
    (op.superfunction.next c).arch =
      { op.operate c.buses.environment c.arch with
        memory := c.buses.environment.store c.arch.memory (op.stores c.arch) } := by
  obtain ⟨hei, hdi, hhlt⟩ := op.superfunction_latches hop
  obtain ⟨hrequested, henabled, hpending, hhalted⟩ :=
    op.operate_latches c.buses.environment c.arch
  refine State.ext_toFile (op.nextRegisters_eq c) (op.nextPc_eq c) ?_ ?_ ?_ ?_ ?_ ?_
  · rw [← op.read_performAll c, ← op.footprint_eq c hop]
    rfl
  · rw [← op.devices_performAll c, ← op.footprint_eq c hop]
    rfl
  · refine (op.superfunction.latchEffect_interruptsEnableRequested c.latches).trans ?_
    rw [hrequested]
    simp only [hei]
    rfl
  · refine (op.superfunction.latchEffect_interruptsEnabled c.latches).trans ?_
    rw [henabled]
    simp only [hdi]
    rfl
  · rw [hpending]
    exact pending_congr (op.superfunction.latchEffect_interruptRequested c.latches)
      (op.superfunction.latchEffect_interruptVectorRequested c.latches)
  · refine (op.superfunction.latchEffect_halted c.latches).trans ?_
    rw [hhalted]
    simp only [hhlt]
    rfl

end Arch

/-! ### One call -/

namespace Cpu

variable (c : Cpu ι δ)

theorem arch_fetched : c.fetched.arch = c.arch.fetched := by
  refine Arch.State.ext_toFile rfl rfl rfl rfl ?_ ?_ ?_ ?_
  · exact c.latches.promote_interruptsEnableRequested
  · exact c.latches.promote_interruptsEnabled
  · exact Arch.pending_congr c.latches.promote_interruptRequested
      c.latches.promote_interruptVectorRequested
  · exact c.latches.promote_halted

theorem arch_cycleEvent : c.arch.cycleEvent = c.cycleEvent := by
  have hpending : c.arch.pending.isSome = c.latches.interruptRequested := by
    simp only [arch, Latches.pending]
    cases c.latches.interruptRequested <;> rfl
  rw [Arch.State.cycleEvent, cycleEvent, accepts_eq, hpending]
  rfl

/-- An event calls the buses as the architecture says. -/
theorem footprint_eq_stepCalls (e : Event) :
    c.footprint e = c.arch.stepCalls c.buses.environment e := by
  cases e with
  | exec opcode =>
    rw [footprint, Arch.Op.superfunction_decode,
      Arch.Op.footprint_eq _ _ (Arch.Op.decode_ne_mov_memory opcode), arch_fetched]
    rfl
  | _ => rfl

variable [IOPort ι δ]

/-- An event leaves what the architecture says. -/
theorem arch_next (e : Event) (he : e = .accept → c.latches.interruptRequested = true) :
    (c.next e).arch = c.arch.next c.buses.environment e := by
  cases e with
  | accept =>
    have hvector : c.arch.pending = some c.latches.interruptVectorRequested := by
      simp only [arch, Latches.pending, if_pos (he rfl)]
    refine Arch.State.ext_toFile (c.registers.file_pushedRegisters c.pc) ?_ ?_ ?_ ?_ rfl rfl rfl
    · simp only [Arch.State.next, hvector]
      rfl
    · exact c.buses.read_performAll_stores (c.arch.pushed c.pc)
    · exact c.buses.devices_performAll_writes (c.arch.pushed c.pc)
    · exact c.latches.promote_interruptsEnableRequested
  | exec opcode =>
    change ((Superfunction.ofOpcode opcode).next c.fetched).arch = _
    rw [Arch.Op.superfunction_decode,
      Arch.Op.arch_next _ _ (Arch.Op.decode_ne_mov_memory opcode), arch_fetched]
    rfl
  | idle =>
    refine Arch.State.ext_toFile rfl rfl rfl rfl ?_ ?_ ?_ ?_
    · exact c.latches.promote_interruptsEnableRequested
    · exact c.latches.promote_interruptsEnabled
    · exact Arch.pending_congr c.latches.promote_interruptRequested
        c.latches.promote_interruptVectorRequested
    · exact c.latches.promote_halted
  | request interruptNum => rfl
  | reset => rfl

/-! ### Every run -/

/-- The emulator as a reactive system that also reports what a call adds to the log. -/
def observed : Reactive (Cpu ι δ) Action (Event × List (BusEvent ι)) where
  step := system.step
  event c a := (system.event c a, (system.step c a).buses.log.drop c.buses.log.length)

/-- What a call adds to the log are the calls of its event on the buses. -/
theorem observed_event (a : Action) :
    observed.event c a = (system.event c a, c.footprint (system.event c a)) := by
  refine Prod.ext rfl ?_
  change (system.step c a).buses.log.drop c.buses.log.length = _
  rw [buses_step, Buses.log_performAll, List.drop_left]

/-- The log grows by what the calls report. -/
theorem log_after (actions : List Action) :
    (system.after c actions).buses.log =
      c.buses.log ++ ((observed.history c actions).map Prod.snd).flatten := by
  induction actions generalizing c with
  | nil => exact (List.append_nil _).symm
  | cons a actions ih =>
    rw [Reactive.after_cons, ih, Reactive.history, List.map_cons, List.flatten_cons,
      ← List.append_assoc, observed_event, buses_step, Buses.log_performAll]
    rfl

/-- The events the calls report are those of the system. -/
theorem history_observed (actions : List Action) :
    (observed.history c actions).map Prod.fst = system.history c actions := by
  induction actions generalizing c with
  | nil => rfl
  | cons a actions ih =>
    rw [Reactive.history, Reactive.history, List.map_cons]
    exact congrArg _ (ih _)

theorem arch_event (a : Action) : c.arch.event a = system.event c a := by
  cases a with
  | cycle => exact c.arch_cycleEvent
  | requestInterrupt interruptNum => rfl
  | reset => rfl

/-- A call leaves what the architecture says. -/
theorem arch_step (a : Action) :
    (system.step c a).arch = (Arch.machine c.buses.environment).step c.arch a := by
  change _ = c.arch.next _ (c.arch.event a)
  rw [step_eq, arch_event]
  refine c.arch_next _ fun he => ?_
  have haccepts := cycleEvent_eq_accept_iff.mp (cycleEvent_of_event_eq_accept he)
  rw [accepts_eq, Bool.and_eq_true] at haccepts
  exact haccepts.1

/-- What a call reports can be seen. -/
theorem arch_observed_event (a : Action) :
    observed.event c a = (Arch.machine c.buses.environment).event c.arch a := by
  rw [observed_event, ← arch_event, footprint_eq_stepCalls]
  rfl

theorem environment_step (a : Action) :
    (system.step c a).buses.environment = c.buses.environment := by
  rw [buses_step, Buses.environment_performAll]

/-- The emulator simulates the machine on its environment. -/
theorem simulation_machine (env : Arch.Environment ι) :
    (observed (δ := δ)).Simulation (Arch.machine env) (fun _ _ => True) (fun _ _ => True)
      fun c s => c.arch = s ∧ c.buses.environment = env where
  event {c s a} h _ _ := by
    obtain ⟨rfl, rfl⟩ := h
    exact c.arch_observed_event a
  step {c s a} h _ _ := by
    obtain ⟨rfl, rfl⟩ := h
    exact ⟨c.arch_step a, c.environment_step a⟩

/-- What relates two machines on one environment relates two CPUs on it, whatever is made of
the events of each. -/
theorem simulation_of_arch {β : Type w} (f g : Event × List (BusEvent ι) → β)
    (rule : Arch.Environment ι → Arch.State δ → Event → Prop)
    (R : Arch.State δ → Arch.State δ → Prop)
    (hstep : ∀ env {s t a}, R s t → rule env s (s.event a) →
      f ((Arch.machine env).event s a) = g ((Arch.machine env).event t a) ∧
        R ((Arch.machine env).step s a) ((Arch.machine env).step t a)) :
    (observed.reporting f).Simulation (observed.reporting g)
      (fun c a => rule c.buses.environment c.arch (system.event c a)) (fun _ _ => True)
      fun c d => R c.arch d.arch ∧ c.buses.environment = d.buses.environment where
  event {c d a} h hrule _ := by
    rw [← arch_event] at hrule
    change f (observed.event c a) = g (observed.event d a)
    rw [arch_observed_event, arch_observed_event, ← h.2]
    exact (hstep c.buses.environment h.1 hrule).1
  step {c d a} h hrule _ := by
    rw [← arch_event] at hrule
    change R (system.step c a).arch (system.step d a).arch ∧
      (system.step c a).buses.environment = (system.step d a).buses.environment
    rw [arch_step, arch_step, environment_step, environment_step, ← h.2]
    exact ⟨(hstep c.buses.environment h.1 hrule).2, rfl⟩

theorem arch_after (actions : List Action) :
    (system.after c actions).arch = (Arch.machine c.buses.environment).after c.arch actions ∧
      (system.after c actions).buses.environment = c.buses.environment :=
  (simulation_machine c.buses.environment).after ⟨rfl, rfl⟩
    (Reactive.along_of_forall (fun _ _ => trivial) c actions)
    (Reactive.along_of_forall (fun _ _ => trivial) c.arch actions)

/-- What a run reports can be seen. -/
theorem arch_history (actions : List Action) :
    observed.history c actions = (Arch.machine c.buses.environment).history c.arch actions :=
  (simulation_machine c.buses.environment).history ⟨rfl, rfl⟩
    (Reactive.along_of_forall (fun _ _ => trivial) c actions)
    (Reactive.along_of_forall (fun _ _ => trivial) c.arch actions)

/-- **The emulator refines the architecture.** Whatever is called in whatever order, a program
sees the state the machine is in and the environment it began with; the calls do what the
machine's do, and the log grows by the bus calls of the machine's history. -/
theorem refines_machine (actions : List Action) :
    (system.after c actions).arch = (Arch.machine c.buses.environment).after c.arch actions ∧
    (system.after c actions).buses.environment = c.buses.environment ∧
    system.history c actions =
      ((Arch.machine c.buses.environment).history c.arch actions).map Prod.fst ∧
    (system.after c actions).buses.log = c.buses.log ++
      (((Arch.machine c.buses.environment).history c.arch actions).map Prod.snd).flatten := by
  obtain ⟨hafter, henvironment⟩ := c.arch_after actions
  refine ⟨hafter, henvironment, ?_, ?_⟩
  · rw [← history_observed, arch_history]
  · rw [log_after, arch_history]

end Cpu

end Fake8080
