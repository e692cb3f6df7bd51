import Fake8080.Step.Cycle

/-!
# The scratch registers are invisible

`W` and `Z` hold operands and return addresses inside an instruction. No opcode names
them, and every instruction that reads one has written it first. So two CPUs that differ
in nothing else can never be told apart: `Cpu.SameButScratch` is a bisimulation.

On register files the relation is preserved by every write and respected by every read
that does not name a scratch register; an instruction is put together from those.
-/

namespace Fake8080

universe u v

variable {ι : Type u} {δ : Type v}

/-! ### Register files that differ in the scratch registers -/

namespace Registers

/-- The register files differ at most in `W` and `Z`. -/
def SameButScratch (r r' : Registers) : Prop :=
  ∀ reg, reg ≠ .w → reg ≠ .z → r.getRegister reg = r'.getRegister reg

namespace SameButScratch

variable {r r' : Registers}

theorem refl (r : Registers) : r.SameButScratch r := fun _ _ _ => rfl

theorem symm (h : r.SameButScratch r') : r'.SameButScratch r :=
  fun reg hw hz => (h reg hw hz).symm

theorem setRegister (h : r.SameButScratch r') (reg : Register) (value : Byte) :
    (r.setRegister reg value).SameButScratch (r'.setRegister reg value) := by
  intro reg' hw hz
  rw [getRegister_setRegister, getRegister_setRegister, h reg' hw hz]

theorem setRegister_left (h : r.SameButScratch r') {reg : Register} (hreg : reg = .w ∨ reg = .z)
    (value : Byte) : (r.setRegister reg value).SameButScratch r' := by
  intro reg' hw hz
  have hne : reg' ≠ reg := by rcases hreg with rfl | rfl <;> assumption
  rw [getRegister_setRegister, if_neg hne, h reg' hw hz]

theorem setCombinedRegister (h : r.SameButScratch r') (reg : CombinedRegister) (value : Word) :
    (r.setCombinedRegister reg value).SameButScratch (r'.setCombinedRegister reg value) :=
  (h.setRegister _ _).setRegister _ _

theorem setCombinedRegister_left (h : r.SameButScratch r') (value : Word) :
    (r.setCombinedRegister .wz value).SameButScratch r' :=
  (h.setRegister_left (.inl rfl) _).setRegister_left (.inr rfl) _

/-- Different words in the scratch pair keep the relation. -/
theorem setCombinedRegister_wz (h : r.SameButScratch r') (value value' : Word) :
    (r.setCombinedRegister .wz value).SameButScratch (r'.setCombinedRegister .wz value') :=
  (h.symm.setCombinedRegister_left value').symm.setCombinedRegister_left value

/-- Both have the same flags. -/
theorem getFlag (h : r.SameButScratch r') (flag : Flags) : r.getFlag flag = r'.getFlag flag := by
  rw [Registers.getFlag, Registers.getFlag, h .f (by decide) (by decide)]

theorem getCombinedRegister (h : r.SameButScratch r') {reg : CombinedRegister}
    (hreg : reg ≠ .wz) : r.getCombinedRegister reg = r'.getCombinedRegister reg := by
  have hpair : ∀ reg', reg' = reg.registerPairs.1 ∨ reg' = reg.registerPairs.2 →
      r.getRegister reg' = r'.getRegister reg' := by
    intro reg' hmem
    refine h reg' ?_ ?_ <;> cases reg <;>
      simp_all [CombinedRegister.registerPairs] <;> rcases hmem with rfl | rfl <;> decide
  rw [Registers.getCombinedRegister, Registers.getCombinedRegister, combineRegisters,
    combineRegisters, hpair _ (.inl rfl), hpair _ (.inr rfl)]

theorem setFlag (h : r.SameButScratch r') (flag : Flags) (value : Bool) :
    (r.setFlag flag value).SameButScratch (r'.setFlag flag value) := by
  rw [Registers.setFlag, Registers.setFlag, h .f (by decide) (by decide)]
  exact h.setRegister _ _

theorem carryIn (h : r.SameButScratch r') (useCarry : Bool) :
    r.carryIn useCarry = r'.carryIn useCarry := by
  rw [Registers.carryIn, Registers.carryIn, h.getFlag]

theorem describe (h : r.SameButScratch r') (result : Byte) :
    (r.describe result).SameButScratch (r'.describe result) :=
  ((h.setFlag _ _).setFlag _ _).setFlag _ _

theorem arithmeticResult (h : r.SameButScratch r') (first second : Byte)
    (op : AritmeticOperation) (useCarry : Bool) :
    r.arithmeticResult first second op useCarry = r'.arithmeticResult first second op useCarry := by
  rw [Registers.arithmeticResult, Registers.arithmeticResult, h.carryIn]

theorem arithmeticFlags (h : r.SameButScratch r') (first second : Byte)
    (op : AritmeticOperation) (useCarry modifyCarry : Bool) :
    (r.arithmeticFlags first second op useCarry modifyCarry).SameButScratch
      (r'.arithmeticFlags first second op useCarry modifyCarry) := by
  simp only [Registers.arithmeticFlags, h.carryIn]
  refine SameButScratch.describe ?_ _
  cases modifyCarry
  · exact h.setFlag _ _
  · exact (h.setFlag _ _).setFlag _ _

theorem accumulate (h : r.SameButScratch r') (second : Byte) (op : AritmeticOperation)
    (useCarry storeResult : Bool) :
    (r.accumulate second op useCarry storeResult).SameButScratch
      (r'.accumulate second op useCarry storeResult) := by
  rw [Registers.accumulate, Registers.accumulate, h .a (by decide) (by decide),
    h.arithmeticResult]
  cases storeResult
  · exact h.arithmeticFlags _ _ _ _ _
  · exact (h.arithmeticFlags _ _ _ _ _).setRegister _ _

theorem logic (h : r.SameButScratch r') (second : Byte) (op : LogicOperation) :
    (r.logic second op).SameButScratch (r'.logic second op) := by
  rw [Registers.logic, Registers.logic, h .a (by decide) (by decide)]
  exact (((((h.setFlag _ _).setFlag _ _).setFlag _ _).setFlag _ _).setFlag _ _).setRegister _ _

theorem rotate (h : r.SameButScratch r') {reg : Register} (hw : reg ≠ .w) (hz : reg ≠ .z)
    (direction : ShiftDirection) (rotateThrough : Bool) :
    (r.rotate reg direction rotateThrough).SameButScratch
      (r'.rotate reg direction rotateThrough) := by
  rw [Registers.rotate, Registers.rotate, h reg hw hz, h.getFlag]
  exact (h.setFlag _ _).setRegister _ _

theorem decimalAdjust (h : r.SameButScratch r') :
    r.decimalAdjust.SameButScratch r'.decimalAdjust := by
  rw [Registers.decimalAdjust, Registers.decimalAdjust, h .a (by decide) (by decide),
    h.getFlag, h.getFlag]
  exact ((h.setRegister _ _).setFlag _ _).describe _

theorem pushedRegisters (h : r.SameButScratch r') (returnAddress : Word) :
    (Superfunction.pushedRegisters r returnAddress).SameButScratch
      (Superfunction.pushedRegisters r' returnAddress) := by
  rw [Superfunction.pushedRegisters, Superfunction.pushedRegisters,
    h.getCombinedRegister (by decide)]
  exact (h.setCombinedRegister _ _).setCombinedRegister _ _

theorem poppedRegisters (h : r.SameButScratch r') (returnAddress : Word) :
    (Superfunction.poppedRegisters r returnAddress).SameButScratch
      (Superfunction.poppedRegisters r' returnAddress) := by
  rw [Superfunction.poppedRegisters, Superfunction.poppedRegisters,
    h.getCombinedRegister (by decide)]
  exact (h.setCombinedRegister _ _).setCombinedRegister _ _

end SameButScratch

end Registers

/-- An operand register is not a scratch register. -/
theorem Register.IsOperand.not_scratch {reg : Register} (h : reg.IsOperand) :
    reg ≠ .w ∧ reg ≠ .z := by
  rcases h with rfl | rfl | rfl | rfl | rfl | rfl | rfl <;> decide

/-! ### CPUs that differ in the scratch registers -/

namespace Cpu

/-- The CPUs differ at most in `W` and `Z`. -/
structure SameButScratch (c d : Cpu ι δ) : Prop where
  pc : c.pc = d.pc
  registers : c.registers.SameButScratch d.registers
  latches : c.latches = d.latches
  buses : c.buses = d.buses

namespace SameButScratch

variable {c d : Cpu ι δ}

theorem sp (h : c.SameButScratch d) : c.sp = d.sp :=
  h.registers.getCombinedRegister (by decide)

theorem hl (h : c.SameButScratch d) : c.hl = d.hl :=
  h.registers.getCombinedRegister (by decide)

theorem getM (h : c.SameButScratch d) : c.getM = d.getM := by
  rw [Cpu.getM, Cpu.getM, h.buses, h.registers.getCombinedRegister (by decide)]

theorem operandByte (h : c.SameButScratch d) : c.operandByte = d.operandByte := by
  rw [Cpu.operandByte, Cpu.operandByte, h.buses, h.pc]

theorem operandWord (h : c.SameButScratch d) : c.operandWord = d.operandWord := by
  rw [Cpu.operandWord, Cpu.operandWord, h.buses, h.pc]

theorem readTwoBytes (h : c.SameButScratch d) (address : Word) :
    c.readTwoBytes address = d.readTwoBytes address := by
  rw [Cpu.readTwoBytes, Cpu.readTwoBytes, h.buses]

theorem taken (h : c.SameButScratch d) (flagToVerify : Flags) (negate : Bool) :
    c.taken flagToVerify negate = d.taken flagToVerify negate := by
  rw [Cpu.taken, Cpu.taken, h.registers.getFlag]

theorem fetched (h : c.SameButScratch d) : c.fetched.SameButScratch d.fetched :=
  ⟨congrArg (· + 1) h.pc, h.registers, congrArg Latches.promote h.latches, h.buses⟩

theorem cycleEvent (h : c.SameButScratch d) : c.cycleEvent = d.cycleEvent := by
  rw [Cpu.cycleEvent, Cpu.cycleEvent, accepts, accepts, h.latches, h.buses, h.pc]

/-- A programmable instruction goes on at the same place. -/
theorem nextPc_superfunction (h : c.SameButScratch d) (f : Superfunction) :
    f.nextPc c = f.nextPc d := by
  cases f <;> simp only [Superfunction.nextPc, h.pc, h.operandWord, h.taken, h.hl, h.sp,
    h.readTwoBytes]

theorem footprint_superfunction (h : c.SameButScratch d) {f : Superfunction}
    (hf : f.Programmable) : f.footprint c = f.footprint d := by
  cases f with
  | movMR reg =>
    obtain ⟨hw, hz⟩ := hf.not_scratch
    rw [Superfunction.footprint, Superfunction.footprint, h.hl, h.registers reg hw hz]
  | staxRR reg =>
    rw [Superfunction.footprint, Superfunction.footprint,
      h.registers.getCombinedRegister hf.1, h.registers .a (by decide) (by decide)]
  | pushRR reg =>
    rw [Superfunction.footprint, Superfunction.footprint, h.sp,
      h.registers.getCombinedRegister hf.1]
  | _ => simp only [Superfunction.footprint, h.hl, h.sp, h.pc, h.getM, h.operandByte,
      h.operandWord, h.taken, h.buses, h.registers.arithmeticResult,
      h.registers .a (by decide) (by decide)]

variable [IOPort ι δ]

/-- A programmable instruction leaves register files that differ at most in `W` and
`Z`. -/
theorem nextRegisters_superfunction (h : c.SameButScratch d) {f : Superfunction}
    (hf : f.Programmable) : (f.nextRegisters c).SameButScratch (f.nextRegisters d) := by
  have hr := h.registers
  have ha : c.registers.getRegister .a = d.registers.getRegister .a :=
    hr .a (by decide) (by decide)
  -- an operand is never a scratch register, and `W` is written before it is an operand
  cases f with
  | addAdcSubSbbCmpR reg op useCarry storeResult =>
    obtain ⟨hw, hz⟩ := hf.not_scratch
    simp only [Superfunction.nextRegisters, hr reg hw hz]
    exact hr.accumulate _ _ _ _
  | addAdcSubSbbCmpM op useCarry storeResult =>
    simp only [Superfunction.nextRegisters, h.getM]
    exact (hr.setRegister _ _).accumulate _ _ _ _
  | adiAciSuiSbiCpiD8 op useCarry storeResult =>
    simp only [Superfunction.nextRegisters, h.operandByte]
    exact (hr.setRegister _ _).accumulate _ _ _ _
  | inrDcrR reg op =>
    obtain ⟨hw, hz⟩ := hf.not_scratch
    simp only [Superfunction.nextRegisters, hr reg hw hz, hr.arithmeticResult]
    exact (hr.arithmeticFlags _ _ _ _ _).setRegister _ _
  | inrDcrM op =>
    simp only [Superfunction.nextRegisters, h.getM, hr.arithmeticResult]
    exact ((hr.setRegister _ _).arithmeticFlags _ _ _ _ _).setRegister _ _
  | anaOraXraR reg op =>
    obtain ⟨hw, hz⟩ := hf.not_scratch
    simp only [Superfunction.nextRegisters, hr reg hw hz]
    exact hr.logic _ _
  | anaOraXraM op =>
    simp only [Superfunction.nextRegisters, h.getM]
    exact (hr.setRegister _ _).logic _ _
  | aniOriXriD8 op =>
    simp only [Superfunction.nextRegisters, h.operandByte]
    exact (hr.setRegister _ _).logic _ _
  | rlcRrcRalRarR reg direction rotateThrough =>
    obtain ⟨hw, hz⟩ := hf.not_scratch
    exact hr.rotate hw hz _ _
  | movRR source destination =>
    obtain ⟨hw, hz⟩ := hf.1.not_scratch
    simp only [Superfunction.nextRegisters, hr source hw hz]
    exact hr.setRegister _ _
  | inxDcxRR reg op =>
    simp only [Superfunction.nextRegisters, hr.getCombinedRegister hf.1]
    exact hr.setCombinedRegister _ _
  | dadRR reg =>
    simp only [Superfunction.nextRegisters, h.hl, hr.getCombinedRegister hf.1]
    exact (hr.setFlag _ _).setCombinedRegister _ _
  -- `WZ` may end up different: nothing that follows can name it
  | staA16 => exact hr.setCombinedRegister_wz _ _
  | ldaxRR reg =>
    simp only [Superfunction.nextRegisters, hr.getCombinedRegister hf.1, h.buses]
    exact hr.setRegister _ _
  | ldaA16 =>
    simp only [Superfunction.nextRegisters, h.operandWord, h.buses]
    exact (hr.setCombinedRegister _ _).setRegister _ _
  | popRR reg =>
    simp only [Superfunction.nextRegisters, h.sp, h.readTwoBytes]
    exact (hr.setCombinedRegister _ _).setCombinedRegister _ _
  | xchg =>
    have hde : c.registers.getCombinedRegister .de = d.registers.getCombinedRegister .de :=
      hr.getCombinedRegister (by decide)
    simp only [Superfunction.nextRegisters, h.hl, hde]
    exact (hr.setCombinedRegister _ _).setCombinedRegister _ _
  | daa => exact hr.decimalAdjust
  | conditionalCallA16 flagToVerify negate =>
    simp only [Superfunction.nextRegisters, h.taken, h.pc]
    split
    · exact hr.pushedRegisters _
    · exact hr
  | conditionalRet flagToVerify negate =>
    simp only [Superfunction.nextRegisters, h.taken, h.sp, h.readTwoBytes]
    split
    · exact hr.poppedRegisters _
    · exact hr
  | ret =>
    simp only [Superfunction.nextRegisters, h.sp, h.readTwoBytes]
    exact hr.poppedRegisters _
  | callA16 =>
    simp only [Superfunction.nextRegisters, h.pc]
    exact hr.pushedRegisters _
  | rstN rstVector =>
    simp only [Superfunction.nextRegisters, h.pc]
    exact hr.pushedRegisters _
  | stc => exact hr.setFlag _ _
  | cma =>
    simp only [Superfunction.nextRegisters, ha]
    exact hr.setRegister _ _
  | cmc =>
    simp only [Superfunction.nextRegisters, hr.getFlag]
    exact hr.setFlag _ _
  | mviRD8 reg =>
    simp only [Superfunction.nextRegisters, h.operandByte]
    exact hr.setRegister _ _
  | movRM reg =>
    simp only [Superfunction.nextRegisters, h.getM]
    exact hr.setRegister _ _
  | inD8 =>
    simp only [Superfunction.nextRegisters, h.operandByte, h.buses]
    exact hr.setRegister _ _
  | lxiRRD16 reg =>
    simp only [Superfunction.nextRegisters, h.operandWord]
    exact hr.setCombinedRegister _ _
  | lhldA16 =>
    simp only [Superfunction.nextRegisters, h.operandWord, h.readTwoBytes]
    exact hr.setCombinedRegister _ _
  | pushRR reg =>
    simp only [Superfunction.nextRegisters, h.sp]
    exact hr.setCombinedRegister _ _
  | xthl =>
    simp only [Superfunction.nextRegisters, h.sp, h.readTwoBytes]
    exact hr.setCombinedRegister _ _
  | sphl =>
    simp only [Superfunction.nextRegisters, h.hl]
    exact hr.setCombinedRegister _ _
  | _ => exact hr

/-- Every event leaves CPUs that differ at most in `W` and `Z`. -/
theorem next (h : c.SameButScratch d) (e : Event) : (c.next e).SameButScratch (d.next e) := by
  have hl : (c.next e).latches = (d.next e).latches := by rw [Cpu.next, Cpu.next, h.latches]
  cases e with
  | accept =>
    refine ⟨?_, ?_, hl, ?_⟩
    · simp only [Cpu.next, Cpu.nextPc, h.latches]
    · simp only [Cpu.next, Cpu.nextRegisters, h.pc]
      exact h.registers.pushedRegisters _
    · simp only [Cpu.next, Cpu.footprint, h.sp, h.pc, h.buses]
  | exec opcode =>
    have hf := Superfunction.programmable_ofOpcode opcode
    refine ⟨h.fetched.nextPc_superfunction _, h.fetched.nextRegisters_superfunction hf, hl, ?_⟩
    simp only [Cpu.next, Cpu.footprint, h.fetched.footprint_superfunction hf, h.buses]
  | reset => exact ⟨rfl, h.registers, hl, h.buses⟩
  | _ => exact ⟨h.pc, h.registers, hl, h.buses⟩

end SameButScratch

variable [IOPort ι δ]

/-- No call of the public interface can tell such CPUs apart. -/
theorem sameButScratch_bisimulation :
    (system (ι := ι) (δ := δ)).Bisimulation SameButScratch :=
  bisimulation_of_next SameButScratch.cycleEvent fun h _ => h.next _

/-- **`W` and `Z` are invisible.** Two CPUs that differ at most in `W` and `Z`, given the
same calls, report the same events and differ at most in `W` and `Z` after every run: the
same `pc`, visible registers, latches, memory and devices, and the same writes and device
calls in the log. -/
theorem scratch_invisible (c d : Cpu ι δ) (h : c.SameButScratch d) (inputs : List Action) :
    (system.after c inputs).SameButScratch (system.after d inputs) ∧
      system.history c inputs = system.history d inputs :=
  ⟨sameButScratch_bisimulation.after h inputs, sameButScratch_bisimulation.history h inputs⟩

/-- `INR M` goes through `W`, whatever it held before. -/
theorem scratch_invisible_inrM :
    let c := Cpu.new (Buses.mapMemory [0x34])
    (system.after c [.cycle]).buses.log =
      (system.after (c.setRegister .w 5) [.cycle]).buses.log := by
  intro c
  have h : c.SameButScratch (c.setRegister .w 5) :=
    ⟨rfl, ((Registers.SameButScratch.refl _).setRegister_left (.inl rfl) _).symm, rfl, rfl⟩
  rw [(scratch_invisible c (c.setRegister .w 5) h [.cycle]).1.buses]

end Cpu

end Fake8080
