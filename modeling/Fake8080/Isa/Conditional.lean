import Fake8080.Isa.Footprint

/-!
# Conditional transfers of control

A conditional jump, call or return whose condition holds does what `JMP`, `CALL` or `RET`
does in its place; one whose condition fails moves past its operand and does nothing else.
The same place with another opcode is another memory, so the comparison is made twice:
with the table entry of the unconditional opcode run on the very same state, and with a
second machine whose memory holds that opcode.
-/

namespace Fake8080

universe u v

variable {ι : Type u} {δ : Type v}

/-! ### Conditions and transfers -/

/-- The condition a code names: `NZ`, `Z`, `NC`, `C`, `PO`, `PE`, `P` or `M`. -/
def Registers.holds (r : Registers) (code : BitVec 3) : Bool :=
  match code with
  | 0 => !r.getFlag .z
  | 1 => r.getFlag .z
  | 2 => !r.getFlag .cy
  | 3 => r.getFlag .cy
  | 4 => !r.getFlag .p
  | 5 => r.getFlag .p
  | 6 => !r.getFlag .s
  | _ => r.getFlag .s

/-- The transfers of control that have a conditional form. -/
inductive Transfer
  | jump | call | ret
  deriving DecidableEq

namespace Transfer

/-- The opcode of `JMP`, `CALL` or `RET`. -/
def opcode : Transfer → Byte
  | jump => 0xC3
  | call => 0xCD
  | ret => 0xC9

/-- The opcode of a conditional form: `11ccc010`, `11ccc100` or `11ccc000`. -/
def conditionalOpcode (transfer : Transfer) (code : BitVec 3) : Byte :=
  match transfer with
  | jump => 0b11#2 ++ code ++ 0b010#3
  | call => 0b11#2 ++ code ++ 0b100#3
  | ret => 0b11#2 ++ code ++ 0b000#3

/-- The number of bytes of the instruction. -/
def length : Transfer → Word
  | jump | call => 3
  | ret => 1

/-- The word control goes to: the operand, or the word `SP` points at. -/
def target (transfer : Transfer) (c : Cpu ι δ) : Word :=
  match transfer with
  | jump | call => c.immediateWord
  | ret => c.readTwoBytes c.sp

/-- What runs the unconditional form. -/
def superfunction : Transfer → Superfunction
  | jump => .jmpA16
  | call => .callA16
  | ret => .ret

/-- What runs the conditional form. -/
def conditionalSuperfunction (transfer : Transfer) (code : BitVec 3) : Superfunction :=
  match transfer with
  | jump => .conditionalJmpA16 (condition code).1 (condition code).2
  | call => .conditionalCallA16 (condition code).1 (condition code).2
  | ret => .conditionalRet (condition code).1 (condition code).2

theorem ofOpcode_opcode (transfer : Transfer) :
    Superfunction.ofOpcode transfer.opcode = transfer.superfunction := by
  rw [Superfunction.ofOpcode_eq_decode]
  cases transfer <;> rfl

/-- The table entry at the conditional opcode. -/
theorem ofOpcode_conditionalOpcode (transfer : Transfer) (code : BitVec 3) :
    Superfunction.ofOpcode (transfer.conditionalOpcode code) =
      transfer.conditionalSuperfunction code := by
  cases transfer <;> exact Superfunction.ofOpcode_append _ _ _

end Transfer

theorem conditionCode_cases : ∀ code : BitVec 3, code = 0 ∨ code = 1 ∨ code = 2 ∨ code = 3 ∨
    code = 4 ∨ code = 5 ∨ code = 6 ∨ code = 7 := by
  decide

/-- A condition is the test of its flag in its sense. -/
theorem Cpu.taken_condition (c : Cpu ι δ) (code : BitVec 3) :
    c.taken (condition code).1 (condition code).2 = c.registers.holds code := by
  rcases conditionCode_cases code with rfl | rfl | rfl | rfl | rfl | rfl | rfl | rfl
  · exact Bool.bne_true _
  · exact Bool.bne_false _
  · exact Bool.bne_true _
  · exact Bool.bne_false _
  · exact Bool.bne_true _
  · exact Bool.bne_false _
  · exact Bool.bne_true _
  · exact Bool.bne_false _

/-- Codes that differ in their lowest bit name complementary conditions. -/
theorem Registers.holds_xor_one (r : Registers) (code : BitVec 3) :
    r.holds (code ^^^ 1) = !r.holds code := by
  rcases conditionCode_cases code with rfl | rfl | rfl | rfl | rfl | rfl | rfl | rfl <;>
    simp [Registers.holds]

/-! ### Two machines that differ in some bytes -/

/-- The buses agree but for the bytes outside a set. -/
structure Buses.AgreeOn (bytes : Set ℕ) (b b' : Buses ι δ) : Prop where
  memoryBus : b.memoryBus = b'.memoryBus
  ioBus : b.ioBus = b'.ioBus
  devices : b.devices = b'.devices
  log : b.log = b'.log
  host : ∀ byte ∈ bytes, b.host byte = b'.host byte

/-- The states agree but for the bytes outside a set. -/
structure Cpu.AgreeOn (bytes : Set ℕ) (c c' : Cpu ι δ) : Prop where
  pc : c.pc = c'.pc
  registers : c.registers = c'.registers
  latches : c.latches = c'.latches
  buses : c.buses.AgreeOn bytes c'.buses

namespace Buses

variable {bytes : Set ℕ} {b b' : Buses ι δ}

theorem AgreeOn.write (h : b.AgreeOn bytes b') (address : Word) (value : Byte) :
    (b.write address value).AgreeOn bytes (b'.write address value) := by
  have hlog : b.log ++ [BusEvent.write address value] = b'.log ++ [.write address value] := by
    rw [h.log]
  refine ⟨h.memoryBus, h.ioBus, h.devices, hlog, fun byte hbyte => ?_⟩
  have hbytes := h.host byte hbyte
  simp only [Buses.write, h.memoryBus, MemoryBus.write]
  -- the two writes go through the same region
  cases (b'.memoryBus.findRegion address).region with
  | ramRegion memory =>
    simp only [IMemRegion.write, Function.update_apply]
    split
    · rfl
    · exact hbytes
  | romRegion memory => exact hbytes
  | openBusRegion size => exact hbytes

/-- A push keeps the agreement. -/
theorem AgreeOn.push [IOPort ι δ] (h : b.AgreeOn bytes b') (sp word : Word) :
    (b.performAll (Superfunction.pushEvents sp word)).AgreeOn bytes
      (b'.performAll (Superfunction.pushEvents sp word)) :=
  (h.write _ _).write _ _

end Buses

namespace Cpu

variable [IOPort ι δ]

omit [IOPort ι δ] in
/-- An unconditional transfer goes to its target. -/
theorem nextPc_fetched_superfunction (c : Cpu ι δ) (transfer : Transfer) :
    transfer.superfunction.nextPc c.fetched = transfer.target c := by
  cases transfer with
  | jump => exact c.operandWord_fetched
  | call => exact c.operandWord_fetched
  | ret => rfl

/-- Machines that agree and transfer control to the same word agree afterwards. -/
theorem AgreeOn.transfer {bytes : Set ℕ} {c c' : Cpu ι δ} (h : c.AgreeOn bytes c')
    (transfer : Transfer) (htarget : transfer.target c' = transfer.target c) :
    (transfer.superfunction.next c.fetched).AgreeOn bytes
      (transfer.superfunction.next c'.fetched) := by
  have hlatches : c.latches.promote = c'.latches.promote := by rw [h.latches]
  have hpc : transfer.superfunction.nextPc c.fetched =
      transfer.superfunction.nextPc c'.fetched := by
    rw [nextPc_fetched_superfunction, nextPc_fetched_superfunction, htarget]
  cases transfer with
  | jump => exact ⟨hpc, h.registers, hlatches, h.buses⟩
  | call =>
    have hreturn : c.fetched.pc + 2 = c'.fetched.pc + 2 := by
      rw [fetched, fetched, h.pc]
    have hsp : c.fetched.sp = c'.fetched.sp := congrArg (·.getCombinedRegister .sp) h.registers
    refine ⟨hpc, ?_, hlatches, ?_⟩
    · exact congrArg₂ Superfunction.pushedRegisters h.registers hreturn
    · have hpush := h.buses.push c.fetched.sp (c.fetched.pc + 2)
      rw [Superfunction.next, Superfunction.next, Transfer.superfunction,
        Superfunction.footprint, Superfunction.footprint, ← hsp, ← hreturn]
      exact hpush
  | ret => exact ⟨hpc, congrArg₂ Superfunction.poppedRegisters h.registers hpc, hlatches, h.buses⟩

/-- A conditional form whose condition holds is the unconditional one. -/
theorem next_of_holds {c : Cpu ι δ} {code : BitVec 3} (h : c.registers.holds code = true)
    (transfer : Transfer) :
    (transfer.conditionalSuperfunction code).next c = transfer.superfunction.next c := by
  have htaken := c.taken_condition code
  rw [h] at htaken
  cases transfer <;> simp only [Transfer.conditionalSuperfunction, Superfunction.next,
    Superfunction.nextPc, Superfunction.nextRegisters, Superfunction.footprint, htaken, if_true]
    <;> rfl

/-- A conditional form whose condition fails skips the rest of its bytes. -/
theorem next_of_not_holds {c : Cpu ι δ} {code : BitVec 3} (h : c.registers.holds code = false)
    (transfer : Transfer) :
    (transfer.conditionalSuperfunction code).next c =
      { c with pc := c.pc + (transfer.length - 1) } := by
  have htaken := c.taken_condition code
  rw [h] at htaken
  have hzero : c.pc + ((1 : Word) - 1) = c.pc := BitVec.add_zero _
  cases transfer with
  | jump =>
    simp only [Transfer.conditionalSuperfunction, Superfunction.next, Superfunction.nextPc, htaken]
    rfl
  | call =>
    simp only [Transfer.conditionalSuperfunction, Superfunction.next, Superfunction.nextPc,
      Superfunction.nextRegisters, Superfunction.footprint, htaken]
    rfl
  | ret =>
    rw [Transfer.length, hzero]
    simp only [Transfer.conditionalSuperfunction, Superfunction.next, Superfunction.nextPc,
      Superfunction.nextRegisters, htaken]
    rfl

/-- **Conditional transfers.** For every condition: if it holds, the conditional jump, call
or return leaves the same full state as the table entry of `JMP`, `CALL` or `RET` run in its
place, and the same state as a machine that has that opcode there and agrees on its operand,
down to every byte on which the two memories agreed. If it fails, only `pc` changes, which
moves past the instruction, with the promotion of a pending enable request that every cycle
begins with. Of two complementary conditions exactly one holds. -/
theorem conditional_transfer (c : Cpu ι δ) (transfer : Transfer) (code : BitVec 3)
    (h : c.cycleEvent = .exec (transfer.conditionalOpcode code)) :
    (c.registers.holds code = true →
      c.cycle = ((MemberFunction.ofOpcode transfer.opcode).call c.fetched).2 ∧
      c.cycle.pc = transfer.target c ∧
      ∀ (bytes : Set ℕ) (c' : Cpu ι δ), c.AgreeOn bytes c' →
        c'.cycleEvent = .exec transfer.opcode → transfer.target c' = transfer.target c →
          c.cycle.AgreeOn bytes c'.cycle) ∧
    (c.registers.holds code = false →
      c.cycle = { c with pc := c.pc + transfer.length, latches := c.latches.promote }) ∧
    (c.registers.holds code = true ↔ c.registers.holds (code ^^^ 1) = false) := by
  have hcycle : c.cycle = (transfer.conditionalSuperfunction code).next c.fetched := by
    rw [cycle_eq_superfunction_next h, transfer.ofOpcode_conditionalOpcode]
  refine ⟨fun hholds => ?_, fun hfails => ?_, ?_⟩
  · have htaken : c.cycle = transfer.superfunction.next c.fetched := by
      rw [hcycle, next_of_holds (c := c.fetched) hholds]
    refine ⟨?_, ?_, fun bytes c' hagree h' htarget => ?_⟩
    · rw [htaken, MemberFunction.call_eq_superfunction, Superfunction.call_eq,
        ← Transfer.ofOpcode_opcode, Superfunction.ofOpcode]
    · rw [htaken, ← nextPc_fetched_superfunction]
      rfl
    · rw [htaken, cycle_eq_superfunction_next h', transfer.ofOpcode_opcode]
      exact hagree.transfer transfer htarget
  · have hpc : c.fetched.pc + (transfer.length - 1) = c.pc + transfer.length := by
      rw [fetched]
      bv_omega
    rw [hcycle, next_of_not_holds (c := c.fetched) hfails, hpc]
    rfl
  · rw [Registers.holds_xor_one, Bool.not_eq_false']

/-- A new CPU has `Z` clear, so `JNZ` jumps and `JZ` in its place moves on. -/
theorem conditional_transfer_jnz_jz :
    (Cpu.new (Buses.mapMemory [0xC2, 0x34, 0x12])).cycle.pc = 0x1234 ∧
      (Cpu.new (Buses.mapMemory [0xCA, 0x34, 0x12])).cycle.pc = 3 := by
  have hjnz := conditional_transfer (Cpu.new (Buses.mapMemory [0xC2, 0x34, 0x12])) .jump 0
    (by decide)
  have hjz := conditional_transfer (Cpu.new (Buses.mapMemory [0xCA, 0x34, 0x12])) .jump 1
    (by decide)
  refine ⟨(hjnz.1 (by decide)).2.1.trans (by decide), ?_⟩
  rw [hjz.2.1 (by decide)]
  decide

end Cpu

end Fake8080
