import Fake8080.Isa.Refinement

/-!
# What one cycle does to the outside

`BusAction` lists the ways an instruction can touch memory or a device, and
`BusAction.ofOpcode` the opcodes that do; any opcode it does not list touches neither.
One cycle performs exactly the calls of its opcode's action, in order, and nothing else
changes the buses.
-/

namespace Fake8080

universe u v

variable {ι : Type u} {δ : Type v}

/-! ### Opcodes that touch a bus -/

/-- The ways an instruction touches a bus. -/
inductive BusAction
  | none
  | movM (reg : Register)
  | mviM
  | inrM
  | dcrM
  | stax (pair : CombinedRegister)
  | sta
  | shld
  | xthl
  | push (pair : CombinedRegister)
  | call
  | conditionalCall (flag : Flags) (negate : Bool)
  | rst
  | input
  | output
  deriving DecidableEq

/-- How an opcode touches a bus. -/
def BusAction.ofOpcode (opcode : Byte) : BusAction :=
  match opcode with
  | 0x70 => movM .b
  | 0x71 => movM .c
  | 0x72 => movM .d
  | 0x73 => movM .e
  | 0x74 => movM .h
  | 0x75 => movM .l
  | 0x77 => movM .a
  | 0x36 => mviM
  | 0x34 => inrM
  | 0x35 => dcrM
  | 0x02 => stax .bc
  | 0x12 => stax .de
  | 0x32 => sta
  | 0x22 => shld
  | 0xE3 => xthl
  | 0xC5 => push .bc
  | 0xD5 => push .de
  | 0xE5 => push .hl
  | 0xF5 => push .psw
  | 0xCD | 0xDD | 0xED | 0xFD => call
  | 0xC4 => conditionalCall .z true
  | 0xCC => conditionalCall .z false
  | 0xD4 => conditionalCall .cy true
  | 0xDC => conditionalCall .cy false
  | 0xE4 => conditionalCall .p true
  | 0xEC => conditionalCall .p false
  | 0xF4 => conditionalCall .s true
  | 0xFC => conditionalCall .s false
  | 0xC7 | 0xCF | 0xD7 | 0xDF | 0xE7 | 0xEF | 0xF7 | 0xFF => rst
  | 0xDB => input
  | 0xD3 => output
  | _ => none

/-- The device last attached to a port. -/
def lastAttached (attachments : List (Byte × ι)) (port : Byte) : Option ι :=
  (attachments.reverse.find? fun call => call.1 = port).map Prod.snd

namespace Cpu

/-- The byte after the opcode. -/
def immediate (c : Cpu ι δ) : Byte := c.buses.read (c.pc + 1)

/-- The little-endian word after the opcode. -/
def immediateWord (c : Cpu ι δ) : Word :=
  combineBytes (c.buses.read (c.pc + 2)) (c.buses.read (c.pc + 1))

/-- The calls of an action, from the state before the cycle and the devices on the
ports. -/
def busCalls (device : Byte → Option ι) (c : Cpu ι δ) : BusAction → List (BusEvent ι)
  | .none => []
  | .movM reg => [.write c.hl (c.registers.getRegister reg)]
  | .mviM => [.write c.hl c.immediate]
  | .inrM => [.write c.hl (c.buses.read c.hl + 1)]
  | .dcrM => [.write c.hl (c.buses.read c.hl - 1)]
  | .stax pair => [.write (c.registers.getCombinedRegister pair) (c.registers.getRegister .a)]
  | .sta => [.write c.immediateWord (c.registers.getRegister .a)]
  | .shld =>
    [.write c.immediateWord (c.registers.getRegister .l),
      .write (c.immediateWord + 1) (c.registers.getRegister .h)]
  | .xthl =>
    [.write c.sp (c.registers.getRegister .l), .write (c.sp + 1) (c.registers.getRegister .h)]
  | .push pair =>
    [.write (c.sp - 1) (c.registers.getRegister pair.registerPairs.1),
      .write (c.sp - 2) (c.registers.getRegister pair.registerPairs.2)]
  | .call => Superfunction.pushEvents c.sp (c.pc + 3)
  | .conditionalCall flag negate =>
    if c.registers.getFlag flag != negate then Superfunction.pushEvents c.sp (c.pc + 3) else []
  | .rst => Superfunction.pushEvents c.sp (c.pc + 1)
  | .input => ((device c.immediate).map .deviceIn).toList
  | .output => ((device c.immediate).map fun d =>
      .deviceOut d (c.registers.getRegister .a)).toList

/-- The calls of one cycle: those of an interrupt, of nothing, or of an opcode. -/
def cycleCalls (device : Byte → Option ι) (c : Cpu ι δ) : List (BusEvent ι) :=
  match c.cycleEvent with
  | .accept => Superfunction.pushEvents c.sp c.pc
  | .exec opcode => c.busCalls device (.ofOpcode opcode)
  | _ => []

end Cpu

/-! ### The instructions' footprints -/

/-- How a superfunction touches a bus. -/
def Superfunction.busAction : Superfunction → BusAction
  | .inrDcrM op => if op = .add then .inrM else .dcrM
  | .movMR reg => .movM reg
  | .mviMD8 => .mviM
  | .shldA16 => .shld
  | .staxRR reg => .stax reg
  | .staA16 => .sta
  | .pushRR reg => .push reg
  | .xthl => .xthl
  | .callA16 => .call
  | .conditionalCallA16 flagToVerify negate => .conditionalCall flagToVerify negate
  | .rstN _ => .rst
  | .inD8 => .input
  | .outD8 => .output
  | _ => .none

/-- The opcodes that touch a bus are those listed. -/
theorem Superfunction.busAction_ofOpcode (opcode : Byte) :
    (ofOpcode opcode).busAction = .ofOpcode opcode :=
  ofOpcode_of_decode (P := fun opcode f => f.busAction = .ofOpcode opcode) (by decide +kernel)
    opcode

/-- The device on a port is the one last attached to it. -/
theorem IOBus.ports_build (attachments : List (Byte × ι)) (port : Byte) :
    (build attachments).ports port = lastAttached attachments port := by
  -- an `attach` replaces the earlier ones on its port
  induction attachments using List.reverseRecOn with
  | nil => rfl
  | append_singleton attachments call ih =>
    rw [build, List.foldl_append, List.foldl_cons, List.foldl_nil, ← build, lastAttached,
      List.reverse_append, List.reverse_singleton, List.singleton_append, List.find?_cons]
    simp only [attach, Function.update_apply]
    by_cases h : port = call.1
    · simp [h]
    · simp [h, Ne.symm h, ih, lastAttached]

namespace Cpu

/-- The word after the opcode is the operand of the fetched state. -/
theorem operandWord_fetched (c : Cpu ι δ) : c.fetched.operandWord = c.immediateWord := by
  have hpc : c.pc + 1 + 1 = c.pc + 2 := BitVec.add_assoc _ _ _
  rw [operandWord, fetched, immediateWord, hpc]

/-- A superfunction makes the calls of its action. -/
theorem footprint_fetched (c : Cpu ι δ) (f : Superfunction) :
    f.footprint c.fetched = c.busCalls c.buses.ioBus.ports f.busAction := by
  -- the return address of a call is past its operand
  have hpc : c.fetched.pc + 2 = c.pc + 3 := BitVec.add_assoc _ _ _
  cases f with
  | inrDcrM op =>
    cases op
    · rw [Superfunction.footprint, Registers.arithmeticResult_increment]
      rfl
    · rw [Superfunction.footprint, Registers.arithmeticResult_decrement]
      rfl
  | shldA16 =>
    rw [Superfunction.footprint, operandWord_fetched, Superfunction.storeEvents, hl,
      Registers.getHighByte_getCombinedRegister, Registers.getLowByte_getCombinedRegister]
    rfl
  | xthl =>
    rw [Superfunction.footprint, Superfunction.storeEvents, hl,
      Registers.getHighByte_getCombinedRegister, Registers.getLowByte_getCombinedRegister]
    rfl
  | pushRR reg =>
    rw [Superfunction.footprint, Superfunction.pushEvents,
      Registers.getHighByte_getCombinedRegister, Registers.getLowByte_getCombinedRegister]
    rfl
  | staA16 =>
    rw [Superfunction.footprint, operandWord_fetched]
    rfl
  | callA16 =>
    rw [Superfunction.footprint, hpc]
    rfl
  | conditionalCallA16 flagToVerify negate =>
    rw [Superfunction.footprint, hpc]
    rfl
  | _ => rfl

theorem footprint_cycleEvent (c : Cpu ι δ) :
    c.footprint c.cycleEvent = c.cycleCalls c.buses.ioBus.ports := by
  rw [cycleCalls]
  rcases c.cycleEvent_cases with he | he | ⟨opcode, he⟩
  · rw [he, footprint]
  · rw [he, footprint]
  · rw [he, footprint, footprint_fetched, Superfunction.busAction_ofOpcode]

variable [IOPort ι δ]

theorem buses_cycle (c : Cpu ι δ) :
    c.cycle.buses = c.buses.performAll (c.cycleCalls c.buses.ioBus.ports) := by
  rw [cycle_eq, next, footprint_cycleEvent]

/-- **The footprint of a cycle.** From every state and over every memory map, one cycle
makes exactly the calls `cycleCalls` lists on the two buses, in that order: they alone
determine the memory and the devices after it, and they are what it adds to the log. The
device on a port is the one last attached to it. -/
theorem cycle_footprint (attachments : List (Byte × ι)) (c : Cpu ι δ)
    (h : c.buses.ioBus = .build attachments) :
    c.cycle.buses = c.buses.performAll (c.cycleCalls (lastAttached attachments)) ∧
      c.cycle.buses.log = c.buses.log ++ c.cycleCalls (lastAttached attachments) := by
  have hports : lastAttached attachments = c.buses.ioBus.ports := by
    funext port
    rw [h, IOBus.ports_build]
  rw [hports]
  exact ⟨c.buses_cycle, by rw [c.buses_cycle, Buses.log_performAll]⟩

/-- The conditional call `CNZ` of a new CPU is taken and pushes its return address. -/
theorem cycle_footprint_cnz :
    (Cpu.new (Buses.mapMemory [0xC4, 0x34, 0x12])).cycle.buses.log =
      [.write 0xFFFF 0x00, .write 0xFFFE 0x03] := by
  rw [(cycle_footprint [] (Cpu.new (Buses.mapMemory [0xC4, 0x34, 0x12])) rfl).2]
  decide

end Cpu

end Fake8080
