import Fake8080.Library.Reactive
import Fake8080.Model.Opcodes

/-!
# The public interface: `cycle`, `requestInterrupt` and `reset`

The three public member functions and the reactive system they form. A cycle does one of
three things, which `cycleEvent` names: it accepts an interrupt, it idles because the CPU
is halted, or it executes the instruction at `pc`. `cycle_of_accept`, `cycle_of_idle` and
`cycle_of_exec` give the state after each; nothing else unfolds `cycle`.
-/

namespace Fake8080

universe u v

namespace Latches

/-- The start of `cycle`: a request of `EI` takes effect. -/
def promote (l : Latches) : Latches :=
  if l.interruptsEnableRequested then
    { l with interruptsEnabled := true, interruptsEnableRequested := false }
  else l

/-- The latches after an accepted interrupt. -/
def accept (l : Latches) : Latches :=
  { l with interruptRequested := false, interruptsEnabled := false, halted := false }

@[simp]
theorem promote_halted (l : Latches) : l.promote.halted = l.halted := by
  rw [promote]
  split <;> rfl

end Latches

namespace Cpu

variable {ι : Type u} {δ : Type v} [IOPort ι δ]

/-- `cycle`. -/
def cycle (c : Cpu ι δ) : Cpu ι δ :=
  let c := { c with latches := c.latches.promote }
  if c.latches.interruptRequested && c.latches.interruptsEnabled then
    let c := c.callAddress (BitVec.ofNat 16 (c.latches.interruptVectorRequested.toNat * 8))
    { c with latches := c.latches.accept }
  else if c.latches.halted then c
  else
    let opcode := c.buses.read c.pc
    let c := { c with pc := c.pc + 1 }
    ((MemberFunction.ofOpcode opcode).call c).2

omit [IOPort ι δ] in
/-- `requestInterrupt`. -/
def requestInterrupt (c : Cpu ι δ) (interruptNum : Byte) : Cpu ι δ :=
  { c with latches := { c.latches with
      interruptRequested := true
      interruptVectorRequested := interruptNum } }

omit [IOPort ι δ] in
/-- `reset`. -/
def reset (c : Cpu ι δ) : Cpu ι δ :=
  { c with
    pc := 0
    latches := { c.latches with
      interruptRequested := false
      interruptsEnabled := false
      halted := false } }

end Cpu

/-! ### The reactive system -/

/-- A call of a public member function. -/
inductive Action
  | cycle
  | requestInterrupt (interruptNum : Byte)
  | reset
  deriving DecidableEq

/-- What a call does. -/
inductive Event
  /-- A cycle accepts the pending interrupt. -/
  | accept
  /-- A cycle finds the CPU halted. -/
  | idle
  /-- A cycle executes the instruction with this opcode. -/
  | exec (opcode : Byte)
  /-- An interrupt is requested. -/
  | request (interruptNum : Byte)
  /-- The CPU is reset. -/
  | reset
  deriving DecidableEq

/-- The opcode of `EI`. -/
def Event.ei : Event := .exec 0xFB

/-- The opcode of `DI`. -/
def Event.di : Event := .exec 0xF3

/-- The event comes from a call of `cycle`. -/
def Event.IsCycle : Event → Prop
  | .accept => True
  | .idle => True
  | .exec _ => True
  | .request _ => False
  | .reset => False

namespace Cpu

variable {ι : Type u} {δ : Type v}

/-- The interrupt test of `cycle`. -/
def accepts (c : Cpu ι δ) : Bool :=
  c.latches.promote.interruptRequested && c.latches.promote.interruptsEnabled

/-- What the next cycle does. -/
def cycleEvent (c : Cpu ι δ) : Event :=
  if c.accepts then .accept
  else if c.latches.halted then .idle
  else .exec (c.buses.read c.pc)

variable [IOPort ι δ]

/-- The CPU as a reactive system on the calls of its public member functions. -/
def system : Reactive (Cpu ι δ) Action Event where
  step c
    | .cycle => c.cycle
    | .requestInterrupt n => c.requestInterrupt n
    | .reset => c.reset
  event c
    | .cycle => c.cycleEvent
    | .requestInterrupt n => .request n
    | .reset => .reset

/-! ### The three cases of a cycle -/

/-- The state in which the cycle executes its instruction: the enable request has taken
effect and the opcode is fetched. -/
def fetched (c : Cpu ι δ) : Cpu ι δ :=
  { c with latches := c.latches.promote, pc := c.pc + 1 }

omit [IOPort ι δ] in
theorem cycleEvent_eq_accept_iff {c : Cpu ι δ} : c.cycleEvent = .accept ↔ c.accepts = true := by
  rw [cycleEvent]
  cases c.accepts <;> cases c.latches.halted <;> simp

omit [IOPort ι δ] in
theorem cycleEvent_eq_idle_iff {c : Cpu ι δ} :
    c.cycleEvent = .idle ↔ c.accepts = false ∧ c.latches.halted = true := by
  rw [cycleEvent]
  cases c.accepts <;> cases c.latches.halted <;> simp

omit [IOPort ι δ] in
theorem cycleEvent_eq_exec_iff {c : Cpu ι δ} {opcode : Byte} :
    c.cycleEvent = .exec opcode ↔
      c.accepts = false ∧ c.latches.halted = false ∧ c.buses.read c.pc = opcode := by
  rw [cycleEvent]
  cases c.accepts <;> cases c.latches.halted <;> simp

omit [IOPort ι δ] in
/-- A cycle accepts, idles or executes. -/
theorem cycleEvent_cases (c : Cpu ι δ) :
    c.cycleEvent = .accept ∨ c.cycleEvent = .idle ∨ ∃ opcode, c.cycleEvent = .exec opcode := by
  rw [cycleEvent]
  cases c.accepts <;> cases c.latches.halted <;> simp

/-- An accepting cycle calls the vector's address and clears the latches. -/
theorem cycle_of_accept {c : Cpu ι δ} (h : c.cycleEvent = .accept) :
    c.cycle = { ({ c with latches := c.latches.promote } : Cpu ι δ).callAddress
        (BitVec.ofNat 16 (c.latches.promote.interruptVectorRequested.toNat * 8)) with
      latches := c.latches.promote.accept } := by
  have ha := cycleEvent_eq_accept_iff.mp h
  rw [accepts] at ha
  simp only [cycle, ha, if_true]
  rfl

/-- A halted cycle only lets a pending enable request take effect. -/
theorem cycle_of_idle {c : Cpu ι δ} (h : c.cycleEvent = .idle) :
    c.cycle = { c with latches := c.latches.promote } := by
  obtain ⟨ha, hh⟩ := cycleEvent_eq_idle_iff.mp h
  rw [accepts] at ha
  simp only [cycle, ha, Latches.promote_halted, hh, if_true, Bool.false_eq_true, if_false]

/-- Any other cycle runs the table's entry at the byte `pc` points at. -/
theorem cycle_of_exec {c : Cpu ι δ} {opcode : Byte} (h : c.cycleEvent = .exec opcode) :
    c.cycle = ((MemberFunction.ofOpcode opcode).call c.fetched).2 := by
  obtain ⟨ha, hh, rfl⟩ := cycleEvent_eq_exec_iff.mp h
  rw [accepts] at ha
  simp only [cycle, ha, Latches.promote_halted, hh, Bool.false_eq_true, if_false]
  rfl

end Cpu

end Fake8080
