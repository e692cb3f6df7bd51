import Fake8080.Isa.Decode
import Fake8080.Step.Effect

/-!
# What a call of the public interface does

`Cpu.step_eq` is the one equation for a step of the system: given what the call does, its
event, it says which `pc`, registers and latches are left and what is performed on the
buses. The latches are driven by the events alone (`Latches.next`), so everything about
interrupts and halting is proved on a machine of five fields.
-/

namespace Fake8080

universe u v

variable {ι : Type u} {δ : Type v}

/-! ### The latches, driven by events -/

/-- The latches after an event. -/
def Latches.next (l : Latches) : Event → Latches
  | .accept => l.promote.accept
  | .idle => l.promote
  | .exec opcode => (Superfunction.ofOpcode opcode).latchEffect l.promote
  | .request interruptNum =>
    { l with interruptRequested := true, interruptVectorRequested := interruptNum }
  | .reset => { l with interruptRequested := false, interruptsEnabled := false, halted := false }

namespace Superfunction

/-- `EI` is the only way to run `ei`. -/
theorem ofOpcode_eq_ei_iff (opcode : Byte) : ofOpcode opcode = .ei ↔ opcode = 0xFB :=
  ofOpcode_of_decode (P := fun opcode f => f = .ei ↔ opcode = 0xFB) (by decide) opcode

theorem ofOpcode_eq_di_iff (opcode : Byte) : ofOpcode opcode = .di ↔ opcode = 0xF3 :=
  ofOpcode_of_decode (P := fun opcode f => f = .di ↔ opcode = 0xF3) (by decide) opcode

theorem ofOpcode_eq_hlt_iff (opcode : Byte) : ofOpcode opcode = .hlt ↔ opcode = 0x76 :=
  ofOpcode_of_decode (P := fun opcode f => f = .hlt ↔ opcode = 0x76) (by decide) opcode

/-- Only `ei` requests the enabling of interrupts. -/
theorem latchEffect_interruptsEnableRequested (f : Superfunction) (l : Latches) :
    (f.latchEffect l).interruptsEnableRequested =
      if f = .ei then true else l.interruptsEnableRequested := by
  cases f <;> rfl

theorem latchEffect_interruptsEnabled (f : Superfunction) (l : Latches) :
    (f.latchEffect l).interruptsEnabled =
      if f = .di then false else l.interruptsEnabled := by
  cases f <;> rfl

theorem latchEffect_halted (f : Superfunction) (l : Latches) :
    (f.latchEffect l).halted = if f = .hlt then true else l.halted := by
  cases f <;> rfl

/-- No instruction looks at the latches. -/
theorem nextPc_withLatches (f : Superfunction) (c : Cpu ι δ) (l : Latches) :
    f.nextPc { c with latches := l } = f.nextPc c := by
  cases f <;> rfl

theorem nextRegisters_withLatches [IOPort ι δ] (f : Superfunction) (c : Cpu ι δ)
    (l : Latches) : f.nextRegisters { c with latches := l } = f.nextRegisters c := by
  cases f <;> rfl

theorem footprint_withLatches (f : Superfunction) (c : Cpu ι δ) (l : Latches) :
    f.footprint { c with latches := l } = f.footprint c := by
  cases f <;> rfl

@[simp]
theorem latchEffect_interruptRequested (f : Superfunction) (l : Latches) :
    (f.latchEffect l).interruptRequested = l.interruptRequested := by
  cases f <;> rfl

@[simp]
theorem latchEffect_interruptVectorRequested (f : Superfunction) (l : Latches) :
    (f.latchEffect l).interruptVectorRequested = l.interruptVectorRequested := by
  cases f <;> rfl

end Superfunction

namespace Latches

@[simp]
theorem promote_interruptsEnableRequested (l : Latches) :
    l.promote.interruptsEnableRequested = false := by
  rw [promote]
  cases h : l.interruptsEnableRequested
  · rw [if_neg Bool.false_ne_true, h]
  · rfl

/-- An enable request enables interrupts at the start of a cycle. -/
@[simp]
theorem promote_interruptsEnabled (l : Latches) :
    l.promote.interruptsEnabled = (l.interruptsEnableRequested || l.interruptsEnabled) := by
  rw [promote]
  cases h : l.interruptsEnableRequested <;> rfl

@[simp]
theorem promote_interruptRequested (l : Latches) :
    l.promote.interruptRequested = l.interruptRequested := by
  rw [promote]
  split <;> rfl

@[simp]
theorem promote_interruptVectorRequested (l : Latches) :
    l.promote.interruptVectorRequested = l.interruptVectorRequested := by
  rw [promote]
  split <;> rfl

theorem promote_promote (l : Latches) : l.promote.promote = l.promote := by
  rw [promote, promote_interruptsEnableRequested, if_neg Bool.false_ne_true]

/-- A cycle that executes `EI` leaves an enable request, any other cycle none. -/
theorem next_exec_interruptsEnableRequested (l : Latches) (opcode : Byte) :
    (l.next (.exec opcode)).interruptsEnableRequested = decide (opcode = 0xFB) := by
  rw [next, Superfunction.latchEffect_interruptsEnableRequested,
    promote_interruptsEnableRequested]
  simp [Superfunction.ofOpcode_eq_ei_iff]

/-- A cycle that executes anything but `DI` lets a pending enable request take effect. -/
theorem next_exec_interruptsEnabled (l : Latches) (opcode : Byte) :
    (l.next (.exec opcode)).interruptsEnabled =
      (decide (opcode ≠ 0xF3) && (l.interruptsEnableRequested || l.interruptsEnabled)) := by
  rw [next, Superfunction.latchEffect_interruptsEnabled, promote_interruptsEnabled]
  by_cases h : opcode = 0xF3 <;> simp [Superfunction.ofOpcode_eq_di_iff, h]

/-- A cycle that executes `HLT` halts the CPU, no other does. -/
theorem next_exec_halted (l : Latches) (opcode : Byte) :
    (l.next (.exec opcode)).halted = (decide (opcode = 0x76) || l.halted) := by
  rw [next, Superfunction.latchEffect_halted, promote_halted]
  by_cases h : opcode = 0x76 <;> simp [Superfunction.ofOpcode_eq_hlt_iff, h]

end Latches

/-! ### The step equation -/

namespace Cpu

/-- The CPU accepts if an interrupt is pending and `EI` has been executed. -/
theorem accepts_eq (c : Cpu ι δ) :
    c.accepts = (c.latches.interruptRequested &&
      (c.latches.interruptsEnableRequested || c.latches.interruptsEnabled)) := by
  simp [accepts]

/-- The `pc` an event leaves. -/
def nextPc (c : Cpu ι δ) : Event → Word
  | .accept => BitVec.ofNat 16 (c.latches.interruptVectorRequested.toNat * 8)
  | .exec opcode => (Superfunction.ofOpcode opcode).nextPc c.fetched
  | .reset => 0
  | .idle | .request _ => c.pc

/-- The calls an event makes on the buses. -/
def footprint (c : Cpu ι δ) : Event → List (BusEvent ι)
  | .accept => Superfunction.pushEvents c.sp c.pc
  | .exec opcode => (Superfunction.ofOpcode opcode).footprint c.fetched
  | .idle | .request _ | .reset => []

variable [IOPort ι δ]

/-- The register file an event leaves. -/
def nextRegisters (c : Cpu ι δ) : Event → Registers
  | .accept => Superfunction.pushedRegisters c.registers c.pc
  | .exec opcode => (Superfunction.ofOpcode opcode).nextRegisters c.fetched
  | .idle | .request _ | .reset => c.registers

/-- The state an event leaves. -/
def next (c : Cpu ι δ) (e : Event) : Cpu ι δ :=
  ⟨c.nextPc e, c.nextRegisters e, c.latches.next e, c.buses.performAll (c.footprint e)⟩

/-- Only an acceptance looks at the latches, and only at the vector. -/
theorem next_withLatches (c : Cpu ι δ) (l : Latches) (e : Event)
    (he : e = .accept → l.interruptVectorRequested = c.latches.interruptVectorRequested) :
    ({ c with latches := l } : Cpu ι δ).next e = { c.next e with latches := l.next e } := by
  cases e with
  | accept => simp only [next, nextPc, he rfl]; rfl
  | exec opcode =>
    -- the latches reach the fetched state, but no instruction looks at them
    have hfetched : ({ c with latches := l } : Cpu ι δ).fetched =
        { c.fetched with latches := l.promote } := rfl
    simp only [next, nextPc, nextRegisters, footprint, hfetched,
      Superfunction.nextPc_withLatches, Superfunction.nextRegisters_withLatches,
      Superfunction.footprint_withLatches]
  | _ => rfl

/-- An accepting cycle pushes `pc` and jumps to the vector. -/
theorem cycle_eq_of_accept {c : Cpu ι δ} (h : c.cycleEvent = .accept) :
    c.cycle = c.next .accept := by
  rw [cycle_of_accept h, callAddress_eq, Latches.promote_interruptVectorRequested]
  rfl

theorem cycle_eq_of_idle {c : Cpu ι δ} (h : c.cycleEvent = .idle) : c.cycle = c.next .idle :=
  cycle_of_idle h

/-- Any other cycle leaves what its instruction leaves. -/
theorem cycle_eq_superfunction_next {c : Cpu ι δ} {opcode : Byte}
    (h : c.cycleEvent = .exec opcode) :
    c.cycle = (Superfunction.ofOpcode opcode).next c.fetched := by
  rw [cycle_of_exec_superfunction h, Superfunction.call_eq]

theorem cycle_eq_of_exec {c : Cpu ι δ} {opcode : Byte} (h : c.cycleEvent = .exec opcode) :
    c.cycle = c.next (.exec opcode) := cycle_eq_superfunction_next h

/-- A cycle does what its event says. -/
theorem cycle_eq (c : Cpu ι δ) : c.cycle = c.next c.cycleEvent := by
  rcases c.cycleEvent_cases with h | h | ⟨opcode, h⟩
  · rw [h, cycle_eq_of_accept h]
  · rw [h, cycle_eq_of_idle h]
  · rw [h, cycle_eq_of_exec h]

/-- **The step equation.** What a call leaves is a function of the state before and of
the event the call reports. -/
theorem step_eq (c : Cpu ι δ) (a : Action) :
    system.step c a = c.next (system.event c a) := by
  cases a with
  | cycle => exact c.cycle_eq
  | requestInterrupt interruptNum => rfl
  | reset => rfl

/-- Calls of the same function report the same event if cycles do. -/
theorem event_congr {c d : Cpu ι δ} (h : c.cycleEvent = d.cycleEvent) (a : Action) :
    system.event c a = system.event d a := by
  cases a with
  | cycle => exact h
  | requestInterrupt interruptNum => rfl
  | reset => rfl

/-- A call reports an acceptance only if it is a cycle that accepts. -/
theorem cycleEvent_of_event_eq_accept {c : Cpu ι δ} {a : Action}
    (h : system.event c a = .accept) : c.cycleEvent = .accept := by
  cases a with
  | cycle => exact h
  | requestInterrupt interruptNum => cases h
  | reset => cases h

/-- A relation that decides what a cycle does and that every event keeps is a
bisimulation. -/
theorem bisimulation_of_next {R : Cpu ι δ → Cpu ι δ → Prop}
    (hevent : ∀ {c d}, R c d → c.cycleEvent = d.cycleEvent)
    (hnext : ∀ {c d e}, R c d → (e = .accept → c.cycleEvent = .accept) →
      R (c.next e) (d.next e)) :
    (system (ι := ι) (δ := δ)).Bisimulation R where
  event h := event_congr (hevent h) _
  step {c d a} h := by
    rw [step_eq, step_eq, ← event_congr (hevent h)]
    exact hnext h cycleEvent_of_event_eq_accept

/-- The latches follow the events. -/
theorem latches_step (c : Cpu ι δ) (a : Action) :
    (system.step c a).latches = c.latches.next (system.event c a) := by
  rw [step_eq, next]

theorem buses_step (c : Cpu ι δ) (a : Action) :
    (system.step c a).buses = c.buses.performAll (c.footprint (system.event c a)) := by
  rw [step_eq, next]

end Cpu

end Fake8080
