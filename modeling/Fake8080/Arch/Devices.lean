import Fake8080.Arch.Log

/-!
# What devices are to a run

A run depends on the devices through the bytes that `IN` returns and through nothing else. So
it can be recorded and replayed: with devices that return the recorded bytes one after the
other, the same calls do the same (`Cpu.replay`), whatever the devices were.

`BusEvent.Alike` relates device states that answer one call alike, and
`Op.operate_withOutside` carries such a relation through one instruction.
-/

namespace Fake8080

universe u v w

variable {ι : Type u} {δ : Type v} {δ' : Type w}

/-! ### Devices that answer alike -/

/-- The call is answered alike and leaves the devices related. -/
def BusEvent.Alike [IOPort ι δ] [IOPort ι δ'] (R : δ → δ' → Prop) (x : δ) (y : δ') :
    BusEvent ι → Prop
  | write _ _ => True
  | deviceIn device => (IOPort.inp device x).1 = (IOPort.inp device y).1 ∧
      R (IOPort.inp device x).2 (IOPort.inp device y).2
  | deviceOut device value => R (IOPort.out device value x) (IOPort.out device value y)

namespace Arch

/-- The state with other devices and another pending interrupt. -/
def State.withOutside (s : State δ) (devices : δ') (pending : Option Byte) : State δ' where
  toFile := s.toFile
  pc := s.pc
  memory := s.memory
  devices := devices
  enableRequested := s.enableRequested
  enabled := s.enabled
  pending := pending
  halted := s.halted

variable (env : Environment ι)

/-- What an instruction stores does not depend on what is outside. -/
theorem Op.stores_withOutside (op : Op) (s : State δ) (devices : δ') (pending : Option Byte) :
    op.stores (s.withOutside devices pending) = op.stores s := by
  cases op <;> rfl

theorem Op.deviceCall_withOutside (op : Op) (s : State δ) (devices : δ') (pending : Option Byte) :
    op.deviceCall env (s.withOutside devices pending) = op.deviceCall env s := by
  cases op <;> rfl

variable [IOPort ι δ] [IOPort ι δ'] {R : δ → δ' → Prop}

/-- Devices that answer an instruction alike, and another pending interrupt, are carried
through it. -/
theorem Op.operate_withOutside (op : Op) (s : State δ) (devices : δ') (pending : Option Byte)
    (hnone : op.deviceCall env s = none → R s.devices devices)
    (hcall : ∀ call ∈ op.deviceCall env s, call.Alike R s.devices devices) :
    ∃ devices', op.operate env (s.withOutside devices pending) =
        (op.operate env s).withOutside devices' pending ∧
      R (op.operate env s).devices devices' := by
  cases op with
  | call condition =>
    refine ⟨devices, ?_, ?_⟩ <;> simp only [operate]
    · by_cases h : s.holds condition = true
      · exact (if_pos h).trans (by rw [if_pos h]; rfl)
      · exact (if_neg h).trans (by rw [if_neg h]; rfl)
    · split <;> exact hnone rfl
  | ret condition =>
    refine ⟨devices, ?_, ?_⟩ <;> simp only [operate]
    · by_cases h : s.holds condition = true
      · exact (if_pos h).trans (by rw [if_pos h]; rfl)
      · exact (if_neg h).trans (by rw [if_neg h])
    · split <;> exact hnone rfl
  | input =>
    have himmediate : (s.withOutside devices pending).immediate = s.immediate := rfl
    cases hport : env.ports s.immediate with
    | none =>
      refine ⟨devices, ?_, ?_⟩ <;> simp only [operate, himmediate, hport]
      · rfl
      · exact hnone (by simp only [deviceCall, hport, Option.map_none])
    | some device =>
      obtain ⟨hfst, hsnd⟩ := hcall (.deviceIn device) (by simp [deviceCall, hport])
      refine ⟨(IOPort.inp device devices).2, ?_, ?_⟩ <;> simp only [operate, himmediate, hport]
      · rw [hfst]
        rfl
      · exact hsnd
  | output =>
    have himmediate : (s.withOutside devices pending).immediate = s.immediate := rfl
    cases hport : env.ports s.immediate with
    | none =>
      refine ⟨devices, ?_, ?_⟩ <;> simp only [operate, himmediate, hport]
      · rfl
      · exact hnone (by simp only [deviceCall, hport, Option.map_none])
    | some device =>
      refine ⟨IOPort.out device (s.reg .a) devices, ?_, ?_⟩ <;>
        simp only [operate, himmediate, hport]
      · rfl
      · exact hcall (.deviceOut device (s.reg .a)) (by simp [deviceCall, hport])
  | _ => exact ⟨devices, rfl, hnone rfl⟩

end Arch

/-! ### Record and replay -/

/-- The bytes a call returns. -/
def BusEvent.answer [IOPort ι δ] (devices : δ) : BusEvent ι → List Byte
  | write _ _ => []
  | deviceIn device => [(IOPort.inp device devices).1]
  | deviceOut _ _ => []

/-- Devices that return recorded bytes, one at each `in`. -/
structure Tape where
  /-- The bytes still to be returned. -/
  bytes : List Byte

instance : IOPort ι Tape where
  inp _ tape := (tape.bytes.headD 0xFF, ⟨tape.bytes.tail⟩)
  out _ _ tape := tape

namespace Cpu

variable [IOPort ι δ]

/-- The bytes the devices return during a call. -/
def answers (c : Cpu ι δ) (a : Action) : List Byte :=
  (observed.event c a).2.flatMap (BusEvent.answer c.buses.devices)

/-- The bytes the devices return during a run. -/
def recorded (c : Cpu ι δ) : List Action → List Byte
  | [] => []
  | a :: actions => c.answers a ++ (system.step c a).recorded actions

/-- The CPU with a tape in place of its devices. -/
def onTape (c : Cpu ι δ) (bytes : List Byte) : Cpu ι Tape where
  pc := c.pc
  registers := c.registers
  buses :=
    { memoryBus := c.buses.memoryBus
      ioBus := c.buses.ioBus
      host := c.buses.host
      devices := ⟨bytes⟩
      log := c.buses.log }
  latches := c.latches

end Cpu

variable [IOPort ι δ]

/-- An instruction on a tape that begins with the bytes the devices return leaves the rest of
it. -/
theorem Superfunction.next_onTape (f : Superfunction) (c : Cpu ι δ) (rest : List Byte) :
    f.next (c.onTape ((f.footprint c).flatMap (BusEvent.answer c.buses.devices) ++ rest)) =
      (f.next c).onTape rest := by
  have hports : ∀ bytes, (c.onTape bytes).buses.ioBus = c.buses.ioBus := fun _ => rfl
  have hoperand : ∀ bytes, (c.onTape bytes).operandByte = c.operandByte := fun _ => rfl
  cases f with
  | conditionalCallA16 flagToVerify negate =>
    have htaken : ∀ bytes, (c.onTape bytes).taken flagToVerify negate =
      c.taken flagToVerify negate := fun _ => rfl
    simp only [next, nextPc, nextRegisters, footprint, htaken]
    split <;> rfl
  | inD8 =>
    cases hport : c.buses.ioBus.ports c.operandByte <;>
      simp only [next, nextPc, nextRegisters, footprint, Buses.inp, hports, hoperand, hport] <;>
      rfl
  | outD8 =>
    cases hport : c.buses.ioBus.ports c.operandByte <;>
      simp only [next, nextPc, nextRegisters, footprint, hports, hoperand, hport] <;> rfl
  | _ => rfl

namespace Cpu

omit [IOPort ι δ] in
theorem footprint_onTape (c : Cpu ι δ) (e : Event) (bytes : List Byte) :
    (c.onTape bytes).footprint e = c.footprint e := by
  cases e with
  | exec opcode =>
    rw [footprint, footprint]
    cases Superfunction.ofOpcode opcode <;> rfl
  | _ => rfl

/-- A call on a tape that begins with the bytes the devices return does the same and leaves the
rest of it. -/
theorem step_onTape (c : Cpu ι δ) (a : Action) (rest : List Byte) :
    let d := c.onTape (c.answers a ++ rest)
    observed.event d a = observed.event c a ∧ system.step d a = (system.step c a).onTape rest := by
  intro d
  have hevent : system.event d a = system.event c a := event_congr rfl a
  refine ⟨by rw [observed_event, observed_event, hevent, footprint_onTape], ?_⟩
  simp only [d, answers, observed_event] at hevent ⊢
  rw [step_eq, step_eq, hevent]
  generalize system.event c a = e
  cases e with
  | exec opcode => exact Superfunction.next_onTape _ c.fetched rest
  | _ => rfl

/-- **Record and replay.** Take any run, record the bytes that its devices return, and put a
tape with these bytes in place of the devices. The same calls do the same, call by call, with
the same calls on the buses, and leave the same CPU and the same memory and log; of the tape just
the bytes that were not recorded are left. -/
theorem replay (c : Cpu ι δ) (actions : List Action) (rest : List Byte) :
    let d := c.onTape (c.recorded actions ++ rest)
    observed.history d actions = observed.history c actions ∧
      system.after d actions = (system.after c actions).onTape rest := by
  induction actions generalizing c with
  | nil => exact ⟨rfl, rfl⟩
  | cons a actions ih =>
    intro d
    have hd : d = c.onTape (c.answers a ++ ((system.step c a).recorded actions ++ rest)) :=
      congrArg c.onTape (List.append_assoc _ _ _)
    obtain ⟨hevent, hstep⟩ := c.step_onTape a ((system.step c a).recorded actions ++ rest)
    obtain ⟨hhistory, hafter⟩ := ih (system.step c a)
    rw [← hstep, ← hd] at hhistory hafter
    rw [← hd] at hevent
    exact ⟨congrArg₂ _ hevent hhistory, hafter⟩

end Cpu

end Fake8080
