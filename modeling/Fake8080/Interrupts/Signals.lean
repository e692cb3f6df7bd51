import Fake8080.Arch.Calls

/-!
# Devices that interrupt

`IN` and `OUT` call a device in the middle of a cycle. The device may hold a reference to the CPU
and request an interrupt, or reset the CPU, before it returns. `cycleSignalling` is `cycle` with
such devices. What is left of the instruction then does not look at what these calls change, and
`A` is all it writes, so the calls might as well be made right after the cycle
(`Cpu.signals_between_cycles`): what holds of every sequence of calls holds with devices that
interrupt.
-/

namespace Fake8080

universe u v

variable {ι : Type u} {δ : Type v}

/-! ### The devices -/

/-- A call that a device makes on the CPU. -/
inductive Signal
  | requestInterrupt (interruptNum : Byte)
  | reset

/-- The call as one of the public interface. -/
def Signal.action : Signal → Action
  | requestInterrupt interruptNum => .requestInterrupt interruptNum
  | reset => .reset

/-- The interface `IOPort` of devices that call the CPU before they return. -/
class SignallingPort (ι : Type u) (δ : Type v) extends IOPort ι δ where
  /-- What is called during `in`. -/
  inpSignals : ι → δ → List Signal
  /-- What is called during `out`. -/
  outSignals : ι → Byte → δ → List Signal

namespace Buses

variable [SignallingPort ι δ] (b : Buses ι δ)

/-- What is called during `IOBus::in`. -/
def inpSignals (port : Byte) : List Signal :=
  match b.ioBus.ports port with
  | none => []
  | some device => SignallingPort.inpSignals device b.devices

/-- What is called during `IOBus::out`. -/
def outSignals (port value : Byte) : List Signal :=
  match b.ioBus.ports port with
  | none => []
  | some device => SignallingPort.outSignals device value b.devices

end Buses

/-! ### The instructions that call them -/

namespace Cpu

variable [SignallingPort ι δ]

/-- Calls of a device, one after another. -/
def signal (c : Cpu ι δ) (signals : List Signal) : Cpu ι δ :=
  system.after c (signals.map Signal.action)

/-- `IN_d8`, whose device calls the CPU before its byte is written to `A`. -/
def inD8Signalling : Handler ι δ := fun c =>
  let (port, c) := c.readNextByte
  let signals := c.buses.inpSignals port
  let (byte, buses) := c.buses.inp port
  let c := signal { c with buses := buses } signals
  (inD8Cycles, c.setRegister .a byte)

/-- `OUT_d8`, whose device calls the CPU before it returns. -/
def outD8Signalling : Handler ι δ := fun c =>
  let (port, c) := c.readNextByte
  let value := c.registers.getRegister .a
  let signals := c.buses.outSignals port value
  (outD8Cycles, signal { c with buses := c.buses.out port value } signals)

end Cpu

namespace MemberFunction

variable [SignallingPort ι δ]

/-- The member functions with devices that call the CPU. -/
def callSignalling (f : MemberFunction) : Handler ι δ :=
  if f = .inD8 then Cpu.inD8Signalling
  else if f = .outD8 then Cpu.outD8Signalling
  else f.call

/-- What devices call while a member function runs. -/
def signals (f : MemberFunction) (c : Cpu ι δ) : List Signal :=
  if f = .inD8 then c.buses.inpSignals (c.buses.read c.pc)
  else if f = .outD8 then c.buses.outSignals (c.buses.read c.pc) (c.registers.getRegister .a)
  else []

end MemberFunction

namespace Cpu

variable [SignallingPort ι δ]

/-- `cycle` with devices that call the CPU. -/
def cycleSignalling (c : Cpu ι δ) : Cpu ι δ :=
  let c := { c with latches := c.latches.promote }
  if c.latches.interruptRequested && c.latches.interruptsEnabled then
    let c := c.callAddress (BitVec.ofNat 16 (c.latches.interruptVectorRequested.toNat * 8))
    { c with latches := c.latches.accept }
  else if c.latches.halted then c
  else
    let opcode := c.buses.read c.pc
    let c := { c with pc := c.pc + 1 }
    ((MemberFunction.ofOpcode opcode).callSignalling c).2

/-- What devices call in the next cycle. -/
def cycleSignals (c : Cpu ι δ) : List Signal :=
  match c.cycleEvent with
  | .exec opcode => (MemberFunction.ofOpcode opcode).signals c.fetched
  | _ => []

/-- A call of the public interface with devices that call the CPU. -/
def stepSignalling (c : Cpu ι δ) : Action → Cpu ι δ
  | .cycle => c.cycleSignalling
  | .requestInterrupt interruptNum => c.requestInterrupt interruptNum
  | .reset => c.reset

/-- The emulator with devices that call the CPU. It reports what the caller's calls do. -/
def signalling : Reactive (Cpu ι δ) Action (Event × List (BusEvent ι)) where
  step := stepSignalling
  event c a := (system.event c a, (c.stepSignalling a).buses.log.drop c.buses.log.length)

/-- What devices call during a call. -/
def signals (c : Cpu ι δ) : Action → List Signal
  | .cycle => c.cycleSignals
  | .requestInterrupt _ | .reset => []

/-- The caller's calls, each with what devices call during it after it. -/
def withSignals : Cpu ι δ → List Action → List Action
  | _, [] => []
  | c, a :: actions =>
    a :: ((c.signals a).map Signal.action ++ withSignals (c.stepSignalling a) actions)

/-! ### During a cycle and after it -/

theorem signal_setRegister (c : Cpu ι δ) (reg : Register) (value : Byte) (signals : List Signal) :
    (c.setRegister reg value).signal signals = (c.signal signals).setRegister reg value := by
  induction signals generalizing c with
  | nil => rfl
  | cons call signals ih =>
    cases call with
    | requestInterrupt interruptNum => exact ih (c.requestInterrupt interruptNum)
    | reset => exact ih c.reset

theorem buses_signal (c : Cpu ι δ) (signals : List Signal) : (c.signal signals).buses = c.buses := by
  induction signals generalizing c with
  | nil => rfl
  | cons call signals ih =>
    cases call with
    | requestInterrupt interruptNum => exact ih (c.requestInterrupt interruptNum)
    | reset => exact ih c.reset

theorem filter_history_signals (c : Cpu ι δ) (signals : List Signal) :
    (observed.history c (signals.map Signal.action)).filter (·.1.IsCycle) = [] := by
  induction signals generalizing c with
  | nil => rfl
  | cons call signals ih =>
    rw [List.map_cons, Reactive.history, observed_event, List.filter_cons_of_neg]
    · exact ih _
    · cases call <;> exact fun hcycle => (of_decide_eq_true hcycle : False)

/-- What a device calls while a member function runs might as well be called after it. -/
theorem callSignalling_eq (f : MemberFunction) (c : Cpu ι δ) :
    (f.callSignalling c).2 = signal (f.call c).2 (f.signals c) := by
  rw [MemberFunction.callSignalling, MemberFunction.signals]
  by_cases hin : f = .inD8
  · rw [if_pos hin, if_pos hin, hin]
    exact (signal_setRegister _ .a _ _).symm
  · rw [if_neg hin, if_neg hin]
    by_cases hout : f = .outD8
    · rw [if_pos hout, if_pos hout, hout]
      rfl
    · rw [if_neg hout, if_neg hout]
      rfl

/-- What devices call during a cycle might as well be called after it. -/
theorem cycleSignalling_eq (c : Cpu ι δ) : c.cycleSignalling = c.cycle.signal c.cycleSignals := by
  rcases c.cycleEvent_cases with h | h | ⟨opcode, h⟩
  · have haccepts := cycleEvent_eq_accept_iff.mp h
    rw [accepts] at haccepts
    simp only [cycleSignalling, cycle, cycleSignals, h, haccepts, if_true]
    rfl
  · obtain ⟨haccepts, hhalted⟩ := cycleEvent_eq_idle_iff.mp h
    rw [accepts] at haccepts
    simp only [cycleSignalling, cycle, cycleSignals, h, haccepts, Latches.promote_halted, hhalted,
      if_true, Bool.false_eq_true, if_false]
    rfl
  · obtain ⟨haccepts, hhalted, hopcode⟩ := cycleEvent_eq_exec_iff.mp h
    rw [accepts] at haccepts
    rw [cycle_of_exec h]
    simp only [cycleSignalling, cycleSignals, h, haccepts, Latches.promote_halted, hhalted,
      Bool.false_eq_true, if_false, hopcode]
    exact callSignalling_eq (MemberFunction.ofOpcode opcode) c.fetched

/-- What devices call during a call might as well be called after it. -/
theorem stepSignalling_eq (c : Cpu ι δ) (a : Action) :
    c.stepSignalling a = (system.step c a).signal (c.signals a) := by
  cases a with
  | cycle => exact c.cycleSignalling_eq
  | requestInterrupt interruptNum => rfl
  | reset => rfl

/-- The caller's calls do what they do without the calls of devices. -/
theorem signalling_event (c : Cpu ι δ) (a : Action) :
    signalling.event c a = observed.event c a := by
  change (system.event c a, (c.stepSignalling a).buses.log.drop c.buses.log.length) = _
  rw [stepSignalling_eq, buses_signal]
  rfl

/-- **Devices that interrupt do so between cycles.** Whatever devices call during the cycles of a
run, requests and resets, the run is one of the caller's calls and theirs, each of theirs right
after the cycle that it was made in: it leads to the same, with the same cycles and the same
calls on the buses. -/
theorem signals_between_cycles (c : Cpu ι δ) (actions : List Action) :
    actions.Sublist (c.withSignals actions) ∧
    (c.withSignals actions).count .cycle = actions.count .cycle ∧
    signalling.after c actions = system.after c (c.withSignals actions) ∧
    (signalling.history c actions).filter (·.1.IsCycle) =
      (observed.history c (c.withSignals actions)).filter (·.1.IsCycle) := by
  induction actions generalizing c with
  | nil => exact ⟨List.Sublist.refl _, rfl, rfl, rfl⟩
  | cons a actions ih =>
    obtain ⟨hsublist, hcount, hafter, hhistory⟩ := ih (c.stepSignalling a)
    have hstep : system.after (system.step c a) ((c.signals a).map Signal.action) =
        c.stepSignalling a := (c.stepSignalling_eq a).symm
    have hnone : ((c.signals a).map Signal.action).count .cycle = 0 := by
      rw [List.count_eq_zero, List.mem_map]
      rintro ⟨call, -, hcall⟩
      cases call <;> cases hcall
    rw [withSignals]
    refine ⟨(hsublist.trans (List.sublist_append_right _ _)).cons_cons a, ?_, ?_, ?_⟩
    · rw [List.count_cons, List.count_cons, List.count_append, hnone, hcount, Nat.zero_add]
    · rw [Reactive.after_cons, Reactive.after_cons, Reactive.after_append, hstep]
      exact hafter
    · rw [Reactive.history, Reactive.history, signalling_event, Reactive.history_append,
        List.filter_cons, List.filter_cons, List.filter_append, filter_history_signals]
      change (if _ then _ :: (signalling.history (c.stepSignalling a) actions).filter _
        else (signalling.history (c.stepSignalling a) actions).filter _) = _
      rw [hhistory, ← hstep]
      rfl

end Cpu

end Fake8080
