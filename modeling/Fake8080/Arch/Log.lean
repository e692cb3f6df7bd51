import Fake8080.Arch.Refinement
import Fake8080.Library.Components

/-!
# The log tells everything

What a run does to the outside is what it adds to the log, in that order: memory is where the
logged writes take it, and devices that work independently are each where the calls logged for
them take it (`Cpu.log_complete`). No call is lost, made twice, or made on a device that no
port leads to.
-/

namespace Fake8080

universe u v

variable {ι : Type u}

/-! ### Independent devices -/

/-- A device with a state of its own. -/
class Device (ι : Type u) (σ : Type v) where
  /-- `in`: the byte read from the device, and its state afterwards. -/
  inp : ι → σ → Byte × σ
  /-- `out`: its state after a byte is written to it. -/
  out : ι → Byte → σ → σ

/-- Devices side by side. -/
instance [DecidableEq ι] {σ : Type v} [Device ι σ] : IOPort ι (ι → σ) where
  inp device states := ((Device.inp device (states device)).1,
    Function.update states device (Device.inp device (states device)).2)
  out device value states :=
    Function.update states device (Device.out device value (states device))

namespace BusEvent

/-- The device a call is made on. -/
def device? : BusEvent ι → Option ι
  | write _ _ => none
  | deviceIn device => some device
  | deviceOut device _ => some device

/-- The byte a call stores, and where. -/
def write? : BusEvent ι → Option (Word × Byte)
  | write address value => some (address, value)
  | deviceIn _ => none
  | deviceOut _ _ => none

/-- What a call does to the device it is made on. -/
def deviceStep {σ : Type v} [Device ι σ] : BusEvent ι → σ → σ
  | write _ _, s => s
  | deviceIn device, s => (Device.inp device s).2
  | deviceOut device value, s => Device.out device value s

end BusEvent

/-- The stores of an event. -/
def Arch.State.stepStores {δ : Type v} (s : Arch.State δ) : Event → List (Word × Byte)
  | .accept => s.pushed s.pc
  | .exec opcode => (Arch.Op.decode opcode).stores s.fetched
  | .idle | .request _ | .reset => []

theorem Arch.State.write?_stepCalls {δ : Type v} (env : Arch.Environment ι) (s : Arch.State δ)
    (e : Event) : (s.stepCalls env e).filterMap BusEvent.write? = s.stepStores e := by
  have hstores : ∀ stores : List (Word × Byte),
      (stores.map fun w => (.write w.1 w.2 : BusEvent ι)).filterMap BusEvent.write? = stores := by
    intro stores
    rw [List.filterMap_map]
    exact List.filterMap_some
  cases e with
  | accept => exact hstores _
  | exec opcode =>
    have hdevice : ((Arch.Op.decode opcode).deviceCall env s.fetched).toList.filterMap
        BusEvent.write? = [] := by
      cases Arch.Op.decode opcode with
      | input => simp only [Arch.Op.deviceCall]; cases env.ports s.fetched.immediate <;> rfl
      | output => simp only [Arch.Op.deviceCall]; cases env.ports s.fetched.immediate <;> rfl
      | _ => rfl
    rw [stepCalls, List.filterMap_append, hdevice, hstores, List.append_nil]
    rfl
  | idle => rfl
  | request interruptNum => rfl
  | reset => rfl

namespace Buses

theorem devices_performAll [DecidableEq ι] {σ : Type v} [Device ι σ] (b : Buses ι (ι → σ))
    (calls : List (BusEvent ι)) :
    (b.performAll calls).devices =
      calls.foldl (Components.step BusEvent.device? BusEvent.deviceStep) b.devices := by
  induction calls generalizing b with
  | nil => rfl
  | cons call calls ih =>
    rw [performAll_cons, ih, List.foldl_cons]
    cases call <;> rfl

theorem read_performAll {δ : Type v} [IOPort ι δ] (b : Buses ι δ) (calls : List (BusEvent ι)) :
    (b.performAll calls).read = b.environment.store b.read (calls.filterMap BusEvent.write?) := by
  induction calls generalizing b with
  | nil => rfl
  | cons call calls ih =>
    rw [performAll_cons, ih]
    cases call with
    | write address value =>
      have hwrite := b.read_performAll_stores [(address, value)]
      change (b.perform (.write address value)).read = _ at hwrite
      rw [hwrite]
      rfl
    | deviceIn device => rfl
    | deviceOut device value => rfl

end Buses

namespace Cpu

section Calls

variable {δ : Type v} [IOPort ι δ]

/-- A run performs on the buses what its calls report. -/
theorem buses_after (c : Cpu ι δ) (actions : List Action) :
    (system.after c actions).buses =
      c.buses.performAll ((observed.history c actions).map Prod.snd).flatten := by
  induction actions generalizing c with
  | nil => rfl
  | cons a actions ih =>
    rw [Reactive.after_cons, ih, Reactive.history, List.map_cons, List.flatten_cons,
      Buses.performAll, Buses.performAll, List.foldl_append, observed_event, buses_step]
    rfl

/-- A run leaves a byte that none of its writes affects. -/
theorem read_after_of_not_affects (c : Cpu ι δ) (actions : List Action) {address : Word}
    (h : ∀ w ∈ (((observed.history c actions).map Prod.snd).flatten).filterMap BusEvent.write?,
      ¬ c.buses.memoryBus.Affects w.1 address) :
    (system.after c actions).buses.read address = c.buses.read address := by
  rw [buses_after, Buses.read_performAll]
  exact Arch.Environment.store_of_not_affects _ _ fun w hw => decide_eq_false (h w hw)

/-- A call is made on a device that a port leads to. -/
theorem attached_of_mem_history (c : Cpu ι δ) (actions : List Action) {call : BusEvent ι}
    (hcall : call ∈ ((observed.history c actions).map Prod.snd).flatten) {device : ι}
    (hdevice : call.device? = some device) : ∃ port, c.buses.ioBus.ports port = some device := by
  -- an event calls a device only through its port
  have hevent : ∀ (d : Cpu ι δ) e, call ∈ d.footprint e →
      ∃ port, d.buses.ioBus.ports port = some device := by
    intro d e he
    rw [footprint_eq_stepCalls] at he
    have hwrite : ∀ stores : List (Word × Byte),
        call ∉ stores.map fun w => BusEvent.write w.1 w.2 := by
      intro stores hmem
      obtain ⟨w, -, rfl⟩ := List.mem_map.mp hmem
      cases hdevice
    cases e with
    | accept => exact absurd he (hwrite _)
    | exec opcode =>
      rcases List.mem_append.mp he with he | he
      · exact absurd he (hwrite _)
      · rw [Option.mem_toList] at he
        cases hop : Arch.Op.decode opcode <;>
          simp only [hop, Arch.Op.deviceCall, Option.map_eq_some_iff, reduceCtorEq] at he
        all_goals
          obtain ⟨device', hport, rfl⟩ := he
          cases hdevice
          exact ⟨_, hport⟩
    | idle => cases he
    | request interruptNum => cases he
    | reset => cases he
  induction actions generalizing c with
  | nil => simp [Reactive.history] at hcall
  | cons a actions ih =>
    rw [Reactive.history, List.map_cons, List.flatten_cons, List.mem_append] at hcall
    rcases hcall with hcall | hcall
    · rw [observed_event] at hcall
      exact hevent c _ hcall
    · have hports : (system.step c a).buses.ioBus.ports = c.buses.ioBus.ports :=
        congrArg Arch.Environment.ports (c.arch_after [a]).2
      obtain ⟨port, hport⟩ := ih (system.step c a) hcall
      exact ⟨port, by rw [← hports, hport]⟩

end Calls

/-- **The log tells everything.** Of a CPU whose devices work independently, any run adds calls
to the log that account for all it does: memory reads as after the logged writes in their order,
each device is where the calls logged for it take it, in their order, and every call is on a
device that is attached to a port. -/
theorem log_complete [DecidableEq ι] {σ : Type v} [Device ι σ] (c : Cpu ι (ι → σ))
    (actions : List Action) :
    ∃ calls, (system.after c actions).buses.log = c.buses.log ++ calls ∧
      (system.after c actions).buses.read =
        c.buses.environment.store c.buses.read (calls.filterMap BusEvent.write?) ∧
      (∀ device, (system.after c actions).buses.devices device =
        (calls.filter fun call => call.device? = some device).foldl (fun s call => call.deviceStep s)
          (c.buses.devices device)) ∧
      ∀ call ∈ calls, ∀ device, call.device? = some device →
        ∃ port, c.buses.ioBus.ports port = some device := by
  refine ⟨((observed.history c actions).map Prod.snd).flatten, c.log_after actions, ?_, ?_, ?_⟩
  · rw [buses_after, Buses.read_performAll]
  · intro device
    rw [buses_after, Buses.devices_performAll]
    exact Components.foldl_apply _ _ _ _ _
  · intro call hcall device hdevice
    exact c.attached_of_mem_history actions hcall hdevice

end Cpu

end Fake8080
