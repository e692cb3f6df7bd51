import Fake8080.Arch.Log
import Fake8080.Arch.Reads

/-!
# Mapping and attaching while the machine runs

The CPU holds references to its buses, so regions can be mapped and devices attached at any
time. When does not matter, as long as it is before they are first needed: a run in which no
cycle touches an address that only a later call maps, or a port that a later call attaches a
device to, is the run with everything mapped and attached at the start (`Cpu.plug_early`).
-/

namespace Fake8080

universe u v

variable {ι : Type u} {δ : Type v}

/-- A call on one of the three objects: the CPU, its memory bus or its I/O bus. -/
inductive Call (ι : Type u)
  | run (a : Action)
  | map (entry : RegionEntry)
  | attach (port : Byte) (device : ι)

/-- The call on the CPU, if it is one. -/
def Call.action? : Call ι → Option Action
  | run a => some a
  | map _ => none
  | attach _ _ => none

/-- The entry a call adds to the region table. -/
def Call.entry? : Call ι → Option RegionEntry
  | run _ => none
  | map entry => if entry.Accepted then some entry else none
  | attach _ _ => none

/-! ### Tables -/

/-- What a call does to the region table; an exception of `map` is caught. -/
def MemoryBus.plug (bus : MemoryBus) : Call ι → MemoryBus
  | .run _ => bus
  | .map entry => bus.mapOrSkip entry
  | .attach _ _ => bus

/-- What a call does to the port table. -/
def IOBus.plug (bus : IOBus ι) : Call ι → IOBus ι
  | .run _ => bus
  | .map _ => bus
  | .attach port device => bus.attach port device

theorem MemoryBus.regions_plugAll (bus : MemoryBus) (calls : List (Call ι)) :
    (calls.foldl plug bus).regions = bus.regions ++ calls.filterMap Call.entry? := by
  induction calls generalizing bus with
  | nil => exact (List.append_nil _).symm
  | cons call calls ih =>
    rw [List.foldl_cons, ih]
    cases call with
    | run a => rfl
    | attach port device => rfl
    | map entry =>
      change (bus.mapOrSkip entry).regions ++ _ = _
      rw [regions_mapOrSkip, List.append_assoc]
      by_cases h : entry.Accepted <;> simp [Call.entry?, h]

/-- Calls leave the region that is found at an address alone if they add none that holds the
address, or if it is not the first. -/
theorem MemoryBus.findRegion_plugAll {bus : MemoryBus} {calls : List (Call ι)} {address : Word}
    (h : ∀ entry ∈ calls.filterMap Call.entry?, entry.Covers address →
      ∃ other ∈ bus.regions, other.Covers address) :
    (calls.foldl plug bus).findRegion address = bus.findRegion address := by
  rw [findRegion, findRegion, regions_plugAll, List.find?_append]
  cases hfound : bus.regions.find? fun i => address ≥ i.start ∧ address ≤ i.endAddress with
  | some entry => rfl
  | none =>
    have hnone := List.find?_eq_none.mp hfound
    have hlater : (calls.filterMap Call.entry?).find?
        (fun i => address ≥ i.start ∧ address ≤ i.endAddress) = none := by
      refine List.find?_eq_none.mpr fun entry hentry hcovers => ?_
      obtain ⟨other, hother, hcovers'⟩ := h entry hentry (of_decide_eq_true hcovers)
      exact hnone other hother (decide_eq_true hcovers')
    rw [hlater]
    rfl

theorem IOBus.ports_plugAll {bus : IOBus ι} {calls : List (Call ι)} {port : Byte}
    (h : ∀ device, .attach port device ∉ calls) :
    (calls.foldl plug bus).ports port = bus.ports port := by
  induction calls generalizing bus with
  | nil => rfl
  | cons call calls ih =>
    rw [List.foldl_cons, ih fun device hmem => h device (List.mem_cons_of_mem _ hmem)]
    cases call with
    | run a => rfl
    | map entry => rfl
    | attach port' device =>
      refine Function.update_of_ne ?_ _ _
      rintro rfl
      exact h device List.mem_cons_self

namespace Buses

/-- The buses after calls on them. -/
def plugAll (b : Buses ι δ) (calls : List (Call ι)) : Buses ι δ :=
  { b with
    memoryBus := calls.foldl MemoryBus.plug b.memoryBus
    ioBus := calls.foldl IOBus.plug b.ioBus }

/-- Calls on the buses commute with what a run does there, if they do not matter to its
writes. -/
theorem performAll_plugAll [IOPort ι δ] (b : Buses ι δ) (calls : List (Call ι))
    (events : List (BusEvent ι))
    (h : ∀ w ∈ events.filterMap BusEvent.write?,
      (calls.foldl MemoryBus.plug b.memoryBus).findRegion w.1 = b.memoryBus.findRegion w.1) :
    (b.plugAll calls).performAll events = (b.performAll events).plugAll calls := by
  induction events generalizing b with
  | nil => rfl
  | cons e events ih =>
    have he : (b.perform e).memoryBus = b.memoryBus := by cases e <;> rfl
    rw [performAll_cons, performAll_cons, ← ih]
    · refine congrArg (performAll · events) ?_
      cases e with
      | deviceIn device => rfl
      | deviceOut device value => rfl
      | write address value =>
        have hfound := h (address, value) (by simp [BusEvent.write?])
        have hwrite : (calls.foldl MemoryBus.plug b.memoryBus).write b.host address value =
            b.memoryBus.write b.host address value := by
          rw [MemoryBus.write_eq, MemoryBus.write_eq, hfound]
        exact congrArg (fun host => ({ b.plugAll calls with
          host := host
          log := b.log ++ [.write address value] } : Buses ι δ)) hwrite
    · rw [he]
      intro w hw
      exact h w (by
        obtain ⟨e', he', hwrite⟩ := List.mem_filterMap.mp hw
        exact List.mem_filterMap.mpr ⟨e', List.mem_cons_of_mem _ he', hwrite⟩)

end Buses

/-! ### One step -/

namespace Arch

/-- The port an instruction calls, if any. -/
def Op.port? (s : State δ) : Op → Option Byte
  | input | output => some s.immediate
  | _ => none

/-- The port an event calls, if any. -/
def State.port? (s : State δ) : Event → Option Byte
  | .exec opcode => (Op.decode opcode).port? s.fetched
  | _ => none

/-- The addresses an event reads or writes. -/
def State.touched (s : State δ) (e : Event) : List Word := s.reads e ++ (s.stepStores e).map Prod.fst

section Environments

variable {env env' : Environment ι} (s : State δ)

/-- An instruction depends on the environment through the port it calls. -/
theorem Op.deviceCall_congr (op : Op) (h : ∀ port ∈ op.port? s, env.ports port = env'.ports port) :
    op.deviceCall env s = op.deviceCall env' s := by
  cases op with
  | input => simp only [deviceCall, h s.immediate rfl]
  | output => simp only [deviceCall, h s.immediate rfl]
  | _ => rfl

theorem Op.operate_congr [IOPort ι δ] (op : Op)
    (h : ∀ port ∈ op.port? s, env.ports port = env'.ports port) :
    op.operate env s = op.operate env' s := by
  cases op with
  | input => simp only [operate, h s.immediate rfl]
  | output => simp only [operate, h s.immediate rfl]
  | _ => rfl

variable {memory : Word → Byte} {e : Event}

/-- The calls of an event depend on the bytes it reads and the port it calls. -/
theorem stepCalls_congr (hreads : ∀ x ∈ s.reads e, memory x = s.memory x)
    (hports : ∀ port ∈ s.port? e, env.ports port = env'.ports port) :
    (s.withMemory memory).stepCalls env' e = s.stepCalls env e := by
  cases e with
  | exec opcode =>
    have hop : ∀ x ∈ (Op.decode opcode).reads s.fetched, memory x = s.fetched.memory x :=
      fun x hx => hreads x (List.mem_cons_of_mem _ hx)
    have hfetched : (s.withMemory memory).fetched = s.fetched.withMemory memory := rfl
    rw [State.stepCalls, State.stepCalls, hfetched, Op.stores_withMemory _ _ hop,
      Op.deviceCall_withMemory _ _ _ hop, Op.deviceCall_congr _ _ hports]
  | _ => rfl

/-- An event leaves, memory apart, what the bytes it reads and the port it calls decide. -/
theorem next_congr [IOPort ι δ] (hreads : ∀ x ∈ s.reads e, memory x = s.memory x)
    (hports : ∀ port ∈ s.port? e, env.ports port = env'.ports port) :
    ∃ memory', (s.withMemory memory).next env' e = (s.next env e).withMemory memory' := by
  cases e with
  | exec opcode =>
    have hop : ∀ x ∈ (Op.decode opcode).reads s.fetched, memory x = s.fetched.memory x :=
      fun x hx => hreads x (List.mem_cons_of_mem _ hx)
    have hfetched : (s.withMemory memory).fetched = s.fetched.withMemory memory := rfl
    refine ⟨env'.store memory ((Op.decode opcode).stores (s.fetched.withMemory memory)), ?_⟩
    rw [State.next, hfetched, Op.operate_withMemory _ _ _ hop, ← Op.operate_congr _ _ hports]
    rfl
  | _ => exact ⟨_, rfl⟩

end Environments

end Arch

/-! ### Runs -/

namespace Cpu

variable [IOPort ι δ]

/-- The CPU and its buses as a reactive system on all their calls. It reports what the calls on
the CPU do. -/
def connected : Reactive (Cpu ι δ) (Call ι) (Option (Event × List (BusEvent ι))) where
  step c
    | .run a => system.step c a
    | call => { c with buses := c.buses.plugAll [call] }
  event c
    | .run a => some (observed.event c a)
    | _ => none

/-- A call may come before others: none of them maps an address it touches that is not mapped
yet, and none attaches a device to the port it calls. -/
def MayPrecede (c : Cpu ι δ) (later : List (Call ι)) : Call ι → Prop
  | .run a =>
    (∀ x ∈ c.arch.touched (system.event c a), ∀ entry ∈ later.filterMap Call.entry?,
      entry.Covers x → ∃ other ∈ c.buses.memoryBus.regions, other.Covers x) ∧
    ∀ port ∈ c.arch.port? (system.event c a), ∀ device, .attach port device ∉ later
  | _ => True

/-- Every call comes late enough. -/
def Settled : Cpu ι δ → List (Call ι) → Prop
  | _, [] => True
  | c, call :: later => c.MayPrecede later call ∧ Settled (connected.step c call) later

/-- The second CPU is the first with later calls on the buses already made. -/
structure Ahead (later : List (Call ι)) (c d : Cpu ι δ) : Prop where
  /-- The buses differ by the calls. -/
  buses : d.buses = c.buses.plugAll later
  /-- The rest is the same. -/
  arch : d.arch = c.arch.withMemory d.buses.read

/-- A call that may come before others does what it would do after them. -/
theorem Ahead.step {later : List (Call ι)} {c d : Cpu ι δ} (h : Ahead later c d) {a : Action}
    (hcall : c.MayPrecede later (.run a)) :
    observed.event d a = observed.event c a ∧
      Ahead later (system.step c a) (system.step d a) := by
  obtain ⟨htouched, hports⟩ := hcall
  rw [← arch_event] at htouched hports
  have hfound : ∀ x ∈ c.arch.touched (c.arch.event a), d.buses.memoryBus.findRegion x =
      c.buses.memoryBus.findRegion x := by
    intro x hx
    rw [h.buses]
    exact MemoryBus.findRegion_plugAll (htouched x hx)
  have hreads : ∀ x ∈ c.arch.reads (c.arch.event a), d.buses.read x = c.arch.memory x := by
    intro x hx
    have hx' := hfound x (List.mem_append_left _ hx)
    change d.buses.memoryBus.read d.buses.host x = c.buses.memoryBus.read c.buses.host x
    rw [MemoryBus.read_eq, MemoryBus.read_eq, hx', h.buses]
    rfl
  have hport : ∀ port ∈ c.arch.port? (c.arch.event a),
      c.buses.environment.ports port = d.buses.environment.ports port := by
    intro port hmem
    rw [h.buses]
    exact (IOBus.ports_plugAll (hports port hmem)).symm
  have hevent : d.arch.event a = c.arch.event a := by
    rw [h.arch]
    exact Arch.event_withMemory c.arch a hreads
  have hcalls : d.arch.stepCalls d.buses.environment (d.arch.event a) =
      c.arch.stepCalls c.buses.environment (c.arch.event a) := by
    rw [hevent]
    conv_lhs => rw [h.arch]
    exact Arch.stepCalls_congr c.arch hreads hport
  refine ⟨?_, ?_, ?_⟩
  · rw [arch_observed_event, arch_observed_event]
    exact Prod.ext hevent hcalls
  · rw [buses_step, buses_step, footprint_eq_stepCalls, footprint_eq_stepCalls, ← arch_event,
      ← arch_event, hcalls, h.buses]
    refine Buses.performAll_plugAll _ _ _ fun w hw => ?_
    rw [Arch.State.write?_stepCalls] at hw
    refine MemoryBus.findRegion_plugAll (htouched w.1 (List.mem_append_right _ ?_))
    exact List.mem_map_of_mem hw
  · obtain ⟨memory, hnext⟩ := Arch.next_congr c.arch hreads hport
    have hc := c.arch_step a
    have hd := d.arch_step a
    change (system.step d a).arch = d.arch.next _ (d.arch.event a) at hd
    change (system.step c a).arch = c.arch.next _ (c.arch.event a) at hc
    rw [hevent] at hd
    conv_rhs at hd => rw [h.arch]
    rw [hnext, ← hc] at hd
    have hmemory : (system.step d a).buses.read = memory := congrArg Arch.State.memory hd
    rw [hd, hmemory]

/-- Calls that come late enough do what they do with the buses already complete. -/
theorem Ahead.run {c d : Cpu ι δ} {calls : List (Call ι)} (h : Ahead calls c d)
    (hsettled : c.Settled calls) :
    (connected.history c calls).filterMap id =
        observed.history d (calls.filterMap Call.action?) ∧
      Ahead [] (connected.after c calls) (system.after d (calls.filterMap Call.action?)) := by
  induction calls generalizing c d with
  | nil => exact ⟨rfl, h⟩
  | cons call later ih =>
    obtain ⟨hcall, hlater⟩ := hsettled
    cases call with
    | run a =>
      have hahead : Ahead later c d := ⟨h.buses, h.arch⟩
      obtain ⟨hevent, hnext⟩ := hahead.step hcall
      obtain ⟨hhistory, hafter⟩ := ih hnext hlater
      exact ⟨congrArg₂ _ hevent.symm hhistory, hafter⟩
    | map entry => exact ih ⟨h.buses, h.arch⟩ hlater
    | attach port device => exact ih ⟨h.buses, h.arch⟩ hlater

/-- **Mapping and attaching early.** If every call comes late enough, a run with calls on the
buses among those on the CPU is the run with all calls on the buses made before the first on
the CPU: the calls on the CPU do the same, a program sees the same at the end, and the buses
are the same. -/
theorem plug_early (c : Cpu ι δ) (calls : List (Call ι)) (hsettled : c.Settled calls) :
    let d := { c with buses := c.buses.plugAll calls }
    let actions := calls.filterMap Call.action?
    (connected.history c calls).filterMap id = observed.history d actions ∧
    (connected.after c calls).arch = (system.after d actions).arch ∧
    (connected.after c calls).buses = (system.after d actions).buses := by
  intro d actions
  have hahead : Ahead calls c d := ⟨rfl, rfl⟩
  obtain ⟨hhistory, hafter⟩ := hahead.run hsettled
  have hbuses : (system.after d actions).buses = (connected.after c calls).buses := hafter.buses
  refine ⟨hhistory, ?_, hbuses.symm⟩
  rw [hafter.arch, hbuses]
  rfl

end Cpu

/-- A device that returns the byte it was sent last. -/
structure MockIOPort where
  /-- The byte. -/
  value : Byte

instance : IOPort Unit MockIOPort where
  inp _ device := (device.value, device)
  out _ value _ := ⟨value⟩

namespace Cpu

/-- `NOP` and `IN 10H` in a ROM that is mapped before the first cycle. -/
def pluggedProgram : Cpu Unit MockIOPort :=
  Cpu.new
    { memoryBus := .build [⟨0, 2, .romRegion ⟨0, 3⟩⟩]
      ioBus := .initial
      host := fun byte => [0x00, 0xDB, 0x10].getD byte 0
      devices := ⟨0x3C⟩
      log := [] }

/-- The device is attached and a RAM mapped between the two cycles, right before `IN` reads from
the device. -/
theorem plug_early_device :
    let calls : List (Call Unit) := [.run .cycle, .attach 0x10 (),
      .map ⟨0x10, 0x1F, .ramRegion ⟨3, 16⟩⟩, .run .cycle]
    let c := connected.after pluggedProgram calls
    let d := system.after
      { pluggedProgram with buses := pluggedProgram.buses.plugAll calls } [.cycle, .cycle]
    c.arch = d.arch ∧ c.buses = d.buses ∧ c.registers.getRegister .a = 0x3C := by
  intro calls c d
  have hevent : system.event pluggedProgram .cycle = .exec 0 := by decide
  have hfirst : pluggedProgram.MayPrecede calls.tail (.run .cycle) := by
    rw [MayPrecede, hevent]
    refine ⟨fun x hx entry hentry hcovers => ?_, fun port hport => by cases hport⟩
    have hx' : x ∈ [(0 : Word)] := hx
    have hentries : calls.tail.filterMap Call.entry? = [⟨0x10, 0x1F, .ramRegion ⟨3, 16⟩⟩] := by
      decide
    rw [hentries, List.mem_singleton] at hentry
    rw [List.mem_singleton.mp hx', hentry] at hcovers
    exact absurd hcovers (by decide)
  have hlast : ∀ e : Cpu Unit MockIOPort, e.MayPrecede [] (.run .cycle) :=
    fun e => ⟨fun x _ entry hentry => (by cases hentry), fun port _ device h => (by cases h)⟩
  obtain ⟨-, harch, hbuses⟩ :=
    plug_early pluggedProgram calls ⟨hfirst, trivial, trivial, hlast _, trivial⟩
  have hread : d.registers.getRegister .a = 0x3C := by decide +kernel
  exact ⟨harch, hbuses, (congrArg (·.reg .a) harch).trans hread⟩

end Cpu

end Fake8080
