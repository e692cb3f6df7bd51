import Fake8080.Arch.Interference
import Fake8080.Library.Sharing

/-!
# CPUs on the same buses

A `Fake8080` object holds references to its buses, so any number of them can be connected to the
same ones. If, each alone on these buses, no CPU reads where the others write and none calls a
device whose effects another one sees, then in every interleaving of their calls each does what
it does alone, with the same calls on the buses (`Cpu.sharing`).
-/

namespace Fake8080

universe u v w x

variable {ι : Type u} {δ : Type v} {ω : Type w}

/-! ### CPUs and buses -/

/-- A `Fake8080` object without what its references reach. -/
structure Core where
  /-- The program counter. -/
  pc : Word
  /-- The register file. -/
  registers : Registers
  /-- The interrupt and halt latches. -/
  latches : Latches

/-- The object on some buses. -/
def Core.on (core : Core) (buses : Buses ι δ) : Cpu ι δ :=
  ⟨core.pc, core.registers, core.latches, buses⟩

/-- The object of a CPU. -/
def Cpu.core (c : Cpu ι δ) : Core := ⟨c.pc, c.registers, c.latches⟩

/-- The emulator with the buses apart from the object. -/
def Core.system [IOPort ι δ] : Reactive (Core × Buses ι δ) Action (Event × List (BusEvent ι)) where
  step s a := ((Cpu.system.step (s.1.on s.2) a).core, (Cpu.system.step (s.1.on s.2) a).buses)
  event s a := Cpu.observed.event (s.1.on s.2) a

namespace Arch

/-! ### One step -/

/-- An event reads none of the bytes of others, writes to its own, and calls devices it uses. -/
structure State.KeepsTo (env : Environment ι) (mine theirs : Word → Prop) (used : ι → Prop)
    (s : State δ) (e : Event) : Prop where
  /-- No byte of others is read. -/
  reads : ∀ x ∈ s.reads e, ¬ theirs x
  /-- What is written is seen at own bytes only. -/
  stores : ∀ w ∈ s.stepStores e, ∀ x, env.affects w.1 x = true → mine x
  /-- The devices called are used. -/
  calls : ∀ call ∈ s.stepCalls env e, ∀ device, call.device? = some device → used device

/-- A machine among others is where it would be alone, but for the bytes of others and the
devices it does not see. -/
structure Beside (theirs : Word → Prop) (view : δ → ω) (s t : State δ) : Prop where
  /-- All but memory and devices is the same. -/
  same : t = (s.withMemory t.memory).withOutside t.devices s.pending
  /-- Bytes that are not of others are the same. -/
  memory : ∀ x, ¬ theirs x → t.memory x = s.memory x
  /-- The devices look the same. -/
  devices : view t.devices = view s.devices

section Step

variable [IOPort ι δ] (env : Environment ι) {mine theirs : Word → Prop} {view : δ → ω}
  {used : ι → Prop} {s t : State δ}

omit [IOPort ι δ] in
theorem Beside.store (h : Beside theirs view s t) (stores : List (Word × Byte)) {x : Word}
    (hx : ¬ theirs x) : env.store t.memory stores x = env.store s.memory stores x := by
  rcases AliasedStore.foldl_writeView_cases (fun a b => env.affects a b) t.memory s.memory stores
    x with heq | ⟨ht, hs⟩
  · exact heq
  · exact ht.trans ((h.memory x hx).trans hs.symm)

omit [IOPort ι δ] in
/-- What a call does is the same if it reads no byte of others. -/
theorem Beside.event (h : Beside theirs view s t) (a : Action)
    (hreads : ∀ x ∈ s.reads (s.event a), ¬ theirs x) : t.event a = s.event a := by
  rw [← event_withMemory s a fun x hx => h.memory x (hreads x hx), h.same]
  cases a <;> rfl

/-- **Step.** A call that keeps to its own does the same among others, and leaves the machine
where it would be alone. -/
theorem Beside.step (h : Beside theirs view s t) (hview : Separates view used) {a : Action}
    (hkeeps : s.KeepsTo env mine theirs used (s.event a)) :
    (machine env).event t a = (machine env).event s a ∧
      Beside theirs view ((machine env).step s a) ((machine env).step t a) := by
  have hsame := h.same
  have hpending : t.pending = s.pending := by rw [hsame]; rfl
  have hevent := h.event a hkeeps.reads
  change (t.event a, t.stepCalls env (t.event a)) = (s.event a, s.stepCalls env (s.event a)) ∧
    Beside theirs view (s.next env (s.event a)) (t.next env (t.event a))
  rw [hevent]
  generalize s.event a = e at hkeeps
  cases e with
  | accept =>
    have hpushed : t.pushed t.pc = s.pushed s.pc := by rw [hsame]; rfl
    refine ⟨by rw [State.stepCalls, State.stepCalls, hpushed], ⟨?_, fun x hx => ?_, h.devices⟩⟩
    · rw [hsame]
      rfl
    · change env.store t.memory (t.pushed t.pc) x = env.store s.memory (s.pushed s.pc) x
      rw [hpushed]
      exact h.store env _ hx
  | exec opcode =>
    have hfetched : t.fetched =
        (s.fetched.withMemory t.memory).withOutside t.devices t.pending := by
      conv_lhs => rw [hsame]
      rw [hpending]
      rfl
    obtain ⟨hcalls, devices, hdevices, hnext⟩ := exec_alongside env hview hfetched
      (fun x hx => h.memory x (hkeeps.reads x (List.mem_cons_of_mem _ hx))) h.devices hkeeps.calls
    rw [hcalls, hnext]
    refine ⟨rfl, ⟨?_, fun x hx => h.store env _ hx, hdevices⟩⟩
    have hkept : (s.next env (.exec opcode)).pending = s.pending :=
      ((Op.decode opcode).operate_latches env s.fetched).2.2.1
    rw [hpending, ← hkept]
    rfl
  | idle => exact ⟨rfl, ⟨by rw [hsame]; rfl, h.memory, h.devices⟩⟩
  | request interruptNum => exact ⟨rfl, ⟨by rw [hsame]; rfl, h.memory, h.devices⟩⟩
  | reset => exact ⟨rfl, ⟨by rw [hsame]; rfl, h.memory, h.devices⟩⟩

end Step

end Arch

/-! ### Buses among others -/

/-- Calls on devices that are used elsewhere are not seen. -/
structure Unseen [IOPort ι δ] (view : δ → ω) (used : ι → Prop) : Prop where
  /-- Not that a byte is read. -/
  inp : ∀ {device x}, used device → view (IOPort.inp device x).2 = view x
  /-- Not that a byte is written. -/
  out : ∀ {device value x}, used device → view (IOPort.out device value x) = view x

section Unseen

variable [IOPort ι δ] {view : δ → ω} {used : ι → Prop}

/-- Calls on devices that are used elsewhere leave the view of the devices alone. -/
theorem Unseen.performAll (h : Unseen view used) (b : Buses ι δ) {calls : List (BusEvent ι)}
    (hcalls : ∀ call ∈ calls, ∀ device, call.device? = some device → used device) :
    view (b.performAll calls).devices = view b.devices := by
  induction calls generalizing b with
  | nil => rfl
  | cons call calls ih =>
    rw [Buses.performAll_cons, ih _ fun call' h' => hcalls call' (List.mem_cons_of_mem _ h')]
    have hcall := hcalls call List.mem_cons_self
    cases call with
    | write address value => rfl
    | deviceIn device => exact h.inp (hcall device rfl)
    | deviceOut device value => exact h.out (hcall device rfl)

end Unseen

/-! ### Interleavings -/

namespace Cpu

variable [IOPort ι δ]

/-- An object on some buses does what the CPU does. -/
theorem simulation_core (rule : Cpu ι δ → Action → Prop) :
    (observed (ι := ι) (δ := δ)).Simulation Core.system rule (fun s a => rule (s.1.on s.2) a)
      fun c s => s = (c.core, c.buses) where
  event {c s a} h _ _ := by rw [h]; rfl
  step {c s a} h _ _ := by rw [h]; rfl

variable {κ : Type x} {written : κ → Word → Prop} {view : κ → δ → ω} {used : κ → ι → Prop}

/-- What the others write. -/
def writtenByOthers (written : κ → Word → Prop) (k : κ) (x : Word) : Prop :=
  ∃ j, j ≠ k ∧ written j x

/-- What others do on the buses is not seen. -/
theorem beside_performAll {theirs : Word → Prop} {look : δ → ω} {others : ι → Prop}
    {s : Arch.State δ} {core : Core} {b : Buses ι δ}
    (h : Arch.Beside theirs look s (core.on b).arch) (hunseen : Unseen look others) {calls : List (BusEvent ι)}
    (hwrites : ∀ w ∈ calls.filterMap BusEvent.write?, ∀ x, b.environment.affects w.1 x = true →
      theirs x)
    (hcalls : ∀ call ∈ calls, ∀ device, call.device? = some device → others device) :
    Arch.Beside theirs look s (core.on (b.performAll calls)).arch where
  same := by
    have hsame := h.same
    change _ = (s.withMemory (b.performAll calls).read).withOutside (b.performAll calls).devices _
    change _ = (s.withMemory b.read).withOutside b.devices _ at hsame
    exact congrArg
      (fun t => (t.withMemory (b.performAll calls).read).withOutside (b.performAll calls).devices
        t.pending) hsame
  memory x hx := by
    have hread : (b.performAll calls).read x = b.read x := by
      rw [Buses.read_performAll]
      refine b.environment.store_of_not_affects b.read fun w hw => ?_
      exact Bool.eq_false_of_not_eq_true fun haffects => hx (hwrites w hw x haffects)
    exact hread.trans (h.memory x hx)
  devices := (hunseen.performAll b hcalls).trans h.devices

/-- A CPU that keeps to its own among others is simulated by the CPU alone. -/
theorem simulation_beside (hview : ∀ k, Separates (view k) (used k)) (k : κ) :
    (observed (ι := ι) (δ := δ)).Simulation observed
      (fun c a => c.arch.KeepsTo c.buses.environment (written k) (writtenByOthers written k)
        (used k) (system.event c a)) (fun _ _ => True)
      fun c d => Arch.Beside (writtenByOthers written k) (view k) c.arch d.arch ∧
        c.buses.environment = d.buses.environment :=
  simulation_of_arch id id
    (fun env s e => s.KeepsTo env (written k) (writtenByOthers written k) (used k) e)
    (Arch.Beside (writtenByOthers written k) (view k)) fun env {_ _ _} h hrule =>
      (h.step env (hview k) hrule).imp_left Eq.symm

/-- CPUs that keep to their own bytes and devices are independent. -/
theorem independent (hview : ∀ k, Separates (view k) (used k))
    (hunseen : ∀ j k, j ≠ k → Unseen (view k) (used j)) :
    (Core.system (ι := ι) (δ := δ)).Independent
      (fun k s a => (s.1.on s.2).arch.KeepsTo s.2.environment (written k)
        (writtenByOthers written k) (used k) (system.event (s.1.on s.2) a))
      fun k s t => Arch.Beside (writtenByOthers written k) (view k) (s.1.on s.2).arch
        (t.1.on t.2).arch ∧ s.2.environment = t.2.environment where
  event {k s t a} h hrule := (simulation_beside hview k).event h hrule trivial
  own {k s t a} h hrule := (simulation_beside hview k).step h hrule trivial
  other {j k s t a} hjk h hrule s' l h' := by
    rw [← arch_event] at hrule
    -- the calls are those that the CPU called makes alone
    have hbuses : (system.step (t.1.on t.2) a).buses = t.2.performAll
        ((s.1.on s.2).arch.stepCalls s.2.environment ((s.1.on s.2).arch.event a)) := by
      have hevent := (h.1.step s.2.environment (hview j) hrule).1
      have hcalls := congrArg Prod.snd ((t.1.on t.2).arch_observed_event a)
      rw [observed_event] at hcalls
      change _ = ((Arch.machine t.2.environment).event _ a).2 at hcalls
      rw [← h.2, hevent] at hcalls
      exact (buses_step _ a).trans (congrArg t.2.performAll hcalls)
    change Arch.Beside _ _ _ (l.on (system.step (t.1.on t.2) a).buses).arch ∧
      s'.2.environment = (system.step (t.1.on t.2) a).buses.environment
    rw [hbuses, Buses.environment_performAll]
    refine ⟨beside_performAll h'.1 (hunseen j k hjk) (fun w hw x haffects => ?_) hrule.calls, h'.2⟩
    rw [Arch.State.write?_stepCalls] at hw
    exact ⟨j, hjk, hrule.stores w hw x (h.2 ▸ haffects)⟩

variable [DecidableEq κ]

/-- **CPUs on the same buses do not interfere.** Any number of CPUs share their buses. If, each
alone on the buses as they are at first, none reads a byte that another one writes, and none
calls a device that another one sees, then in every interleaving of their calls each of them
does what it does alone, with the same calls on the buses, and is left where it would be alone,
but for the bytes that others write and the devices it does not see. -/
theorem sharing (hview : ∀ k, Separates (view k) (used k))
    (hunseen : ∀ j k, j ≠ k → Unseen (view k) (used j)) (cores : κ → Core) (b : Buses ι δ)
    (calls : List (κ × Action))
    (hkeeps : ∀ k, observed.Along (fun c a => c.arch.KeepsTo c.buses.environment (written k)
      (writtenByOthers written k) (used k) (system.event c a)) ((cores k).on b)
        (Reactive.addressed k calls)) (k : κ) :
    let board := (Core.system.shared κ).after (cores, b) calls
    Reactive.addressed k ((Core.system.shared κ).history (cores, b) calls) =
      observed.history ((cores k).on b) (Reactive.addressed k calls) ∧
    Arch.Beside (writtenByOthers written k) (view k)
      (system.after ((cores k).on b) (Reactive.addressed k calls)).arch
      ((board.1 k).on board.2).arch := by
  let rule (k : κ) (c : Cpu ι δ) (a : Action) : Prop :=
    c.arch.KeepsTo c.buses.environment (written k) (writtenByOthers written k) (used k)
      (system.event c a)
  have halong : ∀ k, Core.system.Along (fun s a => rule k (s.1.on s.2) a) (cores k, b)
      (Reactive.addressed k calls) := fun k =>
    (simulation_core (rule k)).along (fun {c s a} h hrule => by rw [h]; exact hrule) rfl (hkeeps k)
  obtain ⟨hsame, hbeside, -⟩ := (independent hview hunseen).history_shared
    (fun k => (cores k, b)) cores b (fun k => ⟨⟨rfl, fun _ _ => rfl, rfl⟩, rfl⟩) halong k
  -- the object alone is the CPU alone
  have hhistory := (simulation_core (rule k)).history rfl (hkeeps k) (halong k)
  have hafter : Core.system.after (cores k, b) (Reactive.addressed k calls) = _ :=
    (simulation_core (rule k)).after rfl (hkeeps k) (halong k)
  refine ⟨hsame.trans hhistory.symm, ?_⟩
  rw [hafter] at hbeside
  exact hbeside

/-- A CPU about to store its accumulator. -/
def storing (pc hl : Word) : Core :=
  ⟨pc, Registers.initial.setCombinedRegister .hl hl, Latches.initial⟩

/-- Of two CPUs that store into the same RAM each stores its own byte. -/
theorem sharing_storing :
    let cores : Bool → Core := fun k => cond k (storing 0 0x10) (storing 0x100 0x20)
    let b := Buses.fullRam fun _ => 0x77
    let board := (Core.system.shared Bool).after (cores, b) [(true, .cycle), (false, .cycle)]
    board.2.read 0x10 = 0 := by
  intro cores b board
  let written : Bool → Word → Prop := fun k x => x = cond k 0x10 0x20
  have hview : ∀ _ : Bool, Separates (ι := Empty) (id : Unit → Unit) fun _ => True :=
    fun _ => ⟨fun {device} => device.elim, fun {device} => device.elim⟩
  have hunseen : ∀ j k : Bool, j ≠ k → Unseen (ι := Empty) (id : Unit → Unit) fun _ => True :=
    fun _ _ _ => ⟨fun {device} => device.elim, fun {device} => device.elim⟩
  have hevent : ∀ k, system.event ((cores k).on b) .cycle = .exec 0x77 := by decide
  have hreads : ∀ k, ((cores k).on b).arch.reads (.exec 0x77) = [cond k 0 0x100] := by decide
  have hstores : ∀ k, ((cores k).on b).arch.stepStores (.exec 0x77) =
      [(cond k 0x10 0x20, 0)] := by decide
  have hcode : ∀ k j : Bool, cond k 0 0x100 ≠ (cond j 0x10 0x20 : Word) := by decide
  have hkeeps : ∀ k, observed.Along (fun c a => c.arch.KeepsTo c.buses.environment (written k)
      (writtenByOthers written k) (fun _ => True) (system.event c a)) ((cores k).on b)
        (Reactive.addressed k [(true, .cycle), (false, .cycle)]) := by
    intro k
    rw [show Reactive.addressed k [(true, Action.cycle), (false, .cycle)] = [.cycle] by
      cases k <;> rfl]
    refine ⟨?_, trivial⟩
    change Arch.State.KeepsTo _ _ _ _ _ (system.event _ _)
    rw [hevent]
    refine ⟨fun x hx hothers => ?_, fun w hw x haffects => ?_, fun _ _ _ _ => trivial⟩
    · obtain ⟨j, -, hj⟩ := hothers
      rw [hreads, List.mem_singleton] at hx
      exact hcode k j (hx.symm.trans hj)
    · rw [hstores, List.mem_singleton] at hw
      rw [hw] at haffects
      exact ((MemoryBus.affects_flat _ x).mp (of_decide_eq_true haffects)).symm
  have hmine : ¬ writtenByOthers written true 0x10 := by
    rintro ⟨j, hj, h⟩
    revert j
    decide
  -- stated for every board, so that this one is not evaluated
  have hread : ∀ board : (Bool → Core) × Buses Empty Unit,
      Arch.Beside (writtenByOthers written true) id (system.after ((cores true).on b) [.cycle]).arch
        ((board.1 true).on board.2).arch → board.2.read 0x10 = 0 :=
    fun board hbeside => (hbeside.memory 0x10 hmine).trans (by decide)
  exact hread _ (sharing hview hunseen cores b _ hkeeps true).2

end Cpu

end Fake8080
