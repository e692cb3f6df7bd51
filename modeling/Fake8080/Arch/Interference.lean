import Fake8080.Arch.Devices
import Fake8080.Arch.Reads
import Fake8080.Arch.SaveRestore

/-!
# Interrupts do not interfere

A program and the handlers that interrupt it share registers, memory and devices. Say which
bytes are free at each stack pointer and which devices the program uses. If the program, run
without interrupts, reads no free byte and calls no other device, and every handler comes back
with the registers it found, having changed free bytes and other devices only, then whatever
interrupts arrive and wherever they are accepted, the program executes the same instructions
with the same calls on the buses (`Cpu.interrupts_do_not_interfere`).

`Like` relates the state of the program alone to the state of the interrupted one; an
instruction of the program carries it on (`Like.exec`), and so does a handler.
-/

namespace Fake8080

universe u v w

variable {ι : Type u} {δ : Type v} {ω : Type w}

/-- What a program sees of the devices is decided by what it sees of them: a call on a device
it uses returns the same and leaves the same to be seen. -/
structure Separates [IOPort ι δ] (view : δ → ω) (used : ι → Prop) : Prop where
  /-- Devices that look the same return the same. -/
  inp : ∀ {device x y}, used device → view x = view y →
    (IOPort.inp device x).1 = (IOPort.inp device y).1 ∧
      view (IOPort.inp device x).2 = view (IOPort.inp device y).2
  /-- Devices that look the same still do after a byte is written. -/
  out : ∀ {device value x y}, used device → view x = view y →
    view (IOPort.out device value x) = view (IOPort.out device value y)

namespace Arch

variable [IOPort ι δ] (env : Environment ι) (free : Word → Word → Prop) (view : δ → ω)
  (used : ι → Prop)

/-- An event leaves the free bytes alone: it reads none of them, it writes those that its stack
pointer takes in, and it calls used devices only. -/
structure State.Respects (s : State δ) (e : Event) : Prop where
  /-- No free byte is read. -/
  reads : ∀ x ∈ s.reads e, ¬ free s.sp x
  /-- What is free no longer was written. -/
  claims : ∀ x, free s.sp x → ¬ free (s.next env e).sp x →
    ∃ w ∈ (s.stepCalls env e).filterMap BusEvent.write?, env.affects w.1 x = true
  /-- The devices called are used. -/
  calls : ∀ call ∈ s.stepCalls env e, ∀ device, call.device? = some device → used device

/-- An interrupted program is where it would be alone, with nothing pending there: free bytes
may differ, unused devices may, and so may the latch that holds an enable request. -/
structure Like (s t : State δ) : Prop where
  /-- The registers are the same. -/
  file : t.toFile = s.toFile
  /-- The program counter is the same. -/
  pc : t.pc = s.pc
  /-- Bytes that are not free are the same. -/
  memory : ∀ x, ¬ free s.sp x → t.memory x = s.memory x
  /-- The program sees the same devices. -/
  devices : view t.devices = view s.devices
  /-- The next cycle starts with the same enabling. -/
  enabled : (t.enableRequested || t.enabled) = (s.enableRequested || s.enabled)
  /-- Alone, nothing is pending. -/
  pending : s.pending = none
  /-- Both are halted or neither is. -/
  halted : t.halted = s.halted

variable {view used}

variable {free} {s t : State δ}

omit [IOPort ι δ] in
theorem Like.cycleEvent (h : Like free view s t) {opcode : Byte}
    (hexec : t.cycleEvent = .exec opcode) (hreads : ∀ x ∈ s.reads s.cycleEvent, ¬ free s.sp x) :
    s.cycleEvent = .exec opcode := by
  rw [State.cycleEvent] at hexec
  split_ifs at hexec with haccept hhalted
  have hs : s.cycleEvent = .exec (s.memory s.pc) := by
    rw [State.cycleEvent, if_neg (by rw [h.pending]; exact Bool.false_ne_true),
      if_neg (by rw [← h.halted]; exact hhalted)]
  rw [hs] at hreads ⊢
  rw [← hexec, h.pc, h.memory s.pc (hreads s.pc List.mem_cons_self)]

/-- An instruction does the same on other memory, where it reads the same, on devices that look
the same, and whatever is pending. -/
theorem exec_alongside (hview : Separates view used) {opcode : Byte}
    (hfetched : t.fetched = (s.fetched.withMemory t.memory).withOutside t.devices t.pending)
    (hread : ∀ x ∈ (Op.decode opcode).reads s.fetched, t.memory x = s.memory x)
    (hdevices : view t.devices = view s.devices)
    (hcalls : ∀ call ∈ s.stepCalls env (.exec opcode), ∀ device,
      call.device? = some device → used device) :
    t.stepCalls env (.exec opcode) = s.stepCalls env (.exec opcode) ∧
      ∃ devices, view devices = view (s.next env (.exec opcode)).devices ∧
        t.next env (.exec opcode) =
          { s.next env (.exec opcode) with
            memory := env.store t.memory (s.stepStores (.exec opcode))
            devices := devices
            pending := t.pending } := by
  set op := Op.decode opcode with hop
  set v := s.fetched.withMemory t.memory with hv
  have hstores : op.stores t.fetched = op.stores s.fetched := by
    rw [hfetched, op.stores_withOutside, op.stores_withMemory s.fetched hread]
  have hcall : op.deviceCall env t.fetched = op.deviceCall env s.fetched := by
    rw [hfetched, op.deviceCall_withOutside, op.deviceCall_withMemory s.fetched env hread]
  obtain ⟨devices, hoperate, hsame⟩ := op.operate_withOutside env v t.devices t.pending
    (R := fun x y => view x = view y) (fun _ => hdevices.symm) fun call hmem => by
      rw [op.deviceCall_withMemory s.fetched env hread] at hmem
      have hused := hcalls call (List.mem_append_right _ (Option.mem_toList.mpr hmem))
      cases call with
      | write address value => trivial
      | deviceIn device => exact hview.inp (hused device rfl) hdevices.symm
      | deviceOut device value => exact hview.out (hused device rfl) hdevices.symm
  rw [← hfetched, op.operate_withMemory s.fetched env hread] at hoperate
  rw [op.operate_withMemory s.fetched env hread] at hsame
  refine ⟨by simp only [State.stepCalls, ← hop, hstores, hcall], devices, hsame.symm, ?_⟩
  rw [State.next, ← hop, hoperate, hstores]
  rfl

/-- **Step.** An instruction that leaves the free bytes alone makes the same calls on the buses
and leaves the interrupted program where it would be alone. -/
theorem Like.exec (h : Like free view s t) (hview : Separates view used) {opcode : Byte}
    (hrespects : s.Respects env free used (.exec opcode)) :
    s.stepCalls env (.exec opcode) = t.stepCalls env (.exec opcode) ∧
      Like free view (s.next env (.exec opcode)) (t.next env (.exec opcode)) := by
  have hfetched : t.fetched = (s.fetched.withMemory t.memory).withOutside t.devices t.pending :=
    State.ext_toFile h.file (congrArg (· + 1) h.pc) rfl rfl rfl h.enabled rfl h.halted
  obtain ⟨hcalls, devices, hdevices, hnext⟩ := exec_alongside env hview hfetched
    (fun x hx => h.memory x (hrespects.reads x (List.mem_cons_of_mem _ hx))) h.devices hrespects.calls
  rw [hnext]
  refine ⟨hcalls.symm, rfl, rfl, fun x hx => ?_, hdevices, rfl, ?_, rfl⟩
  · change env.store t.memory (s.stepStores (.exec opcode)) x =
      env.store s.memory (s.stepStores (.exec opcode)) x
    by_cases hfree : free s.sp x
    · -- the stack pointer took the byte in
      refine AliasedStore.foldl_writeView_of_affects (fun a b => env.affects a b) _ _ ?_
      obtain ⟨w, hw, haffects⟩ := hrespects.claims x hfree hx
      exact ⟨w, by rwa [s.write?_stepCalls] at hw, haffects⟩
    · rcases AliasedStore.foldl_writeView_cases (fun a b => env.affects a b) t.memory s.memory
        (s.stepStores (.exec opcode)) x with heq | ⟨ht, hs⟩
      · exact heq
      · exact ht.trans ((h.memory x hfree).trans hs.symm)
  · change ((Op.decode opcode).operate env s.fetched).pending = none
    rw [((Op.decode opcode).operate_latches env s.fetched).2.2.1]
    exact h.pending

/-- A handler comes back: to the instruction that was next, with the registers it found and
interrupts enabled, having changed nothing but free bytes and devices the program does not
see. -/
structure State.Resumes (free : Word → Word → Prop) (view : δ → ω) (s t : State δ) : Prop where
  /-- The registers are back. -/
  file : t.toFile = s.toFile
  /-- The program counter is back. -/
  pc : t.pc = s.pc
  /-- Bytes that are not free are as they were. -/
  memory : ∀ x, ¬ free s.sp x → t.memory x = s.memory x
  /-- The program sees the devices as they were. -/
  devices : view t.devices = view s.devices
  /-- Interrupts are enabled in the next cycle. -/
  enabled : (t.enableRequested || t.enabled) = true
  /-- The machine runs. -/
  halted : t.halted = false

omit [IOPort ι δ] in
/-- A handler leaves the interrupted program where it would be alone. -/
theorem Like.resumes (h : Like free view s t) {t' : State δ} (haccept : t.cycleEvent = .accept)
    (hhalted : t.halted = false) (hresumes : t.Resumes free view t') : Like free view s t' := by
  have hsp : t.sp = s.sp := congrArg File.sp h.file
  have henabled : (t.enableRequested || t.enabled) = true := by
    rw [State.cycleEvent] at haccept
    split_ifs at haccept with hcondition
    exact (Bool.and_eq_true_iff.mp hcondition).2
  exact {
    file := hresumes.file.trans h.file
    pc := hresumes.pc.trans h.pc
    memory := fun x hx => (hresumes.memory x (by rwa [hsp])).trans (h.memory x hx)
    devices := hresumes.devices.trans h.devices
    enabled := hresumes.enabled.trans (henabled.symm.trans h.enabled)
    pending := h.pending
    halted := hresumes.halted.trans (hhalted.symm.trans h.halted) }

end Arch

/-! ### Interleavings -/

/-- What happens next to an interrupted program: one instruction of its own, a request, or an
interrupt with the calls its handler takes. -/
inductive Turn
  | program
  | request (interruptNum : Byte)
  | interrupt (handler : List Action)

namespace Turn

/-- The calls of a turn. -/
def actions : Turn → List Action
  | program => [.cycle]
  | request interruptNum => [.requestInterrupt interruptNum]
  | interrupt handler => .cycle :: handler

/-- The calls of a turn that are the program's own. -/
def own : Turn → List Action
  | program => [.cycle]
  | request _ => []
  | interrupt _ => []

/-- The turn is the program's. -/
def isProgram : Turn → Bool
  | program => true
  | request _ => false
  | interrupt _ => false

theorem flatMap_own (turns : List Turn) :
    turns.flatMap own = List.replicate (turns.countP isProgram) .cycle := by
  induction turns with
  | nil => rfl
  | cons turn turns ih =>
    rw [List.flatMap_cons, ih, List.countP_cons]
    cases turn <;> rfl

/-- A turn is what it says: a cycle of the program executes an opcode, and an interrupt is
accepted, not to end a halt, by a handler that comes back. -/
def Allowed [IOPort ι δ] (free : Word → Word → Prop) (view : δ → ω) (c : Cpu ι δ) : Turn → Prop
  | program => ∃ opcode, c.cycleEvent = .exec opcode
  | request _ => True
  | interrupt handler => c.cycleEvent = .accept ∧ c.latches.halted = false ∧
      c.arch.Resumes free view (Cpu.system.after c (.cycle :: handler)).arch

end Turn

namespace Cpu

variable [IOPort ι δ]

/-- The program alone, turn by turn. -/
def alone : Reactive (Cpu ι δ) Turn (List (Event × List (BusEvent ι))) :=
  observed.turns Turn.own Turn.isProgram

/-- The program among its interrupts, turn by turn. It reports what the program does. -/
def interleaved : Reactive (Cpu ι δ) Turn (List (Event × List (BusEvent ι))) :=
  observed.turns Turn.actions Turn.isProgram

variable {free : Word → Word → Prop} {view : δ → ω} {used : ι → Prop}

theorem cycle_like {c d : Cpu ι δ} (hview : Separates view used)
    (h : Arch.Like free view c.arch d.arch) (henvironment : c.buses.environment = d.buses.environment)
    (hrespects : c.arch.Respects c.buses.environment free used c.cycleEvent) {opcode : Byte}
    (hexec : d.cycleEvent = .exec opcode) :
    observed.event c .cycle = observed.event d .cycle ∧ Arch.Like free view c.cycle.arch d.cycle.arch := by
  rw [← arch_cycleEvent] at hrespects hexec
  have halone := h.cycleEvent hexec hrespects.reads
  rw [halone] at hrespects
  obtain ⟨hcalls, hnext⟩ := h.exec c.buses.environment hview hrespects
  have hc := c.arch_step .cycle
  have hd := d.arch_step .cycle
  change c.cycle.arch = c.arch.next _ c.arch.cycleEvent at hc
  change d.cycle.arch = d.arch.next _ d.arch.cycleEvent at hd
  rw [hc, hd, halone, hexec, ← henvironment]
  refine ⟨?_, hnext⟩
  rw [arch_observed_event, arch_observed_event, ← henvironment]
  change (c.arch.cycleEvent, c.arch.stepCalls _ c.arch.cycleEvent) =
    (d.arch.cycleEvent, d.arch.stepCalls _ d.arch.cycleEvent)
  rw [halone, hexec, hcalls]

variable (free) in
/-- The interrupted program is simulated by the program alone. -/
theorem simulation_interleaved (hview : Separates view used) :
    (alone (ι := ι) (δ := δ)).Simulation interleaved
      (fun c turn => observed.Along (fun c a =>
        c.arch.Respects c.buses.environment free used (system.event c a)) c turn.own)
      (fun d turn => turn.Allowed free view d)
      fun c d => Arch.Like free view c.arch d.arch ∧
        c.buses.environment = d.buses.environment where
  event {c d turn} h hrespects hallowed := by
    cases turn with
    | program =>
      obtain ⟨opcode, hexec⟩ := hallowed
      exact congrArg (fun event => [event]) (cycle_like hview h.1 h.2 hrespects.1 hexec).1
    | request interruptNum => rfl
    | interrupt handler => rfl
  step {c d turn} h hrespects hallowed := by
    have henvironment : ∀ actions, (system.after d actions).buses.environment =
        c.buses.environment := fun actions => ((d.arch_after actions).2).trans h.2.symm
    cases turn with
    | program =>
      obtain ⟨opcode, hexec⟩ := hallowed
      refine ⟨(cycle_like hview h.1 h.2 hrespects.1 hexec).2, ?_⟩
      exact (c.arch_after [.cycle]).2.trans (henvironment [.cycle]).symm
    | request interruptNum => exact ⟨{ h.1 with }, h.2⟩
    | interrupt handler =>
      obtain ⟨haccept, hhalted, hresumes⟩ := hallowed
      refine ⟨h.1.resumes (d.arch_cycleEvent.trans haccept) hhalted hresumes, ?_⟩
      exact (henvironment (.cycle :: handler)).symm

/-- **Interrupts do not interfere.** Let a program, run without interrupts, read no free byte,
overwrite what its stack takes in and call only devices it uses. Then from a state with no
interrupt pending, in any interleaving with requests and with interrupts that do not end a halt
and whose handlers come back, it executes the same instructions with the same calls on the buses,
and is left where it would be alone: with the same registers and program counter, the same bytes
but for free ones, and the same view of the devices. -/
theorem interrupts_do_not_interfere (c : Cpu ι δ) (hview : Separates view used)
    (hpending : c.latches.interruptRequested = false) (turns : List Turn)
    (hprogram : observed.Along (fun c a =>
      c.arch.Respects c.buses.environment free used (system.event c a)) c
        (List.replicate (turns.countP Turn.isProgram) .cycle))
    (hallowed : interleaved.Along (fun d turn => turn.Allowed free view d) c turns) :
    let c' := system.after c (List.replicate (turns.countP Turn.isProgram) .cycle)
    let d' := system.after c (turns.flatMap Turn.actions)
    (interleaved.history c turns).flatten =
      observed.history c (List.replicate (turns.countP Turn.isProgram) .cycle) ∧
    d'.registers.SameButScratch c'.registers ∧ d'.pc = c'.pc ∧
    (∀ x, ¬ free c'.sp x → d'.buses.read x = c'.buses.read x) ∧
    view d'.buses.devices = view c'.buses.devices := by
  have hinitial : Arch.Like free view c.arch c.arch := by
    refine ⟨rfl, rfl, fun _ _ => rfl, rfl, rfl, ?_, rfl⟩
    exact if_neg (by rw [hpending]; exact Bool.false_ne_true)
  rw [← Turn.flatMap_own] at hprogram ⊢
  have hprogram' := Reactive.along_turns Turn.own Turn.isProgram hprogram
  have hsimulation := simulation_interleaved free hview
  have hhistory := hsimulation.history ⟨hinitial, rfl⟩ hprogram' hallowed
  obtain ⟨hafter, -⟩ := hsimulation.after ⟨hinitial, rfl⟩ hprogram' hallowed
  have halone : (alone.history c turns).flatten = observed.history c (turns.flatMap Turn.own) := by
    refine Reactive.flatten_history_turns Turn.own Turn.isProgram (fun turn h => ?_) c turns
    cases turn with
    | program => cases h
    | request interruptNum => rfl
    | interrupt handler => rfl
  rw [show alone.after c turns = _ from Reactive.after_turns _ _ c turns,
    show interleaved.after c turns = _ from Reactive.after_turns _ _ c turns] at hafter
  intro c' d'
  refine ⟨by rw [← hhistory, halone], ?_, hafter.pc, hafter.memory, hafter.devices⟩
  exact file_eq_iff_sameButScratch.mp hafter.file

/-- A handler that saves all pairs comes back, if its body keeps what is on the stack, and what
is written is free. -/
theorem resumes_of_saved (c : Cpu ι δ) (ps : List Arch.StackPair) (hps : ∀ p, p ∈ ps)
    (hown : c.buses.environment.OwnBytes c.sp (2 * ps.length + 2)) (body : List Action)
    {saved done : Cpu ι δ}
    (hsaved : saved = system.after c (List.replicate (ps.length + 1) .cycle))
    (hentry : system.history c (List.replicate (ps.length + 1) .cycle) =
      .accept :: ps.map fun p => .exec p.pushOpcode)
    (hdone : done = system.after saved body) (hsp : done.sp = saved.sp)
    (hbytes : ∀ i < 2 * ps.length + 2,
      done.buses.read (Arch.below c.sp i) = saved.buses.read (Arch.below c.sp i))
    (hexit : system.history done (List.replicate (ps.length + 2) .cycle) =
      (ps.reverse.map fun p => .exec p.popOpcode) ++ [.ei, .exec 0xC9])
    (hmemory : ∀ x, ¬ free c.sp x → done.buses.read x = c.buses.read x)
    (hdevices : view done.buses.devices = view c.buses.devices) :
    c.arch.Resumes free view (system.after done (List.replicate (ps.length + 2) .cycle)).arch := by
  obtain ⟨hfile, hpc, hread, hstate⟩ :=
    c.arch_of_saved ps hps hown body hsaved hentry hdone hsp hbytes hexit
  obtain ⟨henabled, hhalted, -⟩ := latches_of_ei_ret hexit
  refine ⟨hfile, hpc, fun x hx => ?_, ?_, ?_, hhalted⟩
  · exact (congrFun hread x).trans (hmemory x hx)
  · exact (congrArg view hstate).trans hdevices
  · exact Bool.or_eq_true_iff.mpr (.inr henabled)

/-- The ten bytes below a stack pointer. -/
def tenBelow (sp x : Word) : Prop := ∃ i < 10, x = Arch.below sp i

instance (sp x : Word) : Decidable (tenBelow sp x) :=
  inferInstanceAs (Decidable (∃ i < 10, _))

/-- A CPU one cycle before its interrupt is requested. -/
def beforeInterrupt : Cpu Empty Unit :=
  { interrupted with
    pc := 0x3F
    latches := { Latches.initial with interruptsEnabled := true } }

theorem read_interrupted : ∀ x, ¬ tenBelow interrupted.sp x →
    (system.after (system.after interrupted (List.replicate 5 .cycle)) [.cycle]).buses.read x =
      interrupted.buses.read x := by
  have hwrites : (((observed.history interrupted (List.replicate 6 .cycle)).map
      Prod.snd).flatten.filterMap BusEvent.write?).map Prod.fst =
        (List.range 10).map (Arch.below interrupted.sp) := by
    decide +kernel
  intro x hx
  refine interrupted.read_after_of_not_affects (List.replicate 6 .cycle) fun w hw haffects => hx ?_
  have hmem := List.mem_map_of_mem (f := Prod.fst) hw
  rw [hwrites, (MemoryBus.affects_flat w.1 x).mp haffects] at hmem
  obtain ⟨i, hi, hx⟩ := List.mem_map.mp hmem
  exact ⟨i, List.mem_range.mp hi, hx.symm⟩

/-- The increment that the handler makes is not seen. -/
theorem interrupts_do_not_interfere_inr :
    let turns : List Turn := [.program, .request 1, .interrupt (List.replicate 11 .cycle)]
    (system.after beforeInterrupt (turns.flatMap Turn.actions)).registers.SameButScratch
      (system.after beforeInterrupt [.cycle]).registers := by
  have hview : Separates (ι := Empty) (id : Unit → Unit) fun _ => True :=
    ⟨fun {device} => device.elim, fun {device} => device.elim⟩
  have hrequest : system.step (system.step beforeInterrupt .cycle) (.requestInterrupt 1) =
      interrupted := by rfl
  have hevent : system.event beforeInterrupt .cycle = .exec 0 := by decide
  have hrespects : beforeInterrupt.arch.Respects beforeInterrupt.buses.environment tenBelow
      (fun _ => True) (system.event beforeInterrupt .cycle) := by
    rw [hevent]
    refine ⟨fun x hx => ?_, fun x h h' => absurd h h', fun call hcall => by cases hcall⟩
    rw [show x = 0x3F from List.mem_singleton.mp hx]
    decide +kernel
  have hresumes := resumes_of_saved interrupted [.psw, .bc, .de, .hl] Arch.StackPair.mem_all
    ownBytes_interrupted [.cycle] rfl history_interrupted.1 rfl stack_interrupted.1
    stack_interrupted.2 history_interrupted.2 read_interrupted (rfl : id _ = id _)
  rw [← Reactive.after_append, ← Reactive.after_append] at hresumes
  refine (interrupts_do_not_interfere beforeInterrupt hview rfl
    [.program, .request 1, .interrupt (List.replicate 11 .cycle)] ⟨hrespects, trivial⟩
    ⟨⟨0, hevent⟩, trivial, ?_, trivial⟩).2.1
  change Turn.Allowed _ _ (system.step (system.step beforeInterrupt .cycle) (.requestInterrupt 1)) _
  rw [hrequest]
  exact ⟨by decide, rfl, hresumes⟩

end Cpu

end Fake8080
