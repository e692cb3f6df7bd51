import Fake8080.Arch.Execution
import Fake8080.Arch.Observation

/-!
# Losing control

Two ways in which a program never comes back, each because the emulator fetches from memory
that cannot change. A handler that begins with `EI` is interrupted right after it: with a
request for every acceptance it never gets to its second instruction, while the stack grows
(`Cpu.interrupt_storm`). And a jump to where memory reads `0xFF`, as an open bus does, is
followed by `RST 7` after `RST 7` (`Cpu.restart_forever`).
-/

namespace Fake8080

universe u v

variable {ι : Type u} {δ : Type v}

namespace Arch

variable [IOPort ι δ] (env : Environment ι)

/-! ### Interrupts without end -/

/-- The address a vector stands for. -/
def vectorAddress (vector : Byte) : Word := BitVec.ofNat 16 (vector.toNat * 8)

/-- A request, its acceptance and one more cycle, for each vector of a list. -/
def storm (vectors : List Byte) : List Action :=
  vectors.flatMap fun vector => [.requestInterrupt vector, .cycle, .cycle]

/-- One request is accepted and `EI` executed. -/
theorem after_request_ei {s : State δ} (henabled : (s.enableRequested || s.enabled) = true)
    {vector : Byte} (hei : s.memory (vectorAddress vector) = 0xFB)
    (hfixed : ∀ other, env.affects other (vectorAddress vector) = false) :
    let calls := [Action.requestInterrupt vector, .cycle, .cycle]
    let t := (machine env).after s calls
    ((machine env).history s calls).map Prod.fst = [.request vector, .accept, .ei] ∧
    t.toFile = { s.toFile with sp := s.sp - 2 } ∧ t.devices = s.devices ∧
    t.memory = env.store s.memory (s.pushed s.pc) ∧ (t.enableRequested || t.enabled) = true := by
  intro calls t
  set s₁ := s.next env (.request vector) with hs₁
  set s₂ := s₁.next env .accept with hs₂
  have haccept : s₁.cycleEvent = .accept := if_pos henabled
  -- the opcode of the handler is out of reach of the push
  have hexec : s₂.cycleEvent = .exec 0xFB :=
    congrArg Event.exec ((env.store_of_not_affects s.memory fun w _ => hfixed w.1).trans hei)
  have hafter : t = s₂.next env (.exec 0xFB) := by
    change (s₁.next env s₁.cycleEvent).next env ((s₁.next env s₁.cycleEvent).cycleEvent) = _
    rw [haccept, hexec]
  refine ⟨?_, ?_⟩
  · change [Event.request vector, s₁.cycleEvent, (s₁.next env s₁.cycleEvent).cycleEvent] = _
    rw [haccept, hexec]
    rfl
  · rw [hafter]
    exact ⟨rfl, rfl, rfl, rfl⟩

/-- A storm of requests executes nothing but `EI`. -/
theorem after_storm {s : State δ} (vectors : List Byte)
    (henabled : (s.enableRequested || s.enabled) = true)
    (hei : ∀ vector ∈ vectors, s.memory (vectorAddress vector) = 0xFB ∧
      ∀ other, env.affects other (vectorAddress vector) = false) :
    ((machine env).history s (storm vectors)).map Prod.fst =
      (vectors.flatMap fun vector => [.request vector, .accept, .ei]) ∧
    ((machine env).after s (storm vectors)).toFile =
      { s.toFile with sp := s.sp - BitVec.ofNat 16 (2 * vectors.length) } ∧
    ((machine env).after s (storm vectors)).devices = s.devices := by
  induction vectors generalizing s with
  | nil => exact ⟨rfl, by simp [storm], rfl⟩
  | cons vector vectors ih =>
    obtain ⟨hvector, hfixed⟩ := hei vector List.mem_cons_self
    obtain ⟨hhistory, hfile, hdevices, hmemory, henabled'⟩ :=
      after_request_ei env henabled hvector hfixed
    set t := (machine env).after s [.requestInterrupt vector, .cycle, .cycle] with ht
    -- the other handlers still begin with `EI`
    have hrest : ∀ vector ∈ vectors, t.memory (vectorAddress vector) = 0xFB ∧
        ∀ other, env.affects other (vectorAddress vector) = false := by
      intro vector hv
      obtain ⟨hvector, hfixed⟩ := hei vector (List.mem_cons_of_mem _ hv)
      exact ⟨by rw [hmemory, env.store_of_not_affects _ fun w _ => hfixed w.1, hvector], hfixed⟩
    obtain ⟨ihhistory, ihfile, ihdevices⟩ := ih henabled' hrest
    have hstorm : storm (vector :: vectors) =
        [.requestInterrupt vector, .cycle, .cycle] ++ storm vectors := rfl
    rw [hstorm, Reactive.history_append, Reactive.after_append, List.map_append, hhistory, ← ht,
      ihhistory, ihfile, ihdevices, hfile, hdevices]
    refine ⟨rfl, File.ext ?_ rfl rfl rfl rfl, rfl⟩
    change s.sp - 2 - BitVec.ofNat 16 (2 * vectors.length) = _
    rw [List.length_cons, Nat.mul_succ, BitVec.ofNat_add]
    bv_omega

/-! ### Restarts without end -/

/-- `RST 7` over and over: each pushes the address after it, the later ones the same. -/
theorem after_restarts {s : State δ} (hpc : s.memory s.pc = 0xFF) (hrestart : s.memory 0x38 = 0xFF)
    (hfixed : ∀ other, env.affects other 0x38 = false) (hhalted : s.halted = false)
    (henabled : (s.enableRequested || s.enabled) = false) (n : ℕ) :
    let t := (machine env).after s (List.replicate n .cycle)
    (machine env).history s (List.replicate n .cycle) =
      (List.range n).map (fun i => (.exec 0xFF,
        Superfunction.pushEvents (s.sp - BitVec.ofNat 16 (2 * i)) (if i = 0 then s.pc + 1 else 0x39))) ∧
    t.pc = (if n = 0 then s.pc else 0x38) ∧
    t.toFile = { s.toFile with sp := s.sp - BitVec.ofNat 16 (2 * n) } ∧
    t.devices = s.devices ∧ t.memory 0x38 = 0xFF ∧ t.memory t.pc = 0xFF ∧ t.halted = false ∧
    (t.enableRequested || t.enabled) = false := by
  induction n with
  | zero => exact ⟨rfl, rfl, by simp, rfl, hrestart, hpc, hhalted, henabled⟩
  | succ n ih =>
    obtain ⟨ihhistory, ihpc, ihfile, ihdevices, ihrestart, ihmemory, ihhalted, ihenabled⟩ := ih
    have hlast : List.replicate (n + 1) Action.cycle = List.replicate n .cycle ++ [.cycle] :=
      List.replicate_succ'
    rw [hlast, Reactive.after_concat, Reactive.history_concat, ihhistory, List.range_succ,
      List.map_append]
    set t := (machine env).after s (List.replicate n .cycle) with ht
    have hexec : t.cycleEvent = .exec 0xFF := by
      rw [State.cycleEvent, ihenabled, Bool.and_false, ihhalted, ihmemory]
      rfl
    have hsp : t.sp = s.sp - BitVec.ofNat 16 (2 * n) := congrArg File.sp ihfile
    have hstep : (machine env).step t .cycle = t.perform env (.rst 7) :=
      step_of_cycleEvent env hexec
    have hevent : (machine env).event t .cycle =
        (.exec 0xFF, Superfunction.pushEvents t.sp (t.pc + 1)) := by
      change (t.cycleEvent, t.stepCalls env t.cycleEvent) = _
      rw [hexec]
      rfl
    rw [hstep, hevent, hsp, ihpc]
    have hkept : (t.perform env (.rst 7)).memory 0x38 = 0xFF :=
      (env.store_of_not_affects t.memory fun w _ => hfixed w.1).trans ihrestart
    refine ⟨?_, rfl, ?_, ihdevices, hkept, hkept, ihhalted, ihenabled⟩
    · cases n <;> rfl
    · have hfile : (t.perform env (.rst 7)).toFile = { t.toFile with sp := t.sp - 2 } := rfl
      rw [hfile, ihfile]
      refine File.ext ?_ rfl rfl rfl rfl
      change s.sp - BitVec.ofNat 16 (2 * n) - 2 = _
      rw [Nat.mul_succ, BitVec.ofNat_add]
      bv_omega

end Arch

namespace Cpu

variable [IOPort ι δ]

/-- A register file that looks like another but for the stack pointer is the other with the
stack pointer written, up to the scratch registers. -/
theorem sameButScratch_of_file_sp {r r' : Registers} {sp : Word}
    (h : r'.file = { r.file with sp := sp }) :
    r'.SameButScratch (r.setCombinedRegister .sp sp) :=
  file_eq_iff_sameButScratch.mp (h.trans (r.file_setCombinedRegister .sp sp).symm)

/-- **An interrupt storm.** Let interrupts be enabled, and let every handler of a list of
vectors begin with `EI` at an address no write affects. If each interrupt is requested as soon
as the one before has been accepted and its `EI` executed, nothing else is ever executed: no
program and no handler goes on, while the stack grows by two bytes for each request. -/
theorem interrupt_storm (c : Cpu ι δ) (vectors : List Byte)
    (henabled : c.latches.interruptsEnableRequested = true ∨ c.latches.interruptsEnabled = true)
    (hei : ∀ vector ∈ vectors, c.buses.read (Arch.vectorAddress vector) = 0xFB ∧
      ∀ other, ¬ c.buses.memoryBus.Affects other (Arch.vectorAddress vector)) :
    let c' := system.after c (Arch.storm vectors)
    system.history c (Arch.storm vectors) =
      (vectors.flatMap fun vector => [.request vector, .accept, .ei]) ∧
    c'.sp = c.sp - BitVec.ofNat 16 (2 * vectors.length) ∧
    c'.registers.SameButScratch (c.registers.setCombinedRegister .sp c'.sp) ∧
    c'.buses.devices = c.buses.devices := by
  obtain ⟨hhistory, hfile, hdevices⟩ := Arch.after_storm c.buses.environment (s := c.arch) vectors
    (Bool.or_eq_true_iff.mpr henabled)
    fun vector hv => ⟨(hei vector hv).1, fun other => decide_eq_false ((hei vector hv).2 other)⟩
  rw [← (c.arch_after _).1] at hfile hdevices
  have hsp := congrArg Arch.File.sp hfile
  refine ⟨?_, hsp, sameButScratch_of_file_sp (hfile.trans ?_), hdevices⟩
  · rw [← history_observed, arch_history, hhistory]
  · exact congrArg (fun sp => { c.registers.file with sp := sp }) hsp.symm

/-- A CPU with interrupts enabled on a ROM full of `EI`. -/
def romOfEi : Cpu Empty Unit :=
  { Cpu.new
      { memoryBus := .build [⟨0, 15, .romRegion ⟨0, 16⟩⟩]
        ioBus := .initial
        host := fun _ => 0xFB
        devices := ()
        log := [] } with
    latches := { Latches.initial with interruptsEnabled := true } }

/-- Three requests leave the stack pointer six lower. -/
theorem interrupt_storm_romOfEi :
    (system.after romOfEi (Arch.storm [1, 1, 1])).sp = romOfEi.sp - 6 := by
  have hei : ∀ vector ∈ ([1, 1, 1] : List Byte),
      romOfEi.buses.read (Arch.vectorAddress vector) = 0xFB ∧
        ∀ other, ¬ romOfEi.buses.memoryBus.Affects other (Arch.vectorAddress vector) := by
    intro vector hv
    have hvector : vector = 1 := by simpa using hv
    have hrom : ∀ entry ∈ romOfEi.buses.memoryBus.regions,
        ∀ memory, entry.region ≠ .ramRegion memory := by
      have hregions : romOfEi.buses.memoryBus.regions = [⟨0, 15, .romRegion ⟨0, 16⟩⟩] := by decide
      simp [hregions]
    subst hvector
    exact ⟨by decide, fun other =>
      MemoryBus.not_affects_of_storedByte_eq_none (MemoryBus.storedByte_eq_none hrom other) _⟩
  exact (interrupt_storm romOfEi [1, 1, 1] (.inr rfl) hei).2.1

/-- **Restarting for ever.** Where memory reads `0xFF`, as an open bus does, every cycle
executes `RST 7`: if that is so at `pc` and at `0x38`, no write affects `0x38`, the CPU is not
halted and interrupts are disabled, then after any number of cycles nothing has happened but
pushes, the first of the address after the first restart and the others of `0x39`. -/
theorem restart_forever (c : Cpu ι δ) (hpc : c.buses.read c.pc = 0xFF)
    (hrestart : c.buses.read 0x38 = 0xFF)
    (hfixed : ∀ other, ¬ c.buses.memoryBus.Affects other 0x38)
    (hhalted : c.latches.halted = false)
    (henabled : c.latches.interruptsEnableRequested = false ∧ c.latches.interruptsEnabled = false)
    (n : ℕ) :
    let c' := system.after c (List.replicate n .cycle)
    system.history c (List.replicate n .cycle) = List.replicate n (.exec 0xFF) ∧
    c'.pc = (if n = 0 then c.pc else 0x38) ∧
    c'.sp = c.sp - BitVec.ofNat 16 (2 * n) ∧
    c'.registers.SameButScratch (c.registers.setCombinedRegister .sp c'.sp) ∧
    c'.buses.devices = c.buses.devices ∧
    c'.buses.log = c.buses.log ++ (List.range n).flatMap fun i =>
      Superfunction.pushEvents (c.sp - BitVec.ofNat 16 (2 * i)) (if i = 0 then c.pc + 1 else 0x39) := by
  obtain ⟨hhistory, hpc', hfile, hdevices, -⟩ := Arch.after_restarts c.buses.environment
    (s := c.arch) hpc hrestart (fun other => decide_eq_false (hfixed other)) hhalted
    (Bool.or_eq_false_iff.mpr henabled) n
  rw [← (c.arch_after _).1] at hpc' hfile hdevices
  rw [← arch_history] at hhistory
  have hsp := congrArg Arch.File.sp hfile
  refine ⟨?_, hpc', hsp, sameButScratch_of_file_sp (hfile.trans ?_), hdevices, ?_⟩
  · rw [← history_observed, hhistory, List.map_map]
    exact List.map_const'.trans (congrArg (List.replicate · _) List.length_range)
  · exact congrArg (fun sp => { c.registers.file with sp := sp }) hsp.symm
  · rw [log_after, hhistory, List.map_map, List.flatMap_def]
    rfl

/-- A CPU on a bus nothing was mapped to. -/
def unmapped : Cpu Empty Unit :=
  .new { memoryBus := .build [], ioBus := .initial, host := fun _ => 0, devices := (), log := [] }

/-- It restarts for ever. -/
theorem restart_forever_unmapped :
    (system.after unmapped (List.replicate 1000 .cycle)).pc = 0x38 := by
  have hram : ∀ entry ∈ unmapped.buses.memoryBus.regions,
      ∀ memory, entry.region ≠ .ramRegion memory :=
    fun entry h => absurd h List.not_mem_nil
  exact (restart_forever unmapped (by decide) (by decide)
    (fun other => MemoryBus.not_affects_of_storedByte_eq_none
      (MemoryBus.storedByte_eq_none hram other) _) rfl ⟨rfl, rfl⟩ 1000).2.1

end Cpu

end Fake8080
