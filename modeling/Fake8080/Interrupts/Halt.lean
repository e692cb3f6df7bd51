import Fake8080.Interrupts.Acceptance
import Fake8080.Stack.Words

/-!
# Halting until an interrupt

`HLT` raises a latch that only an accepted interrupt or a reset clears. `HaltedSince` is the
invariant of the stretch in between: whatever requests arrive and however many cycles pass,
`pc` stays past the `HLT`, and the registers, the memory, the devices and the interrupt
enable stay as they were. From it follow what the interrupt that ends the stretch does, and
that there is none if interrupts were disabled.
-/

namespace Fake8080

universe u v

variable {ι : Type u} {δ : Type v}

namespace Cpu

/-- The state is halted since the cycle in which `c` executed `HLT`. -/
structure HaltedSince (c d : Cpu ι δ) : Prop where
  pc : d.pc = c.pc + 1
  registers : d.registers = c.registers
  buses : d.buses = c.buses
  halted : d.latches.halted = true
  interruptsEnableRequested : d.latches.interruptsEnableRequested = false
  interruptsEnabled : d.latches.interruptsEnabled = c.latches.promote.interruptsEnabled

variable {c d : Cpu ι δ}

theorem HaltedSince.cycleEvent_cases (h : c.HaltedSince d) :
    d.cycleEvent = .idle ∨ d.cycleEvent = .accept := by
  rw [cycleEvent, h.halted]
  cases d.accepts
  · exact .inl rfl
  · exact .inr rfl

/-- If interrupts are disabled a halted CPU idles. -/
theorem HaltedSince.cycleEvent_of_disabled (h : c.HaltedSince d)
    (hdisabled : c.latches.promote.interruptsEnabled = false) : d.cycleEvent = .idle := by
  refine h.cycleEvent_cases.resolve_right fun haccept => ?_
  rw [cycleEvent_eq_accept_iff, accepts_eq, h.interruptsEnableRequested, h.interruptsEnabled,
    hdisabled, Bool.or_false, Bool.and_false] at haccept
  cases haccept

/-- A halted CPU accepts an interrupt only if they were enabled when it halted. -/
theorem HaltedSince.enabled_of_accept (h : c.HaltedSince d) (haccept : d.cycleEvent = .accept) :
    c.latches.promote.interruptsEnabled = true := by
  by_contra hne
  have hidle := h.cycleEvent_of_disabled (Bool.eq_false_of_not_eq_true hne)
  rw [haccept] at hidle
  cases hidle

variable [IOPort ι δ]

/-- Executing `HLT` halts. -/
theorem haltedSince_cycle (h : c.cycleEvent = .exec 0x76) : c.HaltedSince c.cycle := by
  have hf : Superfunction.ofOpcode 0x76 = .hlt := (Superfunction.ofOpcode_eq_hlt_iff _).mpr rfl
  rw [cycle_eq_superfunction_next h, hf]
  exact ⟨rfl, rfl, rfl, rfl, c.latches.promote_interruptsEnableRequested, rfl⟩

theorem HaltedSince.step (h : c.HaltedSince d) {a : Action} (ha : a ≠ .reset)
    (hevent : system.event d a ≠ .accept) : c.HaltedSince (system.step d a) := by
  cases a with
  | reset => exact absurd rfl ha
  | requestInterrupt interruptNum =>
    exact ⟨h.pc, h.registers, h.buses, h.halted, h.interruptsEnableRequested,
      h.interruptsEnabled⟩
  | cycle =>
    have hidle : d.cycleEvent = .idle := h.cycleEvent_cases.resolve_right hevent
    -- no enable request is left, so the promotion at the start of the cycle does nothing
    have hpromote : d.latches.promote = d.latches := by
      rw [Latches.promote, h.interruptsEnableRequested, if_neg Bool.false_ne_true]
    have hstep : system.step d .cycle = d := by
      refine (cycle_of_idle hidle).trans ?_
      rw [hpromote]
    rwa [hstep]

/-- The CPU is halted along every run that accepts no interrupt. -/
theorem HaltedSince.after (h : c.HaltedSince d) {later : List Action}
    (hlater : ∀ a ∈ later, a ≠ .reset) (hwait : .accept ∉ system.history d later) :
    c.HaltedSince (system.after d later) := by
  revert hwait
  refine system.history_induction (· ≠ .reset) (P := fun events s => .accept ∉ events →
    c.HaltedSince s) ?_ (fun _ => h) later hlater
  intro events s a ha ih hwait
  obtain ⟨hpast, hevent⟩ : .accept ∉ events ∧ system.event s a ≠ .accept := by
    simpa [eq_comm] using hwait
  exact (ih hpast).step ha hevent

/-- If interrupts are disabled no run accepts one. -/
theorem HaltedSince.accept_notMem_of_disabled (h : c.HaltedSince d)
    (hdisabled : c.latches.promote.interruptsEnabled = false) {later : List Action}
    (hlater : ∀ a ∈ later, a ≠ .reset) : .accept ∉ system.history d later := by
  induction later generalizing d with
  | nil => simp [Reactive.history]
  | cons a later ih =>
    have hevent : system.event d a ≠ .accept := by
      intro haccept
      have hcycle := cycleEvent_of_event_eq_accept haccept
      rw [h.cycleEvent_of_disabled hdisabled] at hcycle
      cases hcycle
    have hrest := ih (h.step (hlater a (by simp)) hevent) fun b hb => hlater b (by simp [hb])
    rw [Reactive.history, List.mem_cons]
    rintro (haccept | hmem)
    · exact hevent haccept.symm
    · exact hrest hmem

/-- A `HLT` with interrupts enabled finds no request pending. -/
theorem tracks_cycle_of_enabled (h : c.cycleEvent = .exec 0x76)
    (henabled : c.latches.promote.interruptsEnabled = true) : c.cycle.latches.Tracks [] := by
  have hhalted := haltedSince_cycle h
  obtain ⟨haccepts, -, -⟩ := cycleEvent_eq_exec_iff.mp h
  have hpending : c.latches.interruptRequested = false := by
    rw [accepts, henabled, Bool.and_true, Latches.promote_interruptRequested] at haccepts
    exact haccepts
  have hsame : c.cycle.latches.interruptRequested = c.latches.interruptRequested := by
    rw [cycle_eq_of_exec h, next, Latches.next, Superfunction.latchEffect_interruptRequested,
      Latches.promote_interruptRequested]
  refine ⟨?_, fun _ hlast => absurd hlast not_since_nil, ?_⟩
  · rw [hsame, hpending]
    simp [Outstanding]
  · rw [hhalted.interruptsEnableRequested]
    simp [LastCycleWasEi]

/-- The interrupt that ends a halt pushes the address after the `HLT` and goes to the vector
last requested. -/
theorem HaltedSince.cycle_of_accept (h : c.HaltedSince d) {events : List Event}
    (ht : d.latches.Tracks events) (haccept : d.cycleEvent = .accept) :
    ∃ interruptNum, LastRequest interruptNum events ∧ d.cycle =
      ⟨BitVec.ofNat 16 (8 * interruptNum.toNat),
        Superfunction.pushedRegisters c.registers (c.pc + 1),
        ⟨false, false, false, interruptNum, false⟩,
        c.buses.performAll (Superfunction.pushEvents c.sp (c.pc + 1))⟩ := by
  have haccepts := cycleEvent_eq_accept_iff.mp haccept
  rw [accepts_eq, Bool.and_eq_true] at haccepts
  obtain ⟨interruptNum, hlast⟩ := (ht.pending.mp haccepts.1).exists_lastRequest
  have hvector : d.latches.interruptVectorRequested = interruptNum := ht.vector _ hlast
  have hlatches : d.latches.next .accept = ⟨false, false, false, interruptNum, false⟩ := by
    rw [Latches.next, Latches.accept, Latches.promote_interruptsEnableRequested,
      Latches.promote_interruptVectorRequested, hvector]
  refine ⟨interruptNum, hlast, ?_⟩
  rw [cycle_eq_of_accept haccept, next, hlatches, nextPc, hvector, Nat.mul_comm, nextRegisters,
    footprint, sp, h.pc, h.registers, h.buses, sp]

theorem pc_cycle_of_pushed {b : Buses ι δ} {sp word : Word} {lower upper : ℕ}
    (hcells : b.memoryBus.WordCells (sp - 2) lower upper) {e : Cpu ι δ}
    (hpop : e.popTarget = some .pc) (hsp : e.sp = sp - 2) (hbus : e.buses.memoryBus = b.memoryBus)
    (hl : e.buses.host lower = (b.performAll (Superfunction.pushEvents sp word)).host lower)
    (hu : e.buses.host upper = (b.performAll (Superfunction.pushEvents sp word)).host upper) :
    e.cycle.pc = word := by
  have hdelivered := (cycle_of_popTarget hpop).2.2
  rw [hsp, readTwoBytes_of_pushed hcells hbus hl hu] at hdelivered
  exact hdelivered

/-- **Halt.** After a cycle that executes `HLT`, whatever cycles and requests follow, as long
as none accepts an interrupt nothing changes but the interrupt latches: `pc` is past the
`HLT` and the next cycle idles or accepts. An accepting cycle does nothing but push that
`pc` and go to eight times the number last requested, running again with interrupts
disabled; and a return that finds the two pushed bytes unchanged goes back past the `HLT`.
With interrupts disabled when `HLT` executes, no cycle ever accepts. -/
theorem halt_until_interrupt (c : Cpu ι δ) (h : c.cycleEvent = .exec 0x76)
    (later : List Action) (hlater : ∀ a ∈ later, a ≠ .reset) :
    let events := system.history c.cycle later
    let d := system.after c.cycle later
    (.accept ∉ events →
      d.pc = c.pc + 1 ∧ d.registers = c.registers ∧ d.buses = c.buses ∧
      (d.cycleEvent = .idle ∨ d.cycleEvent = .accept) ∧
      (d.cycleEvent = .accept →
        (∃ interruptNum, LastRequest interruptNum events ∧ d.cycle =
          ⟨BitVec.ofNat 16 (8 * interruptNum.toNat),
            Superfunction.pushedRegisters c.registers (c.pc + 1),
            ⟨false, false, false, interruptNum, false⟩,
            c.buses.performAll (Superfunction.pushEvents c.sp (c.pc + 1))⟩) ∧
        ∀ upper lower, c.buses.memoryBus.ramCell (c.sp - 1) = some upper →
          c.buses.memoryBus.ramCell (c.sp - 2) = some lower → upper ≠ lower →
          ∀ e : Cpu ι δ, e.popTarget = some .pc → e.sp = d.cycle.sp →
            e.buses.memoryBus = c.buses.memoryBus →
            e.buses.host upper = d.cycle.buses.host upper →
            e.buses.host lower = d.cycle.buses.host lower → e.cycle.pc = c.pc + 1)) ∧
    (c.latches.promote.interruptsEnabled = false → .accept ∉ events ∧ d.cycleEvent = .idle) := by
  intro events d
  have hhalted := haltedSince_cycle h
  refine ⟨fun hwait => ?_, fun hdisabled => ?_⟩
  · have hd : c.HaltedSince d := hhalted.after hlater hwait
    refine ⟨hd.pc, hd.registers, hd.buses, hd.cycleEvent_cases, fun haccept => ?_⟩
    -- interrupts were enabled, so no request was pending at the `HLT`
    have ht : d.latches.Tracks events :=
      tracks_after_of_tracks (tracks_cycle_of_enabled h (hd.enabled_of_accept haccept)) later
    obtain ⟨interruptNum, hlast, hcycle⟩ := hd.cycle_of_accept ht haccept
    refine ⟨⟨interruptNum, hlast, hcycle⟩, ?_⟩
    intro upper lower hupper hlower hne e hpop hsp hbus hu hl
    have hnext : c.sp - 2 + 1 = c.sp - 1 := by bv_omega
    have hcells : c.buses.memoryBus.WordCells (c.sp - 2) lower upper :=
      ⟨hlower, hnext ▸ hupper, hne.symm⟩
    have hsp' : e.sp = c.sp - 2 := by
      rw [hsp, hcycle]
      exact Superfunction.getCombinedRegister_sp_pushedRegisters _ _
    rw [hcycle] at hu hl
    exact pc_cycle_of_pushed hcells hpop hsp' hbus hl hu
  · have hwait := hhalted.accept_notMem_of_disabled hdisabled hlater
    exact ⟨hwait, (hhalted.after hlater hwait).cycleEvent_of_disabled hdisabled⟩

/-- `EI`, `HLT` and a `RET` at the vector of interrupt 1, with `SP` at the end of memory. -/
def haltProgram : Cpu Empty Unit :=
  (Cpu.new (Buses.mapMemory
    [0xFB, 0x76, 0x00, 0x00, 0x00, 0x00, 0x00, 0x00, 0xC9, 0x00, 0x00, 0x00])).setCombinedRegister
      .sp 12

/-- The interrupt wakes the CPU and the `RET` comes back past the `HLT`. -/
theorem haltProgram_resumes :
    let woken := system.after haltProgram [.cycle, .cycle, .cycle, .requestInterrupt 1, .cycle]
    woken.cycle.pc = 2 := by
  intro woken
  have h := (halt_until_interrupt haltProgram.cycle (by decide) [.cycle, .requestInterrupt 1]
    (by decide)).1 (by decide)
  exact (h.2.2.2.2 (by decide)).2 11 10 (by decide) (by decide) (by decide) woken (by decide) rfl
    rfl rfl rfl

end Cpu

end Fake8080
