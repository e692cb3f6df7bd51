import Fake8080.Interrupts.Acceptance

/-!
# What `reset` resets

`reset` clears four of the five latches and `pc`. The vector of a cleared request cannot
be observed, but the enable request it leaves standing can: it enables interrupts in the
first cycle after the reset. So a CPU behaves after `reset` like a new one exactly if the
last cycle before it did not execute `EI`.
-/

namespace Fake8080

universe u v

variable {ι : Type u} {δ : Type v}

/-! ### Latches that differ in a vector nobody asked for -/

namespace Latches

/-- The latches agree but for the vector, and on the vector if an interrupt is pending. -/
structure Agree (l m : Latches) : Prop where
  interruptsEnableRequested : l.interruptsEnableRequested = m.interruptsEnableRequested
  interruptsEnabled : l.interruptsEnabled = m.interruptsEnabled
  interruptRequested : l.interruptRequested = m.interruptRequested
  halted : l.halted = m.halted
  interruptVectorRequested : l.interruptRequested = true →
    l.interruptVectorRequested = m.interruptVectorRequested

/-- Every event keeps the latches in agreement. -/
theorem Agree.next {l m : Latches} (h : l.Agree m) (e : Event) : (l.next e).Agree (m.next e) := by
  obtain ⟨h1, h2, h3, h4, h5⟩ := h
  cases e with
  | exec opcode =>
    refine ⟨?_, ?_, ?_, ?_, ?_⟩
    · simp only [next_exec_interruptsEnableRequested]
    · simp only [next_exec_interruptsEnabled, h1, h2]
    · simpa [Latches.next] using h3
    · simp only [next_exec_halted, h4]
    · simpa [Latches.next] using h5
  | accept => exact ⟨by simp [Latches.next, accept], rfl, rfl, rfl, fun h => by cases h⟩
  | idle =>
    refine ⟨?_, ?_, ?_, ?_, ?_⟩ <;> simp [Latches.next, h1, h2, h3, h4]
    exact fun h => h5 (h3.trans h)
  | request interruptNum => exact ⟨h1, h2, rfl, h4, fun _ => rfl⟩
  | reset => exact ⟨h1, rfl, rfl, rfl, fun h => by cases h⟩

end Latches

namespace Cpu

/-- The CPUs differ at most in a vector nobody asked for. -/
def SameButVector (c d : Cpu ι δ) : Prop :=
  ∃ l, d = { c with latches := l } ∧ c.latches.Agree l

theorem SameButVector.cycleEvent {c d : Cpu ι δ} (h : c.SameButVector d) :
    c.cycleEvent = d.cycleEvent := by
  obtain ⟨l, rfl, hl⟩ := h
  simp only [Cpu.cycleEvent, accepts_eq, hl.interruptRequested, hl.interruptsEnableRequested,
    hl.interruptsEnabled, hl.halted]

variable [IOPort ι δ]

theorem sameButVector_bisimulation :
    (system (ι := ι) (δ := δ)).Bisimulation SameButVector := by
  refine bisimulation_of_next SameButVector.cycleEvent fun {c d e} h haccept => ?_
  obtain ⟨l, rfl, hl⟩ := h
  refine ⟨l.next e, next_withLatches c l e fun he => ?_, hl.next e⟩
  -- only an acceptance reads the vector, and then an interrupt is pending
  have haccepts := cycleEvent_eq_accept_iff.mp (haccept he)
  rw [accepts_eq, Bool.and_eq_true] at haccepts
  exact (hl.interruptVectorRequested haccepts.1).symm

/-! ### After a reset -/

/-- A new CPU on the same buses, given the same register contents. -/
def fresh (c : Cpu ι δ) : Cpu ι δ := { Cpu.new c.buses with registers := c.registers }

/-- What can be observed of a CPU: `pc`, the registers, the halt, and the buses with the
memory, the devices and the log of what was done to them. -/
def observe (c : Cpu ι δ) : Word × Registers × Bool × Buses ι δ :=
  (c.pc, c.registers, c.latches.halted, c.buses)

omit [IOPort ι δ] in
/-- A reset without a standing enable request leaves a new CPU. -/
theorem reset_sameButVector {c : Cpu ι δ} (h : c.latches.interruptsEnableRequested = false) :
    c.reset.SameButVector c.fresh :=
  ⟨.initial, rfl, h, rfl, rfl, rfl, fun hpending => by cases hpending⟩

/-- A standing enable request enables interrupts after a reset. -/
theorem accept_after_reset {c : Cpu ι δ} (h : c.latches.interruptsEnableRequested = true) :
    (system.after c.reset [.requestInterrupt 0]).cycleEvent = .accept := by
  rw [cycleEvent_eq_accept_iff, accepts_eq]
  simp [system, requestInterrupt, reset, h]

/-- A new CPU accepts nothing before an `EI`. -/
theorem ei_mem_history_fresh (c : Cpu ι δ) {later : List Action}
    (hlater : ∀ a ∈ later, a ≠ .reset)
    (haccept : (system.after c.fresh later).cycleEvent = .accept) :
    .ei ∈ system.history c.fresh later := by
  have htracks : _ ↔ EnabledByEi _ := tracksEnabled_after (c := c.fresh) rfl hlater
  rw [cycleEvent_eq_accept_iff, accepts_eq, Bool.and_eq_true] at haccept
  obtain ⟨e, he, rfl⟩ := (htracks.mp haccept.2).exists_trigger
  exact he

/-- **A reset CPU behaves like a new one exactly if the last cycle did not execute `EI`.**
From every state a new CPU can reach, and for all later cycles and requests: `reset` makes
the CPU do step by step what a new CPU on the same buses with the same register contents
does, if and only if the last cycle before the `reset`, if any, did not execute `EI`; and
no interrupt is accepted after the `reset` before another `EI` under the same condition. -/
theorem reset_like_new_iff (buses : Buses ι δ) (inputs : List Action) :
    let c := system.after (Cpu.new buses) inputs
    ((∀ later : List Action, (∀ a ∈ later, a ≠ .reset) →
        system.history c.reset later = system.history c.fresh later ∧
          (system.after c.reset later).observe = (system.after c.fresh later).observe) ↔
      ¬ LastCycleWasEi (system.history (Cpu.new buses) inputs)) ∧
    ((∀ later : List Action, (∀ a ∈ later, a ≠ .reset) →
        (system.after c.reset later).cycleEvent = .accept →
          .ei ∈ system.history c.reset later) ↔
      ¬ LastCycleWasEi (system.history (Cpu.new buses) inputs)) := by
  intro c
  have htracks : c.latches.interruptsEnableRequested = true ↔ LastCycleWasEi _ :=
    (tracks_after buses inputs).enableRequested
  rw [← htracks, Bool.not_eq_true]
  have hnone : ∀ a ∈ [Action.requestInterrupt 0], a ≠ .reset := by decide
  have hsame : ∀ later : List Action, c.latches.interruptsEnableRequested = false →
      (system.after c.reset later).SameButVector (system.after c.fresh later) := by
    intro later h
    exact sameButVector_bisimulation.after (reset_sameButVector h) later
  have hhistory : ∀ later : List Action, c.latches.interruptsEnableRequested = false →
      system.history c.reset later = system.history c.fresh later := by
    intro later h
    exact sameButVector_bisimulation.history (reset_sameButVector h) later
  refine ⟨⟨fun h => ?_, fun h later _ => ⟨hhistory later h, ?_⟩⟩,
    ⟨fun h => ?_, fun h later hlater haccept => ?_⟩⟩
  · by_contra hstanding
    rw [Bool.not_eq_false] at hstanding
    -- one request and one cycle show the standing enable request
    have hcycle := (h [.requestInterrupt 0, .cycle] (by decide)).1
    have haccept : (system.after c.fresh [.requestInterrupt 0]).cycleEvent = .accept := by
      rw [← accept_after_reset hstanding]
      simpa [Reactive.history, system] using hcycle.symm
    have hmem := ei_mem_history_fresh c hnone haccept
    simp [system, Reactive.history, Event.ei] at hmem
  · obtain ⟨l, hl, hagree⟩ := hsame later h
    rw [hl, observe, observe, hagree.halted]
  · by_contra hstanding
    rw [Bool.not_eq_false] at hstanding
    have hmem := h _ hnone (accept_after_reset hstanding)
    simp [system, Reactive.history, Event.ei] at hmem
  · rw [hhistory later h]
    refine ei_mem_history_fresh c hlater ?_
    rw [← (hsame later h).cycleEvent, haccept]

/-- After a reset that follows `EI` a request is accepted although no `EI` was executed
since. -/
theorem reset_keeps_enable_request :
    ¬ ∀ inputs later : List Action, (∀ a ∈ later, a ≠ .reset) →
      let c := system.after (Cpu.new (Buses.mapMemory [0xFB])) inputs
      system.history c.reset later = system.history c.fresh later := by
  intro h
  have hcycle := h [.cycle] [.requestInterrupt 1, .cycle] (by decide)
  revert hcycle
  decide

end Cpu

end Fake8080
