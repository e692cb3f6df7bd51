import Fake8080.Interrupts.Acceptance

/-!
# The cycle after `EI`

The latch `interruptsEnableRequested` exists so that the instruction after `EI` runs
before an interrupt is accepted. But `cycle` promotes the latch before it tests for an
interrupt, so the very next cycle can already accept. The delay is kept exactly when no
interrupt is requested by then.
-/

namespace Fake8080

universe u v

variable {ι : Type u} {δ : Type v} [IOPort ι δ]

namespace Cpu

/-- Requests change nothing but the pending latch and its vector. -/
theorem after_requests (c : Cpu ι δ) (requests : List Byte) :
    ∃ vector, system.after c (requests.map .requestInterrupt) =
      { c with latches := { c.latches with
          interruptRequested := c.latches.interruptRequested || !requests.isEmpty
          interruptVectorRequested := vector } } := by
  induction requests generalizing c with
  | nil => exact ⟨c.latches.interruptVectorRequested, by simp⟩
  | cons interruptNum requests ih =>
    obtain ⟨vector, hafter⟩ := ih (c.requestInterrupt interruptNum)
    refine ⟨vector, ?_⟩
    rw [List.map_cons, Reactive.after_cons]
    refine hafter.trans ?_
    simp [requestInterrupt]

/-- The state after `EI`: `pc` past it and the enable request up. -/
theorem cycle_of_ei {c : Cpu ι δ} (h : c.cycleEvent = .ei) :
    c.cycle = { c with
      pc := c.pc + 1
      latches := { c.latches.promote with interruptsEnableRequested := true } } := by
  have hf : Superfunction.ofOpcode 0xFB = .ei := (Superfunction.ofOpcode_eq_ei_iff _).mpr rfl
  rw [cycle_eq_of_exec h, next, nextPc, nextRegisters, footprint, Latches.next, hf]
  rfl

/-- What the cycle after `EI` does depends only on whether an interrupt is requested. -/
theorem next_cycleEvent_after_ei {c d : Cpu ι δ} (hei : c.cycleEvent = .ei)
    {requests : List Byte}
    (hd : d = system.after c (.cycle :: requests.map .requestInterrupt)) :
    (c.latches.interruptRequested = false ∧ requests = [] ∧
      d.cycleEvent = .exec (c.buses.read (c.pc + 1))) ∨
    ¬ (c.latches.interruptRequested = false ∧ requests = []) ∧ d.cycleEvent = .accept := by
  -- the enable request is up already, so the next cycle tests the pending latch alone
  obtain ⟨-, hhalted, -⟩ := cycleEvent_eq_exec_iff.mp hei
  obtain ⟨vector, hafter⟩ := after_requests c.cycle requests
  have hstep : system.step c .cycle = c.cycle := rfl
  rw [hd, Reactive.after_cons, hstep, hafter, cycle_of_ei hei, cycleEvent_eq_exec_iff,
    cycleEvent_eq_accept_iff, accepts_eq]
  cases hpending : c.latches.interruptRequested <;> cases requests <;> simp [hhalted, hpending]

/-- **The delay after `EI` fails exactly when an interrupt is requested.** In every state a
new CPU can reach, interrupts disabled or not, if a cycle executes `EI` and any requests
follow, then the next cycle executes the instruction after `EI`, and does not accept, if
and only if no request is outstanding and none followed. Then it runs the table's entry at
the byte after `EI`. Otherwise it accepts: it pushes `pc` and goes to eight times the number
most recently requested. -/
theorem next_cycle_executes_after_ei_iff (buses : Buses ι δ) (inputs : List Action)
    (requests : List Byte)
    (hei : (system.after (Cpu.new buses) inputs).cycleEvent = .ei) :
    let calls := inputs ++ .cycle :: requests.map .requestInterrupt
    let c := system.after (Cpu.new buses) inputs
    let d := system.after (Cpu.new buses) calls
    let Delayed := ¬ Outstanding (system.history (Cpu.new buses) inputs) ∧ requests = []
    (d.cycleEvent = .exec (c.buses.read (c.pc + 1)) ↔ Delayed) ∧
    (Delayed →
      d.cycle = ((MemberFunction.ofOpcode (c.buses.read (c.pc + 1))).call d.fetched).2) ∧
    (¬ Delayed → d.cycleEvent = .accept ∧ ∃ interruptNum,
      LastRequest interruptNum (system.history (Cpu.new buses) calls) ∧
        Interrupted interruptNum d d.cycle) := by
  intro calls c d Delayed
  have hpending : c.latches.interruptRequested = false ↔
      ¬ Outstanding (system.history (Cpu.new buses) inputs) := by
    rw [← (tracks_after buses inputs).pending, Bool.not_eq_true]
  have hd : d = system.after c (.cycle :: requests.map .requestInterrupt) :=
    system.after_append _ _ _
  have hnext := next_cycleEvent_after_ei hei hd
  rw [hpending] at hnext
  rcases hnext with ⟨hnone, hempty, hexec⟩ | ⟨hnot, haccept⟩
  · have hdelayed : Delayed := ⟨hnone, hempty⟩
    exact ⟨⟨fun _ => hdelayed, fun _ => hexec⟩, fun _ => cycle_of_exec hexec,
      fun h => absurd hdelayed h⟩
  · have hdelayed : ¬ Delayed := hnot
    refine ⟨⟨fun h => ?_, fun h => absurd h hdelayed⟩, fun h => absurd h hdelayed,
      fun _ => ⟨haccept, ?_⟩⟩
    · cases haccept.symm.trans h
    · -- an acceptance has a request behind it, and the vector latch holds the last one
      have ht : d.latches.Tracks (system.history (Cpu.new buses) calls) :=
        tracks_after buses calls
      have hrequested : d.latches.interruptRequested = true := by
        have haccepts := cycleEvent_eq_accept_iff.mp haccept
        rw [accepts_eq, Bool.and_eq_true] at haccepts
        exact haccepts.1
      obtain ⟨interruptNum, hn⟩ := (ht.pending.mp hrequested).exists_lastRequest
      exact ⟨interruptNum, hn, interrupted_cycle haccept (ht.vector interruptNum hn)⟩

/-- The program of `ei_delay_broken`: `EI` and a `NOP`. -/
def eiProgram : Buses Empty Unit := Buses.mapMemory [0xFB, 0x00]

/-- With no request in sight the instruction after `EI` is executed. -/
theorem next_cycle_executes_after_ei_of_no_request :
    let d := system.after (Cpu.new eiProgram) [.cycle]
    d.cycleEvent = .exec 0x00 ∧ d.cycle = ((MemberFunction.ofOpcode 0x00).call d.fetched).2 :=
  have hrun := next_cycle_executes_after_ei_iff eiProgram [] [] (by decide)
  ⟨hrun.1.mpr ⟨not_since_nil, rfl⟩, hrun.2.1 ⟨not_since_nil, rfl⟩⟩

/-- A request made before `EI` is accepted by the very next cycle, which pushes the address
of the `NOP` and goes to the vector. -/
theorem ei_delay_broken :
    ¬ ∀ (inputs : List Action) (requests : List Byte),
      let c := system.after (Cpu.new eiProgram) inputs
      let d := system.after c (.cycle :: requests.map .requestInterrupt)
      c.latches.interruptsEnabled = false → c.cycleEvent = .ei →
        ¬ (d.cycleEvent = .accept ∧ d.cycle.pc = 8 ∧
          d.cycle.buses.log = [.write 0xFFFF 0, .write 0xFFFE 1]) := by
  intro h
  exact h [.requestInterrupt 1] [] rfl (by decide) (by decide)

end Cpu

end Fake8080
