import Fake8080.Library.Since
import Fake8080.Stack.Operations

/-!
# When an interrupt is accepted

The latches remember the past of a run. `Latches.Tracks` is the invariant that says what:
whether a request is outstanding, which vector was asked for last, whether the last cycle
executed `EI`, and whether interrupts were enabled by an `EI` that no `DI` and no
acceptance followed. Every event extends it (`Tracks.next`, `Enabled.next`), so it holds
after every run of a new CPU, and the acceptance test of `cycle` becomes a statement about
the history alone.
-/

namespace Fake8080

universe u v

variable {ι : Type u} {δ : Type v}

/-! ### What a history says about interrupts -/

namespace Event

@[simp]
theorem isCycle_accept : accept.IsCycle := trivial

@[simp]
theorem isCycle_idle : idle.IsCycle := trivial

@[simp]
theorem isCycle_exec (opcode : Byte) : (exec opcode).IsCycle := trivial

@[simp]
theorem not_isCycle_request (interruptNum : Byte) : ¬ (request interruptNum).IsCycle := id

@[simp]
theorem not_isCycle_reset : ¬ reset.IsCycle := id

/-- The event is a request. -/
def IsRequest : Event → Prop
  | .request _ => True
  | _ => False

@[simp]
theorem isRequest_request (interruptNum : Byte) : (request interruptNum).IsRequest := trivial

@[simp]
theorem not_isRequest_accept : ¬ accept.IsRequest := id

@[simp]
theorem not_isRequest_idle : ¬ idle.IsRequest := id

@[simp]
theorem not_isRequest_exec (opcode : Byte) : ¬ (exec opcode).IsRequest := id

@[simp]
theorem not_isRequest_reset : ¬ reset.IsRequest := id

end Event

/-- A request was made and neither accepted nor cleared by a reset. -/
def Outstanding (h : List Event) : Prop :=
  Since (fun e => e ≠ .accept ∧ e ≠ .reset) Event.IsRequest h

/-- The most recent request asked for this interrupt. -/
def LastRequest (interruptNum : Byte) (h : List Event) : Prop :=
  Since (fun e => ¬ e.IsRequest) (· = .request interruptNum) h

/-- The most recent request was neither accepted nor cleared by a reset. -/
def PendingRequest (interruptNum : Byte) (h : List Event) : Prop :=
  Since (fun e => e ≠ .accept ∧ e ≠ .reset ∧ ¬ e.IsRequest) (· = .request interruptNum) h

/-- `EI` was executed more recently than `DI` and than the last acceptance. -/
def EnabledByEi (h : List Event) : Prop :=
  Since (fun e => e ≠ .di ∧ e ≠ .accept) (· = .ei) h

/-- The last cycle executed `EI`. -/
def LastCycleWasEi (h : List Event) : Prop :=
  Since (fun e => ¬ e.IsCycle) (· = .ei) h

section Concat

variable (h : List Event) (e : Event)

theorem outstanding_concat : Outstanding (h ++ [e]) ↔
    e.IsRequest ∨ (e ≠ .accept ∧ e ≠ .reset) ∧ Outstanding h := since_concat h e

theorem lastRequest_concat (interruptNum : Byte) : LastRequest interruptNum (h ++ [e]) ↔
    e = .request interruptNum ∨ ¬ e.IsRequest ∧ LastRequest interruptNum h := since_concat h e

theorem enabledByEi_concat : EnabledByEi (h ++ [e]) ↔
    e = .ei ∨ (e ≠ .di ∧ e ≠ .accept) ∧ EnabledByEi h := since_concat h e

theorem lastCycleWasEi_concat : LastCycleWasEi (h ++ [e]) ↔
    e = .ei ∨ ¬ e.IsCycle ∧ LastCycleWasEi h := since_concat h e

end Concat

theorem Outstanding.exists_lastRequest {h : List Event} (ho : Outstanding h) :
    ∃ interruptNum, LastRequest interruptNum h := by
  induction h using List.reverseRecOn with
  | nil => exact absurd ho not_since_nil
  | append_singleton h e ih =>
    rw [outstanding_concat] at ho
    by_cases he : e.IsRequest
    · cases e with
      | request interruptNum => exact ⟨interruptNum, (lastRequest_concat ..).mpr (.inl rfl)⟩
      | _ => exact he.elim
    · obtain ⟨n, hn⟩ := ih (ho.resolve_left he).2
      exact ⟨n, (lastRequest_concat ..).mpr (.inr ⟨he, hn⟩)⟩

/-! ### The invariant -/

namespace Latches

/-- What the latches remember of a history. -/
structure Tracks (h : List Event) (l : Latches) : Prop where
  /-- The pending latch is up while a request is outstanding. -/
  pending : l.interruptRequested = true ↔ Outstanding h
  /-- The vector latch holds the most recent request. -/
  vector : ∀ interruptNum, LastRequest interruptNum h → l.interruptVectorRequested = interruptNum
  /-- The enable request is up right after `EI`. -/
  enableRequested : l.interruptsEnableRequested = true ↔ LastCycleWasEi h

/-- The enable latches are up, one or the other, while `EI` was executed last. -/
def TracksEnabled (h : List Event) (l : Latches) : Prop :=
  (l.interruptsEnableRequested || l.interruptsEnabled) = true ↔ EnabledByEi h

/-- New latches remember nothing. -/
theorem Tracks.initial : Tracks [] .initial where
  pending := by simp [Latches.initial, Outstanding]
  vector := fun _ h => absurd h not_since_nil
  enableRequested := by simp [Latches.initial, LastCycleWasEi]

theorem TracksEnabled.initial : TracksEnabled [] .initial := by
  simp [TracksEnabled, Latches.initial, EnabledByEi]

/-- Every event extends what the latches remember. -/
theorem Tracks.next {h : List Event} {l : Latches} (ht : Tracks h l) (e : Event) :
    Tracks (h ++ [e]) (l.next e) where
  pending := by
    rw [outstanding_concat, ← ht.pending]
    cases e <;> simp [Latches.next, Latches.accept]
  vector := by
    intro interruptNum hl
    rw [lastRequest_concat] at hl
    cases e with
    | request other => simpa [Latches.next] using hl
    | accept => simpa [Latches.next, Latches.accept] using ht.vector _ (by simpa using hl)
    | _ => simpa [Latches.next] using ht.vector _ (by simpa using hl)
  enableRequested := by
    rw [lastCycleWasEi_concat, ← ht.enableRequested]
    cases e with
    | exec opcode =>
      rw [next_exec_interruptsEnableRequested]
      simp [Event.ei]
    | _ => simp [Latches.next, Latches.accept, Event.ei]

/-- Every event but a reset extends what the enable latches remember. -/
theorem TracksEnabled.next {h : List Event} {l : Latches} (ht : TracksEnabled h l)
    {e : Event} (he : e ≠ .reset) : TracksEnabled (h ++ [e]) (l.next e) := by
  rw [TracksEnabled] at ht ⊢
  rw [enabledByEi_concat, ← ht]
  cases e with
  | reset => exact absurd rfl he
  | exec opcode =>
    rw [next_exec_interruptsEnableRequested, next_exec_interruptsEnabled]
    simp [Event.ei, Event.di]
  | _ => simp [Latches.next, Latches.accept, Event.ei, Event.di]

end Latches

/-! ### Runs -/

namespace Cpu

variable [IOPort ι δ]

/-- Latches with nothing to remember remember the history of every run. -/
theorem tracks_after_of_tracks {c : Cpu ι δ} (hc : c.latches.Tracks []) (inputs : List Action) :
    (system.after c inputs).latches.Tracks (system.history c inputs) := by
  refine system.history_induction (fun _ => True) (P := fun h c => c.latches.Tracks h) ?_
    hc inputs fun _ _ => trivial
  intro h c a _ ht
  rw [latches_step]
  exact ht.next _

/-- After every run of a new CPU the latches remember its history. -/
theorem tracks_after (buses : Buses ι δ) (inputs : List Action) :
    (system.after (Cpu.new buses) inputs).latches.Tracks
      (system.history (Cpu.new buses) inputs) :=
  tracks_after_of_tracks Latches.Tracks.initial inputs

theorem event_ne_reset (c : Cpu ι δ) {a : Action} (ha : a ≠ .reset) :
    system.event c a ≠ .reset := by
  cases a with
  | cycle =>
    rcases c.cycleEvent_cases with h | h | ⟨opcode, h⟩ <;> simp [system, h]
  | requestInterrupt interruptNum => simp [system]
  | reset => exact absurd rfl ha

/-- After every run of a new CPU without resets its enable latches remember the history. -/
theorem tracksEnabled_after {c : Cpu ι δ} (hc : c.latches = .initial) {inputs : List Action}
    (hinputs : ∀ a ∈ inputs, a ≠ .reset) :
    (system.after c inputs).latches.TracksEnabled (system.history c inputs) := by
  refine system.history_induction (· ≠ .reset) (P := fun h c => c.latches.TracksEnabled h) ?_
    (hc ▸ Latches.TracksEnabled.initial) inputs hinputs
  intro h c a ha ht
  rw [latches_step]
  exact ht.next (event_ne_reset c ha)

/-- An accepted interrupt: `pc` is pushed, high byte first, and the CPU goes on at eight times
the number asked for, not halted and with interrupts disabled. -/
structure Interrupted (interruptNum : Byte) (c c' : Cpu ι δ) : Prop where
  pc : c'.pc = BitVec.ofNat 16 (8 * interruptNum.toNat)
  sp : c'.sp = c.sp - 2
  buses : c'.buses =
    (c.buses.write (c.sp - 1) (getHighByte c.pc)).write (c.sp - 2) (getLowByte c.pc)
  latches : c'.latches = c.latches.promote.accept

/-- What `cycle` does when it accepts no interrupt: it leaves a halted CPU where it is and
runs the table's entry at the byte fetched otherwise. -/
def Proceeds (c c' : Cpu ι δ) : Prop :=
  c' = if c.latches.halted then { c with latches := c.latches.promote }
    else ((MemberFunction.ofOpcode (c.buses.read c.pc)).call c.fetched).2

theorem interrupted_cycle {c : Cpu ι δ} (h : c.cycleEvent = .accept) {interruptNum : Byte}
    (hn : c.latches.interruptVectorRequested = interruptNum) :
    Interrupted interruptNum c c.cycle := by
  rw [cycle_eq_of_accept h]
  refine ⟨?_, Superfunction.getCombinedRegister_sp_pushedRegisters _ _, rfl, rfl⟩
  rw [next, nextPc, hn, Nat.mul_comm]

theorem proceeds_cycle {c : Cpu ι δ} (h : c.cycleEvent ≠ .accept) : Proceeds c c.cycle := by
  rw [Proceeds]
  rcases c.cycleEvent_cases with haccept | hidle | ⟨opcode, hexec⟩
  · exact absurd haccept h
  · rw [if_pos (cycleEvent_eq_idle_iff.mp hidle).2, cycle_of_idle hidle]
  · obtain ⟨-, hhalted, rfl⟩ := cycleEvent_eq_exec_iff.mp hexec
    rw [hhalted, if_neg Bool.false_ne_true, cycle_of_exec hexec]

/-- **When interrupts are accepted.** After every run of a new CPU without resets, the next
cycle accepts exactly if a request was made since the last acceptance and `EI` was executed
more recently than `DI` and than the last acceptance, however long ago; it then pushes `pc`
and goes to eight times the number most recently requested. Any other cycle executes the
instruction at `pc`, or nothing if the CPU is halted. A request that was neither accepted nor
replaced is still pending. -/
theorem cycleEvent_eq_accept_iff_history (buses : Buses ι δ) (inputs : List Action)
    (hinputs : ∀ a ∈ inputs, a ≠ .reset) :
    let c := system.after (Cpu.new buses) inputs
    let h := system.history (Cpu.new buses) inputs
    (c.cycleEvent = .accept ↔ Outstanding h ∧ EnabledByEi h) ∧
    (Outstanding h ∧ EnabledByEi h →
      ∃ interruptNum, LastRequest interruptNum h ∧ Interrupted interruptNum c c.cycle) ∧
    (¬ (Outstanding h ∧ EnabledByEi h) → Proceeds c c.cycle) ∧
    ∀ interruptNum, PendingRequest interruptNum h →
      c.latches.interruptRequested = true ∧
        c.latches.interruptVectorRequested = interruptNum := by
  intro c h
  have ht : c.latches.Tracks h := tracks_after buses inputs
  have he : (c.latches.interruptsEnableRequested || c.latches.interruptsEnabled) = true ↔
      EnabledByEi h := tracksEnabled_after rfl hinputs
  have haccept : c.cycleEvent = .accept ↔ Outstanding h ∧ EnabledByEi h := by
    rw [cycleEvent_eq_accept_iff, accepts_eq, Bool.and_eq_true, ht.pending, ← he]
  refine ⟨haccept, fun hboth => ?_, fun hnot => proceeds_cycle (haccept.not.mpr hnot),
    fun interruptNum hp => ⟨?_, ?_⟩⟩
  · obtain ⟨interruptNum, hn⟩ := hboth.1.exists_lastRequest
    exact ⟨interruptNum, hn, interrupted_cycle (haccept.mpr hboth) (ht.vector interruptNum hn)⟩
  · exact ht.pending.mpr (hp.mono (fun e h => ⟨h.1, h.2.1⟩) fun e h => by simp [h])
  · exact ht.vector interruptNum (hp.mono (fun e h => h.2.2) fun e h => h)

/-- A request made right after `EI` is accepted by the next cycle. -/
theorem cycleEvent_eq_accept_after_ei_request :
    let c := system.after (Cpu.new (Buses.mapMemory [0xFB])) [.cycle, .requestInterrupt 3]
    c.cycleEvent = .accept ∧ ∃ interruptNum,
      LastRequest interruptNum [Event.ei, Event.request 3] ∧
        Interrupted interruptNum c c.cycle := by
  intro c
  have hrun := cycleEvent_eq_accept_iff_history (Buses.mapMemory [0xFB])
    [.cycle, .requestInterrupt 3] (by decide)
  have hhistory : system.history (Cpu.new (Buses.mapMemory [0xFB]))
      [.cycle, .requestInterrupt 3] = [Event.ei, Event.request 3] := by decide
  rw [hhistory] at hrun
  have hboth : Outstanding [Event.ei, Event.request 3] ∧
      EnabledByEi [Event.ei, Event.request 3] :=
    ⟨⟨[.ei], .request 3, [], rfl, trivial, by simp⟩,
      ⟨[], .ei, [.request 3], rfl, rfl, by simp [Event.di]⟩⟩
  exact ⟨hrun.1.mpr hboth, hrun.2.1 hboth⟩

end Cpu

end Fake8080
