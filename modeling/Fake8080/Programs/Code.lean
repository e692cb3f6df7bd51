import Fake8080.Arch.Execution

/-!
# Code

A machine that is not halted and accepts no interrupt executes the instruction its program
counter points at. So it performs any list of instructions that it finds where each one left
the program counter (`State.after_of_fetches`), as long as none of them ends that.
-/

namespace Fake8080

universe u v

variable {ι : Type u} {δ : Type v}

namespace Arch

/-- The bytes lie at an address and after it. -/
def HasCode (memory : Word → Byte) : Word → List Byte → Prop
  | _, [] => True
  | address, byte :: code => memory address = byte ∧ HasCode memory (address + 1) code

/-- Stores that affect none of its bytes leave code where it is. -/
theorem HasCode.store (env : Environment ι) {memory : Word → Byte} {stores : List (Word × Byte)}
    {address : Word} {code : List Byte} (h : HasCode memory address code)
    (hkeep : ∀ w ∈ stores, ∀ i < code.length, env.affects w.1 (address + BitVec.ofNat 16 i) = false) :
    HasCode (env.store memory stores) address code := by
  induction code generalizing address with
  | nil => trivial
  | cons byte code ih =>
    refine ⟨?_, ih h.2 fun w hw i hi => ?_⟩
    · refine (env.store_of_not_affects memory fun w hw => ?_).trans h.1
      simpa using hkeep w hw 0 (Nat.succ_pos _)
    · have hnext : address + 1 + BitVec.ofNat 16 i = address + BitVec.ofNat 16 (i + 1) := by
        rw [BitVec.ofNat_add]
        bv_omega
      rw [hnext]
      exact hkeep w hw (i + 1) (Nat.succ_lt_succ hi)

namespace State

/-- The machine is not halted and accepts no interrupt. -/
structure Quiet (s : State δ) : Prop where
  /-- No interrupt is accepted. -/
  accepts : (s.pending.isSome && (s.enableRequested || s.enabled)) = false
  /-- The machine is not halted. -/
  halted : s.halted = false

/-- A quiet machine executes what it fetches. -/
theorem Quiet.cycleEvent {s : State δ} (h : s.Quiet) : s.cycleEvent = .exec (s.memory s.pc) := by
  rw [State.cycleEvent, h.accepts, h.halted]
  rfl

variable [IOPort ι δ] (env : Environment ι)

/-- Only `EI` and `HLT` end the quiet. -/
theorem Quiet.perform {s : State δ} (h : s.Quiet) {op : Op} (hei : op ≠ .ei) (hhlt : op ≠ .hlt) :
    (s.perform env op).Quiet := by
  obtain ⟨hrequested, henabled, hpending, hhalted⟩ := op.operate_latches env s.fetched
  rw [if_neg hei] at hrequested
  rw [if_neg hhlt] at hhalted
  refine ⟨?_, hhalted.trans h.halted⟩
  change ((op.operate env s.fetched).pending.isSome &&
    ((op.operate env s.fetched).enableRequested || (op.operate env s.fetched).enabled)) = false
  rw [hrequested, henabled, hpending]
  by_cases hdi : op = .di
  · rw [if_pos hdi]
    exact Bool.and_false _
  · rw [if_neg hdi]
    exact h.accepts

/-- The instructions are found where each one leaves the program counter. -/
def Fetches : State δ → List Op → Prop
  | _, [] => True
  | s, op :: ops => Op.decode (s.memory s.pc) = op ∧ (s.perform env op).Fetches ops

/-- **Code.** A quiet machine performs the instructions it fetches and stays quiet. -/
theorem after_of_fetches (ops : List Op) (hops : ∀ op ∈ ops, op ≠ .ei ∧ op ≠ .hlt) {s : State δ}
    (hquiet : s.Quiet) (hfetch : s.Fetches env ops) :
    (machine env).after s (List.replicate ops.length .cycle) = s.performAll env ops ∧
      (s.performAll env ops).Quiet := by
  induction ops generalizing s with
  | nil => exact ⟨rfl, hquiet⟩
  | cons op ops ih =>
    obtain ⟨hei, hhlt⟩ := hops op List.mem_cons_self
    have hstep := step_of_cycleEvent env hquiet.cycleEvent
    rw [hfetch.1] at hstep
    rw [List.length_cons, List.replicate_succ, Reactive.after_cons, hstep, performAll_cons]
    exact ih (fun op' h => hops op' (List.mem_cons_of_mem _ h)) (hquiet.perform env hei hhlt)
      hfetch.2

end State

end Arch

end Fake8080
