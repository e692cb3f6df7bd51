import Fake8080.Arch.Refinement

/-!
# Instruction by instruction

`State.perform` is what one instruction leaves, its fetch included, and `State.performAll`
what a list of them leaves. A run of cycles that execute known opcodes leads to what their
instructions leave (`Cpu.arch_after_execs`), so code is reasoned about as a list of
instructions and carried over to the emulator at the end.
-/

namespace Fake8080

universe u v

variable {ι : Type u} {δ : Type v}

namespace Arch

section Execution

variable [IOPort ι δ] (env : Environment ι)

/-- What an instruction leaves, its fetch included. -/
def State.perform (s : State δ) (op : Op) : State δ :=
  { op.operate env s.fetched with memory := env.store s.memory (op.stores s.fetched) }

/-- What a list of instructions leaves. -/
def State.performAll (s : State δ) (ops : List Op) : State δ := ops.foldl (State.perform env) s

@[simp]
theorem State.performAll_nil (s : State δ) : s.performAll env [] = s := rfl

@[simp]
theorem State.performAll_cons (s : State δ) (op : Op) (ops : List Op) :
    s.performAll env (op :: ops) = (s.perform env op).performAll env ops := rfl

@[simp]
theorem State.performAll_append (s : State δ) (ops ops' : List Op) :
    s.performAll env (ops ++ ops') = (s.performAll env ops).performAll env ops' :=
  List.foldl_append

/-- A cycle that executes an opcode leaves what its instruction leaves. -/
theorem step_of_cycleEvent {s : State δ} {opcode : Byte} (h : s.cycleEvent = .exec opcode) :
    (machine env).step s .cycle = s.perform env (Op.decode opcode) := by
  change s.next env s.cycleEvent = _
  rw [h]
  rfl

/-- Cycles that execute opcodes leave what their instructions leave. -/
theorem after_of_history {s : State δ} {opcodes : List Byte}
    (h : ((machine env).history s (List.replicate opcodes.length .cycle)).map Prod.fst =
      opcodes.map .exec) :
    (machine env).after s (List.replicate opcodes.length .cycle) =
      s.performAll env (opcodes.map Op.decode) := by
  induction opcodes generalizing s with
  | nil => rfl
  | cons opcode opcodes ih =>
    rw [List.length_cons, List.replicate_succ, Reactive.history, List.map_cons, List.map_cons,
      List.cons.injEq] at h
    rw [List.length_cons, List.replicate_succ, Reactive.after_cons, ih h.2,
      step_of_cycleEvent env h.1]
    rfl

end Execution

end Arch

namespace Cpu

variable [IOPort ι δ]

/-- Cycles that execute opcodes leave, to a program, what their instructions leave. -/
theorem arch_after_execs (c : Cpu ι δ) (opcodes : List Byte)
    (h : system.history c (List.replicate opcodes.length .cycle) = opcodes.map .exec) :
    (system.after c (List.replicate opcodes.length .cycle)).arch =
      c.arch.performAll c.buses.environment (opcodes.map Arch.Op.decode) := by
  rw [← history_observed, arch_history] at h
  rw [(c.arch_after _).1, Arch.after_of_history _ h]

theorem arch_cycle_of_accept {c : Cpu ι δ} (h : c.cycleEvent = .accept) :
    c.cycle.arch = c.arch.next c.buses.environment .accept := by
  have hstep := c.arch_step .cycle
  change c.cycle.arch = c.arch.next _ c.arch.cycleEvent at hstep
  rw [hstep, arch_cycleEvent, h]

end Cpu

end Fake8080
