import Fake8080.Arch.Refinement

/-!
# Requests and resets between cycles

An interrupt that is requested twice before it is accepted is requested once, with the later
vector, and a reset undoes every request and reset before it. So of the calls between two
cycles at most two count: a reset, if there was one, and the last request after it. `settle`
keeps those, and nothing that is called afterwards tells the difference
(`Cpu.settle_between_cycles`).
-/

namespace Fake8080

universe u v

variable {ι : Type u} {δ : Type v}

instance : DecidablePred Event.IsCycle := fun e => by
  cases e <;> unfold Event.IsCycle <;> infer_instance

/-! ### What counts of the calls -/

/-- What counts of the calls since the last cycle. -/
structure Unsettled where
  /-- There was a reset. -/
  wasReset : Bool
  /-- The last request after it. -/
  request : Option Byte

namespace Unsettled

/-- Nothing was called. -/
def none : Unsettled := ⟨false, .none⟩

/-- The calls that count. -/
def calls (u : Unsettled) : List Action :=
  (if u.wasReset then [.reset] else []) ++ (u.request.map .requestInterrupt).toList

end Unsettled

/-- The calls with those between cycles settled; the first argument is what counts so far. -/
def settle : Unsettled → List Action → List Action
  | u, [] => u.calls
  | u, .cycle :: actions => u.calls ++ .cycle :: settle .none actions
  | _, .reset :: actions => settle ⟨true, .none⟩ actions
  | u, .requestInterrupt n :: actions => settle ⟨u.wasReset, some n⟩ actions

/-- A call may come right after another: one of them is a cycle, or a request follows a
reset. -/
def MayFollow (a b : Action) : Prop :=
  a = .cycle ∨ b = .cycle ∨ a = .reset ∧ ∃ n, b = .requestInterrupt n

/-- Calls that count may come one after the other, after a cycle and before one. -/
theorem isChain_settle (u : Unsettled) (actions : List Action) :
    (Action.cycle :: settle u actions).IsChain MayFollow := by
  have hfirst : ∀ a, MayFollow .cycle a := fun a => .inl rfl
  have hlast : ∀ a, MayFollow a .cycle := fun a => .inr (.inl rfl)
  have hboth : ∀ n, MayFollow .reset (.requestInterrupt n) := fun n => .inr (.inr ⟨rfl, n, rfl⟩)
  -- the calls that count, with anything that may follow a cycle after them
  have hcalls : ∀ (u : Unsettled) (rest : List Action),
      (Action.cycle :: rest).IsChain MayFollow →
        (rest = [] ∨ ∃ rest', rest = .cycle :: rest') →
          (Action.cycle :: (u.calls ++ rest)).IsChain MayFollow := by
    rintro ⟨wasReset, request⟩ rest hrest hcycle
    cases wasReset <;> cases request <;>
      rcases hcycle with rfl | ⟨rest', rfl⟩ <;>
        simp_all [Unsettled.calls]
  induction actions generalizing u with
  | nil => simpa [settle] using hcalls u [] (by simp) (.inl rfl)
  | cons a actions ih =>
    cases a with
    | cycle =>
      refine hcalls u _ ?_ (.inr ⟨_, rfl⟩)
      exact List.isChain_cons_cons.mpr ⟨hfirst _, ih .none⟩
    | requestInterrupt n => exact ih _
    | reset => exact ih _

/-! ### Their effect -/

namespace Arch

variable [IOPort ι δ] (env : Environment ι)

/-- A reset undoes the calls that count, and a request the last one. -/
theorem after_calls_append (u : Unsettled) (s : State δ) :
    (machine env).after s (u.calls ++ [.reset]) = (machine env).after s [.reset] ∧
      ∀ n, (machine env).after s (u.calls ++ [.requestInterrupt n]) =
        (machine env).after s (Unsettled.calls ⟨u.wasReset, some n⟩) := by
  obtain ⟨wasReset, request⟩ := u
  refine ⟨?_, fun n => ?_⟩ <;> cases wasReset <;> cases request <;> rfl

theorem after_settle (u : Unsettled) (s : State δ) (actions : List Action) :
    (machine env).after s (settle u actions) = (machine env).after s (u.calls ++ actions) := by
  induction actions generalizing u s with
  | nil => rw [settle, List.append_nil]
  | cons a actions ih =>
    have hsplit : u.calls ++ a :: actions = (u.calls ++ [a]) ++ actions := by simp
    cases a with
    | cycle =>
      rw [settle, Reactive.after_append, Reactive.after_append, Reactive.after_cons,
        Reactive.after_cons, ih]
      rfl
    | requestInterrupt n =>
      rw [settle, ih, hsplit, Reactive.after_append, Reactive.after_append,
        ((after_calls_append env u s).2 n)]
    | reset =>
      rw [settle, ih, hsplit, Reactive.after_append, Reactive.after_append,
        (after_calls_append env u s).1]
      rfl

/-- The calls that count are no cycles. -/
theorem filter_history_calls (u : Unsettled) (s : State δ) :
    ((machine env).history s u.calls).filter (·.1.IsCycle) = [] := by
  obtain ⟨wasReset, request⟩ := u
  cases wasReset <;> cases request <;> rfl

/-- The cycles between settled calls do the same. -/
theorem history_settle (u : Unsettled) (s : State δ) (actions : List Action) :
    ((machine env).history s (settle u actions)).filter (·.1.IsCycle) =
      ((machine env).history s (u.calls ++ actions)).filter (·.1.IsCycle) := by
  induction actions generalizing u s with
  | nil => rw [settle, List.append_nil]
  | cons a actions ih =>
    have hsplit : u.calls ++ a :: actions = (u.calls ++ [a]) ++ actions := by simp
    -- a call that is no cycle only changes what counts
    have hcall : ∀ u' : Unsettled, (a = .reset ∨ ∃ n, a = .requestInterrupt n) →
        (machine env).after s (u.calls ++ [a]) = (machine env).after s u'.calls →
        ((machine env).history s (u'.calls ++ actions)).filter (·.1.IsCycle) =
          ((machine env).history s (u.calls ++ a :: actions)).filter (·.1.IsCycle) := by
      intro u' ha hafter
      have hnone : ((machine env).history s (u.calls ++ [a])).filter (·.1.IsCycle) = [] := by
        rw [Reactive.history_append, List.filter_append, filter_history_calls]
        rcases ha with rfl | ⟨n, rfl⟩ <;> rfl
      rw [hsplit, Reactive.history_append, Reactive.history_append, List.filter_append,
        List.filter_append, filter_history_calls, hnone, hafter]
    cases a with
    | cycle =>
      rw [settle, Reactive.history_append, Reactive.history_append, List.filter_append,
        List.filter_append, Reactive.history, Reactive.history, List.filter_cons,
        List.filter_cons, ih]
      rfl
    | requestInterrupt n =>
      rw [settle, ih]
      exact hcall _ (.inr ⟨n, rfl⟩) ((after_calls_append env u s).2 n)
    | reset =>
      rw [settle, ih]
      exact hcall _ (.inl rfl) (after_calls_append env u s).1

end Arch

namespace Cpu

variable [IOPort ι δ]

/-- **Between cycles only the last reset and the last request after it count.** Settling calls
leaves at most these two before each cycle; the cycles do the same, the same is logged, and a
program sees the same state at the end. -/
theorem settle_between_cycles (c : Cpu ι δ) (actions : List Action) :
    (settle .none actions).IsChain MayFollow ∧
    (observed.history c (settle .none actions)).filter (·.1.IsCycle) =
      (observed.history c actions).filter (·.1.IsCycle) ∧
    (system.after c (settle .none actions)).buses.log = (system.after c actions).buses.log ∧
    (system.after c (settle .none actions)).arch = (system.after c actions).arch := by
  have hhistory : (observed.history c (settle .none actions)).filter (·.1.IsCycle) =
      (observed.history c actions).filter (·.1.IsCycle) := by
    rw [arch_history, arch_history]
    exact Arch.history_settle _ .none c.arch actions
  -- only cycles call the buses
  have hlog : ∀ actions, ((observed.history c actions).map Prod.snd).flatten =
      (((observed.history c actions).filter (·.1.IsCycle)).map Prod.snd).flatten := by
    intro actions
    generalize c = d
    induction actions generalizing d with
    | nil => rfl
    | cons a actions ih =>
      rw [Reactive.history, List.map_cons, List.flatten_cons, ih, List.filter_cons]
      split
      · rfl
      · rename_i hcycle
        cases a with
        | cycle =>
          refine absurd ?_ hcycle
          change decide (d.cycleEvent.IsCycle) = true
          rcases d.cycleEvent_cases with h | h | ⟨opcode, h⟩ <;> rw [h] <;> rfl
        | requestInterrupt n => rw [observed_event]; rfl
        | reset => rw [observed_event]; rfl
  refine ⟨(isChain_settle .none actions).of_cons, hhistory, ?_, ?_⟩
  · rw [log_after, log_after, hlog, hlog, hhistory]
  · rw [(c.arch_after _).1, (c.arch_after _).1]
    exact Arch.after_settle _ .none c.arch actions

end Cpu

end Fake8080
