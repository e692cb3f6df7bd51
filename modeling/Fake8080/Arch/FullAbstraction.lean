import Fake8080.Arch.Runaway
import Fake8080.Arch.SaveRestore
import Fake8080.Arch.Sharing

/-!
# What can be told of a CPU

Whatever is called and whatever memory holds, a program and the host that calls the emulator
learn no more of a CPU than the events and the calls on the buses. Two CPUs that do the same on
the same RAM, whatever it contains and whatever is called, are alike (`State.Alike`): the state
a program sees is the same, but for what can never come to light. An enabling is not seen while
another one is requested, a halt is not seen when the next cycle ends it, and a program counter
and a pending interrupt are not seen where only a reset ends the halt. Conversely, alike CPUs do
the same on all buses (`Cpu.alike_iff`).
-/

namespace Fake8080

universe u v x y

variable {ι : Type u} {δ : Type v}

namespace Arch

/-- The next cycle accepts an interrupt. -/
def State.accepts (s : State δ) : Bool := s.pending.isSome && (s.enableRequested || s.enabled)

/-- The machine is halted, and only a reset ends that. -/
def State.stuck (s : State δ) : Bool := s.halted && !(s.enableRequested || s.enabled)

/-- Two states are the same but for what never comes to light. Memory and devices are left
out. -/
structure State.Alike (s t : State δ) : Prop where
  /-- The registers are the same. -/
  file : s.toFile = t.toFile
  /-- Both or neither request enabling. -/
  enableRequested : s.enableRequested = t.enableRequested
  /-- The next cycle starts with the same enabling. -/
  enabled : (s.enableRequested || s.enabled) = (t.enableRequested || t.enabled)
  /-- Both are halted or neither is, unless the next cycle ends that. -/
  halted : s.accepts = true ∨ s.halted = t.halted
  /-- The program counter and what is pending are the same, unless a reset is needed. -/
  rest : s.stuck = true ∨ s.pc = t.pc ∧ s.pending = t.pending

namespace State.Alike

variable {s t : State δ}

theorem refl (s : State δ) : s.Alike s := ⟨rfl, rfl, rfl, .inr rfl, .inr ⟨rfl, rfl⟩⟩

/-- Where interrupts are enabled there is no getting stuck. -/
theorem rest_of_enabled (h : s.Alike t) (henabled : (s.enableRequested || s.enabled) = true) :
    s.pc = t.pc ∧ s.pending = t.pending :=
  h.rest.resolve_left fun hstuck => by simp [stuck, henabled] at hstuck

/-- What is not halted is not stuck. -/
theorem rest_of_not_halted (h : s.Alike t) (hhalted : s.halted = false) :
    s.pc = t.pc ∧ s.pending = t.pending :=
  h.rest.resolve_left fun hstuck => by simp [stuck, hhalted] at hstuck

theorem accepts_eq (h : s.Alike t) : s.accepts = t.accepts := by
  rw [accepts, accepts, ← h.enabled]
  cases henabled : s.enableRequested || s.enabled with
  | false => rw [Bool.and_false, Bool.and_false]
  | true => rw [(h.rest_of_enabled henabled).2]

/-- What the next cycle of alike states does: it accepts for both, it idles for both, or it
executes the same from the same. -/
theorem cycleEvent (h : s.Alike t) (hmemory : s.memory = t.memory) :
    (s.cycleEvent = .accept ∧ t.cycleEvent = .accept ∧ s.pc = t.pc ∧ s.pending = t.pending) ∨
    (s.cycleEvent = .idle ∧ t.cycleEvent = .idle ∧ s.halted = t.halted) ∨
    (s.cycleEvent = .exec (t.memory t.pc) ∧ t.cycleEvent = .exec (t.memory t.pc) ∧
      s.pc = t.pc ∧ s.pending = t.pending ∧ s.halted = t.halted) := by
  have haccepts := h.accepts_eq
  by_cases haccept : s.accepts = true
  · have hboth : t.accepts = true := haccepts ▸ haccept
    have henabled := (Bool.and_eq_true_iff.mp haccept).2
    exact .inl ⟨if_pos haccept, if_pos hboth, h.rest_of_enabled henabled⟩
  · have hnot : ¬ t.accepts = true := haccepts ▸ haccept
    have hhalted := h.halted.resolve_left haccept
    by_cases hhalt : s.halted = true
    · exact .inr (.inl ⟨(if_neg haccept).trans (if_pos hhalt),
        (if_neg hnot).trans (if_pos (hhalted ▸ hhalt)), hhalted⟩)
    · obtain ⟨hpc, hpending⟩ := h.rest_of_not_halted (Bool.eq_false_of_not_eq_true hhalt)
      refine .inr (.inr ⟨?_, (if_neg hnot).trans (if_neg (hhalted ▸ hhalt)), hpc, hpending,
        hhalted⟩)
      rw [← hmemory, ← hpc]
      exact (if_neg haccept).trans (if_neg hhalt)

/-- **Step.** Alike states with the same memory and devices do the same and stay so. -/
theorem step [IOPort ι δ] (env : Environment ι) (h : s.Alike t) (hmemory : s.memory = t.memory)
    (hdevices : s.devices = t.devices) (a : Action) :
    (machine env).event s a = (machine env).event t a ∧
      ((machine env).step s a).Alike ((machine env).step t a) ∧
      ((machine env).step s a).memory = ((machine env).step t a).memory ∧
      ((machine env).step s a).devices = ((machine env).step t a).devices := by
  change (s.event a, s.stepCalls env (s.event a)) = (t.event a, t.stepCalls env (t.event a)) ∧
    (s.next env (s.event a)).Alike (t.next env (t.event a)) ∧
    (s.next env (s.event a)).memory = (t.next env (t.event a)).memory ∧
    (s.next env (s.event a)).devices = (t.next env (t.event a)).devices
  cases a with
  | cycle =>
    rcases h.cycleEvent hmemory with ⟨hs, ht, hpc, hpending⟩ | ⟨hs, ht, hhalted⟩ |
      ⟨hs, ht, hpc, hpending, hhalted⟩
    · rw [State.event, State.event, hs, ht]
      have hpushed : s.pushed s.pc = t.pushed t.pc := by rw [pushed, pushed, h.file, hpc]
      have hstore : env.store s.memory (s.pushed s.pc) = env.store t.memory (t.pushed t.pc) := by
        rw [hmemory, hpushed]
      have hnext : s.next env .accept = t.next env .accept :=
        State.ext_toFile (congrArg (fun f : File => { f with sp := f.sp - 2 }) h.file)
          (congrArg (fun p : Option Byte => BitVec.ofNat 16 ((p.getD 0).toNat * 8)) hpending)
          hstore hdevices rfl rfl rfl rfl
      rw [hnext, stepCalls, stepCalls, hpushed]
      exact ⟨rfl, refl _, rfl, rfl⟩
    · rw [State.event, State.event, hs, ht]
      refine ⟨rfl, ⟨h.file, rfl, h.enabled, .inr hhalted, h.rest⟩, hmemory, hdevices⟩
    · rw [State.event, State.event, hs, ht]
      have hfetched : s.fetched = t.fetched :=
        State.ext_toFile h.file (congrArg (· + 1) hpc) hmemory hdevices rfl h.enabled hpending
          hhalted
      rw [stepCalls, stepCalls, State.next, State.next, hfetched, hmemory]
      exact ⟨rfl, refl _, rfl, rfl⟩
  | requestInterrupt n =>
    refine ⟨rfl, ⟨h.file, h.enableRequested, h.enabled, ?_, ?_⟩, hmemory, hdevices⟩
    · cases henabled : s.enableRequested || s.enabled with
      | true => exact .inl henabled
      | false =>
        refine .inr (h.halted.resolve_left fun haccepts => ?_)
        rw [accepts, henabled, Bool.and_false] at haccepts
        cases haccepts
    · exact h.rest.imp_right fun hrest => ⟨hrest.1, rfl⟩
  | reset =>
    refine ⟨rfl, ⟨h.file, h.enableRequested, ?_, .inr rfl, .inr ⟨rfl, rfl⟩⟩, hmemory, hdevices⟩
    exact congrArg (· || false) h.enableRequested

end State.Alike

/-! ### Experiments -/

/-- RAM at every address, and no device. -/
def ram : Environment Empty := (Buses.fullRam fun _ => 0).environment

theorem ram_store_pushed (memory : Word → Byte) (s : State δ) (value address : Word) :
    ram.store memory (s.pushed value) address =
      if s.sp - 2 = address then getLowByte value
      else if s.sp - 1 = address then getHighByte value else memory address := by
  have haffects : ∀ a b, (ram.affects a b = true) = (a = b) := fun a b =>
    propext (decide_eq_true_iff.trans (MemoryBus.affects_flat a b))
  simp only [State.pushed, Environment.store, List.foldl_cons, List.foldl_nil,
    AliasedStore.writeView, haffects]

/-- What is pushed tells the stack pointer and the word. -/
theorem State.pushed_inj {s t : State δ} {value value' : Word}
    (h : s.pushed value = t.pushed value') : s.sp = t.sp ∧ value = value' := by
  obtain ⟨⟨hsp, hhigh⟩, -, hlow⟩ :
      (s.sp - 1 = t.sp - 1 ∧ getHighByte value = getHighByte value') ∧
        s.sp - 2 = t.sp - 2 ∧ getLowByte value = getLowByte value' := by
    simpa [State.pushed] using h
  refine ⟨by bv_omega, ?_⟩
  rw [← combineBytes_getHighByte_getLowByte value, hhigh, hlow,
    combineBytes_getHighByte_getLowByte]

/-- What `accepts` says is what the next cycle does. -/
theorem State.cycleEvent_eq_accept_iff (s : State δ) :
    s.cycleEvent = .accept ↔ s.accepts = true := by
  refine ⟨fun haccept => ?_, fun haccepts => if_pos haccepts⟩
  by_contra hnot
  rw [State.accepts] at hnot
  rw [State.cycleEvent, if_neg hnot] at haccept
  split at haccept <;> cases haccept

/-- A cycle tells whether an interrupt is accepted. -/
theorem State.accepts_congr {s t : State δ} (h : s.cycleEvent = t.cycleEvent) :
    s.accepts = t.accepts := by
  rw [Bool.eq_iff_iff, ← s.cycleEvent_eq_accept_iff, ← t.cycleEvent_eq_accept_iff, h]

/-- A cycle tells whether the machine is halted, if it accepts nothing. -/
theorem State.halted_congr {s t : State δ} (h : s.cycleEvent = t.cycleEvent)
    (hnot : ¬ s.accepts = true) : s.halted = t.halted := by
  have hnot' : ¬ t.accepts = true := State.accepts_congr h ▸ hnot
  rw [State.accepts] at hnot hnot'
  rw [State.cycleEvent, State.cycleEvent, if_neg hnot, if_neg hnot'] at h
  cases hs : s.halted <;> cases ht : t.halted <;> simp [hs, ht] at h ⊢

section Experiments

variable {s t : State Unit}

theorem stores_of_indistinguishable (h : (machine ram).Indistinguishable s t) (a : Action) :
    s.event a = t.event a ∧ s.stepStores (s.event a) = t.stepStores (t.event a) := by
  have hevent : (s.event a, s.stepCalls ram (s.event a)) =
      (t.event a, t.stepCalls ram (t.event a)) := h.event a
  refine ⟨congrArg Prod.fst hevent, ?_⟩
  rw [← State.write?_stepCalls ram, ← State.write?_stepCalls ram]
  exact congrArg (fun event => event.2.filterMap BusEvent.write?) hevent

/-- A request tells whether interrupts are enabled, and then the program counter. -/
theorem enabled_of_indistinguishable (h : (machine ram).Indistinguishable s t) :
    (s.enableRequested || s.enabled) = (t.enableRequested || t.enabled) ∧
      ((s.enableRequested || s.enabled) = true → s.pc = t.pc) := by
  obtain ⟨hevent, hstores⟩ := stores_of_indistinguishable (h.step (.requestInterrupt 0)) .cycle
  have henabled : (s.enableRequested || s.enabled) = (t.enableRequested || t.enabled) :=
    State.accepts_congr hevent
  refine ⟨henabled, fun hs => ?_⟩
  have haccept : ∀ u : State Unit, (u.enableRequested || u.enabled) = true →
      ((machine ram).step u (.requestInterrupt 0)).event .cycle = .accept :=
    fun u hu => if_pos hu
  rw [haccept s hs, haccept t (henabled ▸ hs)] at hstores
  exact (State.pushed_inj hstores).2

/-- After a reset, a request tells whether enabling was requested. -/
theorem enableRequested_of_indistinguishable (h : (machine ram).Indistinguishable s t) :
    s.enableRequested = t.enableRequested := by
  have henabled := (enabled_of_indistinguishable (h.step .reset)).1
  change (s.enableRequested || false) = (t.enableRequested || false) at henabled
  rwa [Bool.or_false, Bool.or_false] at henabled

/-- The second cycle after the acceptance of an interrupt reads its handler. -/
theorem handler_of_indistinguishable (h : (machine ram).Indistinguishable s t)
    (hs : s.accepts = true) (ht : t.accepts = true) :
    ram.store s.memory (s.pushed s.pc) (vectorAddress (s.pending.getD 0)) =
      ram.store t.memory (t.pushed t.pc) (vectorAddress (t.pending.getD 0)) := by
  have hstep : ∀ u : State Unit, u.accepts = true →
      ((machine ram).step u .cycle).cycleEvent =
        .exec (ram.store u.memory (u.pushed u.pc) (vectorAddress (u.pending.getD 0))) := by
    intro u hu
    change (u.next ram u.cycleEvent).cycleEvent = _
    rw [u.cycleEvent_eq_accept_iff.mpr hu]
    rfl
  have hevent := (stores_of_indistinguishable (h.step .cycle) .cycle).1
  exact Event.exec.inj ((hstep s hs).symm.trans (hevent.trans (hstep t ht)))

/-- After a reset, pushing the pairs tells the registers. -/
theorem file_of_indistinguishable (h : ∀ memory,
    (machine ram).Indistinguishable (s.withMemory memory) (t.withMemory memory)) :
    s.toFile = t.toFile := by
  have hpushed : ∀ p, s.pushed (s.stackPair p) = t.pushed (t.stackPair p) := by
    intro p
    have hstores := (stores_of_indistinguishable
      ((h fun _ => p.pushOpcode).step .reset) .cycle).2
    change State.stepStores _ (.exec p.pushOpcode) = State.stepStores _ (.exec p.pushOpcode)
      at hstores
    rw [State.stepStores, State.stepStores, p.decode_pushOpcode] at hstores
    exact hstores
  exact File.ext_stackPair (State.pushed_inj (hpushed .psw)).1 fun p =>
    (State.pushed_inj (hpushed p)).2

/-- Where a machine runs with interrupts off, restarting tells the program counter. -/
theorem pc_of_indistinguishable (h : ∀ memory,
    (machine ram).Indistinguishable (s.withMemory memory) (t.withMemory memory))
    (hs : s.accepts = false) (ht : t.accepts = false) (hhalted : s.halted = false)
    (hhalted' : t.halted = false) : s.pc = t.pc := by
  have hstores := (stores_of_indistinguishable (h fun _ => 0xFF) .cycle).2
  have hexec : ∀ u : State Unit, u.accepts = false → u.halted = false →
      (u.withMemory fun _ => 0xFF).event .cycle = .exec 0xFF := by
    intro u hu hhalted
    refine (if_neg (Bool.eq_false_iff.mp hu)).trans (if_neg ?_)
    exact Bool.eq_false_iff.mp hhalted
  rw [hexec s hs hhalted, hexec t ht hhalted'] at hstores
  change s.pushed (s.pc + 1) = t.pushed (t.pc + 1) at hstores
  have hpc := (State.pushed_inj hstores).2
  bv_omega

theorem vectorAddress_ne {n m : Byte} (h : n ≠ m) :
    vectorAddress n ≠ vectorAddress m ∧ vectorAddress n + 1 ≠ vectorAddress m := by
  have hnat : n.toNat ≠ m.toNat := fun heq => h (BitVec.eq_of_toNat_eq heq)
  have hn := n.isLt
  have hm := m.isLt
  have hone : (1 : Word).toNat = 1 := rfl
  constructor <;>
    · intro heq
      have hval := congrArg BitVec.toNat heq
      simp only [vectorAddress, BitVec.toNat_add, BitVec.toNat_ofNat, hone] at hval
      omega

/-- An address that is neither pushed to nor taken can be made to read another byte than a
second one. -/
theorem exists_memory_of_free (s : State δ) (place value : Word) {a b : Word} (hab : a ≠ b)
    (hlow : s.sp - 2 ≠ b) (hhigh : s.sp - 1 ≠ b) (hplace : place ≠ b) :
    ∃ memory : Word → Byte, memory place = 0xFB ∧
      ram.store memory (s.pushed value) a ≠ ram.store memory (s.pushed value) b := by
  set other := ram.store (fun _ => 0xFB) (s.pushed value) a with hother
  refine ⟨Function.update (fun _ => 0xFB) b (other + 1), Function.update_of_ne hplace _ _, ?_⟩
  have ha : ram.store (Function.update (fun _ => 0xFB) b (other + 1)) (s.pushed value) a =
      other := by
    rw [hother, ram_store_pushed, ram_store_pushed, Function.update_of_ne hab]
  rw [ha, ram_store_pushed, if_neg hlow, if_neg hhigh, Function.update_self]
  bv_omega

/-- Memory that tells two handlers apart although a word is pushed first. It may have to hold
`EI` at an address; if a handler is there, the bytes pushed must not be `EI`. -/
theorem exists_memory (s : State δ) {place value : Word} (hplace : ∀ k, place = vectorAddress k →
      getHighByte value ≠ 0xFB ∧ getLowByte value ≠ 0xFB) {n m : Byte} (hnm : n ≠ m) :
    ∃ memory : Word → Byte, memory place = 0xFB ∧
      ram.store memory (s.pushed value) (vectorAddress n) ≠
        ram.store memory (s.pushed value) (vectorAddress m) := by
  obtain ⟨hne, hnext⟩ := vectorAddress_ne hnm
  obtain ⟨hne', hnext'⟩ := vectorAddress_ne hnm.symm
  by_cases hm : s.sp - 2 ≠ vectorAddress m ∧ s.sp - 1 ≠ vectorAddress m ∧ place ≠ vectorAddress m
  · exact exists_memory_of_free s place value hne hm.1 hm.2.1 hm.2.2
  by_cases hn : s.sp - 2 ≠ vectorAddress n ∧ s.sp - 1 ≠ vectorAddress n ∧ place ≠ vectorAddress n
  · obtain ⟨memory, hmemory, h⟩ := exists_memory_of_free s place value hne' hn.1 hn.2.1 hn.2.2
    exact ⟨memory, hmemory, h.symm⟩
  -- otherwise one handler is at the place and the other in the word pushed
  refine ⟨fun _ => 0xFB, rfl, ?_⟩
  have hstack : s.sp - 2 + 1 = s.sp - 1 := by bv_omega
  rw [ram_store_pushed, ram_store_pushed]
  split_ifs <;> grind

/-- What is pending can be told if it can be told that something is, and which handler runs. -/
theorem pending_of_handlers (hsome : s.pending.isSome = t.pending.isSome) (place value : Word)
    (hplace : ∀ k, place = vectorAddress k →
      getHighByte value ≠ 0xFB ∧ getLowByte value ≠ 0xFB)
    (hread : s.pending.isSome = true → ∀ memory : Word → Byte, memory place = 0xFB →
      ram.store memory (s.pushed value) (vectorAddress (s.pending.getD 0)) =
        ram.store memory (s.pushed value) (vectorAddress (t.pending.getD 0))) :
    s.pending = t.pending := by
  cases hs : s.pending with
  | none =>
    rw [hs] at hsome
    exact (Option.isSome_eq_false_iff.mp hsome.symm |> Option.isNone_iff_eq_none.mp).symm
  | some n =>
    rw [hs] at hsome hread
    obtain ⟨m, hm⟩ := Option.isSome_iff_exists.mp hsome.symm
    rw [hm] at hread ⊢
    by_contra hnm
    have hne : n ≠ m := fun heq => hnm (congrArg some heq)
    obtain ⟨memory, hmemory, hne⟩ := exists_memory s hplace hne
    exact hne (hread rfl memory hmemory)

/-- The bytes of a handler's address are no `EI`, nor are those of the address after it. -/
theorem bytes_vectorAddress (k : Byte) :
    (getHighByte (vectorAddress k) ≠ 0xFB ∧ getLowByte (vectorAddress k) ≠ 0xFB) ∧
      getHighByte (vectorAddress k + 1) ≠ 0xFB ∧ getLowByte (vectorAddress k + 1) ≠ 0xFB := by
  revert k
  decide +kernel

/-- Where interrupts are enabled, a cycle tells whether one is pending, and the next one which. -/
theorem pending_of_enabled (h : ∀ memory,
    (machine ram).Indistinguishable (s.withMemory memory) (t.withMemory memory))
    (hs : (s.enableRequested || s.enabled) = true) (ht : (t.enableRequested || t.enabled) = true)
    (hsp : s.sp = t.sp) (hpc : s.pc = t.pc) (haccepts : s.accepts = t.accepts) :
    s.pending = t.pending := by
  have haccept : ∀ u : State Unit, (u.enableRequested || u.enabled) = true →
      u.accepts = u.pending.isSome := by
    intro u hu
    rw [State.accepts, hu, Bool.and_true]
  have hsome := haccepts
  rw [haccept s hs, haccept t ht] at hsome
  refine pending_of_handlers hsome s.pc s.pc ?_ ?_
  · intro k heq
    rw [heq]
    exact (bytes_vectorAddress k).1
  intro hpending memory _
  rw [← haccept s hs] at hpending
  have hread := handler_of_indistinguishable (h memory) hpending (haccepts ▸ hpending)
  change ram.store memory (s.pushed s.pc) _ = ram.store memory (t.pushed t.pc) _ at hread
  have hpushed : s.pushed s.pc = t.pushed t.pc := by rw [State.pushed, State.pushed, hsp, hpc]
  rwa [← hpushed] at hread

/-- Where a machine runs with interrupts off, `EI` brings to light what is pending. -/
theorem pending_of_disabled (h : ∀ memory,
    (machine ram).Indistinguishable (s.withMemory memory) (t.withMemory memory))
    (hs : (s.enableRequested || s.enabled) = false) (ht : (t.enableRequested || t.enabled) = false)
    (hhalted : s.halted = false) (hhalted' : t.halted = false) (hsp : s.sp = t.sp)
    (hpc : s.pc = t.pc) : s.pending = t.pending := by
  -- memory that holds `EI` at the program counter
  have hei : ∀ u : State Unit, (u.enableRequested || u.enabled) = false → u.halted = false →
      ∀ memory : Word → Byte, memory u.pc = 0xFB → (machine ram).step (u.withMemory memory) .cycle =
        { u.fetched with memory := memory, enableRequested := true } := by
    intro u hu hhalted memory hmemory
    have hexec : (u.withMemory memory).cycleEvent = .exec 0xFB := by
      change (if u.pending.isSome && (u.enableRequested || u.enabled) then _
        else if u.halted then _ else Event.exec (memory u.pc)) = _
      rw [hu, Bool.and_false, hhalted, hmemory]
      rfl
    have hdecode : Op.decode 0xFB = .ei := by decide
    rw [step_of_cycleEvent ram hexec, hdecode]
    rfl
  have hstep : ∀ memory : Word → Byte, memory s.pc = 0xFB → (machine ram).Indistinguishable
      { s.fetched with memory := memory, enableRequested := true }
      { t.fetched with memory := memory, enableRequested := true } := by
    intro memory hmemory
    rw [← hei s hs hhalted memory hmemory, ← hei t ht hhalted' memory (hpc ▸ hmemory)]
    exact (h memory).step .cycle
  have haccepts : ∀ (u : State Unit) (memory : Word → Byte),
      State.accepts { u.fetched with memory := memory, enableRequested := true } =
        u.pending.isSome := fun u memory => Bool.and_true _
  have hsome : s.pending.isSome = t.pending.isSome := by
    have hevent := (stores_of_indistinguishable (hstep (fun _ => 0xFB) rfl) .cycle).1
    exact (haccepts s _).symm.trans ((State.accepts_congr hevent).trans (haccepts t _))
  refine pending_of_handlers hsome s.pc (s.pc + 1) ?_ ?_
  · intro k heq
    rw [heq]
    exact (bytes_vectorAddress k).2
  intro hpending memory hmemory
  have hread := handler_of_indistinguishable (hstep memory hmemory)
    ((haccepts s memory).trans hpending) ((haccepts t memory).trans (hsome ▸ hpending))
  change ram.store memory (s.pushed (s.pc + 1)) _ =
    ram.store memory (t.pushed (t.pc + 1)) _ at hread
  have hpushed : s.pushed (s.pc + 1) = t.pushed (t.pc + 1) := by
    rw [State.pushed, State.pushed, hsp, hpc]
  rwa [← hpushed] at hread

/-- **What no RAM tells apart is alike.** -/
theorem alike_of_indistinguishable (h : ∀ memory,
    (machine ram).Indistinguishable (s.withMemory memory) (t.withMemory memory)) : s.Alike t := by
  have hfile := file_of_indistinguishable h
  have hrequested : (s.withMemory fun _ => 0).enableRequested =
      (t.withMemory fun _ => 0).enableRequested := enableRequested_of_indistinguishable (h _)
  have hpair := enabled_of_indistinguishable (h fun _ => 0)
  obtain ⟨henabled, hpc⟩ : (s.enableRequested || s.enabled) = (t.enableRequested || t.enabled) ∧
    ((s.enableRequested || s.enabled) = true → s.pc = t.pc) := hpair
  have hevent : (s.withMemory fun _ => 0).cycleEvent = (t.withMemory fun _ => 0).cycleEvent :=
    (stores_of_indistinguishable (h fun _ => 0) .cycle).1
  have haccepts := State.accepts_congr hevent
  change s.accepts = t.accepts at haccepts
  have hhalted : ¬ s.accepts = true → s.halted = t.halted := by
    have hcongr := State.halted_congr hevent
    exact hcongr
  refine ⟨hfile, hrequested, henabled, or_iff_not_imp_left.mpr hhalted, ?_⟩
  have hsp : s.sp = t.sp := congrArg File.sp hfile
  cases hs : s.enableRequested || s.enabled with
  | true =>
    exact .inr ⟨hpc hs, pending_of_enabled h hs (henabled ▸ hs) hsp (hpc hs) haccepts⟩
  | false =>
    have ht : (t.enableRequested || t.enabled) = false := henabled ▸ hs
    have hnot : ∀ u : State Unit, (u.enableRequested || u.enabled) = false → u.accepts = false :=
      fun u hu => by rw [State.accepts, hu, Bool.and_false]
    have hboth := hhalted (Bool.eq_false_iff.mp (hnot s hs))
    cases hhalt : s.halted with
    | true => exact .inl (by rw [State.stuck, hhalt, hs]; rfl)
    | false =>
      have hhalt' : t.halted = false := hboth ▸ hhalt
      have hpc := pc_of_indistinguishable h (hnot s hs) (hnot t ht) hhalt hhalt'
      exact .inr ⟨hpc, pending_of_disabled h hs ht hhalt hhalt' hsp hpc⟩

end Experiments

end Arch

namespace Cpu

/-- What the buses hold makes no difference to being alike. -/
theorem alike_on {κ : Type x} {ε : Type y} (c d : Cpu ι δ) (b : Buses κ ε) :
    (c.core.on b).arch.Alike (d.core.on b).arch ↔ c.arch.Alike d.arch :=
  ⟨fun h => ⟨h.file, h.enableRequested, h.enabled, h.halted, h.rest⟩,
    fun h => ⟨h.file, h.enableRequested, h.enabled, h.halted, h.rest⟩⟩

/-- Alike CPUs do the same on the same buses. -/
theorem history_of_alike [IOPort ι δ] (c d : Cpu ι δ) (h : c.arch.Alike d.arch)
    (b : Buses ι δ) (actions : List Action) :
    observed.history (c.core.on b) actions = observed.history (d.core.on b) actions := by
  have hbisimulation : (Arch.machine b.environment).Bisimulation fun s t : Arch.State δ =>
      s.Alike t ∧ s.memory = t.memory ∧ s.devices = t.devices :=
    ⟨fun h => (h.1.step _ h.2.1 h.2.2 _).1, fun h => (h.1.step _ h.2.1 h.2.2 _).2⟩
  rw [arch_history, arch_history]
  exact hbisimulation.history ⟨(alike_on c d b).mpr h, rfl, rfl⟩ actions

/-- **Alike is what cannot be told apart.** Two CPUs do the same on all RAM, whatever it contains
and whatever is called, exactly if they are alike; and then they do the same on all buses. -/
theorem alike_iff [IOPort ι δ] (c d : Cpu ι δ) :
    (c.arch.Alike d.arch ↔ ∀ host actions,
      observed.history (c.core.on (Buses.fullRam host)) actions =
        observed.history (d.core.on (Buses.fullRam host)) actions) ∧
    (c.arch.Alike d.arch → ∀ (b : Buses ι δ) (actions : List Action),
      observed.history (c.core.on b) actions = observed.history (d.core.on b) actions) := by
  refine ⟨⟨fun h host actions => ?_, fun h => ?_⟩, fun h => c.history_of_alike d h⟩
  · have hram := (alike_on c d (Buses.fullRam host)).mpr h
    exact (c.core.on (Buses.fullRam host)).history_of_alike _ hram _ actions
  · refine (alike_on c d (Buses.fullRam fun _ => 0)).mp ?_
    refine Arch.alike_of_indistinguishable fun memory actions => ?_
    have harch : ∀ c : Cpu ι δ,
        (c.core.on (Buses.fullRam fun n => memory (BitVec.ofNat 16 n))).arch =
          (c.core.on (Buses.fullRam fun _ => 0)).arch.withMemory memory := by
      intro c
      refine Arch.State.ext_toFile rfl rfl (funext fun address => ?_) rfl rfl rfl rfl rfl
      refine (MemoryBus.read_flat _ address).trans ?_
      exact congrArg memory (BitVec.ofNat_toNat _ address)
    have hhistory := h (fun n => memory (BitVec.ofNat 16 n)) actions
    rw [arch_history, arch_history, harch, harch] at hhistory
    exact hhistory

end Cpu

end Fake8080
