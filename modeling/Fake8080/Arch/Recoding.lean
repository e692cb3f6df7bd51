import Fake8080.Arch.Log
import Fake8080.Arch.Renaming

/-!
# Recoded programs

A program may exchange `BC` and `DE` throughout, and it may use any of the opcodes that stand
for an instruction. A run that reads and overwrites no opcode as data does the same after such
a recoding, with the same calls on the buses and the two pairs exchanged or not (`Cpu.recode`).
-/

namespace Fake8080

universe u v

variable {ι : Type u} {δ : Type v}

/-- An event with its opcode decoded. -/
def Event.decoded : Event → Event ⊕ Arch.Op
  | .exec opcode => .inr (Arch.Op.decode opcode)
  | event => .inl event

namespace Arch

/-- The states differ in the places of the registers and in the opcodes at certain addresses. -/
structure Recoded (ρ : Renaming) (code : Word → Prop) (s t : State δ) : Prop where
  /-- All but memory is the same, with the registers in their new places. -/
  same : t = (ρ.state s).withMemory t.memory
  /-- The opcodes are those of the renamed instructions. -/
  opcode : ∀ x, code x → Op.decode (t.memory x) = ρ.op (Op.decode (s.memory x))
  /-- The other bytes are the same. -/
  data : ∀ x, ¬ code x → t.memory x = s.memory x

/-- Memory with the opcodes at certain addresses renamed. -/
def Renaming.memory (ρ : Renaming) (code : Word → Prop) [DecidablePred code] (memory : Word → Byte)
    (x : Word) : Byte :=
  if code x then ρ.opcode (memory x) else memory x

theorem recoded_memory (ρ : Renaming) (code : Word → Prop) [DecidablePred code] (s : State δ) :
    Recoded ρ code s ((ρ.state s).withMemory (ρ.memory code s.memory)) where
  same := rfl
  opcode x hx := by
    rw [← ρ.decode_opcode]
    exact congrArg Op.decode (if_pos hx)
  data _ hx := if_neg hx

/-- An event keeps opcodes and data apart. -/
structure State.KeepsApart (env : Environment ι) (ρ : Renaming) (code : Word → Prop) (s : State δ)
    (e : Event) : Prop where
  /-- What is executed is an opcode, and not `XCHG` if the pairs are exchanged. -/
  opcode : ∀ opcode, e = .exec opcode → code s.pc ∧ (ρ = .exchange → Op.decode opcode ≠ .xchg)
  /-- No opcode is read as data. -/
  reads : ∀ opcode, e = .exec opcode → ∀ x ∈ (Op.decode opcode).reads s.fetched, ¬ code x
  /-- No opcode is overwritten. -/
  stores : ∀ w ∈ s.stepStores e, ∀ x, code x → env.affects w.1 x = false

section Runs

variable (env : Environment ι) {ρ : Renaming} {code : Word → Prop} {s t : State δ}

/-- An instruction that stores nothing keeps opcodes and data apart if it reads no opcode. -/
theorem keepsApart_of_stores_eq_nil {env : Environment ι} {opcode : Byte} (hcode : code s.pc)
    (hxchg : ρ = .exchange → Op.decode opcode ≠ .xchg)
    (hreads : ∀ x ∈ (Op.decode opcode).reads s.fetched, ¬ code x)
    (hstores : (Op.decode opcode).stores s.fetched = []) : s.KeepsApart env ρ code (.exec opcode) where
  opcode := by
    rintro _ ⟨rfl⟩
    exact ⟨hcode, hxchg⟩
  reads := by
    rintro _ ⟨rfl⟩
    exact hreads
  stores w hw := by
    rw [show s.stepStores (.exec opcode) = [] from hstores] at hw
    exact absurd hw List.not_mem_nil

theorem Recoded.store (h : Recoded ρ code s t) {stores : List (Word × Byte)}
    (hstores : ∀ w ∈ stores, ∀ x, code x → env.affects w.1 x = false) :
    (∀ x, code x → Op.decode (env.store t.memory stores x) =
      ρ.op (Op.decode (env.store s.memory stores x))) ∧
    ∀ x, ¬ code x → env.store t.memory stores x = env.store s.memory stores x := by
  refine ⟨fun x hx => ?_, fun x hx => ?_⟩
  · rw [env.store_of_not_affects t.memory fun w hw => hstores w hw x hx,
      env.store_of_not_affects s.memory fun w hw => hstores w hw x hx]
    exact h.opcode x hx
  · rcases AliasedStore.foldl_writeView_cases (fun a b => env.affects a b) s.memory t.memory stores
      x with heq | ⟨hs, ht⟩
    · exact heq.symm
    · exact (ht.trans (h.data x hx)).trans hs.symm

theorem Recoded.event (h : Recoded ρ code s t) (a : Action) :
    (s.event a = .exec (s.memory s.pc) ∧ t.event a = .exec (t.memory s.pc)) ∨
      ((∀ opcode, s.event a ≠ .exec opcode) ∧ t.event a = s.event a) := by
  cases a with
  | cycle =>
    have hcycle : ∀ memory : Word → Byte, ((ρ.state s).withMemory memory).cycleEvent =
        if (s.pending.isSome && (s.enableRequested || s.enabled)) = true then .accept
        else if s.halted = true then .idle else .exec (memory s.pc) := fun _ => rfl
    have ht := hcycle t.memory
    rw [← h.same] at ht
    change (s.cycleEvent = _ ∧ t.cycleEvent = _) ∨ (∀ opcode, s.cycleEvent ≠ _) ∧
      t.cycleEvent = s.cycleEvent
    rw [ht, State.cycleEvent]
    by_cases haccept : (s.pending.isSome && (s.enableRequested || s.enabled)) = true
    · rw [if_pos haccept, if_pos haccept]
      exact .inr ⟨fun _ hne => Event.noConfusion hne, rfl⟩
    · rw [if_neg haccept, if_neg haccept]
      by_cases hhalted : s.halted = true
      · rw [if_pos hhalted, if_pos hhalted]
        exact .inr ⟨fun _ hne => Event.noConfusion hne, rfl⟩
      · rw [if_neg hhalted, if_neg hhalted]
        exact .inl ⟨rfl, rfl⟩
  | requestInterrupt interruptNum => exact .inr ⟨fun _ hne => Event.noConfusion hne, rfl⟩
  | reset => exact .inr ⟨fun _ hne => Event.noConfusion hne, rfl⟩

/-- **Step.** Recoded states do corresponding things with the same calls on the buses, and stay
recoded. -/
theorem Recoded.step [IOPort ι δ] (h : Recoded ρ code s t) {a : Action}
    (hkeeps : s.KeepsApart env ρ code (s.event a)) :
    (t.event a).decoded = Sum.map id ρ.op (s.event a).decoded ∧
      t.stepCalls env (t.event a) = s.stepCalls env (s.event a) ∧
      Recoded ρ code ((machine env).step s a) ((machine env).step t a) := by
  have hsame := h.same
  obtain ⟨hopcode, hreads, hstores⟩ := hkeeps
  change _ ∧ _ ∧ Recoded ρ code (s.next env (s.event a)) (t.next env (t.event a))
  rcases h.event a with ⟨hs, ht⟩ | ⟨hnot, ht⟩
  · rw [hs] at hopcode hreads hstores ⊢
    rw [ht]
    obtain ⟨hcode, hxchg⟩ := hopcode _ rfl
    have hdecode := h.opcode s.pc hcode
    set o := Op.decode (s.memory s.pc) with ho
    have hfetched : t.fetched = (ρ.state s.fetched).withMemory t.memory := by
      conv_lhs => rw [hsame]
      rfl
    have hread : ∀ x ∈ (ρ.op o).reads (ρ.state s.fetched), t.memory x = (ρ.state s.fetched).memory x := by
      rw [ρ.reads_eq]
      exact fun x hx => h.data x (hreads _ rfl x hx)
    have hstores' := Op.stores_withMemory (ρ.state s.fetched) _ hread
    have hcall := Op.deviceCall_withMemory (ρ.state s.fetched) env _ hread
    have hoperate := Op.operate_withMemory (ρ.state s.fetched) env _ hread
    rw [← hfetched, ρ.stores_eq] at hstores'
    rw [← hfetched, ρ.deviceCall_eq] at hcall
    rw [← hfetched, ρ.operate_eq s.fetched env hxchg] at hoperate
    obtain ⟨hop, hdata⟩ := h.store env hstores
    refine ⟨congrArg Sum.inr hdecode, ?_, ⟨?_, ?_, ?_⟩⟩
    · simp only [State.stepCalls, hdecode, hstores', hcall, ← ho]
    · simp only [State.next, hdecode, hoperate, ← ho]
      rfl
    · simp only [State.next, hdecode, hstores', ← ho]
      exact hop
    · simp only [State.next, hdecode, hstores', ← ho]
      exact hdata
  · rw [ht]
    generalize s.event a = e at hnot hstores
    cases e with
    | accept =>
      obtain ⟨hop, hdata⟩ := h.store env hstores
      have hpushed : t.pushed t.pc = s.pushed s.pc := by rw [hsame]; rfl
      refine ⟨rfl, by simp only [State.stepCalls, hpushed], ⟨?_, ?_, ?_⟩⟩
      · conv_lhs => rw [hsame]
        rw [hsame]
        rfl
      · simp only [State.next, hpushed]
        exact hop
      · simp only [State.next, hpushed]
        exact hdata
    | exec opcode => exact absurd rfl (hnot opcode)
    | idle => exact ⟨rfl, rfl, ⟨by rw [hsame]; rfl, h.opcode, h.data⟩⟩
    | request interruptNum => exact ⟨rfl, rfl, ⟨by rw [hsame]; rfl, h.opcode, h.data⟩⟩
    | reset => exact ⟨rfl, rfl, ⟨by rw [hsame]; rfl, h.opcode, h.data⟩⟩

end Runs

end Arch

namespace Cpu

variable [IOPort ι δ]

/-- **Recoded programs do the same.** Let a CPU look like another one but for the opcodes at
certain addresses, which stand for the same instructions with `BC` and `DE` exchanged or kept,
and for the places of these pairs. If a run of the one executes what is at these addresses only,
reads and overwrites it never as data, and executes no `XCHG` if the pairs are exchanged, then
the same calls on the other do the same with the pairs in their places, with the same calls on
the buses, and leave it looking like the one in the same way. -/
theorem recode (ρ : Arch.Renaming) (code : Word → Prop) {c d : Cpu ι δ}
    (henvironment : c.buses.environment = d.buses.environment)
    (hrecoded : Arch.Recoded ρ code c.arch d.arch) {actions : List Action}
    (hkeeps : observed.Along (fun c a =>
      c.arch.KeepsApart c.buses.environment ρ code (system.event c a)) c actions) :
    (observed.history d actions).map (Prod.map Event.decoded id) =
      (observed.history c actions).map (Prod.map (Sum.map id ρ.op ∘ Event.decoded) id) ∧
    Arch.Recoded ρ code (system.after c actions).arch (system.after d actions).arch := by
  have hsimulation : ((observed (ι := ι) (δ := δ)).reporting
      (Prod.map (Sum.map id ρ.op ∘ Event.decoded) id)).Simulation
      (observed.reporting (Prod.map Event.decoded id))
      (fun c a => c.arch.KeepsApart c.buses.environment ρ code (system.event c a))
      (fun _ _ => True) fun c d => Arch.Recoded ρ code c.arch d.arch ∧
        c.buses.environment = d.buses.environment := by
    refine simulation_of_arch _ _ (fun env s e => s.KeepsApart env ρ code e)
      (Arch.Recoded ρ code) fun env {s t a} h hrule => ?_
    obtain ⟨hevent, hcalls, hstep⟩ := h.step env hrule
    exact ⟨Prod.ext hevent.symm hcalls.symm, hstep⟩
  have hrun := Reactive.along_reporting (Prod.map (Sum.map id ρ.op ∘ Event.decoded) id) hkeeps
  have hany := Reactive.along_of_forall
    (M := observed.reporting (Prod.map Event.decoded id)) (fun _ _ => trivial) d actions
  have hhistory := hsimulation.history ⟨hrecoded, henvironment⟩ hrun hany
  rw [Reactive.history_reporting, Reactive.history_reporting] at hhistory
  exact ⟨hhistory.symm, (hsimulation.after ⟨hrecoded, henvironment⟩ hrun hany).1⟩

/-- The addresses of the two opcodes of `MVI B,5` and `INX B`. -/
def opcodesAt (x : Word) : Prop := x = 0 ∨ x = 2

instance : DecidablePred opcodesAt := fun _ => inferInstanceAs (Decidable (_ ∨ _))

/-- Recoded for `DE`, they leave there what they left in `BC`. -/
theorem recode_mvi_inx :
    let c := Cpu.new (Buses.fullRam fun a => [0x06, 5, 0x03].getD a 0)
    let d := Cpu.new (Buses.fullRam fun a =>
      Arch.Renaming.exchange.memory opcodesAt c.buses.read (BitVec.ofNat 16 a))
    (system.after d [.cycle, .cycle]).arch.pair .de =
      (system.after c [.cycle, .cycle]).arch.pair .bc := by
  intro c d
  have hrecoded : Arch.Recoded .exchange opcodesAt c.arch d.arch := by
    have hmemory : d.arch.memory = Arch.Renaming.exchange.memory opcodesAt c.arch.memory := by
      funext x
      change MemoryBus.flat.read _ x = _
      rw [MemoryBus.read_flat]
      exact congrArg (Arch.Renaming.exchange.memory opcodesAt c.arch.memory)
        (BitVec.eq_of_toNat_eq (by simp))
    have hd : d.arch = (Arch.Renaming.exchange.state c.arch).withMemory
        (Arch.Renaming.exchange.memory opcodesAt c.arch.memory) := by
      refine Arch.State.ext_toFile ?_ rfl hmemory rfl rfl rfl rfl rfl
      exact Arch.File.ext rfl (funext fun r => by cases r <;> rfl) rfl rfl rfl
    rw [hd]
    exact Arch.recoded_memory .exchange opcodesAt c.arch
  have hkeeps : observed.Along (fun c a =>
      c.arch.KeepsApart c.buses.environment .exchange opcodesAt (system.event c a)) c
        [.cycle, .cycle] := by
    have hfirst : system.event c .cycle = .exec 0x06 := by decide
    have hsecond : system.event (system.step c .cycle) .cycle = .exec 0x03 := by decide
    have hpc : (system.step c .cycle).pc = 2 := by decide
    refine ⟨?_, ?_, trivial⟩
    · change Arch.State.KeepsApart _ _ _ _ (system.event c .cycle)
      rw [hfirst]
      exact Arch.keepsApart_of_stores_eq_nil (.inl rfl) (by decide)
        (fun x hx => by rw [show x = 1 from List.mem_singleton.mp hx]; decide) rfl
    · change Arch.State.KeepsApart _ _ _ _ (system.event (system.step c .cycle) .cycle)
      rw [hsecond]
      exact Arch.keepsApart_of_stores_eq_nil (.inr hpc) (by decide)
        (fun x hx => absurd hx List.not_mem_nil) rfl
  have henvironment : c.buses.environment = d.buses.environment := rfl
  rw [(recode .exchange opcodesAt henvironment hrecoded hkeeps).2.same]
  exact Arch.Renaming.exchange.file_pair _ .bc

end Cpu

end Fake8080
