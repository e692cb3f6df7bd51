import Fake8080.Arch.Execution
import Fake8080.Arch.Observation

/-!
# Saving and restoring registers

Pushing a list of pairs, running anything that keeps the stack pointer and the bytes pushed,
and popping the pairs in the opposite order restores the pairs on the list and nothing else
(`State.restore`). An interrupt whose handler does so for all pairs and ends in `EI` and `RET`
is invisible to the code it interrupts (`Cpu.interrupt_transparent`).
-/

namespace Fake8080

universe u v

variable {ι : Type u} {δ : Type v}

namespace Arch

/-! ### Pairs of the stack instructions -/

namespace File

variable (f g : File)

theorem getLsbD_flagByte :
    (∀ flag : Flags, f.flagByte.getLsbD flag.shift = f.flag flag) ∧
      f.flagByte.getLsbD 5 = f.bit5 ∧ f.flagByte.getLsbD 3 = f.bit3 := by
  have hbits : ∀ s z b5 ac b3 p cy : Bool,
      let byte : Byte := BitVec.ofBool s ++ BitVec.ofBool z ++ BitVec.ofBool b5 ++
        BitVec.ofBool ac ++ BitVec.ofBool b3 ++ BitVec.ofBool p ++ 1#1 ++ BitVec.ofBool cy
      byte.getLsbD 7 = s ∧ byte.getLsbD 6 = z ∧ byte.getLsbD 5 = b5 ∧ byte.getLsbD 4 = ac ∧
        byte.getLsbD 3 = b3 ∧ byte.getLsbD 2 = p ∧ byte.getLsbD 0 = cy := by
    decide
  obtain ⟨hs, hz, h5, hac, h3, hp, hcy⟩ := hbits (f.flag .s) (f.flag .z) f.bit5 (f.flag .ac)
    f.bit3 (f.flag .p) (f.flag .cy)
  refine ⟨fun flag => ?_, h5, h3⟩
  cases flag <;> assumption

/-- A flag byte read off gives the flags and the two other bits it was put together from. -/
theorem setFlagByte_flagByte :
    f.setFlagByte g.flagByte = { f with flag := g.flag, bit5 := g.bit5, bit3 := g.bit3 } := by
  obtain ⟨hflag, h5, h3⟩ := g.getLsbD_flagByte
  exact File.ext rfl rfl (funext hflag) h5 h3

/-- A pair takes the value another file has there. -/
theorem stackPair_setStackPair_self (p : StackPair) :
    (f.setStackPair (g.stackPair p) p).stackPair p = g.stackPair p := by
  cases p with
  | psw =>
    change combineBytes (getHighByte (combineBytes _ _))
      (f.setFlagByte (getLowByte (combineBytes _ g.flagByte))).flagByte = _
    rw [getHighByte_combineBytes, getLowByte_combineBytes, setFlagByte_flagByte]
    rfl
  | bc => exact combineBytes_getHighByte_getLowByte _
  | de => exact combineBytes_getHighByte_getLowByte _
  | hl => exact combineBytes_getHighByte_getLowByte _

theorem stackPair_setStackPair_of_ne {p p' : StackPair} (h : p ≠ p') (value : Word) :
    (f.setStackPair value p').stackPair p = f.stackPair p := by
  cases p <;> cases p' <;> first | exact absurd rfl h | rfl

theorem sp_setStackPair (value : Word) (p : StackPair) : (f.setStackPair value p).sp = f.sp := by
  cases p <;> rfl

variable {f g}

/-- Flag bytes determine the flags and the two other bits. -/
theorem flagByte_injective (h : f.flagByte = g.flagByte) :
    f.flag = g.flag ∧ f.bit5 = g.bit5 ∧ f.bit3 = g.bit3 := by
  obtain ⟨hflag, h5, h3⟩ := f.getLsbD_flagByte
  obtain ⟨hflag', h5', h3'⟩ := g.getLsbD_flagByte
  rw [h] at hflag h5 h3
  exact ⟨funext fun flag => (hflag flag).symm.trans (hflag' flag), h5.symm.trans h5', h3.symm.trans h3'⟩

/-- Words are pairs of bytes. -/
theorem combineBytes_inj {x y x' y' : Byte} (h : combineBytes x y = combineBytes x' y') :
    x = x' ∧ y = y' :=
  ⟨by simpa using congrArg getHighByte h, by simpa using congrArg getLowByte h⟩

/-- The stack pointer and the pairs of the stack instructions are all there is. -/
theorem ext_stackPair (hsp : f.sp = g.sp) (h : ∀ p, f.stackPair p = g.stackPair p) : f = g := by
  obtain ⟨hb, hc⟩ := combineBytes_inj (h .bc)
  obtain ⟨hd, he⟩ := combineBytes_inj (h .de)
  obtain ⟨hh, hl⟩ := combineBytes_inj (h .hl)
  obtain ⟨ha, hf⟩ := combineBytes_inj (h .psw)
  obtain ⟨hflag, h5, h3⟩ := flagByte_injective hf
  refine File.ext hsp (funext fun r => ?_) hflag h5 h3
  cases r <;> assumption

end File

/-! ### Saving and restoring -/

section SaveRestore

variable [IOPort ι δ] {env : Environment ι}

/-- The `i`-th byte below a stack pointer. -/
def below (sp : Word) (i : ℕ) : Word := sp - 1 - BitVec.ofNat 16 i

omit [IOPort ι δ] in
theorem below_sub_two (sp : Word) (i : ℕ) : below (sp - 2) i = below sp (i + 2) := by
  rw [below, below, BitVec.ofNat_add]
  bv_omega

/-- The next `n` bytes below a stack pointer can be written one by one. -/
def Environment.OwnBytes (env : Environment ι) (sp : Word) (n : ℕ) : Prop :=
  ∀ i < n, ∀ j < n, env.affects (below sp i) (below sp j) = true ↔ i = j

namespace State

variable (s : State δ)

omit [IOPort ι δ] in
theorem store_pushed (env : Environment ι) (memory : Word → Byte) (value address : Word) :
    env.store memory (s.pushed value) address =
      if env.affects (below s.sp 1) address then getLowByte value
      else if env.affects (below s.sp 0) address then getHighByte value else memory address := by
  have h0 : below s.sp 0 = s.sp - 1 := BitVec.sub_zero _
  have h1 : below s.sp 1 = s.sp - 2 := by
    rw [below]
    bv_omega
  rw [h0, h1]
  rfl

theorem memory_perform_push (p : StackPair) (address : Word) :
    (s.perform env (.push p)).memory address =
      if env.affects (below s.sp 1) address then getLowByte (s.stackPair p)
      else if env.affects (below s.sp 0) address then getHighByte (s.stackPair p)
      else s.memory address := s.store_pushed env s.memory (s.stackPair p) address

/-- Pushing pairs leaves what the bytes below do not affect. -/
theorem memory_performAll_push (ps : List StackPair) {address : Word}
    (h : ∀ i < 2 * ps.length, env.affects (below s.sp i) address = false) :
    (s.performAll env (ps.map .push)).memory address = s.memory address := by
  induction ps generalizing s with
  | nil => rfl
  | cons p ps ih =>
    rw [List.length_cons, Nat.mul_succ] at h
    have hsp : (s.perform env (.push p)).sp = s.sp - 2 := rfl
    rw [List.map_cons, performAll_cons, ih]
    · rw [memory_perform_push, h 1 (by omega), h 0 (by omega)]
      rfl
    · intro i hi
      rw [hsp, below_sub_two]
      exact h (i + 2) (by omega)

/-- A word on top of the stack stays there while pairs are pushed below it. -/
theorem memory_performAll_push_above {sp : Word} (hsp : s.sp = sp - 2) (ps : List StackPair)
    (hown : env.OwnBytes sp (2 * ps.length + 2)) {j : ℕ} (hj : j < 2) :
    (s.performAll env (ps.map .push)).memory (below sp j) = s.memory (below sp j) := by
  refine s.memory_performAll_push ps fun i hi => ?_
  rw [hsp, below_sub_two, Bool.eq_false_iff, ne_eq, hown (i + 2) (by omega) j (by omega)]
  omega

omit [IOPort ι δ] in
/-- A word pushed on bytes of its own can be read back. -/
theorem combineBytes_store_pushed {n : ℕ} (hown : env.OwnBytes s.sp (n + 2))
    (memory : Word → Byte) (value : Word) :
    combineBytes (env.store memory (s.pushed value) (below s.sp 0))
      (env.store memory (s.pushed value) (below s.sp 1)) = value := by
  have hne : ¬ env.affects (below s.sp 1) (below s.sp 0) = true := by
    rw [hown 1 (by omega) 0 (by omega)]
    omega
  rw [store_pushed, store_pushed, if_neg hne, if_pos ((hown 0 (by omega) 0 (by omega)).mpr rfl),
    if_pos ((hown 1 (by omega) 1 (by omega)).mpr rfl), combineBytes_getHighByte_getLowByte]

omit [IOPort ι δ] in
/-- The word two below a stack pointer is the bytes there. -/
theorem word_sub_two (sp : Word) :
    s.word (sp - 2) = combineBytes (s.memory (below sp 0)) (s.memory (below sp 1)) := by
  have h1 : sp - 2 = below sp 1 := by
    rw [below]
    bv_omega
  have h0 : sp - 2 + 1 = below sp 0 := by
    rw [below]
    bv_omega
  rw [word, h0, h1]

/-- Popping pairs changes nothing but registers, `pc` and a pending enable request. -/
theorem performAll_pop (env : Environment ι) (ps : List StackPair) :
    (s.performAll env (ps.map .pop)).memory = s.memory ∧
      (s.performAll env (ps.map .pop)).devices = s.devices := by
  induction ps generalizing s with
  | nil => exact ⟨rfl, rfl⟩
  | cons p ps ih => exact ih (s.perform env (.pop p))

theorem stackPair_perform_pop (env : Environment ι) (p p' : StackPair) :
    (s.perform env (.pop p)).sp = s.sp + 2 ∧
    (p' ≠ p → (s.perform env (.pop p)).stackPair p' = s.stackPair p') ∧
    ∀ f : File, f.stackPair p = s.word s.sp →
      (s.perform env (.pop p)).stackPair p = f.stackPair p := by
  have hfile : (s.perform env (.pop p)).toFile =
      ({ s.toFile with sp := s.sp + 2 } : File).setStackPair (s.word s.sp) p := rfl
  have hkept : ∀ p, File.stackPair { s.toFile with sp := s.sp + 2 } p = s.stackPair p := by
    intro p
    cases p <;> rfl
  rw [hfile]
  refine ⟨File.sp_setStackPair _ _ p, fun h => ?_, fun f hf => ?_⟩
  · rw [File.stackPair_setStackPair_of_ne _ h, hkept]
  · rw [← hf, File.stackPair_setStackPair_self]

/-- **Saving and restoring.** Push pairs on bytes of their own, go on to any state that has
the stack pointer and the bytes pushed, and pop the pairs in the opposite order: the stack
pointer and the pairs are back, and the pairs that were not pushed are as they were before
the pops. -/
theorem restore (ps : List StackPair) (hown : env.OwnBytes s.sp (2 * ps.length)) {t : State δ}
    (hsp : t.sp = (s.performAll env (ps.map .push)).sp)
    (hbytes : ∀ i < 2 * ps.length, t.memory (below s.sp i) =
      (s.performAll env (ps.map .push)).memory (below s.sp i)) :
    (t.performAll env (ps.reverse.map .pop)).sp = s.sp ∧
    (∀ p ∈ ps, (t.performAll env (ps.reverse.map .pop)).stackPair p = s.stackPair p) ∧
    ∀ p ∉ ps, (t.performAll env (ps.reverse.map .pop)).stackPair p = t.stackPair p := by
  -- the first pair pushed is the last one popped
  induction ps generalizing s with
  | nil => exact ⟨hsp, by simp, fun p _ => rfl⟩
  | cons p ps ih =>
    set s' := s.perform env (.push p) with hs'
    have hsp' : s'.sp = s.sp - 2 := rfl
    rw [List.length_cons, Nat.mul_succ] at hown hbytes
    have hpush : s.performAll env ((p :: ps).map .push) = s'.performAll env (ps.map .push) := rfl
    rw [hpush] at hsp hbytes
    have hown' : env.OwnBytes s'.sp (2 * ps.length) := by
      intro i hi j hj
      rw [hsp', below_sub_two, below_sub_two, hown (i + 2) (by omega) (j + 2) (by omega)]
      omega
    obtain ⟨ihsp, ihmem, ihnot⟩ := ih s' hown' hsp fun i hi => by
      rw [hsp', below_sub_two]
      exact hbytes (i + 2) (by omega)
    set u := t.performAll env (ps.reverse.map .pop) with hu
    have hmemory : u.memory = t.memory := (t.performAll_pop env ps.reverse).1
    have hpop : t.performAll env ((p :: ps).reverse.map .pop) = u.perform env (.pop p) := by
      rw [List.reverse_cons, List.map_append, performAll_append]
      rfl
    -- the word of the first pair is out of reach of the later pushes
    have hbyte : ∀ j < 2, t.memory (below s.sp j) = s'.memory (below s.sp j) := by
      intro j hj
      rw [hbytes j (by omega), s'.memory_performAll_push_above hsp' ps hown hj]
    have hword : u.word u.sp = s.stackPair p := by
      rw [ihsp, hsp', word_sub_two, hmemory, hbyte 0 (by omega), hbyte 1 (by omega)]
      exact s.combineBytes_store_pushed hown s.memory (s.stackPair p)
    have hstep := fun p' => u.stackPair_perform_pop env p p'
    have hself := (hstep p).2.2 s.toFile hword.symm
    have hsame : ∀ p, s'.stackPair p = s.stackPair p := by
      intro p
      cases p <;> rfl
    rw [hpop]
    refine ⟨?_, fun p' hp' => ?_, fun p' hp' => ?_⟩
    · rw [(hstep p).1, ihsp, hsp', BitVec.sub_add_cancel]
    · by_cases h : p' = p
      · subst h
        exact hself
      · have hmem : p' ∈ ps := by simpa [h] using hp'
        rw [(hstep p').2.1 h, ihmem p' hmem, hsame]
    · have hne : p' ≠ p ∧ p' ∉ ps := by simpa using hp'
      rw [(hstep p').2.1 hne.1, ihnot p' hne.2]

end State

end SaveRestore

/-! ### Opcodes -/

namespace StackPair

/-- The code of a pair. -/
def code : StackPair → BitVec 2
  | .bc => 0
  | .de => 1
  | .hl => 2
  | .psw => 3

/-- The opcode that pushes a pair. -/
def pushOpcode (p : StackPair) : Byte := 0b11#2 ++ p.code ++ 0b0101#4

/-- The opcode that pops a pair. -/
def popOpcode (p : StackPair) : Byte := 0b11#2 ++ p.code ++ 0b0001#4

theorem decode_pushOpcode (p : StackPair) : Op.decode p.pushOpcode = .push p := by
  cases p <;> rfl

theorem decode_popOpcode (p : StackPair) : Op.decode p.popOpcode = .pop p := by
  cases p <;> rfl

theorem mem_all (p : StackPair) : p ∈ [psw, bc, de, hl] := by cases p <;> decide

end StackPair

end Arch

/-! ### Interrupts -/

namespace Arch.State

variable [IOPort ι δ] {env : Environment ι} (s : State δ)

/-- An acceptance, the pairs pushed, anything that keeps what is on the stack, the pairs
popped, `EI` and `RET` bring the registers and the program counter back. -/
theorem restore_of_accept (ps : List StackPair) (hps : ∀ p, p ∈ ps)
    (hown : env.OwnBytes s.sp (2 * ps.length + 2)) {t : State δ}
    (hsp : t.sp = ((s.next env .accept).performAll env (ps.map .push)).sp)
    (hbytes : ∀ i < 2 * ps.length + 2, t.memory (below s.sp i) =
      ((s.next env .accept).performAll env (ps.map .push)).memory (below s.sp i)) :
    let u := t.performAll env (ps.reverse.map .pop ++ [.ei, .ret none])
    u.toFile = s.toFile ∧ u.pc = s.pc ∧ u.memory = t.memory ∧ u.devices = t.devices := by
  set a := s.next env .accept with ha
  have hasp : a.sp = s.sp - 2 := rfl
  have hown' : env.OwnBytes a.sp (2 * ps.length) := by
    intro i hi j hj
    rw [hasp, below_sub_two, below_sub_two, hown (i + 2) (by omega) (j + 2) (by omega)]
    omega
  obtain ⟨hrsp, hrmem, -⟩ := a.restore ps hown' hsp fun i hi => by
    rw [hasp, below_sub_two]
    exact hbytes (i + 2) (by omega)
  set r := t.performAll env (ps.reverse.map .pop) with hr
  obtain ⟨hmemory, hdevices⟩ := t.performAll_pop env ps.reverse
  rw [← hr] at hmemory hdevices
  have hreturn : t.performAll env (ps.reverse.map .pop ++ [.ei, .ret none]) =
      (r.perform env .ei).perform env (.ret none) := performAll_append env t _ _
  have hbyte : ∀ j < 2, t.memory (below s.sp j) = a.memory (below s.sp j) := by
    intro j hj
    rw [hbytes j (by omega), a.memory_performAll_push_above hasp ps hown hj]
  have hword : r.word r.sp = s.pc := by
    rw [hrsp, hasp, word_sub_two, hmemory, hbyte 0 (by omega), hbyte 1 (by omega)]
    exact s.combineBytes_store_pushed hown s.memory s.pc
  have hsame : ∀ p, a.stackPair p = s.stackPair p := by
    intro p
    cases p <;> rfl
  rw [hreturn]
  refine ⟨File.ext_stackPair ?_ fun p => ?_, hword, hmemory, hdevices⟩
  · change r.sp + 2 = _
    rw [hrsp, hasp, BitVec.sub_add_cancel]
  · refine Eq.trans ?_ ((hrmem p (hps p)).trans (hsame p))
    cases p <;> rfl

end Arch.State

namespace Cpu

variable [IOPort ι δ]

theorem arch_after_pushes {c : Cpu ι δ} {ps : List Arch.StackPair}
    (haccept : c.cycleEvent = .accept)
    (hpushes : system.history c.cycle (List.replicate ps.length .cycle) =
      ps.map fun p => .exec p.pushOpcode) :
    (system.after c (.cycle :: List.replicate ps.length .cycle)).arch =
      (c.arch.next c.buses.environment .accept).performAll c.buses.environment
        (ps.map .push) := by
  have henvironment : c.cycle.buses.environment = c.buses.environment := (c.arch_after [.cycle]).2
  have h := arch_after_execs c.cycle (ps.map Arch.StackPair.pushOpcode)
    (by rw [List.length_map, List.map_map]; exact hpushes)
  rw [arch_cycle_of_accept haccept, henvironment, List.length_map, List.map_map] at h
  refine h.trans (congrArg _ (List.map_congr_left fun p _ => ?_))
  exact p.decode_pushOpcode

/-- A run that ends in `EI` and `RET` ends with interrupts enabled, none of them pending. -/
theorem latches_of_ei_ret {c : Cpu ι δ} {n : ℕ} {events : List Event}
    (h : system.history c (List.replicate (n + 2) .cycle) = events ++ [.ei, .exec 0xC9]) :
    let d := system.after c (List.replicate (n + 2) .cycle)
    d.latches.interruptsEnabled = true ∧ d.latches.halted = false ∧
      d.latches.interruptRequested = false := by
  have hlast : ∀ m, List.replicate (m + 1) Action.cycle = List.replicate m .cycle ++ [.cycle] :=
    fun m => List.replicate_succ'
  set u := system.after c (List.replicate n .cycle) with hu
  have hevents : system.history c (List.replicate n .cycle) ++ [u.cycleEvent, u.cycle.cycleEvent] =
      events ++ [.ei, .exec 0xC9] := by
    rw [← h, hlast, hlast, Reactive.history_concat, Reactive.history_concat, List.append_assoc,
      Reactive.after_concat]
    rfl
  obtain ⟨-, hpair⟩ := List.append_inj' hevents rfl
  obtain ⟨hei, hret⟩ : u.cycleEvent = .ei ∧ u.cycle.cycleEvent = .exec 0xC9 := by
    simpa using hpair
  have hfinal : system.after c (List.replicate (n + 2) .cycle) = u.cycle.cycle := by
    rw [hlast, hlast, Reactive.after_concat, Reactive.after_concat]
    rfl
  have hrequested : u.cycle.latches.interruptsEnableRequested = true := by
    have hlatches := u.latches_step .cycle
    rw [show system.event u .cycle = .ei from hei] at hlatches
    exact (congrArg Latches.interruptsEnableRequested hlatches).trans
      (u.latches.next_exec_interruptsEnableRequested 0xFB)
  obtain ⟨haccepts, hhalted, -⟩ := cycleEvent_eq_exec_iff.mp hret
  have hlatches : u.cycle.cycle.latches = u.cycle.latches.next (.exec 0xC9) := by
    have hlatches := u.cycle.latches_step .cycle
    rw [show system.event u.cycle .cycle = .exec 0xC9 from hret] at hlatches
    exact hlatches
  rw [accepts_eq, hrequested, Bool.true_or, Bool.and_true] at haccepts
  intro d
  rw [show d.latches = _ from (congrArg Cpu.latches hfinal).trans hlatches]
  refine ⟨?_, ?_, ?_⟩
  · rw [Latches.next_exec_interruptsEnabled, hrequested]
    rfl
  · rw [Latches.next_exec_halted, hhalted]
    rfl
  · rw [Latches.next, Superfunction.latchEffect_interruptRequested,
      Latches.promote_interruptRequested]
    exact haccepts

/-- A handler that saves all pairs comes back with the registers, the program counter and
interrupts enabled, and with what its body left in memory and devices. -/
theorem arch_of_saved (c : Cpu ι δ) (ps : List Arch.StackPair) (hps : ∀ p, p ∈ ps)
    (hown : c.buses.environment.OwnBytes c.sp (2 * ps.length + 2)) (body : List Action)
    {saved done : Cpu ι δ}
    (hsaved : saved = system.after c (List.replicate (ps.length + 1) .cycle))
    (hentry : system.history c (List.replicate (ps.length + 1) .cycle) =
      .accept :: ps.map fun p => .exec p.pushOpcode)
    (hdone : done = system.after saved body) (hsp : done.sp = saved.sp)
    (hbytes : ∀ i < 2 * ps.length + 2,
      done.buses.read (Arch.below c.sp i) = saved.buses.read (Arch.below c.sp i))
    (hexit : system.history done (List.replicate (ps.length + 2) .cycle) =
      (ps.reverse.map fun p => .exec p.popOpcode) ++ [.ei, .exec 0xC9]) :
    let resumed := (system.after done (List.replicate (ps.length + 2) .cycle)).arch
    resumed.toFile = c.arch.toFile ∧ resumed.pc = c.arch.pc ∧
    resumed.memory = done.arch.memory ∧ resumed.devices = done.arch.devices := by
  obtain ⟨haccept, hpushes⟩ : c.cycleEvent = .accept ∧
      system.history c.cycle (List.replicate ps.length .cycle) =
        ps.map fun p => .exec p.pushOpcode := List.cons.inj hentry
  have harch := c.arch_after_pushes haccept hpushes
  rw [← (List.replicate_succ : List.replicate (ps.length + 1) Action.cycle = _), ← hsaved] at harch
  have henvironment : done.buses.environment = c.buses.environment := by
    rw [hdone, (saved.arch_after body).2, hsaved, (c.arch_after _).2]
  have hlength : (ps.reverse.map Arch.StackPair.popOpcode ++ [0xFB, 0xC9]).length = ps.length + 2 := by simp
  have hdecode : (ps.reverse.map Arch.StackPair.popOpcode ++ [0xFB, 0xC9]).map Arch.Op.decode =
      ps.reverse.map .pop ++ [.ei, .ret none] := by
    rw [List.map_append, List.map_map]
    refine congrArg (· ++ _) (List.map_congr_left fun p _ => ?_)
    exact p.decode_popOpcode
  have hresumed := arch_after_execs done
    (ps.reverse.map Arch.StackPair.popOpcode ++ [0xFB, 0xC9])
    (by rw [hlength, hexit, List.map_append, List.map_map]; rfl)
  rw [hlength, hdecode, henvironment] at hresumed
  rw [hresumed]
  exact c.arch.restore_of_accept ps hps hown (by rw [← harch]; exact hsp)
    (by rw [← harch]; exact hbytes)

/-- **Interrupts are transparent.** Say an interrupt is accepted and its handler pushes all
pairs, in some order, on bytes that can be written one by one. Whatever is called then, if it
keeps the stack pointer and the bytes pushed and the handler then pops the pairs in the
opposite order and executes `EI` and `RET`, the program goes on where it was interrupted, with
the registers it had, not halted and with interrupts enabled; what the handler's body left in
memory and devices is what it finds there. -/
theorem interrupt_transparent (c : Cpu ι δ) (ps : List Arch.StackPair) (hps : ∀ p, p ∈ ps)
    (hown : c.buses.environment.OwnBytes c.sp (2 * ps.length + 2)) (body : List Action)
    {saved done : Cpu ι δ}
    (hsaved : saved = system.after c (List.replicate (ps.length + 1) .cycle))
    (hentry : system.history c (List.replicate (ps.length + 1) .cycle) =
      .accept :: ps.map fun p => .exec p.pushOpcode)
    (hdone : done = system.after saved body) (hsp : done.sp = saved.sp)
    (hbytes : ∀ i < 2 * ps.length + 2,
      done.buses.read (Arch.below c.sp i) = saved.buses.read (Arch.below c.sp i))
    (hexit : system.history done (List.replicate (ps.length + 2) .cycle) =
      (ps.reverse.map fun p => .exec p.popOpcode) ++ [.ei, .exec 0xC9]) :
    let resumed := system.after done (List.replicate (ps.length + 2) .cycle)
    resumed.pc = c.pc ∧ resumed.registers.SameButScratch c.registers ∧
    resumed.latches.interruptsEnabled = true ∧ resumed.latches.halted = false ∧
    resumed.latches.interruptRequested = false ∧
    resumed.buses.read = done.buses.read ∧ resumed.buses.devices = done.buses.devices := by
  obtain ⟨hfile, hpc, hmemory, hdevices⟩ :=
    c.arch_of_saved ps hps hown body hsaved hentry hdone hsp hbytes hexit
  obtain ⟨henabled, hhalted, hrequested⟩ := latches_of_ei_ret hexit
  exact ⟨hpc, file_eq_iff_sameButScratch.mp hfile, henabled, hhalted, hrequested, hmemory, hdevices⟩

/-- A CPU about to accept an interrupt whose handler increments `A`. -/
def interrupted : Cpu Empty Unit :=
  { Cpu.new (Buses.fullRam fun a =>
      [0xF5, 0xC5, 0xD5, 0xE5, 0x3C, 0xE1, 0xD1, 0xC1, 0xF1, 0xFB, 0xC9].getD (a - 8) 0) with
    pc := 0x40
    registers := Registers.initial.setCombinedRegister .sp 0x100
    latches := { Latches.initial with
      interruptsEnabled := true
      interruptRequested := true
      interruptVectorRequested := 1 } }

/-- The ten bytes below the stack pointer can be written one by one. -/
theorem ownBytes_interrupted : interrupted.buses.environment.OwnBytes interrupted.sp 10 := by
  have hsp : interrupted.sp = 0x100 := by decide
  intro i hi j hj
  change decide (MemoryBus.flat.Affects _ _) = true ↔ _
  rw [decide_eq_true_iff, MemoryBus.affects_flat, hsp]
  simp only [Arch.below]
  constructor
  · intro h
    have hi' : i < 65536 := by omega
    bv_omega
  · rintro rfl
    rfl

theorem history_interrupted :
    system.history interrupted (List.replicate 5 .cycle) =
      .accept :: [.psw, .bc, .de, .hl].map (fun p : Arch.StackPair => .exec p.pushOpcode) ∧
    (let done := system.after (system.after interrupted (List.replicate 5 .cycle)) [.cycle]
    system.history done (List.replicate 6 .cycle) =
      [.hl, .de, .bc, .psw].map (fun p : Arch.StackPair => .exec p.popOpcode) ++ [.ei, .exec 0xC9]) :=
  ⟨by decide +kernel, by decide +kernel⟩

theorem stack_interrupted :
    let saved := system.after interrupted (List.replicate 5 .cycle)
    let done := system.after saved [.cycle]
    done.sp = saved.sp ∧ ∀ i < 10, done.buses.read (Arch.below interrupted.sp i) =
      saved.buses.read (Arch.below interrupted.sp i) :=
  ⟨by decide +kernel, by decide +kernel⟩

/-- The increment is undone. -/
theorem interrupt_transparent_inr :
    let saved := system.after interrupted (List.replicate 5 .cycle)
    let resumed := system.after (system.after saved [.cycle]) (List.replicate 6 .cycle)
    resumed.registers.SameButScratch interrupted.registers :=
  (interrupt_transparent interrupted [.psw, .bc, .de, .hl] Arch.StackPair.mem_all
    ownBytes_interrupted [.cycle] rfl history_interrupted.1 rfl stack_interrupted.1
    stack_interrupted.2 history_interrupted.2).2.1

end Cpu

end Fake8080
