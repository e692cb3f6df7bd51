import Fake8080.Bus.Cells
import Fake8080.Library.StoredStack
import Fake8080.Stack.Operations

/-!
# The machine stack is a stack

A run of push-type and pop-type cycles, with any steps in between that keep the memory and
`SP`, is followed by an abstract stack: the list of the states in which the pending pushes
were made, the most recent first. Below the initial `SP` the memory holds the pushed words
byte by byte as long as those addresses are distinct RAM cells, so a pop delivers the word
of the push on top, and `SP` is back where that push found it. The depth bounds how many
pushes are pending at once; `SP` may wrap.
-/

namespace Fake8080

universe u v

variable {ι : Type u} {δ : Type v}

/-! ### The cells below `SP` -/

/-- The `n` addresses below `sp` resolve to distinct RAM cells, numbered downwards. -/
structure MemoryBus.StackCells (bus : MemoryBus) (sp : Word) (n : ℕ) (cell : ℕ → ℕ) :
    Prop where
  ramCell : ∀ k < n, bus.ramCell (sp - BitVec.ofNat 16 (k + 1)) = some (cell k)
  distinct : ∀ i < n, ∀ j < n, cell i = cell j → i = j

namespace Buses

variable [IOPort ι δ]

/-- A push onto two RAM cells writes the high byte to the upper and the low byte to the
lower. -/
theorem host_performAll_pushEvents {b : Buses ι δ} {sp : Word} {upper lower : ℕ}
    (hupper : b.memoryBus.ramCell (sp - 1) = some upper)
    (hlower : b.memoryBus.ramCell (sp - 2) = some lower) (word : Word) :
    (b.performAll (Superfunction.pushEvents sp word)).host =
      Function.update (Function.update b.host upper (getHighByte word)) lower
        (getLowByte word) := by
  rw [← MemoryBus.write_of_ramCell hupper, ← MemoryBus.write_of_ramCell hlower]
  rfl

end Buses

namespace Cpu

/-! ### Runs -/

/-- A step between stack operations: the memory and `SP` stay, anything else may
change. -/
structure Quiet (c c' : Cpu ι δ) : Prop where
  memoryBus : c'.buses.memoryBus = c.buses.memoryBus
  host : c'.buses.host = c.buses.host
  sp : c'.sp = c.sp

/-- The runs of stack operations from a state, never with more than `depth` pushes pending,
with the abstract stack of the states the pending pushes were made in. -/
inductive StackRun [IOPort ι δ] (depth : ℕ) (c₀ : Cpu ι δ) :
    List (Cpu ι δ) → Cpu ι δ → Prop
  | start : StackRun depth c₀ [] c₀
  | push {pending c word} (hrun : StackRun depth c₀ pending c)
      (hdepth : pending.length < depth) (hpush : c.pushedWord = some word) :
      StackRun depth c₀ (c :: pending) c.cycle
  | pop {p pending c target} (hrun : StackRun depth c₀ (p :: pending) c)
      (hpop : c.popTarget = some target) : StackRun depth c₀ pending c.cycle
  | quiet {pending c c'} (hrun : StackRun depth c₀ pending c) (hquiet : c.Quiet c') :
      StackRun depth c₀ pending c'

/-- The bytes of the pending pushes, the last one written on top. -/
def stackBytes : List (Cpu ι δ) → List Byte
  | [] => []
  | p :: pending =>
    getLowByte (p.pushedWord.getD 0) :: getHighByte (p.pushedWord.getD 0) :: stackBytes pending

@[simp]
theorem length_stackBytes (pending : List (Cpu ι δ)) :
    (stackBytes pending).length = 2 * pending.length := by
  induction pending with
  | nil => rfl
  | cons p pending ih => simp only [stackBytes, List.length_cons, ih, Nat.mul_add]

/-- The pending pushes were made with `SP` two lower for each one below. -/
def Recorded (sp : Word) : List (Cpu ι δ) → Prop
  | [] => True
  | p :: pending => (∃ word, p.pushedWord = some word) ∧
      p.sp = sp - BitVec.ofNat 16 (2 * pending.length) ∧ Recorded sp pending

/-- What a run keeps: the table, `SP` two lower for each pending push, the pushed words in
the cells below the initial `SP`, and all other bytes. -/
structure HoldsStack (depth : ℕ) (c₀ : Cpu ι δ) (cell : ℕ → ℕ) (pending : List (Cpu ι δ))
    (c : Cpu ι δ) : Prop where
  memoryBus : c.buses.memoryBus = c₀.buses.memoryBus
  bounded : pending.length ≤ depth
  sp : c.sp = c₀.sp - BitVec.ofNat 16 (2 * pending.length)
  recorded : Recorded c₀.sp pending
  words : StoredStack cell c.buses.host (stackBytes pending)
  frame : ∀ byte, (∀ k < 2 * depth, cell k ≠ byte) → c.buses.host byte = c₀.buses.host byte

namespace HoldsStack

variable {depth : ℕ} {c₀ c : Cpu ι δ} {cell : ℕ → ℕ} {pending : List (Cpu ι δ)} {p : Cpu ι δ}

theorem start : HoldsStack depth c₀ cell [] c₀ where
  memoryBus := rfl
  bounded := Nat.zero_le _
  sp := (BitVec.sub_zero _).symm
  recorded := trivial
  words := trivial
  frame := fun _ _ => rfl

theorem quiet (h : HoldsStack depth c₀ cell pending c) {c' : Cpu ι δ} (hquiet : c.Quiet c') :
    HoldsStack depth c₀ cell pending c' where
  memoryBus := hquiet.memoryBus.trans h.memoryBus
  bounded := h.bounded
  sp := hquiet.sp.trans h.sp
  recorded := h.recorded
  words := hquiet.host ▸ h.words
  frame := fun byte hbyte => hquiet.host ▸ h.frame byte hbyte

/-- The word `SP` points at is the one pushed last. -/
theorem readTwoBytes_sp (hcells : c₀.buses.memoryBus.StackCells c₀.sp (2 * depth) cell)
    (h : HoldsStack depth c₀ cell (p :: pending) c) :
    p.pushedWord = some (c.readTwoBytes c.sp) := by
  obtain ⟨word, hword⟩ := h.recorded.1
  have hdepth : pending.length < depth := h.bounded
  -- the two bytes `SP` points at are the last two cells in use
  have hlow : c.sp = c₀.sp - BitVec.ofNat 16 (2 * pending.length + 1 + 1) := h.sp
  have hhigh : c.sp + 1 = c₀.sp - BitVec.ofNat 16 (2 * pending.length + 1) := by
    rw [hlow]
    bv_omega
  have hwords := h.words
  simp only [stackBytes, hword, Option.getD_some] at hwords
  have htop := hwords.top
  have hnext := hwords.pop.top
  rw [List.length_cons, length_stackBytes] at htop
  rw [length_stackBytes] at hnext
  rw [hword, readTwoBytes, hhigh, hlow, Buses.read, Buses.read, h.memoryBus,
    MemoryBus.read_of_ramCell (hcells.ramCell (2 * pending.length) (by omega)),
    MemoryBus.read_of_ramCell (hcells.ramCell (2 * pending.length + 1) (by omega)),
    htop, hnext, combineBytes_getHighByte_getLowByte]

variable [IOPort ι δ]

theorem push (hcells : c₀.buses.memoryBus.StackCells c₀.sp (2 * depth) cell)
    (h : HoldsStack depth c₀ cell pending c) (hdepth : pending.length < depth) {word : Word}
    (hpush : c.pushedWord = some word) : HoldsStack depth c₀ cell (c :: pending) c.cycle := by
  obtain ⟨hsp, hbuses⟩ := cycle_of_pushedWord hpush
  have hupper : c.buses.memoryBus.ramCell (c.sp - 1) = some (cell (2 * pending.length)) := by
    have haddress : c.sp - 1 = c₀.sp - BitVec.ofNat 16 (2 * pending.length + 1) := by
      rw [h.sp]
      bv_omega
    rw [haddress, h.memoryBus, hcells.ramCell _ (by omega)]
  have hlower : c.buses.memoryBus.ramCell (c.sp - 2) = some (cell (2 * pending.length + 1)) := by
    have haddress : c.sp - 2 = c₀.sp - BitVec.ofNat 16 (2 * pending.length + 1 + 1) := by
      rw [h.sp]
      bv_omega
    rw [haddress, h.memoryBus, hcells.ramCell _ (by omega)]
  have hhost := Buses.host_performAll_pushEvents hupper hlower word
  -- a deeper push never hits a cell of a pending word
  have hne : ∀ i j, i < j → j < 2 * depth → cell i ≠ cell j := by
    intro i j hij hj heq
    exact Nat.ne_of_lt hij (hcells.distinct i (by omega) j hj heq)
  refine ⟨?_, hdepth, ?_, ⟨⟨word, hpush⟩, h.sp, h.recorded⟩, ?_, fun byte hbyte => ?_⟩
  · rw [hbuses, Buses.memoryBus_performAll, h.memoryBus]
  · rw [hsp, h.sp, List.length_cons]
    bv_omega
  · have hfirst := h.words.push (b := getHighByte word) fun n hn => by
      rw [length_stackBytes] at hn ⊢
      exact hne n _ hn (by omega)
    have hsecond := hfirst.push (b := getLowByte word) fun n hn => by
      rw [List.length_cons, length_stackBytes] at hn ⊢
      exact hne n _ hn (by omega)
    rw [List.length_cons, length_stackBytes] at hsecond
    rw [hbuses, hhost]
    simp only [stackBytes, hpush, Option.getD_some]
    exact hsecond
  · rw [hbuses, hhost, Function.update_of_ne (Ne.symm (hbyte _ (by omega))),
      Function.update_of_ne (Ne.symm (hbyte _ (by omega))), h.frame byte hbyte]

/-- A pop-type cycle takes the top state off the stack. -/
theorem pop (h : HoldsStack depth c₀ cell (p :: pending) c) {target : StackTarget}
    (hpop : c.popTarget = some target) : HoldsStack depth c₀ cell pending c.cycle := by
  obtain ⟨hsp, hbuses, -⟩ := cycle_of_popTarget hpop
  refine ⟨?_, Nat.le_of_succ_le h.bounded, ?_, h.recorded.2.2, ?_, fun byte hbyte => ?_⟩
  · rw [hbuses, h.memoryBus]
  · rw [hsp, h.sp, List.length_cons]
    bv_omega
  · rw [hbuses]
    exact h.words.pop.pop
  · rw [hbuses, h.frame byte hbyte]

end HoldsStack

theorem quiet_requestInterrupt (c : Cpu ι δ) (interruptNum : Byte) :
    c.Quiet (c.requestInterrupt interruptNum) := ⟨rfl, rfl, rfl⟩

variable [IOPort ι δ]

/-- A cycle that makes no call on the buses and keeps `SP` is quiet. -/
theorem quiet_cycle {c : Cpu ι δ} (hcalls : c.cycleCalls c.buses.ioBus.ports = [])
    (hsp : c.cycle.sp = c.sp) : c.Quiet c.cycle := by
  have hbuses : c.cycle.buses = c.buses := by rw [buses_cycle, hcalls, Buses.performAll_nil]
  exact ⟨by rw [hbuses], by rw [hbuses], hsp⟩

/-- Every run keeps the stack. -/
theorem StackRun.holdsStack {depth : ℕ} {c₀ c : Cpu ι δ} {cell : ℕ → ℕ}
    (hcells : c₀.buses.memoryBus.StackCells c₀.sp (2 * depth) cell) {pending : List (Cpu ι δ)}
    (hrun : StackRun depth c₀ pending c) : HoldsStack depth c₀ cell pending c := by
  induction hrun with
  | start => exact .start
  | push hrun hdepth hpush ih => exact ih.push hcells hdepth hpush
  | pop hrun hpop ih => exact ih.pop hpop
  | quiet hrun hquiet ih => exact ih.quiet hquiet

/-- **The machine stack refines an abstract stack.** In every run of push-type and pop-type
cycles whose pending pushes use distinct RAM cells below the initial `SP`, a pop delivers
the word of the push on top, with bit 1 of `F` forced if it goes to `PSW`, and `SP` is what
it was before that push; a pushed `PSW` comes back to `PSW` exactly; and no byte changes
but those of the two cells each nesting level uses. -/
theorem stack_refines_lifo (depth : ℕ) (c₀ c : Cpu ι δ) (cell : ℕ → ℕ)
    (hcells : c₀.buses.memoryBus.StackCells c₀.sp (2 * depth) cell) (pending : List (Cpu ι δ))
    (hrun : StackRun depth c₀ pending c) :
    (∀ p rest target, pending = p :: rest → c.popTarget = some target →
      ∃ word, p.pushedWord = some word ∧ c.cycle.delivered target = target.view word ∧
        c.cycle.sp = p.sp) ∧
    (∀ p rest, pending = p :: rest → p.cycleEvent = .exec 0xF5 →
      c.popTarget = some (.pair .psw) →
        c.cycle.registers.getRegister .a = p.registers.getRegister .a ∧
          c.cycle.registers.getRegister .f = p.registers.getRegister .f) ∧
    ∀ byte, (∀ k < 2 * depth,
        c₀.buses.memoryBus.ramCell (c₀.sp - BitVec.ofNat 16 (k + 1)) ≠ some byte) →
      c.buses.host byte = c₀.buses.host byte := by
  have hholds := hrun.holdsStack hcells
  have hdelivers : ∀ p rest target, pending = p :: rest → c.popTarget = some target →
      ∃ word, p.pushedWord = some word ∧ c.cycle.delivered target = target.view word ∧
        c.cycle.sp = p.sp := by
    rintro p rest target rfl hpop
    obtain ⟨hsp, -, hdelivered⟩ := cycle_of_popTarget hpop
    refine ⟨_, hholds.readTwoBytes_sp hcells, hdelivered, ?_⟩
    rw [(hholds.pop hpop).sp, hholds.recorded.2.1]
  refine ⟨hdelivers, fun p rest hpending hpsw hpop => ?_, fun byte hbyte => ?_⟩
  · -- bit 1 of the pushed `F` was set already, so forcing it changes nothing
    obtain ⟨word, hword, hdelivered, -⟩ := hdelivers p rest _ hpending hpop
    have hpushed : p.pushedWord = some (p.registers.getCombinedRegister .psw) := by
      simp only [pushedWord, hpsw]
      rfl
    obtain rfl : p.registers.getCombinedRegister .psw = word :=
      Option.some.inj (hpushed.symm.trans hword)
    have hsame : c.cycle.registers.getCombinedRegister .psw =
        p.registers.getCombinedRegister .psw := by
      rw [← Registers.getCombinedRegister_psw_or_two p.registers]
      exact hdelivered
    constructor
    · have hhigh := congrArg getHighByte hsame
      rwa [Registers.getHighByte_getCombinedRegister,
        Registers.getHighByte_getCombinedRegister] at hhigh
    · have hlow := congrArg getLowByte hsame
      rwa [Registers.getLowByte_getCombinedRegister,
        Registers.getLowByte_getCombinedRegister] at hlow
  · refine hholds.frame byte fun k hk hcell => hbyte k hk ?_
    rw [hcells.ramCell k hk, hcell]

/-- `CALL` of a routine that is `PUSH PSW`, `POP PSW` and `RET`, and `XRA A` and `RET` at the
vector of interrupt 1. Interrupts are enabled and `SP` is 2, so the pushes pass address 0. -/
def nestedProgram : Cpu Empty Unit where
  pc := 0x0A
  registers := (Registers.initial.setCombinedRegister .sp 2).setRegister .a 0x5A
  latches := { Latches.initial with interruptsEnabled := true }
  buses := Buses.fullRam fun byte => (List.replicate 8 0x00 ++
    [0xAF, 0xC9, 0xCD, 0x0E, 0x00, 0x76, 0xF5, 0xF1, 0xC9]).getD byte 0

/-- The interrupt comes right after the `PUSH PSW`. Its `RET`, the `POP PSW` and the `RET` of
the routine deliver what was pushed for each: the routine has `A` back that the interrupt
cleared, and the caller goes on after its `CALL`. -/
theorem nestedProgram_delivers :
    let called := nestedProgram.cycle
    let handler := (called.cycle.requestInterrupt 1).cycle
    let returned := handler.cycle.cycle
    returned.pc = 0x0F ∧ returned.sp = 0xFFFE ∧
      returned.cycle.registers.getRegister .a = called.registers.getRegister .a ∧
      returned.cycle.sp = 0 ∧ returned.cycle.cycle.pc = 0x0D ∧ returned.cycle.cycle.sp = 2 := by
  intro called handler returned
  let requested := called.cycle.requestInterrupt 1
  have hcells : nestedProgram.buses.memoryBus.StackCells nestedProgram.sp 6
      fun k => if k < 2 then 1 - k else 65537 - k := ⟨by decide, by decide⟩
  -- the call, the push and the interrupt are pending one inside the other
  have hcall : nestedProgram.pushedWord = some 0x0D := by decide
  have hpush : called.pushedWord = some 0x5A02 := by decide +kernel
  have hinterrupt : requested.pushedWord = some 0x0F := by decide +kernel
  have hxra : handler.Quiet handler.cycle := quiet_cycle (by decide +kernel) (by decide +kernel)
  have hrequested : StackRun 3 nestedProgram [called, nestedProgram] requested :=
    .quiet (.push (.push .start (by decide) hcall) (by decide) hpush)
      (called.cycle.quiet_requestInterrupt 1)
  have haccepted : StackRun 3 nestedProgram [requested, called, nestedProgram] handler :=
    .push hrequested (by decide) hinterrupt
  have hnested : StackRun 3 nestedProgram [requested, called, nestedProgram] handler.cycle :=
    .quiet haccepted hxra
  have hret : handler.cycle.popTarget = some .pc := by decide +kernel
  have hpop : returned.popTarget = some (.pair .psw) := by decide +kernel
  have hret' : returned.cycle.popTarget = some .pc := by decide +kernel
  have hreturned : StackRun 3 nestedProgram [called, nestedProgram] returned :=
    .pop hnested hret
  have hpopped : StackRun 3 nestedProgram [nestedProgram] returned.cycle :=
    .pop hreturned hpop
  obtain ⟨word, hword, hpc, hsp⟩ := (stack_refines_lifo 3 nestedProgram _ _ hcells _ hnested).1
    requested _ .pc rfl hret
  obtain rfl : 0x0F = word := Option.some.inj (hinterrupt.symm.trans hword)
  rw [delivered_pc, StackTarget.view_pc] at hpc
  obtain ⟨-, -, -, hsp'⟩ := (stack_refines_lifo 3 nestedProgram _ _ hcells _ hreturned).1
    called _ (.pair .psw) rfl hpop
  have hpsw := (stack_refines_lifo 3 nestedProgram _ _ hcells _ hreturned).2.1
    called _ rfl (by decide +kernel) hpop
  obtain ⟨word, hword, hpc', hsp''⟩ := (stack_refines_lifo 3 nestedProgram _ _ hcells _ hpopped).1
    nestedProgram _ .pc rfl hret'
  obtain rfl : 0x0D = word := Option.some.inj (hcall.symm.trans hword)
  rw [delivered_pc, StackTarget.view_pc] at hpc'
  have hsprequested : requested.sp = 0xFFFE := by decide +kernel
  have hspcalled : called.sp = 0 := by decide
  exact ⟨hpc, hsp.trans hsprequested, hpsw.1, hsp'.trans hspcalled, hpc', hsp''⟩

end Cpu

end Fake8080
