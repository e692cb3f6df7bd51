import Fake8080.Isa.Footprint

/-!
# Push-type and pop-type cycles

`Cpu.pushedWord` says which word the next cycle pushes, if it pushes one: a pair, the
return address of a call, or the `pc` an interrupt saves. `Cpu.popTarget` says where the
next cycle delivers the word it pops, if it pops one. A push-type cycle writes its word
below `SP` and moves `SP` down by two; a pop-type cycle writes nothing, moves `SP` up by
two and delivers the word `SP` pointed at.
-/

namespace Fake8080

universe u v

variable {ι : Type u} {δ : Type v}

/-! ### Which cycles push and pop -/

/-- Where a popped word goes. -/
inductive StackTarget
  | pair (reg : CombinedRegister)
  | pc
  deriving DecidableEq

/-- What a target makes of a word: `F` forces its bit 1. -/
def StackTarget.view (target : StackTarget) (word : Word) : Word :=
  if target = .pair .psw then word ||| 2 else word

@[simp]
theorem StackTarget.view_pc (word : Word) : StackTarget.pc.view word = word := rfl

/-- The ways an instruction pops. -/
inductive PopAction
  | none
  | pop (pair : CombinedRegister)
  | ret
  | conditionalRet (flag : Flags) (negate : Bool)
  deriving DecidableEq

/-- How an opcode pops. -/
def PopAction.ofOpcode (opcode : Byte) : PopAction :=
  match opcode with
  | 0xC1 => pop .bc
  | 0xD1 => pop .de
  | 0xE1 => pop .hl
  | 0xF1 => pop .psw
  | 0xC9 | 0xD9 => ret
  | 0xC0 => conditionalRet .z true
  | 0xC8 => conditionalRet .z false
  | 0xD0 => conditionalRet .cy true
  | 0xD8 => conditionalRet .cy false
  | 0xE0 => conditionalRet .p true
  | 0xE8 => conditionalRet .p false
  | 0xF0 => conditionalRet .s true
  | 0xF8 => conditionalRet .s false
  | _ => none

namespace Cpu

/-- The word the next cycle pushes, if it pushes one. -/
def pushedWord (c : Cpu ι δ) : Option Word :=
  match c.cycleEvent with
  | .accept => some c.pc
  | .exec opcode =>
    match BusAction.ofOpcode opcode with
    | .push pair => some (c.registers.getCombinedRegister pair)
    | .call => some (c.pc + 3)
    | .conditionalCall flag negate =>
      if c.registers.getFlag flag != negate then some (c.pc + 3) else none
    | .rst => some (c.pc + 1)
    | _ => none
  | _ => none

/-- Where the next cycle delivers the word it pops, if it pops one. -/
def popTarget (c : Cpu ι δ) : Option StackTarget :=
  match c.cycleEvent with
  | .exec opcode =>
    match PopAction.ofOpcode opcode with
    | .pop pair => some (.pair pair)
    | .ret => some .pc
    | .conditionalRet flag negate => if c.registers.getFlag flag != negate then some .pc else none
    | .none => none
  | _ => none

/-- What a target holds. -/
def delivered (c : Cpu ι δ) : StackTarget → Word
  | .pair reg => c.registers.getCombinedRegister reg
  | .pc => c.pc

@[simp]
theorem delivered_pc (c : Cpu ι δ) : c.delivered .pc = c.pc := rfl

end Cpu

/-! ### The instructions behind them -/

namespace Superfunction

/-- How a superfunction pops. -/
def popAction : Superfunction → PopAction
  | .popRR reg => .pop reg
  | .ret => .ret
  | .conditionalRet flagToVerify negate => .conditionalRet flagToVerify negate
  | _ => .none

/-- The opcodes that pop are those listed. -/
theorem popAction_ofOpcode (opcode : Byte) : (ofOpcode opcode).popAction = .ofOpcode opcode :=
  ofOpcode_of_decode (P := fun opcode f => f.popAction = .ofOpcode opcode)
    (by decide +kernel) opcode

/-- The instruction leaves `SP` two lower. -/
def LowersSp [IOPort ι δ] (f : Superfunction) (c : Cpu ι δ) : Prop :=
  (f.nextRegisters c).getCombinedRegister .sp = c.sp - 2

/-- A call of `callAddress` leaves `SP` two lower. -/
theorem getCombinedRegister_sp_pushedRegisters (r : Registers) (returnAddress : Word) :
    (pushedRegisters r returnAddress).getCombinedRegister .sp =
      r.getCombinedRegister .sp - 2 :=
  Registers.getCombinedRegister_setCombinedRegister_self _ (by decide) _

theorem getCombinedRegister_sp_poppedRegisters (r : Registers) (returnAddress : Word) :
    (poppedRegisters r returnAddress).getCombinedRegister .sp =
      r.getCombinedRegister .sp + 2 := by
  rw [poppedRegisters, Registers.getCombinedRegister_setCombinedRegister_of_ne _ (by decide),
    Registers.getCombinedRegister_setCombinedRegister_self _ (by decide)]

theorem lowersSp [IOPort ι δ] (f : Superfunction) (c : Cpu ι δ) :
    match f.busAction with
    | .push _ | .call | .rst => f.LowersSp c
    | .conditionalCall flag negate => c.taken flag negate = true → f.LowersSp c
    | _ => True := by
  cases f with
  | pushRR reg => exact Registers.getCombinedRegister_setCombinedRegister_self _ (by decide) _
  | callA16 => exact getCombinedRegister_sp_pushedRegisters _ _
  | rstN rstVector => exact getCombinedRegister_sp_pushedRegisters _ _
  | conditionalCallA16 flagToVerify negate =>
    intro h
    rw [LowersSp, nextRegisters, if_pos h]
    exact getCombinedRegister_sp_pushedRegisters _ _
  -- not a push, whichever action its operation is
  | inrDcrM op => cases op <;> trivial
  | _ => trivial

/-- What a pop delivers from the word `SP` points at. -/
structure Pops [IOPort ι δ] (f : Superfunction) (c : Cpu ι δ) (target : StackTarget) : Prop where
  sp : (f.nextRegisters c).getCombinedRegister .sp = c.sp + 2
  footprint : f.footprint c = []
  delivered : (f.next c).delivered target = target.view (c.readTwoBytes c.sp)

/-- Every popping instruction delivers the word `SP` points at. -/
theorem pops [IOPort ι δ] {f : Superfunction} (hf : f.Programmable) (c : Cpu ι δ) :
    match f.popAction with
    | .pop pair => f.Pops c (.pair pair)
    | .ret => f.Pops c .pc
    | .conditionalRet flag negate => c.taken flag negate = true → f.Pops c .pc
    | .none => True := by
  cases f with
  | popRR reg =>
    refine ⟨?_, rfl, ?_⟩
    · rw [nextRegisters, Registers.getCombinedRegister_setCombinedRegister_of_ne _ hf.2.symm,
        Registers.getCombinedRegister_setCombinedRegister_self _ (by decide)]
    · rw [Cpu.delivered, next, nextRegisters, StackTarget.view]
      by_cases hpsw : reg = .psw
      · rw [if_pos (congrArg _ hpsw), hpsw, Registers.getCombinedRegister_setCombinedRegister_psw]
      · rw [if_neg fun h => hpsw (StackTarget.pair.inj h),
          Registers.getCombinedRegister_setCombinedRegister_self _ hpsw]
  | ret => exact ⟨getCombinedRegister_sp_poppedRegisters _ _, rfl, rfl⟩
  | conditionalRet flagToVerify negate =>
    intro h
    refine ⟨?_, rfl, ?_⟩
    · rw [nextRegisters, if_pos h]
      exact getCombinedRegister_sp_poppedRegisters _ _
    · rw [Cpu.delivered, next, nextPc, if_pos h]
      rfl
  | _ => trivial

end Superfunction

/-! ### Their effect -/

namespace Cpu

theorem busCalls_push (device : Byte → Option ι) (c : Cpu ι δ) (pair : CombinedRegister) :
    c.busCalls device (.push pair) =
      Superfunction.pushEvents c.sp (c.registers.getCombinedRegister pair) := by
  rw [Superfunction.pushEvents, Registers.getHighByte_getCombinedRegister,
    Registers.getLowByte_getCombinedRegister, busCalls]

variable [IOPort ι δ]

/-- A push-type cycle writes its word below `SP` and lowers `SP` by two. -/
theorem cycle_of_pushedWord {c : Cpu ι δ} {word : Word} (h : c.pushedWord = some word) :
    c.cycle.sp = c.sp - 2 ∧
      c.cycle.buses = c.buses.performAll (Superfunction.pushEvents c.sp word) := by
  rw [buses_cycle, cycleCalls]
  rw [pushedWord] at h
  rcases c.cycleEvent_cases with he | he | ⟨opcode, he⟩
  · rw [he] at h ⊢
    obtain rfl : c.pc = word := Option.some.inj h
    rw [cycle_eq_of_accept he]
    exact ⟨Superfunction.getCombinedRegister_sp_pushedRegisters _ _, rfl⟩
  · rw [he] at h
    cases h
  · simp only [he] at h ⊢
    rw [cycle_eq_of_exec he]
    have hsp := Superfunction.lowersSp (Superfunction.ofOpcode opcode) c.fetched
    rw [Superfunction.busAction_ofOpcode] at hsp
    cases haction : BusAction.ofOpcode opcode with
    | push pair =>
      rw [haction] at h hsp
      obtain rfl : _ = word := Option.some.inj h
      exact ⟨hsp, by rw [busCalls_push]⟩
    | call =>
      rw [haction] at h hsp
      obtain rfl : _ = word := Option.some.inj h
      exact ⟨hsp, rfl⟩
    | rst =>
      rw [haction] at h hsp
      obtain rfl : _ = word := Option.some.inj h
      exact ⟨hsp, rfl⟩
    | conditionalCall flag negate =>
      rw [haction] at h hsp
      by_cases htaken : c.fetched.taken flag negate = true
      · have hflag : (c.registers.getFlag flag != negate) = true := htaken
        simp only [hflag, if_true, Option.some.injEq] at h
        refine ⟨hsp htaken, ?_⟩
        rw [busCalls, if_pos hflag, h]
      · have hflag : ¬ (c.registers.getFlag flag != negate) = true := htaken
        simp only [if_neg hflag] at h
        cases h
    | _ =>
      rw [haction] at h
      cases h

/-- A pop-type cycle does nothing to the buses, raises `SP` by two and delivers the word
`SP` pointed at. -/
theorem cycle_of_popTarget {c : Cpu ι δ} {target : StackTarget} (h : c.popTarget = some target) :
    c.cycle.sp = c.sp + 2 ∧ c.cycle.buses = c.buses ∧
      c.cycle.delivered target = target.view (c.readTwoBytes c.sp) := by
  rw [popTarget] at h
  rcases c.cycleEvent_cases with he | he | ⟨opcode, he⟩
  · rw [he] at h
    cases h
  · rw [he] at h
    cases h
  · simp only [he] at h
    rw [cycle_eq_superfunction_next he]
    have hpops : (Superfunction.ofOpcode opcode).Pops c.fetched target := by
      have hall := Superfunction.pops (Superfunction.programmable_ofOpcode opcode) c.fetched
      rw [Superfunction.popAction_ofOpcode] at hall
      cases haction : PopAction.ofOpcode opcode with
      | pop pair =>
        rw [haction] at h hall
        exact Option.some.inj h ▸ hall
      | ret =>
        rw [haction] at h hall
        exact Option.some.inj h ▸ hall
      | conditionalRet flag negate =>
        rw [haction] at h hall
        by_cases htaken : c.fetched.taken flag negate = true
        · have hflag : (c.registers.getFlag flag != negate) = true := htaken
          simp only [hflag, if_true, Option.some.injEq] at h
          exact h ▸ hall htaken
        · have hflag : ¬ (c.registers.getFlag flag != negate) = true := htaken
          simp only [if_neg hflag] at h
          cases h
      | none =>
        rw [haction] at h
        cases h
    refine ⟨hpops.sp, ?_, hpops.delivered⟩
    rw [Superfunction.next, hpops.footprint, Buses.performAll_nil]
    rfl

end Cpu

end Fake8080
