import Fake8080.Arch.Reads

/-!
# Renamed registers

`BC` and `DE` are two of a kind: but for `XCHG`, every instruction on the one has its counterpart
on the other. A `Renaming` exchanges the two or keeps them; a renamed instruction reads, stores
and calls what the instruction does, and does the same to the registers in their new places
(`Renaming.operate_eq`).
-/

namespace Fake8080

universe u v

variable {ι : Type u} {δ : Type v}

namespace Arch

/-- The pairs `BC` and `DE` are kept or exchanged. -/
inductive Renaming
  | keep | exchange
  deriving DecidableEq

namespace Renaming

/-- The register that takes the place of a register. -/
def reg : Renaming → Reg → Reg
  | exchange, .b => .d
  | exchange, .c => .e
  | exchange, .d => .b
  | exchange, .e => .c
  | _, r => r

/-- The pair that takes the place of a pair. -/
def pair : Renaming → Pair → Pair
  | exchange, .bc => .de
  | exchange, .de => .bc
  | _, p => p

/-- The same for the stack instructions. -/
def stackPair : Renaming → StackPair → StackPair
  | exchange, .bc => .de
  | exchange, .de => .bc
  | _, p => p

variable (ρ : Renaming)

/-- The operand that takes the place of an operand. -/
def operand : Operand → Operand
  | .reg r => .reg (ρ.reg r)
  | .memory => .memory

/-- The instruction that takes the place of an instruction. -/
def op : Op → Op
  | .mov destination source => .mov (ρ.operand destination) (ρ.operand source)
  | .mvi destination => .mvi (ρ.operand destination)
  | .alu operation source => .alu operation (ρ.operand source)
  | .inr destination => .inr (ρ.operand destination)
  | .dcr destination => .dcr (ρ.operand destination)
  | .lxi p => .lxi (ρ.pair p)
  | .inx p => .inx (ρ.pair p)
  | .dcx p => .dcx (ρ.pair p)
  | .dad p => .dad (ρ.pair p)
  | .stax p => .stax (ρ.pair p)
  | .ldax p => .ldax (ρ.pair p)
  | .push p => .push (ρ.stackPair p)
  | .pop p => .pop (ρ.stackPair p)
  | op => op

/-- The code that takes the place of the code of a register, or of a pair with the bit below. -/
def code (y : BitVec 3) : BitVec 3 := if ρ = exchange ∧ y.getLsbD 2 = false then y ^^^ 2 else y

/-- The opcode that takes the place of an opcode `xxyyyzzz`. -/
def opcode (opcode : Byte) : Byte :=
  let x := opcode.extractLsb' 6 2
  let y := opcode.extractLsb' 3 3
  let z := opcode.extractLsb' 0 3
  match x with
  | 0 => if z = 0 ∨ z = 7 then opcode else x ++ ρ.code y ++ z
  | 1 => x ++ ρ.code y ++ ρ.code z
  | 2 => x ++ y ++ ρ.code z
  | _ => if z = 1 ∨ z = 5 then x ++ ρ.code y ++ z else opcode

theorem decode_opcode (b : Byte) : Op.decode (ρ.opcode b) = ρ.op (Op.decode b) := by
  revert b
  cases ρ <;> decide +kernel

/-- The registers in their new places. -/
def file (f : File) : File := { f with reg := fun r => f.reg (ρ.reg r) }

/-- The state with the registers in their new places. -/
def state (s : State δ) : State δ := { s with toFile := ρ.file s.toFile }

variable (f : File) (s : State δ)

theorem file_reg (r : Reg) : (ρ.file f).reg (ρ.reg r) = f.reg r := by
  cases ρ <;> cases r <;> rfl

theorem file_setReg (r : Reg) (value : Byte) :
    (ρ.file f).setReg (ρ.reg r) value = ρ.file (f.setReg r value) := by
  refine File.ext rfl (funext fun r' => ?_) rfl rfl rfl
  cases ρ <;> cases r <;> cases r' <;> rfl

theorem reg_a : ρ.reg .a = .a := by cases ρ <;> rfl

theorem file_setReg_a (value : Byte) : (ρ.file f).setReg .a value = ρ.file (f.setReg .a value) := by
  have h := ρ.file_setReg f .a value
  rwa [reg_a] at h

theorem file_pair (p : Pair) : (ρ.file f).pair (ρ.pair p) = f.pair p := by
  cases ρ <;> cases p <;> rfl

theorem file_setPair (value : Word) (p : Pair) :
    (ρ.file f).setPair value (ρ.pair p) = ρ.file (f.setPair value p) := by
  refine File.ext ?_ (funext fun r => ?_) ?_ ?_ ?_
  · cases ρ <;> cases p <;> rfl
  · cases ρ <;> cases p <;> cases r <;> rfl
  · cases ρ <;> cases p <;> rfl
  · cases ρ <;> cases p <;> rfl
  · cases ρ <;> cases p <;> rfl

theorem file_stackPair (p : StackPair) : (ρ.file f).stackPair (ρ.stackPair p) = f.stackPair p := by
  cases ρ <;> cases p <;> rfl

theorem file_setStackPair (value : Word) (p : StackPair) :
    (ρ.file f).setStackPair value (ρ.stackPair p) = ρ.file (f.setStackPair value p) := by
  cases p with
  | bc =>
    cases ρ
    · exact keep.file_setPair f value .bc
    · exact exchange.file_setPair f value .bc
  | de =>
    cases ρ
    · exact keep.file_setPair f value .de
    · exact exchange.file_setPair f value .de
  | hl =>
    cases ρ
    · exact keep.file_setPair f value .hl
    · exact exchange.file_setPair f value .hl
  | psw =>
    cases ρ
    · exact keep.file_setReg_a (f.setFlagByte (getLowByte value)) (getHighByte value)
    · exact exchange.file_setReg_a (f.setFlagByte (getLowByte value)) (getHighByte value)

theorem file_setOperand (value : Byte) (x : Operand) :
    (ρ.file f).setOperand value (ρ.operand x) = ρ.file (f.setOperand value x) := by
  cases x with
  | reg r => exact ρ.file_setReg f r value
  | memory => rfl

theorem file_reg_a : (ρ.file f).reg .a = f.reg .a := by cases ρ <;> rfl

theorem file_pair_hl : (ρ.file f).pair .hl = f.pair .hl := by cases ρ <;> rfl

theorem file_setPair_hl (value : Word) :
    (ρ.file f).setPair value .hl = ρ.file (f.setPair value .hl) := by
  cases ρ
  · exact keep.file_setPair f value .hl
  · exact exchange.file_setPair f value .hl

theorem file_alu (operation : AluOperation) (x : Byte) :
    (ρ.file f).alu operation x = ρ.file (f.alu operation x) := by
  simp only [File.alu, file_reg_a]
  split
  · rfl
  · exact ρ.file_setReg_a (f.describe _ _ _) _

/-! ### What renamed instructions do -/

theorem operand_eq (x : Operand) : (ρ.state s).operand (ρ.operand x) = s.operand x := by
  cases x with
  | reg r => exact ρ.file_reg s.toFile r
  | memory => exact congrArg s.memory (ρ.file_pair_hl s.toFile)

theorem operandReads_eq (x : Operand) :
    (ρ.state s).operandReads (ρ.operand x) = s.operandReads x := by
  cases x with
  | reg r => rfl
  | memory => exact congrArg (fun address => [address]) (ρ.file_pair_hl s.toFile)

theorem stored_eq (value : Byte) (x : Operand) :
    (ρ.state s).stored value (ρ.operand x) = s.stored value x := by
  cases x with
  | reg r => rfl
  | memory => exact congrArg (fun address => [(address, value)]) (ρ.file_pair_hl s.toFile)

/-- A renamed instruction reads where the instruction does. -/
theorem reads_eq (o : Op) : (ρ.op o).reads (ρ.state s) = o.reads s := by
  cases o with
  | mov destination source => exact ρ.operandReads_eq s source
  | alu operation source => exact ρ.operandReads_eq s source
  | inr destination => exact ρ.operandReads_eq s destination
  | dcr destination => exact ρ.operandReads_eq s destination
  | ldax p => exact congrArg (fun address => [address]) (ρ.file_pair s.toFile p)
  | _ => rfl

theorem stores_eq (o : Op) : (ρ.op o).stores (ρ.state s) = o.stores s := by
  have ha : (ρ.state s).reg .a = s.reg .a := ρ.file_reg_a s.toFile
  have hh : (ρ.state s).reg .h = s.reg .h := by cases ρ <;> rfl
  have hl : (ρ.state s).reg .l = s.reg .l := by cases ρ <;> rfl
  cases o with
  | mov destination source =>
    change (ρ.state s).stored _ (ρ.operand destination) = _
    rw [stored_eq, operand_eq]
    rfl
  | mvi destination => exact ρ.stored_eq s s.immediate destination
  | inr destination =>
    change (ρ.state s).stored _ (ρ.operand destination) = _
    rw [stored_eq, operand_eq]
    rfl
  | dcr destination =>
    change (ρ.state s).stored _ (ρ.operand destination) = _
    rw [stored_eq, operand_eq]
    rfl
  | stax p =>
    change [((ρ.file s.toFile).pair (ρ.pair p), (ρ.state s).reg .a)] = _
    rw [file_pair, ha]
    rfl
  | sta =>
    change [(s.word s.pc, (ρ.state s).reg .a)] = _
    rw [ha]
    rfl
  | shld =>
    change [(s.word s.pc, (ρ.state s).reg .l), (s.word s.pc + 1, (ρ.state s).reg .h)] = _
    rw [hl, hh]
    rfl
  | xthl =>
    change [(s.sp, (ρ.state s).reg .l), (s.sp + 1, (ρ.state s).reg .h)] = _
    rw [hl, hh]
    rfl
  | push p => exact congrArg s.pushed (ρ.file_stackPair s.toFile p)
  | _ => rfl

theorem deviceCall_eq (env : Environment ι) (o : Op) :
    (ρ.op o).deviceCall env (ρ.state s) = o.deviceCall env s := by
  cases o with
  | output =>
    exact congrArg (fun value => (env.ports s.immediate).map (BusEvent.deviceOut · value))
      (ρ.file_reg_a s.toFile)
  | _ => rfl

/-- **Renaming.** A renamed instruction does to the registers in their new places what the
instruction does. -/
theorem operate_eq [IOPort ι δ] (env : Environment ι) {o : Op} (h : ρ = .exchange → o ≠ .xchg) :
    (ρ.op o).operate env (ρ.state s) = ρ.state (o.operate env s) := by
  have ha : (ρ.state s).reg .a = s.reg .a := ρ.file_reg_a s.toFile
  -- instructions that keep `pc` or move it by the same amount change the file alike
  have hfile : ∀ {g : File} {h : File} (pc : Word), g = ρ.file h →
      ({ ρ.state s with toFile := g, pc := pc } : State δ) =
        ρ.state { s with toFile := h, pc := pc } := by
    rintro g h pc rfl
    rfl
  cases o with
  | mov destination source =>
    refine hfile s.pc ?_
    rw [operand_eq]
    exact ρ.file_setOperand s.toFile _ destination
  | mvi destination => exact hfile (s.pc + 1) (ρ.file_setOperand s.toFile s.immediate destination)
  | alu operation source =>
    refine hfile s.pc ?_
    rw [operand_eq]
    exact ρ.file_alu s.toFile operation _
  | aluImmediate operation => exact hfile (s.pc + 1) (ρ.file_alu s.toFile operation s.immediate)
  | inr destination =>
    refine hfile s.pc ?_
    rw [operand_eq]
    exact ρ.file_setOperand (s.increment _) _ destination
  | dcr destination =>
    refine hfile s.pc ?_
    rw [operand_eq]
    exact ρ.file_setOperand (s.decrement _) _ destination
  | lxi p => exact hfile (s.pc + 2) (ρ.file_setPair s.toFile (s.word s.pc) p)
  | inx p =>
    refine hfile s.pc ?_
    change (ρ.file s.toFile).setPair ((ρ.file s.toFile).pair (ρ.pair p) + 1) (ρ.pair p) = _
    rw [file_pair, file_setPair]
  | dcx p =>
    refine hfile s.pc ?_
    change (ρ.file s.toFile).setPair ((ρ.file s.toFile).pair (ρ.pair p) - 1) (ρ.pair p) = _
    rw [file_pair, file_setPair]
  | dad p =>
    refine hfile s.pc ?_
    change ((ρ.file s.toFile).setFlag .cy (decide (65536 ≤ ((ρ.file s.toFile).pair .hl).toNat +
      ((ρ.file s.toFile).pair (ρ.pair p)).toNat))).setPair
        ((ρ.file s.toFile).pair .hl + (ρ.file s.toFile).pair (ρ.pair p)) .hl = _
    rw [file_pair, file_pair_hl]
    exact ρ.file_setPair_hl (s.setFlag .cy _) _
  | ldax p =>
    refine hfile s.pc ?_
    change (ρ.file s.toFile).setReg .a (s.memory ((ρ.file s.toFile).pair (ρ.pair p))) = _
    rw [file_pair, file_setReg_a]
  | lda => exact hfile (s.pc + 2) (ρ.file_setReg_a s.toFile (s.memory (s.word s.pc)))
  | lhld => exact hfile (s.pc + 2) (ρ.file_setPair_hl s.toFile (s.word (s.word s.pc)))
  | pop p =>
    exact hfile s.pc (ρ.file_setStackPair { s.toFile with sp := s.sp + 2 } (s.word s.sp) p)
  | xchg =>
    cases ρ with
    | keep => rfl
    | exchange => exact absurd rfl (h rfl)
  | xthl => exact hfile s.pc (ρ.file_setPair_hl s.toFile (s.word s.sp))
  | sphl =>
    change ({ ρ.state s with sp := (ρ.file s.toFile).pair .hl } : State δ) = _
    rw [file_pair_hl]
    rfl
  | pchl =>
    change ({ ρ.state s with pc := (ρ.file s.toFile).pair .hl } : State δ) = _
    rw [file_pair_hl]
    rfl
  | call condition =>
    change (if s.holds condition then _ else _) = ρ.state (if s.holds condition then _ else _)
    split <;> rfl
  | ret condition =>
    change (if s.holds condition then _ else _) = ρ.state (if s.holds condition then _ else _)
    split <;> rfl
  | rlc =>
    refine hfile s.pc ?_
    rw [ha]
    exact ρ.file_setReg_a (s.setFlag .cy _) _
  | rrc =>
    refine hfile s.pc ?_
    rw [ha]
    exact ρ.file_setReg_a (s.setFlag .cy _) _
  | ral =>
    refine hfile s.pc ?_
    rw [ha]
    exact ρ.file_setReg_a (s.setFlag .cy _) _
  | rar =>
    refine hfile s.pc ?_
    rw [ha]
    exact ρ.file_setReg_a (s.setFlag .cy _) _
  | daa =>
    refine hfile s.pc ?_
    simp only [File.adjust, ha]
    exact ρ.file_setReg_a (s.describe _ _ _) _
  | cma =>
    refine hfile s.pc ?_
    rw [ha]
    exact ρ.file_setReg_a s.toFile _
  | input =>
    have himmediate : (ρ.state s).immediate = s.immediate := rfl
    simp only [op, Op.operate, himmediate]
    split
    · exact hfile (s.pc + 1) (ρ.file_setReg_a s.toFile 0xFF)
    · exact State.ext_toFile (ρ.file_setReg_a s.toFile _) rfl rfl rfl rfl rfl rfl rfl
  | output =>
    have himmediate : (ρ.state s).immediate = s.immediate := rfl
    simp only [op, Op.operate, himmediate, ha]
    split <;> rfl
  | _ => rfl

end Renaming

end Arch

end Fake8080
