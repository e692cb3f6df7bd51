import Fake8080.Bus.AddressSpace
import Fake8080.Isa.Semantics

/-!
# The machine the emulator is meant to be

An 8080 as its programmer sees it: seven byte registers, a stack pointer, five flags, a
memory that is a function of the address, the devices, the interrupt logic and the halt.
There is no scratch register, no packed flag byte, no stack pointer in two halves, no table
of regions and no byte behind an address; a pending interrupt is a vector or nothing.
Instructions are `Op`, read off the fields of their opcode by `Op.decode`; `Op.operate` and
`Op.stores` say in the architecture's terms what each one does.

Where the emulator departs from the 8080 the machine does what the emulator does: `DAA`
keeps `AC`, `POP PSW` keeps bits 5 and 3 of the byte it pops, an enable request takes effect
at the start of the next cycle and outlives a reset.
-/

namespace Fake8080

universe u v

namespace Arch

/-! ### States -/

/-- The byte registers. -/
inductive Reg
  | b | c | d | e | h | l | a
  deriving DecidableEq

/-- The pairs of 16-bit arithmetic. -/
inductive Pair
  | bc | de | hl | sp
  deriving DecidableEq

/-- The pairs of the stack instructions. -/
inductive StackPair
  | bc | de | hl | psw
  deriving DecidableEq

/-- Where an 8-bit operand lies. -/
inductive Operand
  | reg (r : Reg)
  | memory
  deriving DecidableEq

/-- What a machine is connected to: which addresses read what is written through an
address, and the device on each port. -/
structure Environment (ι : Type u) where
  /-- What is written through the first address is read at the second. -/
  affects : Word → Word → Bool
  /-- The device on a port. -/
  ports : Byte → Option ι

/-- The registers. -/
@[ext]
structure File where
  /-- The stack pointer. -/
  sp : Word
  /-- The byte registers. -/
  reg : Reg → Byte
  /-- The flags. -/
  flag : Flags → Bool
  /-- Bit 5 of the flag byte, which is no flag. -/
  bit5 : Bool
  /-- Bit 3 of the flag byte, which is no flag. -/
  bit3 : Bool

namespace File

variable (f : File)

/-- The file with a register written. -/
def setReg (r : Reg) (value : Byte) : File := { f with reg := Function.update f.reg r value }

/-- The file with a flag written. -/
def setFlag (flag : Flags) (value : Bool) : File :=
  { f with flag := Function.update f.flag flag value }

/-- A pair as a word. -/
def pair : Pair → Word
  | .bc => combineBytes (f.reg .b) (f.reg .c)
  | .de => combineBytes (f.reg .d) (f.reg .e)
  | .hl => combineBytes (f.reg .h) (f.reg .l)
  | .sp => f.sp

/-- The file with a pair written. -/
def setPair (value : Word) : Pair → File
  | .bc => (f.setReg .b (getHighByte value)).setReg .c (getLowByte value)
  | .de => (f.setReg .d (getHighByte value)).setReg .e (getLowByte value)
  | .hl => (f.setReg .h (getHighByte value)).setReg .l (getLowByte value)
  | .sp => { f with sp := value }

/-- The byte of `PSW` with the flags. Bit 1 is set; bits 5 and 3 are what `POP PSW` last
put there. -/
def flagByte : Byte :=
  BitVec.ofBool (f.flag .s) ++ BitVec.ofBool (f.flag .z) ++ BitVec.ofBool f.bit5 ++
    BitVec.ofBool (f.flag .ac) ++ BitVec.ofBool f.bit3 ++ BitVec.ofBool (f.flag .p) ++ 1#1 ++
      BitVec.ofBool (f.flag .cy)

/-- A pair of the stack instructions as a word. -/
def stackPair : StackPair → Word
  | .bc => f.pair .bc
  | .de => f.pair .de
  | .hl => f.pair .hl
  | .psw => combineBytes (f.reg .a) f.flagByte

/-- The file with the flags and the two other bits read off a byte. -/
def setFlagByte (value : Byte) : File :=
  { f with
    flag := fun flag => value.getLsbD flag.shift
    bit5 := value.getLsbD 5
    bit3 := value.getLsbD 3 }

/-- The file with a pair of the stack instructions written. -/
def setStackPair (value : Word) : StackPair → File
  | .bc => f.setPair value .bc
  | .de => f.setPair value .de
  | .hl => f.setPair value .hl
  | .psw => (f.setFlagByte (getLowByte value)).setReg .a (getHighByte value)

/-- A condition on a flag: it is set, or with `negate` it is clear. No condition holds. -/
def holds : Option (Flags × Bool) → Bool
  | none => true
  | some (flag, negate) => f.flag flag != negate

/-- The file with flags that describe a result, and given half carry and carry. -/
def describe (result : Byte) (halfCarry carry : Bool) : File :=
  { f with
    flag := fun
      | .s => result.getLsbD 7
      | .z => decide (result = 0)
      | .ac => halfCarry
      | .p => evenParity result
      | .cy => carry }

/-- An ALU operation on `A` and an operand. Only `CMP` keeps `A`. -/
def alu (operation : AluOperation) (x : Byte) : File :=
  let a := f.reg .a
  let carry := f.flag .cy
  let result := operation.result a x carry
  let described := f.describe result (operation.halfCarryOut a x carry)
    (operation.carryOut a x carry)
  if operation = .cmp then described else described.setReg .a result

/-- The flags after an increment: a carry out of bit 3 and the result; `CY` is kept. -/
def increment (x : Byte) : File :=
  f.describe (x + 1) (decide (x.toNat % 16 = 15)) (f.flag .cy)

/-- The flags after a decrement: a borrow into bit 3 and the result; `CY` is kept. -/
def decrement (x : Byte) : File :=
  f.describe (x - 1) (decide (x.toNat % 16 = 0)) (f.flag .cy)

/-- A rotation of `A`: its result, and the bit that left it. -/
def rotate (result : Byte) (exit : Bool) : File := (f.setFlag .cy exit).setReg .a result

/-- The decimal adjustment: 6 to a low digit above 9, then `0x60` to a high digit above 9.
`AC` is kept. -/
def adjust : File :=
  let a := f.reg .a
  let low := if f.flag .ac || decide (9 < a.toNat % 16) then a + 0x06 else a
  let carry := f.flag .cy || decide (9 < low.toNat / 16)
  let result := if carry then low + 0x60 else low
  (f.describe result (f.flag .ac) carry).setReg .a result

end File

/-- The state of the machine. -/
@[ext]
structure State (δ : Type v) extends File where
  /-- The program counter. -/
  pc : Word
  /-- What each address reads. -/
  memory : Word → Byte
  /-- The state of the devices. -/
  devices : δ
  /-- `EI` was executed in the last cycle. -/
  enableRequested : Bool
  /-- Interrupts are accepted. -/
  enabled : Bool
  /-- The vector of the pending interrupt. -/
  pending : Option Byte
  /-- The machine is halted. -/
  halted : Bool

namespace State

variable {δ : Type v} (s : State δ)

/-- The byte at `pc`. -/
def immediate : Byte := s.memory s.pc

/-- The word at an address, low byte first. -/
def word (address : Word) : Word := combineBytes (s.memory (address + 1)) (s.memory address)

/-- An 8-bit operand. -/
def operand : Operand → Byte
  | .reg r => s.reg r
  | .memory => s.memory (s.pair .hl)

/-- The word pushed: its high byte below the stack pointer, its low byte below that. -/
def pushed (value : Word) : List (Word × Byte) :=
  [(s.sp - 1, getHighByte value), (s.sp - 2, getLowByte value)]

/-- The stores that writing an operand makes. -/
def stored (value : Byte) : Operand → List (Word × Byte)
  | .reg _ => []
  | .memory => [(s.pair .hl, value)]

end State

/-- An operand written in the file; one in memory is written by the stores. -/
def File.setOperand (f : File) (value : Byte) : Operand → File
  | .reg r => f.setReg r value
  | .memory => f

/-! ### Instructions -/

/-- The instructions. -/
inductive Op
  | nop | hlt | ei | di
  | mov (destination source : Operand)
  | mvi (destination : Operand)
  | alu (operation : AluOperation) (source : Operand)
  | aluImmediate (operation : AluOperation)
  | inr (destination : Operand)
  | dcr (destination : Operand)
  | lxi (p : Pair) | inx (p : Pair) | dcx (p : Pair) | dad (p : Pair)
  | stax (p : Pair) | ldax (p : Pair)
  | sta | lda | shld | lhld
  | push (p : StackPair) | pop (p : StackPair)
  | xchg | xthl | sphl | pchl
  | jmp (condition : Option (Flags × Bool))
  | call (condition : Option (Flags × Bool))
  | ret (condition : Option (Flags × Bool))
  | rst (n : Fin 8)
  | rlc | rrc | ral | rar
  | daa | cma | stc | cmc
  | input | output
  deriving DecidableEq

/-- The operand a code names. -/
def Operand.ofCode (code : BitVec 3) : Operand :=
  match code with
  | 0 => .reg .b
  | 1 => .reg .c
  | 2 => .reg .d
  | 3 => .reg .e
  | 4 => .reg .h
  | 5 => .reg .l
  | 6 => .memory
  | _ => .reg .a

/-- The pair a code names in 16-bit arithmetic. -/
def Pair.ofCode (code : BitVec 2) : Pair :=
  match code with
  | 0 => .bc
  | 1 => .de
  | 2 => .hl
  | _ => .sp

/-- The pair a code names in the stack instructions. -/
def StackPair.ofCode (code : BitVec 2) : StackPair :=
  match code with
  | 0 => .bc
  | 1 => .de
  | 2 => .hl
  | _ => .psw

namespace Op

/-- The opcodes `00yyyzzz`. -/
def decode00 (y z : BitVec 3) : Op :=
  let p := Pair.ofCode (y.extractLsb' 1 2)
  let odd := y.getLsbD 0
  match z with
  | 0 => .nop
  | 1 => if odd then .dad p else .lxi p
  | 2 =>
    match y with
    | 4 => .shld
    | 5 => .lhld
    | 6 => .sta
    | 7 => .lda
    | _ => if odd then .ldax p else .stax p
  | 3 => if odd then .dcx p else .inx p
  | 4 => .inr (.ofCode y)
  | 5 => .dcr (.ofCode y)
  | 6 => .mvi (.ofCode y)
  | _ =>
    match y with
    | 0 => .rlc
    | 1 => .rrc
    | 2 => .ral
    | 3 => .rar
    | 4 => .daa
    | 5 => .cma
    | 6 => .stc
    | _ => .cmc

/-- The opcodes `11yyyzzz`. -/
def decode11 (y z : BitVec 3) : Op :=
  let p := StackPair.ofCode (y.extractLsb' 1 2)
  match z with
  | 0 => .ret (some (condition y))
  | 1 =>
    match y with
    | 1 | 3 => .ret none
    | 5 => .pchl
    | 7 => .sphl
    | _ => .pop p
  | 2 => .jmp (some (condition y))
  | 3 =>
    match y with
    | 2 => .output
    | 3 => .input
    | 4 => .xthl
    | 5 => .xchg
    | 6 => .di
    | 7 => .ei
    | _ => .jmp none
  | 4 => .call (some (condition y))
  | 5 => if y.getLsbD 0 then .call none else .push p
  | 6 => .aluImmediate (.ofCode y)
  | _ => .rst y.toFin

/-- The instruction of an opcode `xxyyyzzz`; the twelve opcodes the architecture leaves
open are copies of `NOP`, `JMP`, `RET` and `CALL`. -/
def decode (opcode : Byte) : Op :=
  let y := opcode.extractLsb' 3 3
  let z := opcode.extractLsb' 0 3
  match opcode.extractLsb' 6 2 with
  | 0 => decode00 y z
  | 1 => if y = 6 ∧ z = 6 then .hlt else .mov (.ofCode y) (.ofCode z)
  | 2 => .alu (.ofCode y) (.ofCode z)
  | _ => decode11 y z

end Op

/-! ### What they do -/

namespace Op

variable {ι : Type u} {δ : Type v}

/-- The stores an instruction makes, from a state whose `pc` is past the opcode. -/
def stores (s : State δ) : Op → List (Word × Byte)
  | mov destination source => s.stored (s.operand source) destination
  | mvi destination => s.stored s.immediate destination
  | inr destination => s.stored (s.operand destination + 1) destination
  | dcr destination => s.stored (s.operand destination - 1) destination
  | stax p => [(s.pair p, s.reg .a)]
  | sta => [(s.word s.pc, s.reg .a)]
  | shld => [(s.word s.pc, s.reg .l), (s.word s.pc + 1, s.reg .h)]
  | xthl => [(s.sp, s.reg .l), (s.sp + 1, s.reg .h)]
  | push p => s.pushed (s.stackPair p)
  | call condition => if s.holds condition then s.pushed (s.pc + 2) else []
  | rst _ => s.pushed s.pc
  | _ => []

/-- The device call an instruction makes, if any. -/
def deviceCall (env : Environment ι) (s : State δ) : Op → Option (BusEvent ι)
  | input => (env.ports s.immediate).map .deviceIn
  | output => (env.ports s.immediate).map fun device => .deviceOut device (s.reg .a)
  | _ => none

variable [IOPort ι δ]

/-- What an instruction does besides its stores, from a state whose `pc` is past the
opcode. -/
def operate (env : Environment ι) (s : State δ) : Op → State δ
  | nop => s
  | hlt => { s with halted := true }
  | ei => { s with enableRequested := true }
  | di => { s with enabled := false }
  | mov destination source =>
    { s with toFile := s.setOperand (s.operand source) destination }
  | mvi destination =>
    { s with pc := s.pc + 1, toFile := s.setOperand s.immediate destination }
  | alu operation source => { s with toFile := s.alu operation (s.operand source) }
  | aluImmediate operation =>
    { s with pc := s.pc + 1, toFile := s.alu operation s.immediate }
  | inr destination =>
    let x := s.operand destination
    { s with toFile := (s.increment x).setOperand (x + 1) destination }
  | dcr destination =>
    let x := s.operand destination
    { s with toFile := (s.decrement x).setOperand (x - 1) destination }
  | lxi p => { s with pc := s.pc + 2, toFile := s.setPair (s.word s.pc) p }
  | inx p => { s with toFile := s.setPair (s.pair p + 1) p }
  | dcx p => { s with toFile := s.setPair (s.pair p - 1) p }
  | dad p =>
    let carry := decide (65536 ≤ (s.pair .hl).toNat + (s.pair p).toNat)
    { s with toFile := (s.setFlag .cy carry).setPair (s.pair .hl + s.pair p) .hl }
  | stax _ => s
  | ldax p => { s with toFile := s.setReg .a (s.memory (s.pair p)) }
  | sta => { s with pc := s.pc + 2 }
  | lda => { s with pc := s.pc + 2, toFile := s.setReg .a (s.memory (s.word s.pc)) }
  | shld => { s with pc := s.pc + 2 }
  | lhld => { s with pc := s.pc + 2, toFile := s.setPair (s.word (s.word s.pc)) .hl }
  | push _ => { s with sp := s.sp - 2 }
  | pop p =>
    { s with toFile := ({ s.toFile with sp := s.sp + 2 } : File).setStackPair (s.word s.sp) p }
  | xchg => { s with toFile := (s.setPair (s.pair .de) .hl).setPair (s.pair .hl) .de }
  | xthl => { s with toFile := s.setPair (s.word s.sp) .hl }
  | sphl => { s with sp := s.pair .hl }
  | pchl => { s with pc := s.pair .hl }
  | jmp condition => { s with pc := if s.holds condition then s.word s.pc else s.pc + 2 }
  | call condition =>
    if s.holds condition then { s with pc := s.word s.pc, sp := s.sp - 2 }
    else { s with pc := s.pc + 2 }
  | ret condition =>
    if s.holds condition then { s with pc := s.word s.sp, sp := s.sp + 2 } else s
  | rst n => { s with pc := BitVec.ofNat 16 (8 * n), sp := s.sp - 2 }
  | rlc => { s with toFile := s.rotate ((s.reg .a).rotateLeft 1) ((s.reg .a).getLsbD 7) }
  | rrc => { s with toFile := s.rotate ((s.reg .a).rotateRight 1) ((s.reg .a).getLsbD 0) }
  | ral =>
    let result := (s.reg .a).extractLsb' 0 7 ++ BitVec.ofBool (s.flag .cy)
    { s with toFile := s.rotate result ((s.reg .a).getLsbD 7) }
  | rar =>
    let result := BitVec.ofBool (s.flag .cy) ++ (s.reg .a).extractLsb' 1 7
    { s with toFile := s.rotate result ((s.reg .a).getLsbD 0) }
  | daa => { s with toFile := s.adjust }
  | cma => { s with toFile := s.setReg .a (~~~ s.reg .a) }
  | stc => { s with toFile := s.setFlag .cy true }
  | cmc => { s with toFile := s.setFlag .cy (!s.flag .cy) }
  | input =>
    match env.ports s.immediate with
    | none => { s with pc := s.pc + 1, toFile := s.setReg .a 0xFF }
    | some device =>
      { s with
        pc := s.pc + 1
        toFile := s.setReg .a (IOPort.inp device s.devices).1
        devices := (IOPort.inp device s.devices).2 }
  | output =>
    match env.ports s.immediate with
    | none => { s with pc := s.pc + 1 }
    | some device =>
      { s with
        pc := s.pc + 1
        devices := IOPort.out device (s.reg .a) s.devices }

end Op

/-! ### The machine as a reactive system -/

/-- The memory after a list of stores. -/
def Environment.store {ι : Type u} (env : Environment ι) :
    (Word → Byte) → List (Word × Byte) → Word → Byte :=
  List.foldl (AliasedStore.writeView fun a b => env.affects a b)

theorem Environment.store_of_not_affects {ι : Type u} (env : Environment ι) (memory : Word → Byte)
    {stores : List (Word × Byte)} {address : Word}
    (h : ∀ w ∈ stores, env.affects w.1 address = false) :
    env.store memory stores address = memory address :=
  AliasedStore.foldl_writeView_of_not_affects (fun a b => env.affects a b) memory fun w hw => by
    simp [h w hw]

namespace State

variable {ι : Type u} {δ : Type v} (env : Environment ι) (s : State δ)

/-- What the next cycle does. -/
def cycleEvent : Event :=
  if s.pending.isSome && (s.enableRequested || s.enabled) then .accept
  else if s.halted then .idle
  else .exec (s.memory s.pc)

/-- The start of a cycle: a request of `EI` takes effect. -/
def promote : State δ :=
  { s with enabled := s.enableRequested || s.enabled, enableRequested := false }

/-- The state in which an instruction is executed: `pc` is past the opcode. -/
def fetched : State δ := { s.promote with pc := s.pc + 1 }

/-- What an event does. -/
def stepCalls : Event → List (BusEvent ι)
  | .accept => (s.pushed s.pc).map fun w => .write w.1 w.2
  | .exec opcode =>
    ((Op.decode opcode).stores s.fetched).map (fun w => .write w.1 w.2) ++
      ((Op.decode opcode).deviceCall env s.fetched).toList
  | .idle | .request _ | .reset => []

variable [IOPort ι δ]

/-- The state an event leaves. -/
def next : Event → State δ
  | .accept =>
    { s.promote with
      pc := BitVec.ofNat 16 ((s.pending.getD 0).toNat * 8)
      sp := s.sp - 2
      memory := env.store s.memory (s.pushed s.pc)
      enabled := false
      pending := none
      halted := false }
  | .idle => s.promote
  | .exec opcode =>
    { (Op.decode opcode).operate env s.fetched with
      memory := env.store s.memory ((Op.decode opcode).stores s.fetched) }
  | .request interruptNum => { s with pending := some interruptNum }
  | .reset => { s with pc := 0, pending := none, enabled := false, halted := false }

end State

/-- The event of a call. -/
def State.event {δ : Type v} (s : State δ) : Action → Event
  | .cycle => s.cycleEvent
  | .requestInterrupt interruptNum => .request interruptNum
  | .reset => .reset

/-- The machine as a reactive system on the calls of the public interface. It reports what
a call does and the calls on the buses that come with it. -/
def machine {ι : Type u} {δ : Type v} [IOPort ι δ] (env : Environment ι) :
    Reactive (State δ) Action (Event × List (BusEvent ι)) where
  step s a := s.next env (s.event a)
  event s a := (s.event a, s.stepCalls env (s.event a))

end Arch

end Fake8080
