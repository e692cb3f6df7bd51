import Fake8080.Arch.Execution
import Fake8080.Arch.Observation
import Fake8080.Library.Rotate
import Fake8080.Multibyte.Rotation

/-!
# Rotations in any order

`RAL` and `RAR` turn the ring of nine bits that `CY` and `A` form, one way and the other, and
`RLC` and `RRC` turn the eight bits of `A`. Of a run that only rotates, what counts is how many
of its rotations go each way, not in which order (`Cpu.rotations`); nothing but `A` and `CY`
changes.
-/

namespace Fake8080

universe u v

variable {ι : Type u} {δ : Type v}

namespace Arch

/-- The nine bits that turn: the carry above `A`. -/
def File.carryRing (f : File) : BitVec 9 := BitVec.ofBool (f.flag .cy) ++ f.reg .a

/-- Files that agree but for `A` and `CY`. -/
structure File.SameButRing (f g : File) : Prop where
  /-- The stack pointers are the same. -/
  sp : g.sp = f.sp
  /-- The registers but `A` are the same. -/
  reg : ∀ r, r ≠ .a → g.reg r = f.reg r
  /-- The flags but `CY` are the same. -/
  flag : ∀ flag, flag ≠ .cy → g.flag flag = f.flag flag
  /-- The other bits of the flag byte are the same. -/
  bits : g.bit5 = f.bit5 ∧ g.bit3 = f.bit3

theorem File.SameButRing.refl (f : File) : f.SameButRing f :=
  ⟨rfl, fun _ _ => rfl, fun _ _ => rfl, rfl, rfl⟩

theorem File.sameButRing_rotate (f : File) (result : Byte) (exit : Bool) :
    f.SameButRing (f.rotate result exit) :=
  ⟨rfl, fun _ h => Function.update_of_ne h _ _, fun _ h => Function.update_of_ne h _ _, rfl, rfl⟩

theorem File.SameButRing.trans {f g h : File} (hfg : f.SameButRing g) (hgh : g.SameButRing h) :
    f.SameButRing h where
  sp := hgh.sp.trans hfg.sp
  reg r hr := (hgh.reg r hr).trans (hfg.reg r hr)
  flag x hx := (hgh.flag x hx).trans (hfg.flag x hx)
  bits := ⟨hgh.bits.1.trans hfg.bits.1, hgh.bits.2.trans hfg.bits.2⟩

/-- The four rotations. -/
inductive Rotation
  | rlc | rrc | ral | rar
  deriving DecidableEq

namespace Rotation

/-- The instruction. -/
def op : Rotation → Op
  | rlc => .rlc
  | rrc => .rrc
  | ral => .ral
  | rar => .rar

/-- The opcode. -/
def opcode : Rotation → Byte
  | rlc => 0x07
  | rrc => 0x0F
  | ral => 0x17
  | rar => 0x1F

theorem decode_opcode (r : Rotation) : Op.decode r.opcode = r.op := by cases r <;> rfl

/-- Which way the template rotates. -/
def direction : Rotation → ShiftDirection
  | rlc | ral => .left
  | rrc | rar => .right

/-- The template rotates through the carry. -/
def rotateThrough : Rotation → Bool
  | rlc | rrc => false
  | ral | rar => true

theorem ofOpcode_opcode (r : Rotation) : Superfunction.ofOpcode r.opcode =
    .rlcRrcRalRarR .a r.direction r.rotateThrough := by
  cases r <;> exact Superfunction.ofOpcode_eq_decode _

/-- How far to the left a rotation through the carry turns the ring. -/
def turns : Rotation → ℕ
  | ral => 1
  | rar => 8
  | rlc => 0
  | rrc => 0

/-- How far to the left a rotation of `A` alone turns it. -/
def turnsA : Rotation → ℕ
  | rlc => 1
  | rrc => 7
  | ral => 0
  | rar => 0

end Rotation

variable [IOPort ι δ] (env : Environment ι) (s : State δ)

/-- A rotation changes `A` and `CY`, and goes on. -/
theorem perform_rotation (r : Rotation) :
    s.toFile.SameButRing (s.perform env r.op).toFile ∧ (s.perform env r.op).pc = s.pc + 1 := by
  cases r <;> exact ⟨File.sameButRing_rotate _ _ _, rfl⟩

/-- Rotations through the carry turn the ring. -/
theorem carryRing_perform {r : Rotation} (hr : r = .ral ∨ r = .rar) :
    (s.perform env r.op).carryRing = s.carryRing.rotateLeft r.turns := by
  have hleft : ∀ (a : Byte) carry, BitVec.ofBool (a.getLsbD 7) ++
      (a.extractLsb' 0 7 ++ BitVec.ofBool carry : Byte) =
        (BitVec.ofBool carry ++ a : BitVec 9).rotateLeft 1 := by decide
  have hright : ∀ (a : Byte) carry, BitVec.ofBool (a.getLsbD 0) ++
      (BitVec.ofBool carry ++ a.extractLsb' 1 7 : Byte) =
        (BitVec.ofBool carry ++ a : BitVec 9).rotateLeft 8 := by decide
  rcases hr with rfl | rfl
  · exact hleft _ _
  · exact hright _ _

/-- Rotations of `A` alone turn it. -/
theorem reg_a_perform {r : Rotation} (hr : r = .rlc ∨ r = .rrc) :
    (s.perform env r.op).reg .a = (s.reg .a).rotateLeft r.turnsA := by
  have hright : ∀ a : Byte, a.rotateRight 1 = a.rotateLeft 7 := by decide
  rcases hr with rfl | rfl
  · rfl
  · exact hright _

theorem performAll_rotations (rotations : List Rotation) :
    s.toFile.SameButRing (s.performAll env (rotations.map Rotation.op)).toFile ∧
      (s.performAll env (rotations.map Rotation.op)).pc =
        s.pc + BitVec.ofNat 16 rotations.length := by
  induction rotations generalizing s with
  | nil => exact ⟨File.SameButRing.refl _, (BitVec.add_zero _).symm⟩
  | cons r rotations ih =>
    obtain ⟨hfile, hpc⟩ := perform_rotation env s r
    obtain ⟨hfile', hpc'⟩ := ih (s.perform env r.op)
    refine ⟨hfile.trans hfile', hpc'.trans ?_⟩
    rw [hpc, List.length_cons, Nat.add_comm, ← BitVec.ofNat_add_ofNat, BitVec.add_assoc]
    rfl

/-- Rotations through the carry turn the ring by the sum of their turns. -/
theorem carryRing_performAll {rotations : List Rotation}
    (h : ∀ r ∈ rotations, r = .ral ∨ r = .rar) :
    (s.performAll env (rotations.map Rotation.op)).carryRing =
      s.carryRing.rotateLeft (rotations.count .ral + 8 * rotations.count .rar) := by
  induction rotations generalizing s with
  | nil => exact (Rotate.rotateLeft_mul s.carryRing 0).symm
  | cons r rotations ih =>
    have hr := h r List.mem_cons_self
    rw [List.map_cons, State.performAll_cons, ih _ fun r' hr' => h r' (List.mem_cons_of_mem _ hr'),
      carryRing_perform env s hr, Rotate.rotateLeft_rotateLeft]
    refine congrArg s.carryRing.rotateLeft ?_
    rcases hr with rfl | rfl
    · rw [List.count_cons_self, List.count_cons_of_ne (by decide), Rotation.turns]
      omega
    · rw [List.count_cons_self, List.count_cons_of_ne (by decide), Rotation.turns]
      omega

theorem reg_a_performAll {rotations : List Rotation}
    (h : ∀ r ∈ rotations, r = .rlc ∨ r = .rrc) :
    (s.performAll env (rotations.map Rotation.op)).reg .a =
      (s.reg .a).rotateLeft (rotations.count .rlc + 7 * rotations.count .rrc) := by
  induction rotations generalizing s with
  | nil => exact (Rotate.rotateLeft_mul (s.reg .a) 0).symm
  | cons r rotations ih =>
    have hr := h r List.mem_cons_self
    rw [List.map_cons, State.performAll_cons, ih _ fun r' hr' => h r' (List.mem_cons_of_mem _ hr'),
      reg_a_perform env s hr, Rotate.rotateLeft_rotateLeft]
    refine congrArg (s.reg .a).rotateLeft ?_
    rcases hr with rfl | rfl
    · rw [List.count_cons_self, List.count_cons_of_ne (by decide), Rotation.turnsA]
      omega
    · rw [List.count_cons_self, List.count_cons_of_ne (by decide), Rotation.turnsA]
      omega

end Arch

namespace Cpu

variable [IOPort ι δ]

/-- What a cycle that rotates leaves. -/
theorem cycle_of_rotation {c : Cpu ι δ} {r : Arch.Rotation}
    (h : c.cycleEvent = .exec r.opcode) :
    c.cycle = ⟨c.pc + 1, c.registers.rotate .a r.direction r.rotateThrough, c.latches.promote,
      c.buses⟩ := by
  rw [cycle_eq_superfunction_next h, r.ofOpcode_opcode]
  rfl

/-- Rotations leave the buses and the scratch registers alone, and of the latches the first
cycle lets a pending enable request take effect. -/
theorem keeps_rotations (c : Cpu ι δ) (rotations : List Arch.Rotation)
    (h : system.history c (List.replicate rotations.length .cycle) =
      rotations.map fun r => .exec r.opcode) :
    let c' := system.after c (List.replicate rotations.length .cycle)
    c'.buses = c.buses ∧
    c'.latches = (if rotations = [] then c.latches else c.latches.promote) ∧
    ∀ reg, reg ≠ .a → reg ≠ .f →
      c'.registers.getRegister reg = c.registers.getRegister reg := by
  induction rotations generalizing c with
  | nil => exact ⟨rfl, rfl, fun _ _ _ => rfl⟩
  | cons r rotations ih =>
    rw [List.length_cons, List.replicate_succ, List.map_cons, Reactive.history] at h
    obtain ⟨hfirst, hrest⟩ := List.cons.inj h
    obtain ⟨hbuses, hlatches, hregisters⟩ := ih (system.step c .cycle) hrest
    have hcycle : system.step c .cycle = _ := cycle_of_rotation hfirst
    rw [List.length_cons, List.replicate_succ, Reactive.after_cons]
    refine ⟨hbuses.trans (by rw [hcycle]), hlatches.trans ?_, fun reg ha hf => ?_⟩
    · rw [hcycle, if_neg (List.cons_ne_nil _ _)]
      split
      · rfl
      · exact Latches.promote_promote _
    · rw [hregisters reg ha hf, hcycle]
      exact Registers.getRegister_rotate_of_ne _ ha.symm hf _ _

/-- **Rotations commute.** Cycles that only rotate change `A`, `CY` and `pc` alone, but for an
enable request, which takes effect in the first of them. If all of them rotate through the carry,
the nine bits turn to the left by one for each `RAL` and by eight for each `RAR`; if none does,
`A` turns by one for each `RLC` and by seven for each `RRC`. The order does not matter, and full
turns cancel. -/
theorem rotations (c : Cpu ι δ) (rotations : List Arch.Rotation)
    (h : system.history c (List.replicate rotations.length .cycle) =
      rotations.map fun r => .exec r.opcode) :
    let c' := system.after c (List.replicate rotations.length .cycle)
    c.registers.file.SameButRing c'.registers.file ∧
    (∀ reg, reg ≠ .a → reg ≠ .f →
      c'.registers.getRegister reg = c.registers.getRegister reg) ∧
    c'.pc = c.pc + BitVec.ofNat 16 rotations.length ∧
    c'.latches = (if rotations = [] then c.latches else c.latches.promote) ∧
    c'.buses = c.buses ∧
    ((∀ r ∈ rotations, r = .ral ∨ r = .rar) → c'.registers.file.carryRing =
      c.registers.file.carryRing.rotateLeft (rotations.count .ral + 8 * rotations.count .rar)) ∧
    ((∀ r ∈ rotations, r = .rlc ∨ r = .rrc) → c'.registers.getRegister .a =
      (c.registers.getRegister .a).rotateLeft (rotations.count .rlc + 7 * rotations.count .rrc)) := by
  have harch := c.arch_after_execs (rotations.map Arch.Rotation.opcode)
    (by rw [List.length_map, h, List.map_map]; rfl)
  have hops : (rotations.map Arch.Rotation.opcode).map Arch.Op.decode =
      rotations.map Arch.Rotation.op := by
    rw [List.map_map]
    exact List.map_congr_left fun r _ => r.decode_opcode
  rw [List.length_map, hops] at harch
  obtain ⟨hfile, hpc⟩ := Arch.performAll_rotations c.buses.environment c.arch rotations
  rw [← harch] at hfile hpc
  obtain ⟨hbuses, hlatches, hregisters⟩ := keeps_rotations c rotations h
  refine ⟨hfile, hregisters, hpc, hlatches, hbuses, fun hring => ?_, fun ha => ?_⟩
  · have hcarry := Arch.carryRing_performAll c.buses.environment c.arch hring
    rwa [← harch] at hcarry
  · have hreg := Arch.reg_a_performAll c.buses.environment c.arch ha
    rwa [← harch] at hreg

/-- A CPU on a RAM full of `RAR`. -/
def ramOfRar : Cpu Empty Unit :=
  { Cpu.new (Buses.fullRam fun _ => 0x1F) with
    registers := Registers.initial.setRegister .a 0x2C }

/-- Nine of them turn the nine bits all the way round. -/
theorem rotations_ramOfRar :
    (system.after ramOfRar (List.replicate 9 .cycle)).registers.file.carryRing = 0x2C := by
  have hring := (rotations ramOfRar (List.replicate 9 .rar) (by decide)).2.2.2.2.2.1 (by decide)
  exact hring.trans (by decide)

end Cpu

end Fake8080
