import Fake8080.Arch.Machine
import Fake8080.Isa.Refinement

/-!
# What a program sees of the emulator

`Registers.file` is the architecture's view of a register file, `Cpu.arch` that of a CPU and
`Buses.environment` that of its buses. They forget the scratch pair, the packing of the
flags, the two halves of the stack pointer, the region table and the log. Each way the
emulator writes its registers is given its meaning on the view.
-/

namespace Fake8080

universe u v

variable {ι : Type u} {δ : Type v}

/-! ### Names -/

namespace Arch

/-- The emulator's register. -/
def Reg.register : Reg → Register
  | .b => .b
  | .c => .c
  | .d => .d
  | .e => .e
  | .h => .h
  | .l => .l
  | .a => .a

/-- The emulator's pair. -/
def Pair.combined : Pair → CombinedRegister
  | .bc => .bc
  | .de => .de
  | .hl => .hl
  | .sp => .sp

/-- The emulator's pair of the stack instructions. -/
def StackPair.combined : StackPair → CombinedRegister
  | .bc => .bc
  | .de => .de
  | .hl => .hl
  | .psw => .psw

/-- The emulator's register behind an operand, if it is one. -/
def Operand.register? : Operand → Option Register
  | .reg r => some r.register
  | .memory => none

theorem Reg.register_ne_f (r : Reg) : r.register ≠ .f := by cases r <;> decide

/-- Different names are different registers. -/
theorem Reg.register_injective : Function.Injective Reg.register := by
  intro r r'
  cases r <;> cases r' <;> decide

end Arch

/-! ### Register files -/

namespace Registers

/-- The registers a program sees. -/
def file (r : Registers) : Arch.File where
  sp := r.getCombinedRegister .sp
  reg x := r.getRegister x.register
  flag := r.getFlag
  bit5 := getBit (r.getRegister .f) 5
  bit3 := getBit (r.getRegister .f) 3

variable (r : Registers)

theorem file_setRegister (x : Arch.Reg) (value : Byte) :
    (r.setRegister x.register value).file = r.file.setReg x value := by
  have hf : Register.f ≠ x.register := x.register_ne_f.symm
  have hreg : (r.setRegister x.register value).getRegister .f = r.getRegister .f := by
    rw [getRegister_setRegister, if_neg hf]
  refine Arch.File.ext ?_ (funext fun x' => ?_) (funext fun flag => ?_) ?_ ?_
  · exact r.getCombinedRegister_setRegister_of_ne (by cases x <;> decide) (by cases x <;> decide) value
  · have hupdate : (r.file.setReg x value).reg x' =
        if x' = x then value else r.getRegister x'.register := Function.update_apply _ _ _ _
    refine (r.getRegister_setRegister x.register x'.register value).trans ?_
    rw [hupdate, if_neg hf.symm]
    simp only [Arch.Reg.register_injective.eq_iff]
  · exact r.getFlag_setRegister_of_ne hf.symm value flag
  · exact congrArg (getBit · 5) hreg
  · exact congrArg (getBit · 3) hreg

/-- The view does not show the scratch registers. -/
theorem file_setRegister_scratch {reg : Register} (h : reg = .w ∨ reg = .z) (value : Byte) :
    (r.setRegister reg value).file = r.file := by
  have hf : Register.f ≠ reg := by rcases h with rfl | rfl <;> decide
  have hne : ∀ x : Arch.Reg, x.register ≠ reg := by
    intro x
    rcases h with rfl | rfl <;> cases x <;> decide
  have hreg : ∀ reg', reg' ≠ reg → (r.setRegister reg value).getRegister reg' = r.getRegister reg' :=
    fun reg' h' => by rw [getRegister_setRegister, if_neg h']
  refine Arch.File.ext ?_ (funext fun x => ?_) (funext fun flag => ?_) ?_ ?_
  · rcases h with rfl | rfl <;>
      exact r.getCombinedRegister_setRegister_of_ne (by decide) (by decide) value
  · exact hreg _ (hne x)
  · exact r.getFlag_setRegister_of_ne hf.symm value flag
  · exact congrArg (getBit · 5) (hreg _ hf)
  · exact congrArg (getBit · 3) (hreg _ hf)

theorem file_setFlag (flag : Flags) (value : Bool) :
    (r.setFlag flag value).file = r.file.setFlag flag value := by
  refine Arch.File.ext ?_ (funext fun x => ?_) (funext fun flag' => ?_) ?_ ?_
  · exact r.getCombinedRegister_setFlag (by decide) flag value
  · exact r.getRegister_setFlag_of_ne x.register_ne_f flag value
  · have hupdate : (r.file.setFlag flag value).flag flag' =
        if flag' = flag then value else r.getFlag flag' := Function.update_apply _ _ _ _
    rw [hupdate]
    exact r.getFlag_setFlag flag flag' value
  · exact (r.getBit_setFlag flag value (by decide)).trans (if_neg (by cases flag <;> decide))
  · exact (r.getBit_setFlag flag value (by decide)).trans (if_neg (by cases flag <;> decide))

/-- A pair is what the view shows. -/
theorem getCombinedRegister_combined (p : Arch.Pair) :
    r.getCombinedRegister p.combined = r.file.pair p := by
  cases p <;> rfl

theorem file_setCombinedRegister (p : Arch.Pair) (value : Word) :
    (r.setCombinedRegister p.combined value).file = r.file.setPair value p := by
  have htwo : ∀ x y : Arch.Reg, ((r.setRegister x.register (getHighByte value)).setRegister
      y.register (getLowByte value)).file =
        (r.file.setReg x (getHighByte value)).setReg y (getLowByte value) := by
    intro x y
    rw [file_setRegister, file_setRegister]
  cases p with
  | bc => exact htwo .b .c
  | de => exact htwo .d .e
  | hl => exact htwo .h .l
  | sp =>
    have hf := r.getRegister_f_setCombinedRegister (by decide : CombinedRegister.sp ≠ .psw) value
    refine Arch.File.ext ?_ (funext fun x => ?_) (funext fun flag => ?_) ?_ ?_
    · exact r.getCombinedRegister_setCombinedRegister_self (by decide) value
    · refine r.getRegister_setCombinedRegister_of_ne ?_ ?_ value <;> cases x <;> decide
    · exact r.getFlag_setCombinedRegister (by decide) value flag
    · exact congrArg (getBit · 5) hf
    · exact congrArg (getBit · 3) hf

/-- The view does not show the scratch pair. -/
theorem file_setCombinedRegister_wz (value : Word) :
    (r.setCombinedRegister .wz value).file = r.file :=
  (file_setRegister_scratch _ (.inr rfl) _).trans (file_setRegister_scratch _ (.inl rfl) _)

/-- `F` is the flag byte of the view. -/
theorem getRegister_f_eq_flagByte : r.getRegister .f = r.file.flagByte := by
  have hpack : ∀ f : Byte, f ||| 2 = f →
      f = BitVec.ofBool (getBit f 7) ++ BitVec.ofBool (getBit f 6) ++ BitVec.ofBool (getBit f 5) ++
        BitVec.ofBool (getBit f 4) ++ BitVec.ofBool (getBit f 3) ++ BitVec.ofBool (getBit f 2) ++
          1#1 ++ BitVec.ofBool (getBit f 0) := by
    decide +kernel
  exact hpack _ r.getRegister_f_or_two

/-- Writing `F` writes the flags and the two other bits of the view. -/
theorem file_setRegister_f (value : Byte) :
    (r.setRegister .f value).file = r.file.setFlagByte value := by
  have hf : (r.setRegister .f value).getRegister .f = value ||| 2 := by
    rw [getRegister_setRegister, if_pos rfl, if_pos rfl]
  -- the forced bit holds no flag and is neither of the two others
  have hbit : ∀ i, (2 : Byte).getLsbD i = false →
      getBit ((r.setRegister .f value).getRegister .f) i = value.getLsbD i := by
    intro i hi
    rw [hf, getBit_eq_getLsbD, BitVec.getLsbD_or, hi, Bool.or_false]
  refine Arch.File.ext ?_ (funext fun x => ?_) (funext fun flag => ?_) ?_ ?_
  · exact r.getCombinedRegister_setRegister_of_ne (by decide) (by decide) value
  · exact (r.getRegister_setRegister _ _ value).trans (if_neg x.register_ne_f)
  · exact hbit flag.shift (by cases flag <;> rfl)
  · exact hbit 5 rfl
  · exact hbit 3 rfl

theorem getCombinedRegister_stackPair (p : Arch.StackPair) :
    r.getCombinedRegister p.combined = r.file.stackPair p := by
  cases p with
  | psw => exact congrArg (combineBytes (r.getRegister .a)) r.getRegister_f_eq_flagByte
  | bc => rfl
  | de => rfl
  | hl => rfl

theorem file_setCombinedRegister_stackPair (p : Arch.StackPair) (value : Word) :
    (r.setCombinedRegister p.combined value).file = r.file.setStackPair value p := by
  cases p with
  | bc => exact r.file_setCombinedRegister .bc value
  | de => exact r.file_setCombinedRegister .de value
  | hl => exact r.file_setCombinedRegister .hl value
  | psw =>
    -- the emulator writes `A` first, the architecture `F`
    have hcomm : r.setCombinedRegister .psw value =
        (r.setRegister .f (getLowByte value)).setRegister Arch.Reg.a.register
          (getHighByte value) := r.setRegister_comm (by decide) _ _
    change (r.setCombinedRegister .psw value).file = _
    rw [hcomm, file_setRegister, file_setRegister_f]
    rfl

/-- Describing a result and setting both carries describes it in the view. -/
theorem file_setResultFlags (result : Byte) (halfCarry carry : Bool) :
    (((r.setFlag .ac halfCarry).setFlag .cy carry).setResultFlags result).file =
      r.file.describe result halfCarry carry := by
  rw [setResultFlags]
  simp only [file_setFlag]
  refine Arch.File.ext rfl rfl (funext fun flag => ?_) rfl rfl
  cases flag <;> rfl

theorem file_apply (operation : AluOperation) (x : Byte) :
    (operation.apply r x).file = r.file.alu operation x := by
  rw [AluOperation.apply, Arch.File.alu]
  by_cases h : operation = .cmp
  · rw [if_pos h, if_pos h]
    exact r.file_setResultFlags _ _ _
  · rw [if_neg h, if_neg h]
    refine (file_setRegister _ .a _).trans (congrArg (fun f : Arch.File => f.setReg .a _) ?_)
    exact r.file_setResultFlags _ _ _

/-- The flags of `INR` and `DCR`, which keep `CY`. -/
theorem file_setResultFlags_keep (result : Byte) (halfCarry : Bool) :
    ((r.setFlag .ac halfCarry).setResultFlags result).file =
      r.file.describe result halfCarry (r.file.flag .cy) := by
  rw [setResultFlags]
  simp only [file_setFlag]
  refine Arch.File.ext rfl rfl (funext fun flag => ?_) rfl rfl
  cases flag <;> rfl

/-- A rotation of `A`, given its result and the bit that leaves. -/
theorem file_rotate {direction : ShiftDirection} {rotateThrough : Bool} {result : Byte}
    {exit : Bool}
    (hexit : getBit (r.getRegister .a) (if direction = .right then 0 else 7) = exit)
    (hresult : setBit (if direction = .right then r.getRegister .a >>> 1 else r.getRegister .a <<< 1)
      (if direction = .right then 7 else 0) (if rotateThrough then r.getFlag .cy else exit) = result) :
    (r.rotate .a direction rotateThrough).file = r.file.rotate result exit := by
  simp only [rotate, hexit, hresult]
  rw [Arch.File.rotate, ← file_setFlag]
  exact file_setRegister _ .a _

theorem file_decimalAdjust : r.decimalAdjust.file = r.file.adjust := by
  have hlow : ∀ a : Byte, decide ((a &&& 0x0F) > 9) = decide (9 < a.toNat % 16) := by decide
  have hhigh : ∀ a : Byte, decide ((a >>> 4) > 9) = decide (9 < a.toNat / 16) := by decide
  have hcarry : ∀ carry high : Bool,
      (if (carry || high) = true then true else carry) = (carry || high) := by decide
  have hwritten : ∀ result carry,
      (((r.setRegister .a result).setFlag .cy carry).setResultFlags result).file =
        (r.file.describe result (r.file.flag .ac) carry).setReg .a result := by
    intro result carry
    rw [setResultFlags]
    simp only [file_setFlag]
    rw [show (r.setRegister .a result).file = r.file.setReg .a result from file_setRegister r .a _]
    refine Arch.File.ext rfl rfl (funext fun flag => ?_) rfl rfl
    cases flag <;> rfl
  simp only [decimalAdjust, hlow, hhigh, hcarry, describe_eq_setResultFlags, hwritten]
  rfl

theorem file_pushedRegisters (returnAddress : Word) :
    (Superfunction.pushedRegisters r returnAddress).file =
      { r.file with sp := r.file.sp - 2 } := by
  rw [Superfunction.pushedRegisters]
  refine (file_setCombinedRegister _ .sp _).trans ?_
  rw [file_setCombinedRegister_wz]
  rfl

theorem file_poppedRegisters (returnAddress : Word) :
    (Superfunction.poppedRegisters r returnAddress).file =
      { r.file with sp := r.file.sp + 2 } := by
  rw [Superfunction.poppedRegisters, file_setCombinedRegister_wz]
  exact file_setCombinedRegister _ .sp _

end Registers

/-! ### CPUs -/

/-- The vector of the pending interrupt. -/
def Latches.pending (l : Latches) : Option Byte :=
  if l.interruptRequested then some l.interruptVectorRequested else none

/-- What buses are to a program: which addresses show what is written through which, and
the devices on the ports. -/
def Buses.environment (b : Buses ι δ) : Arch.Environment ι where
  affects address other := decide (b.memoryBus.Affects address other)
  ports := b.ioBus.ports

/-- The state a program sees. -/
def Cpu.arch (c : Cpu ι δ) : Arch.State δ where
  toFile := c.registers.file
  pc := c.pc
  memory := c.buses.read
  devices := c.buses.devices
  enableRequested := c.latches.interruptsEnableRequested
  enabled := c.latches.interruptsEnabled
  pending := c.latches.pending
  halted := c.latches.halted

/-- States agree when their registers and their other fields do. -/
theorem Arch.State.ext_toFile {s t : Arch.State δ} (hfile : s.toFile = t.toFile)
    (hpc : s.pc = t.pc) (hmemory : s.memory = t.memory) (hdevices : s.devices = t.devices)
    (hrequested : s.enableRequested = t.enableRequested) (henabled : s.enabled = t.enabled)
    (hpending : s.pending = t.pending) (hhalted : s.halted = t.halted) : s = t := by
  cases s
  cases t
  subst hfile hpc hmemory hdevices hrequested henabled hpending hhalted
  rfl

namespace Buses

variable [IOPort ι δ] (b : Buses ι δ)

/-- Calls on the buses do not change what the buses are to a program. -/
@[simp]
theorem environment_performAll (events : List (BusEvent ι)) :
    (b.performAll events).environment = b.environment := by
  induction events generalizing b with
  | nil => rfl
  | cons e events ih =>
    rw [performAll_cons, ih]
    cases e <;> rfl

/-- Writes store into the memory a program sees. -/
theorem read_performAll_stores (writes : List (Word × Byte)) :
    (b.performAll (writes.map fun w => .write w.1 w.2)).read =
      b.environment.store b.read writes := by
  rw [read_performAll_writes, Arch.Environment.store]
  -- the environment decides `Affects`, so both sides are the same writes
  have hview : AliasedStore.writeView b.memoryBus.Affects =
      AliasedStore.writeView (β := Byte) fun x y => b.environment.affects x y := by
    funext shown entry address
    simp [AliasedStore.writeView, environment]
  rw [hview]

/-- Writes touch no device. -/
theorem devices_performAll_writes (writes : List (Word × Byte)) :
    (b.performAll (writes.map fun w => .write w.1 w.2)).devices = b.devices := by
  induction writes generalizing b with
  | nil => rfl
  | cons w writes ih => exact ih (b.write w.1 w.2)

end Buses

end Fake8080
