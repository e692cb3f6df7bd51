import Fake8080.Isa.Flags
import Fake8080.Multibyte.Addition

/-!
# Rotation of numbers of any length

`RAL` over the bytes of a number from the least significant one shifts the number left by
one bit, `RAR` from the most significant one shifts it right; `CY` hands a bit from each
byte to the next. A byte may lie in any register the template rotates, and the code in
between may do anything but change `CY`. What it leaves alone of the other flags and
registers, the whole run leaves alone.
-/

namespace Fake8080

universe u v

variable {ι : Type u} {δ : Type v}

/-! ### One byte -/

namespace Registers

/-- The rotation to the left conserves twice the byte and the bit that enters. -/
theorem setBit_shiftLeft : ∀ (value : Byte) (entry : Bool),
    (setBit (value <<< 1) 0 entry).toNat + 256 * (getBit value 7).toNat =
      value.toNat + value.toNat + entry.toNat := by
  decide +kernel

/-- The rotation to the right conserves the byte and the bit that enters above it. -/
theorem setBit_shiftRight : ∀ (value : Byte) (entry : Bool),
    (setBit (value >>> 1) 7 entry).toNat + (setBit (value >>> 1) 7 entry).toNat +
      (getBit value 0).toNat = value.toNat + 256 * entry.toNat := by
  decide +kernel

variable (r : Registers) {reg : Register}

theorem getRegister_rotate_of_ne {reg' : Register} (h : reg ≠ reg') (hf : reg' ≠ .f)
    (direction : ShiftDirection) (rotateThrough : Bool) :
    (r.rotate reg direction rotateThrough).getRegister reg' = r.getRegister reg' := by
  rw [rotate, getRegister_setRegister, if_neg h.symm, getRegister_setFlag_of_ne _ hf]

/-- `RAL` in numbers. -/
theorem rotate_left_conserves (h : reg ≠ .f) :
    let r' := r.rotate reg .left true
    (r'.getRegister reg).toNat + 256 * (r'.getFlag .cy).toNat =
      (r.getRegister reg).toNat + (r.getRegister reg).toNat + (r.getFlag .cy).toNat := by
  intro r'
  have hvalue : r'.getRegister reg = setBit (r.getRegister reg <<< 1) 0 (r.getFlag .cy) := by
    simp [r', rotate, h]
  have hcy : r'.getFlag .cy = getBit (r.getRegister reg) 7 := by
    simp [r', rotate, getFlag_setRegister_of_ne _ h]
  rw [hvalue, hcy]
  exact setBit_shiftLeft _ _

theorem rotate_right_conserves (h : reg ≠ .f) :
    let r' := r.rotate reg .right true
    (r'.getRegister reg).toNat + (r'.getRegister reg).toNat + (r'.getFlag .cy).toNat =
      (r.getRegister reg).toNat + 256 * (r.getFlag .cy).toNat := by
  intro r'
  have hvalue : r'.getRegister reg = setBit (r.getRegister reg >>> 1) 7 (r.getFlag .cy) := by
    simp [r', rotate, h]
  have hcy : r'.getFlag .cy = getBit (r.getRegister reg) 0 := by
    simp [r', rotate, getFlag_setRegister_of_ne _ h]
  rw [hvalue, hcy]
  exact setBit_shiftRight _ _

end Registers

/-- One byte position of a rotation. -/
structure RotatedByte where
  /-- The register rotated. -/
  register : Register
  /-- The byte in it before. -/
  before : Byte
  /-- The byte in it afterwards. -/
  after : Byte

/-- The opcode of the rotation of `A` through `CY`. -/
def rotateOpcode : ShiftDirection → Byte
  | .left => 0x17
  | .right => 0x1F

namespace Cpu

/-- The states have the same `CY`, the same values of some flags and of some registers. -/
structure Preserves (flags : Set Flags) (registers : Set Register) (c c' : Cpu ι δ) : Prop where
  carry : c.KeepsCarry c'
  getFlag : ∀ flag ∈ flags, c'.registers.getFlag flag = c.registers.getFlag flag
  getRegister : ∀ reg ∈ registers, c'.registers.getRegister reg = c.registers.getRegister reg

theorem Preserves.refl (flags : Set Flags) (registers : Set Register) (c : Cpu ι δ) :
    c.Preserves flags registers c :=
  ⟨rfl, fun _ _ => rfl, fun _ _ => rfl⟩

/-- The states have the same values of some flags other than `CY` and of some registers
other than `F` and those that hold a byte. -/
structure KeepsOthers (flags : Set Flags) (registers : Set Register) (digits : List RotatedByte)
    (c c' : Cpu ι δ) : Prop where
  getFlag : ∀ flag ∈ flags, flag ≠ .cy → c'.registers.getFlag flag = c.registers.getFlag flag
  getRegister : ∀ reg ∈ registers, reg ≠ .f → (∀ d ∈ digits, d.register ≠ reg) →
    c'.registers.getRegister reg = c.registers.getRegister reg

theorem KeepsOthers.trans {flags : Set Flags} {registers : Set Register}
    {digits digits' : List RotatedByte} {c c' c'' : Cpu ι δ}
    (h : c.KeepsOthers flags registers digits c')
    (h' : c'.KeepsOthers flags registers digits' c'') :
    c.KeepsOthers flags registers (digits ++ digits') c'' where
  getFlag flag hmem hcy := (h'.getFlag flag hmem hcy).trans (h.getFlag flag hmem hcy)
  getRegister reg hmem hf hdigits :=
    (h'.getRegister reg hmem hf fun d hd => hdigits d (List.mem_append_right _ hd)).trans
      (h.getRegister reg hmem hf fun d hd => hdigits d (List.mem_append_left _ hd))

variable [IOPort ι δ]

/-- `RAL` or `RAR` rotates a byte: a cycle executes it, or the template is called for the
register of the byte. -/
structure RotateStage (direction : ShiftDirection) (digit : RotatedByte) (c c' : Cpu ι δ) :
    Prop where
  rotates : digit.register = .a ∧ c.cycleEvent = .exec (rotateOpcode direction) ∧ c' = c.cycle ∨
    digit.register ≠ .f ∧ c' = (rlcRrcRalRarR digit.register direction true c).2
  before : c.registers.getRegister digit.register = digit.before
  after : c'.registers.getRegister digit.register = digit.after

/-- A run of `RAL` or `RAR` over the bytes, with idle steps that keep some flags and
registers. -/
abbrev RotateChain (direction : ShiftDirection) (flags : Set Flags) (registers : Set Register) :
    List RotatedByte → Cpu ι δ → Cpu ι δ → Prop :=
  CarryChain (Preserves flags registers) (RotateStage direction)

theorem registers_cycle_rotate {c : Cpu ι δ} {direction : ShiftDirection}
    (h : c.cycleEvent = .exec (rotateOpcode direction)) :
    c.cycle.registers = c.registers.rotate .a direction true := by
  have hf : Superfunction.ofOpcode (rotateOpcode direction) =
      .rlcRrcRalRarR .a direction true := by
    cases direction <;> exact Superfunction.ofOpcode_eq_decode _
  rw [cycle_eq_superfunction_next h, hf]
  rfl

variable {direction : ShiftDirection} {digit : RotatedByte} {flags : Set Flags}
  {registers : Set Register} {digits digits' : List RotatedByte} {c c' c'' : Cpu ι δ}

/-- Both ways to rotate have the same effect on the registers. -/
theorem RotateStage.registers_eq (h : RotateStage direction digit c c') :
    digit.register ≠ .f ∧
      c'.registers = c.registers.rotate digit.register direction true := by
  rcases h.rotates with ⟨hreg, hexec, rfl⟩ | ⟨hreg, rfl⟩
  · rw [hreg]
    exact ⟨by decide, registers_cycle_rotate hexec⟩
  · exact ⟨hreg, rfl⟩

theorem RotateStage.conserves_left (h : RotateStage .left digit c c') :
    digit.after.toNat + 256 * c'.carry = digit.before.toNat + digit.before.toNat + c.carry := by
  obtain ⟨hreg, hregisters⟩ := h.registers_eq
  rw [← h.after, ← h.before, carry, hregisters]
  exact c.registers.rotate_left_conserves hreg

theorem RotateStage.conserves_right (h : RotateStage .right digit c c') :
    digit.after.toNat + digit.after.toNat + c'.carry = digit.before.toNat + 256 * c.carry := by
  obtain ⟨hreg, hregisters⟩ := h.registers_eq
  rw [← h.after, ← h.before, carry, hregisters]
  exact c.registers.rotate_right_conserves hreg

/-! ### All bytes -/

/-- `RAL` from the least significant byte conserves twice the number. -/
theorem conserves_ralChain (h : RotateChain .left flags registers digits c c') :
    bytesValue (digits.map (·.after)) + 256 ^ digits.length * c'.carry =
      2 * bytesValue (digits.map (·.before)) + c.carry := by
  rw [two_mul, bytesValue_map, bytesValue_map, ← Nat.ofDigits_map_add]
  refine CarryChain.conserves ?_ ?_ h
  · exact fun s t hidle => hidle.carry.carry_eq
  · exact fun digit s t hstage => hstage.conserves_left

/-- `RAR` from the most significant byte conserves the number and the carry in above it. -/
theorem conserves_rarChain (h : RotateChain .right flags registers digits c c') :
    2 * bytesValue (digits.map (·.after)).reverse + c'.carry =
      bytesValue (digits.map (·.before)).reverse + 256 ^ digits.length * c.carry := by
  rw [two_mul, ← List.map_reverse, ← List.map_reverse, bytesValue_map, bytesValue_map,
    ← Nat.ofDigits_map_add, List.map_reverse, List.map_reverse]
  refine CarryChain.conserves_down ?_ ?_ h
  · exact fun s t hidle => hidle.carry.carry_eq
  · exact fun digit s t hstage => hstage.conserves_right

theorem keepsOthers_rotateChain (h : RotateChain direction flags registers digits c c') :
    c.KeepsOthers flags registers digits c' := by
  refine ⟨?_, ?_⟩
  · intro flag hmem hcy
    refine CarryChain.keeps (f := fun c => c.registers.getFlag flag) ?_ ?_ h
    · exact fun s t hidle => hidle.getFlag flag hmem
    · intro digit _ s t hstage
      obtain ⟨hreg, hregisters⟩ := hstage.registers_eq
      exact (congrArg (·.getFlag flag) hregisters).trans
        (s.registers.getFlag_rotate hreg _ _ hcy)
  · intro reg hmem hf hdigits
    refine CarryChain.keeps (f := fun c => c.registers.getRegister reg) ?_ ?_ h
    · exact fun s t hidle => hidle.getRegister reg hmem
    · intro digit hdigit s t hstage
      obtain ⟨-, hregisters⟩ := hstage.registers_eq
      exact (congrArg (·.getRegister reg) hregisters).trans
        (s.registers.getRegister_rotate_of_ne (hdigits digit hdigit) hf _ _)

/-- The top bit of a number of `n` bytes tells whether twice the number fits, whatever the
bit shifted in. -/
theorem testBit_top {n x k : ℕ} (hn : 0 < n) (hx : x < 256 ^ n) (hk : k ≤ 1) :
    x.testBit (8 * n - 1) = true ↔ 256 ^ n ≤ 2 * x + k := by
  have hpow : 256 ^ n = 2 * 2 ^ (8 * n - 1) := by
    rw [← pow_succ', Nat.sub_add_cancel (by omega), pow_mul]
    rfl
  rw [hpow] at hx ⊢
  constructor
  · intro hbit
    have hle := Nat.ge_two_pow_of_testBit hbit
    omega
  · intro hle
    exact Nat.testBit_of_two_pow_le_and_two_pow_add_one_gt (by omega) (by rw [pow_succ']; omega)

/-- **Rotation of any length.** `RAL` from the least significant byte leaves the bytes of
twice the number and the carry in modulo `256 ^ n`, and the top bit in `CY`; `RAR` from the
most significant byte leaves the bytes of half the number with the carry in above it, and
the lowest bit in `CY`. `RAR` right after `RAL` restores every byte and the carry. The other
flags, and the registers that hold no byte, are unchanged wherever the code in between does
not change them. -/
theorem multibyte_rotation (flags : Set Flags) (registers : Set Register) :
    (∀ (digits : List RotatedByte) (c c' : Cpu ι δ), digits ≠ [] →
      RotateChain .left flags registers digits c c' →
      let X := bytesValue (digits.map (·.before))
      bytesValue (digits.map (·.after)) = (2 * X + c.carry) % 256 ^ digits.length ∧
        c'.registers.getFlag .cy = X.testBit (8 * digits.length - 1) ∧
        c.KeepsOthers flags registers digits c') ∧
    (∀ (digits : List RotatedByte) (c c' : Cpu ι δ), digits ≠ [] →
      RotateChain .right flags registers digits c c' →
      let X := bytesValue (digits.map (·.before)).reverse
      bytesValue (digits.map (·.after)).reverse = (X + c.carry * 256 ^ digits.length) / 2 ∧
        c'.registers.getFlag .cy = X.testBit 0 ∧
        c.KeepsOthers flags registers digits c') ∧
    ∀ (digits digits' : List RotatedByte) (c c' c'' : Cpu ι δ),
      RotateChain .left flags registers digits c c' →
      RotateChain .right flags registers digits' c' c'' →
      digits'.map (·.before) = (digits.map (·.after)).reverse →
        digits'.map (·.after) = (digits.map (·.before)).reverse ∧
          c''.registers.getFlag .cy = c.registers.getFlag .cy ∧
          c.KeepsOthers flags registers (digits ++ digits') c'' := by
  refine ⟨?_, ?_, ?_⟩
  · intro digits c c' hne h X
    have hn : 0 < digits.length := List.length_pos_iff.mpr hne
    obtain ⟨hvalue, hcy⟩ := Nat.add_of_conserved (bytesValue_map_lt _ _) (conserves_ralChain h)
    refine ⟨hvalue, ?_, keepsOthers_rotateChain h⟩
    rw [Bool.eq_iff_iff, hcy]
    exact (testBit_top hn (bytesValue_map_lt _ _) c.carry_le).symm
  · intro digits c c' hne h X
    have hn : 0 < digits.length := List.length_pos_iff.mpr hne
    have hconserves : 2 * bytesValue (digits.map (·.after)).reverse + c'.carry =
        X + 256 ^ digits.length * c.carry := conserves_rarChain h
    have hle := c'.carry_le
    refine ⟨by rw [mul_comm c.carry]; omega, ?_, keepsOthers_rotateChain h⟩
    -- the carry in enters above an even number of bits
    obtain ⟨m, hm⟩ : 2 ∣ 256 ^ digits.length :=
      (by decide : 2 ∣ 256).trans (dvd_pow_self _ hn.ne')
    rw [hm, mul_assoc] at hconserves
    have hcarry : c'.carry = X % 2 := by omega
    rw [Nat.testBit_zero, ← hcarry, carry]
    cases c'.registers.getFlag .cy <;> rfl
  · intro digits digits' c c' c'' hral hrar hbytes
    have hlength : digits'.length = digits.length := by simpa using congrArg List.length hbytes
    have hleft := conserves_ralChain hral
    have hright := conserves_rarChain hrar
    -- both sums are what the bytes and the carry in between stand for
    rw [hbytes, List.reverse_reverse, hlength, hleft] at hright
    obtain ⟨hvalue, hcarry⟩ := Nat.eq_of_two_mul_add hright
    have hresult : (digits'.map (·.after)).reverse = digits.map (·.before) :=
      eq_of_bytesValue_eq (by simp [hlength]) hvalue
    refine ⟨by rw [← hresult, List.reverse_reverse], hcarry, ?_⟩
    exact (keepsOthers_rotateChain hral).trans (keepsOthers_rotateChain hrar)

/-- `RAL` and `RAR`, with the number 0x80C1 in `B` and `A` and `CY` set. -/
def rotationMachine : Cpu Empty Unit :=
  (((Cpu.new (Buses.mapMemory [0x17, 0x1F])).setRegister .b 0x80).setRegister .a 0xC1).setFlag
    .cy true

/-- `RAL` of `A` and `B` leaves 0x0183; `RAR` of `B` and `A` restores the carry. -/
theorem rotationMachine_restores :
    (rarR .b (ralR .b rotationMachine.cycle).2).2.cycle.registers.getFlag .cy = true := by
  have hral : RotateChain .left Set.univ Set.univ [⟨.a, 0xC1, 0x83⟩, ⟨.b, 0x80, 0x01⟩]
      rotationMachine (ralR .b rotationMachine.cycle).2 :=
    .digit (.refl _ _ _) ⟨.inl ⟨rfl, by decide, rfl⟩, by decide, by decide⟩
      (.digit (.refl _ _ _) ⟨.inr ⟨by decide, rfl⟩, by decide, by decide⟩ (.done (.refl _ _ _)))
  have hrar : RotateChain .right Set.univ Set.univ [⟨.b, 0x01, 0x80⟩, ⟨.a, 0x83, 0xC1⟩]
      (ralR .b rotationMachine.cycle).2
      (rarR .b (ralR .b rotationMachine.cycle).2).2.cycle :=
    .digit (.refl _ _ _) ⟨.inr ⟨by decide, rfl⟩, by decide, by decide⟩
      (.digit (.refl _ _ _) ⟨.inl ⟨rfl, by decide, rfl⟩, by decide, by decide⟩
        (.done (.refl _ _ _)))
  exact ((multibyte_rotation Set.univ Set.univ).2.2 _ _ _ _ _ hral hrar rfl).2.1

/-- On every machine, any bytes can be loaded into `A` and rotated one after the other, with
all flags and all other registers kept in between. -/
theorem exists_rotateChain (direction : ShiftDirection) (bytes : List Byte) (c : Cpu ι δ) :
    ∃ digits c', RotateChain direction Set.univ (Set.compl {.a}) digits c c' ∧
      digits.map (·.before) = bytes := by
  induction bytes generalizing c with
  | nil => exact ⟨[], c, .done (.refl _ _ _), rfl⟩
  | cons byte bytes ih =>
    let s := c.setRegister .a byte
    let t := (rlcRrcRalRarR .a direction true s).2
    obtain ⟨digits, c', hrest, rfl⟩ := ih t
    have hidle : c.Preserves Set.univ (Set.compl {.a}) s := by
      refine ⟨c.registers.getFlag_setRegister_of_ne (by decide) _ _, ?_, ?_⟩
      · exact fun flag _ => c.registers.getFlag_setRegister_of_ne (by decide) _ _
      · intro reg hreg
        exact (c.registers.getRegister_setRegister _ _ _).trans (if_neg hreg)
    have hbyte : s.registers.getRegister .a = byte := by simp [s, setRegister]
    exact ⟨⟨.a, byte, t.registers.getRegister .a⟩ :: digits, c',
      .digit hidle ⟨.inr ⟨(by decide : Register.a ≠ .f), rfl⟩, hbyte, rfl⟩ hrest, rfl⟩

end Cpu

end Fake8080
