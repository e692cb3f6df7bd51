import Fake8080.Isa.Arithmetic

/-!
# Addition and subtraction of numbers of any length

`ADD` on the lowest bytes and `ADC` on the others adds little-endian numbers of any length,
`SUB` and `SBB` subtract them. Nothing is assumed about the code in between but that it
leaves `CY` alone and puts the next byte in `A`: it may load and store bytes, move pointers
and count, and the second operand may come from a register, memory or the instruction.
-/

namespace Fake8080

universe u v

variable {ι : Type u} {δ : Type v}

/-! ### Little-endian numbers -/

/-- The number that bytes stand for, the least significant first. -/
def bytesValue (bytes : List Byte) : ℕ := Nat.ofDigits 256 (bytes.map BitVec.toNat)

theorem bytesValue_map {α : Type u} (f : α → Byte) (digits : List α) :
    bytesValue (digits.map f) = Nat.ofDigits 256 (digits.map fun d => (f d).toNat) := by
  rw [bytesValue, List.map_map]
  rfl

/-- Bytes are digits in base 256. -/
theorem toNat_lt_of_mem {bytes : List Byte} : ∀ x ∈ bytes.map BitVec.toNat, x < 256 := by
  intro x hx
  obtain ⟨byte, -, rfl⟩ := List.mem_map.mp hx
  exact byte.isLt

theorem bytesValue_lt (bytes : List Byte) : bytesValue bytes < 256 ^ bytes.length := by
  have hdigits : ∀ x ∈ bytes.map BitVec.toNat, x < 256 := toNat_lt_of_mem
  have h := Nat.ofDigits_lt_base_pow_length (by decide : 1 < 256) hdigits
  rwa [List.length_map] at h

/-- As many bytes that stand for the same number are the same bytes. -/
theorem eq_of_bytesValue_eq {bytes bytes' : List Byte} (hlength : bytes.length = bytes'.length)
    (h : bytesValue bytes = bytesValue bytes') : bytes = bytes' := by
  have hdigits : bytes.map BitVec.toNat = bytes'.map BitVec.toNat :=
    Nat.ofDigits_inj_of_len_eq (by decide : 1 < 256) (by simpa using hlength) toNat_lt_of_mem
      toNat_lt_of_mem h
  exact List.map_injective_iff.mpr (fun _ _ => BitVec.eq_of_toNat_eq) hdigits

/-! ### One byte -/

/-- One byte position of an operation on two numbers: the bytes operated on and the byte
left. -/
structure BinaryDigit where
  /-- The byte in `A` before. -/
  first : Byte
  /-- The other operand. -/
  second : Byte
  /-- The byte in `A` afterwards. -/
  result : Byte

namespace Cpu

/-- `CY` as a number. -/
def carry (c : Cpu ι δ) : ℕ := (c.registers.getFlag .cy).toNat

theorem carry_le (c : Cpu ι δ) : c.carry ≤ 1 := Bool.toNat_le _

/-- The states have the same `CY`. -/
def KeepsCarry (c c' : Cpu ι δ) : Prop := c'.registers.getFlag .cy = c.registers.getFlag .cy

theorem KeepsCarry.carry_eq {c c' : Cpu ι δ} (h : c.KeepsCarry c') : c'.carry = c.carry :=
  congrArg Bool.toNat h

variable [IOPort ι δ]

/-- One cycle executes an ALU operation on a byte position. -/
structure AluStage (operation : AluOperation) (digit : BinaryDigit) (c c' : Cpu ι δ) : Prop where
  executes : ∃ o source, AluOperation.ofCode o = operation ∧
    c.cycleEvent = .exec (Instruction.alu o source).encode ∧
      source.value c.fetched = digit.second
  first : c.registers.getRegister .a = digit.first
  next : c' = c.cycle
  result : c'.registers.getRegister .a = digit.result

/-- A run of one operation on the lowest bytes and another on each later byte. -/
abbrev AluChain (first later : AluOperation) : List BinaryDigit → Cpu ι δ → Cpu ι δ → Prop :=
  SeededChain KeepsCarry (AluStage first) (AluStage later)

variable {operation : AluOperation} {digit : BinaryDigit} {digits : List BinaryDigit}
  {c c' d d' : Cpu ι δ}

/-- An addition of two bytes conserves them and the carry in. -/
theorem AluStage.conserves_add (h : AluStage operation digit c c')
    (hop : operation = .add ∨ operation = .adc) :
    digit.result.toNat + 256 * c'.carry = digit.first.toNat + digit.second.toNat +
      operation.carryIn (c.registers.getFlag .cy) := by
  obtain ⟨o, source, rfl, hexec, hsecond⟩ := h.executes
  obtain ⟨hresult, hreports⟩ := cycle_of_addition hexec hop
  have hcy := hreports.cy
  rw [← h.next, h.result, hsecond, h.first] at hresult
  rw [← h.next, hsecond, h.first] at hcy
  have hfirst := digit.first.isLt
  have hsecond' := digit.second.isLt
  have hcarry := (AluOperation.ofCode o).carryIn_le (c.registers.getFlag .cy)
  exact Nat.conserved_of_add (by omega) hresult hcy

theorem AluStage.conserves_sub (h : AluStage operation digit c c')
    (hop : operation = .sub ∨ operation = .sbb) :
    digit.first.toNat + 256 * c'.carry = digit.result.toNat + digit.second.toNat +
      operation.carryIn (c.registers.getFlag .cy) := by
  obtain ⟨o, source, rfl, hexec, hsecond⟩ := h.executes
  obtain ⟨hresult, hreports⟩ := cycle_of_subtraction hexec hop
  have hcy := hreports.cy
  rw [← h.next, h.result, hsecond, h.first, sub_sub, ← Nat.cast_add] at hresult
  rw [← h.next, hsecond, h.first] at hcy
  have hfirst := digit.first.isLt
  have hsecond' := digit.second.isLt
  have hcarry := (AluOperation.ofCode o).carryIn_le (c.registers.getFlag .cy)
  rw [Nat.add_assoc]
  exact Nat.conserved_of_sub hfirst (by omega) hresult hcy

/-! ### All bytes -/

/-- `ADD` and `ADC` conserve the two numbers. -/
theorem conserves_addChain (h : AluChain .add .adc digits c c') :
    bytesValue (digits.map (·.result)) + 256 ^ digits.length * c'.carry =
      bytesValue (digits.map (·.first)) + bytesValue (digits.map (·.second)) := by
  simp only [bytesValue_map, ← Nat.ofDigits_map_add]
  refine CarryChain.conserves_of_seeded ?_ ?_ ?_ h
  · exact fun s t => KeepsCarry.carry_eq
  · intro digit s t hstage
    exact hstage.conserves_add (.inl rfl)
  · intro digit s t hstage
    exact hstage.conserves_add (.inr rfl)

theorem conserves_subChain (h : AluChain .sub .sbb digits c c') :
    bytesValue (digits.map (·.first)) + 256 ^ digits.length * c'.carry =
      bytesValue (digits.map (·.result)) + bytesValue (digits.map (·.second)) := by
  simp only [bytesValue_map, ← Nat.ofDigits_map_add]
  refine CarryChain.conserves_of_seeded ?_ ?_ ?_ h
  · exact fun s t => KeepsCarry.carry_eq
  · intro digit s t hstage
    exact hstage.conserves_sub (.inl rfl)
  · intro digit s t hstage
    exact hstage.conserves_sub (.inr rfl)

/-- The bytes of one column of a list of positions stand for a number below
`256 ^ n`. -/
theorem bytesValue_map_lt {α : Type u} (f : α → Byte) (digits : List α) :
    bytesValue (digits.map f) < 256 ^ digits.length := by
  have h := bytesValue_lt (digits.map f)
  rwa [List.length_map] at h

/-- **Addition and subtraction of any length.** With only `CY` carried from each byte to the
next, `ADD` and then `ADC` leave the bytes of the sum modulo `256 ^ n` and a carry exactly
if the sum does not fit; `SUB` and then `SBB` leave the bytes of the difference modulo
`256 ^ n` and a borrow exactly if the first number is below the second. Subtracting the
second number from the sum gives back the first, with the carry of the addition for a
borrow. -/
theorem multibyte_arithmetic :
    (∀ (digits : List BinaryDigit) (c c' : Cpu ι δ), AluChain .add .adc digits c c' →
      let X := bytesValue (digits.map (·.first))
      let Y := bytesValue (digits.map (·.second))
      bytesValue (digits.map (·.result)) = (X + Y) % 256 ^ digits.length ∧
        (c'.registers.getFlag .cy = true ↔ 256 ^ digits.length ≤ X + Y)) ∧
    (∀ (digits : List BinaryDigit) (c c' : Cpu ι δ), AluChain .sub .sbb digits c c' →
      let X := bytesValue (digits.map (·.first))
      let Y := bytesValue (digits.map (·.second))
      (bytesValue (digits.map (·.result)) : ℤ) = (X - Y) % (256 ^ digits.length : ℕ) ∧
        (c'.registers.getFlag .cy = true ↔ X < Y)) ∧
    ∀ (sum difference : List BinaryDigit) (c c' d d' : Cpu ι δ),
      AluChain .add .adc sum c c' → AluChain .sub .sbb difference d d' →
      difference.map (·.first) = sum.map (·.result) →
      difference.map (·.second) = sum.map (·.second) →
        difference.map (·.result) = sum.map (·.first) ∧
          d'.registers.getFlag .cy = c'.registers.getFlag .cy := by
  refine ⟨fun digits c c' h => ?_, fun digits c c' h => ?_, ?_⟩
  · exact Nat.add_of_conserved (bytesValue_map_lt _ _) (conserves_addChain h)
  · exact Nat.sub_of_conserved (bytesValue_map_lt _ _) (conserves_subChain h)
  · intro sum difference c c' d d' hsum hdifference hfirst hsecond
    have hadd := conserves_addChain hsum
    have hsub := conserves_subChain hdifference
    have hlength : difference.length = sum.length := by simpa using congrArg List.length hfirst
    rw [hfirst, hsecond, hlength] at hsub
    have hlt := bytesValue_map_lt (·.first) sum
    have hlt' := bytesValue_map_lt (·.result) difference
    rw [hlength] at hlt'
    -- both carries are what lies above the same number
    have hsame : bytesValue (sum.map (·.first)) +
        256 ^ sum.length * (d'.registers.getFlag .cy).toNat =
          bytesValue (difference.map (·.result)) +
            256 ^ sum.length * (c'.registers.getFlag .cy).toNat := by
      rw [carry] at hadd hsub
      linarith
    obtain ⟨hvalue, hcarry⟩ := Nat.eq_of_conserved hlt hlt' hsame
    have hresult := eq_of_bytesValue_eq (by simp [hlength]) hvalue
    exact ⟨hresult.symm, hcarry⟩

/-- `ADD B`, `MOV A, D` and `ADC C`, with 0xFFFF in `D` and `A` and 0x0001 in `C` and
`B`. -/
def additionProgram : Cpu Empty Unit :=
  (((Cpu.new (Buses.mapMemory [0x80, 0x7A, 0x89])).setRegister .a 0xFF).setRegister .d
    0xFF).setRegister .b 0x01

/-- The sum 0xFFFF + 0x0001 does not fit. -/
theorem additionProgram_carries :
    additionProgram.cycle.cycle.cycle.registers.getFlag .cy = true := by
  have hadd : AluStage .add ⟨0xFF, 0x01, 0x00⟩ additionProgram additionProgram.cycle :=
    ⟨⟨0, .operand 0, rfl, by decide, by decide⟩, by decide, rfl, by decide⟩
  have hadc : AluStage .adc ⟨0xFF, 0x00, 0x00⟩ additionProgram.cycle.cycle
      additionProgram.cycle.cycle.cycle :=
    ⟨⟨1, .operand 1, rfl, by decide, by decide⟩, by decide, rfl, by decide⟩
  have hchain : AluChain .add .adc [⟨0xFF, 0x01, 0x00⟩, ⟨0xFF, 0x00, 0x00⟩] additionProgram
      additionProgram.cycle.cycle.cycle :=
    ⟨_, _, _, rfl, hadd, .digit (by rw [KeepsCarry]; decide) hadc (.done rfl)⟩
  exact (multibyte_arithmetic.1 _ _ _ hchain).2.mpr (by decide)

/-! ### Every two numbers can be added -/

/-- A machine about to execute an opcode with given registers. -/
def executing (opcode : Byte) (registers : Registers) : Cpu Empty Unit :=
  { Cpu.new (Buses.fullRam fun _ => opcode) with registers := registers }

theorem cycleEvent_executing (opcode : Byte) (registers : Registers) :
    (executing opcode registers).cycleEvent = .exec opcode := by
  have hregion : (MemoryBus.build [⟨0, 0xFFFF, .ramRegion ⟨0, 65536⟩⟩]).findRegion 0 =
      ⟨0, 0xFFFF, .ramRegion ⟨0, 65536⟩⟩ := by decide
  have hread : ∀ host : Host,
      (MemoryBus.build [⟨0, 0xFFFF, .ramRegion ⟨0, 65536⟩⟩]).read host 0 = host 0 := by
    intro host
    simp only [MemoryBus.read, hregion]
    rfl
  exact cycleEvent_eq_exec_iff.mpr ⟨rfl, rfl, hread _⟩

/-- An ALU operation on any two bytes, with any `CY`, is a stage of some machine. -/
theorem exists_aluStage (o : BitVec 3) (first second : Byte) (cy : Bool) :
    ∃ result, ∃ c c' : Cpu Empty Unit, c.registers.getFlag .cy = cy ∧
      AluStage (.ofCode o) ⟨first, second, result⟩ c c' := by
  let registers := ((Registers.initial.setRegister .a first).setRegister .b second).setFlag .cy cy
  have ha : registers.getRegister .a = first :=
    (Registers.getRegister_setFlag_of_ne _ (by decide) _ _).trans (by simp)
  have hb : registers.getRegister .b = second :=
    (Registers.getRegister_setFlag_of_ne _ (by decide) _ _).trans (by simp)
  have hcy : registers.getFlag .cy = cy := (Registers.getFlag_setFlag _ _ _ _).trans (if_pos rfl)
  let c := executing (Instruction.alu o (.operand 0)).encode registers
  exact ⟨c.cycle.registers.getRegister .a, c, c.cycle, hcy,
    ⟨o, .operand 0, rfl, cycleEvent_executing _ _, hb⟩, ha, rfl, rfl⟩

/-- Any operands can follow any state, if a stage on any two bytes can follow any `CY`. -/
theorem exists_carryChain {stage : BinaryDigit → Cpu Empty Unit → Cpu Empty Unit → Prop}
    (hstage : ∀ first second cy, ∃ result c c', c.registers.getFlag .cy = cy ∧
      stage ⟨first, second, result⟩ c c')
    (operands : List (Byte × Byte)) (c : Cpu Empty Unit) :
    ∃ digits c', CarryChain KeepsCarry stage digits c c' ∧
      digits.map (fun d => (d.first, d.second)) = operands := by
  induction operands generalizing c with
  | nil => exact ⟨[], c, .done rfl, rfl⟩
  | cons pair operands ih =>
    obtain ⟨result, s, t, hcy, hst⟩ := hstage pair.1 pair.2 (c.registers.getFlag .cy)
    obtain ⟨digits, c', hrest, hdigits⟩ := ih t
    exact ⟨_ :: digits, c', .digit hcy hst hrest, by rw [List.map_cons, hdigits]⟩

/-- There is a run over any two numbers of the same length, if there are stages on any two
bytes with any `CY`. -/
theorem exists_seededChain
    {first stage : BinaryDigit → Cpu Empty Unit → Cpu Empty Unit → Prop}
    (hfirst : ∀ x y cy, ∃ result c c', c.registers.getFlag .cy = cy ∧ first ⟨x, y, result⟩ c c')
    (hstage : ∀ x y cy, ∃ result c c', c.registers.getFlag .cy = cy ∧ stage ⟨x, y, result⟩ c c')
    (x y : Byte) (operands : List (Byte × Byte)) :
    ∃ digits c c', SeededChain KeepsCarry first stage digits c c' ∧
      digits.map (fun d => (d.first, d.second)) = (x, y) :: operands := by
  obtain ⟨result, s, t, -, hst⟩ := hfirst x y false
  obtain ⟨digits, c', hrest, hdigits⟩ := exists_carryChain hstage operands t
  exact ⟨_ :: digits, s, c', ⟨_, digits, t, rfl, hst, hrest⟩, by rw [List.map_cons, hdigits]⟩

/-- There is a run of an operation on any two numbers of the same length. -/
theorem exists_aluChain (o o' : BitVec 3) (first second : Byte) (operands : List (Byte × Byte)) :
    ∃ digits, ∃ c c' : Cpu Empty Unit, AluChain (.ofCode o) (.ofCode o') digits c c' ∧
      digits.map (fun d => (d.first, d.second)) = (first, second) :: operands :=
  exists_seededChain (exists_aluStage o) (exists_aluStage o') first second operands

end Cpu

end Fake8080
