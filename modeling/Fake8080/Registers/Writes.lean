import Fake8080.Library.Overlay
import Fake8080.Model.Registers

/-!
# What the register file remembers

The three writers of `Registers` overlap: a pair is written as two registers, a flag as one bit
of `F`, and no write to `F` or `PSW` reaches the bit that is forced. After any sequence of
calls every bit is what the last call that reaches it made it, and the readers return these
bits (`Registers.read_callAll`).
-/

namespace Fake8080

/-- A call of a writer of `Registers`. -/
inductive RegistersCall
  | setRegister (reg : Register) (value : Byte)
  | setCombinedRegister (reg : CombinedRegister) (value : Word)
  | setFlag (flag : Flags) (value : Bool)

/-- The bits a write to a register reaches, with what it makes them: all but the forced one. -/
def Register.written (reg : Register) (value : Byte) : Register × Fin 8 → Option Bool
  | (reg', i) => if reg' = reg ∧ ¬ (reg = .f ∧ i.val = 1) then some (value.getLsbD i) else none

/-- The bits a call reaches, with what it makes them. -/
def RegistersCall.written : RegistersCall → Register × Fin 8 → Option Bool
  | setRegister reg value => reg.written value
  | setCombinedRegister reg value => fun bit =>
    (reg.registerPairs.2.written (getLowByte value) bit).or
      (reg.registerPairs.1.written (getHighByte value) bit)
  | setFlag flag value => fun bit =>
    if bit.1 = .f ∧ bit.2.val = flag.shift then some value else none

/-- The bit of `F` that holds a flag. -/
def Flags.bit (flag : Flags) : Fin 8 := ⟨flag.shift, by cases flag <;> decide⟩

/-- The bit of `F` that is forced. -/
def forcedBit : Register × Fin 8 := (.f, ⟨1, by decide⟩)

namespace Registers

variable (r : Registers)

/-- The register file after a call. -/
def call : RegistersCall → Registers
  | .setRegister reg value => r.setRegister reg value
  | .setCombinedRegister reg value => r.setCombinedRegister reg value
  | .setFlag flag value => r.setFlag flag value

/-- The register file after a sequence of calls. -/
def callAll (calls : List RegistersCall) : Registers := calls.foldl call r

/-- A bit of the register file. -/
def bit (bit : Register × Fin 8) : Bool := (r.getRegister bit.1).getLsbD bit.2

theorem bit_forcedBit : r.bit forcedBit = true := (getBit_eq_getLsbD _ 1).symm.trans r.getBit_one_f

theorem bit_setRegister (reg : Register) (value : Byte) :
    (r.setRegister reg value).bit = Overlay.overlay r.bit (reg.written value) := by
  funext ⟨reg', i⟩
  change ((r.setRegister reg value).getRegister reg').getLsbD i =
    (if reg' = reg ∧ ¬ (reg = .f ∧ i.val = 1) then some (value.getLsbD i) else none).getD _
  rw [getRegister_setRegister]
  by_cases hreg : reg' = reg
  · subst hreg
    rw [if_pos rfl]
    by_cases hf : reg' = .f
    · subst hf
      rw [if_pos rfl, BitVec.getLsbD_or]
      by_cases hi : i.val = 1
      · rw [if_neg fun h => h.2 ⟨rfl, hi⟩, Option.getD_none, show (Register.f, i) = forcedBit from
          congrArg (Prod.mk _) (Fin.ext hi), bit_forcedBit, hi]
        exact Bool.or_true _
      · have htwo : ∀ i : Fin 8, i.val ≠ 1 → (2 : Byte).getLsbD i = false := by decide
        rw [if_pos ⟨rfl, fun h => hi h.2⟩, htwo i hi]
        exact Bool.or_false _
    · rw [if_neg hf, if_pos ⟨rfl, fun h => hf h.1⟩]
      rfl
  · rw [if_neg hreg, if_neg fun h => hreg h.1]
    rfl

/-- A call makes the bits it reaches. -/
theorem bit_call (call : RegistersCall) :
    (r.call call).bit = Overlay.overlay r.bit call.written := by
  cases call with
  | setRegister reg value => exact r.bit_setRegister reg value
  | setCombinedRegister reg value =>
    change ((r.setRegister _ _).setRegister _ _).bit = _
    rw [bit_setRegister, bit_setRegister]
    funext bit
    change (reg.registerPairs.2.written (getLowByte value) bit).getD _ =
      ((reg.registerPairs.2.written (getLowByte value) bit).or _).getD _
    cases reg.registerPairs.2.written (getLowByte value) bit <;> rfl
  | setFlag flag value =>
    funext ⟨reg, i⟩
    change ((r.setFlag flag value).getRegister reg).getLsbD i =
      (if reg = .f ∧ i.val = flag.shift then some value else none).getD _
    by_cases hreg : reg = .f
    · subst hreg
      rw [← getBit_eq_getLsbD, getBit_setFlag _ _ _ i.isLt, getBit_eq_getLsbD]
      by_cases hi : i.val = flag.shift
      · rw [if_pos hi, if_pos ⟨rfl, hi⟩]
        rfl
      · rw [if_neg hi, if_neg fun h => hi h.2]
        rfl
    · rw [getRegister_setFlag_of_ne _ hreg, if_neg fun h => hreg h.1]
      rfl

/-- The bits of a pair are those of its registers. -/
theorem getLsbD_getCombinedRegister (reg : CombinedRegister) (i : Fin 8) :
    (r.getCombinedRegister reg).getLsbD (8 + i) = r.bit (reg.registerPairs.1, i) ∧
      (r.getCombinedRegister reg).getLsbD i = r.bit (reg.registerPairs.2, i) := by
  have hi := i.isLt
  have hlow : ¬ (8 + i.val < 8) := by omega
  have hsum : 8 + i.val < 16 := by omega
  have hsmall : i.val < 16 := by omega
  simp [getCombinedRegister, combineRegisters, combineBytes, bit, hi, hlow, hsum, hsmall]

/-- What the bits are after a sequence of calls: what the last call to reach each made it. -/
def remembered (calls : List RegistersCall) (bit : Register × Fin 8) : Bool :=
  (Overlay.last (calls.map RegistersCall.written) bit).getD (r.bit bit)

theorem bit_callAll (calls : List RegistersCall) : (r.callAll calls).bit = r.remembered calls := by
  have hfold : (r.callAll calls).bit =
      (calls.map RegistersCall.written).foldl Overlay.overlay r.bit := by
    rw [List.foldl_map, callAll]
    exact (List.foldl_hom bit fun r call => (r.bit_call call).symm).symm
  rw [hfold]
  exact funext (Overlay.foldl_overlay_apply _ _)

/-- **The register file remembers.** After any sequence of calls the readers return, bit by bit,
what the last call to reach the bit made it, and what the bit was before if none did. The forced
bit is reached by none and set. -/
theorem read_callAll (calls : List RegistersCall) :
    (∀ reg (i : Fin 8), ((r.callAll calls).getRegister reg).getLsbD i =
      r.remembered calls (reg, i)) ∧
    (∀ reg (i : Fin 8),
      ((r.callAll calls).getCombinedRegister reg).getLsbD (8 + i) =
        r.remembered calls (reg.registerPairs.1, i) ∧
      ((r.callAll calls).getCombinedRegister reg).getLsbD i =
        r.remembered calls (reg.registerPairs.2, i)) ∧
    (∀ flag, (r.callAll calls).getFlag flag = r.remembered calls (.f, flag.bit)) ∧
    (∀ call ∈ calls, call.written forcedBit = none) ∧ r.remembered calls forcedBit = true := by
  rw [← bit_callAll]
  refine ⟨fun _ _ => rfl, getLsbD_getCombinedRegister _, fun flag => ?_, fun call _ => ?_,
    bit_forcedBit _⟩
  · rw [getFlag, getBit_eq_getLsbD]
    rfl
  · have hforced : ∀ (reg : Register) value, reg.written value forcedBit = none := by
      intro reg value
      exact if_neg fun h => h.2 ⟨h.1.symm, rfl⟩
    cases call with
    | setRegister reg value => exact hforced reg value
    | setCombinedRegister reg value =>
      change (Register.written _ _ _).or (Register.written _ _ _) = none
      rw [hforced, hforced]
      rfl
    | setFlag flag value =>
      refine if_neg fun h => ?_
      cases flag <;> exact absurd h.2 (by decide)

end Registers

end Fake8080
