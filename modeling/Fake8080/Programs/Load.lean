import Fake8080.Arch.Observation
import Fake8080.Arch.SaveRestore
import Fake8080.Programs.Code

/-!
# Every state of the registers can be reached

Seven instructions load all registers and flags and leave the program counter anywhere. So of a
register file nothing holds in general but that bit 1 of the flag byte is set, and of a program
counter nothing at all: a program takes a new CPU to every file and every address
(`Cpu.reachable`).
-/

namespace Fake8080

universe u v

variable {ι : Type u} {δ : Type v}

namespace Arch

/-- The instructions that load a file. -/
def loading : List Op :=
  [.lxi .sp, .pop .psw, .lxi .bc, .lxi .de, .lxi .hl, .lxi .sp, .jmp none]

/-- Their code at address 0, with the word for `POP PSW` behind it. -/
def loader (f : File) (target : Word) : List Byte :=
  [0x31, 0x13, 0x00, 0xF1, 0x01, f.reg .c, f.reg .b, 0x11, f.reg .e, f.reg .d, 0x21, f.reg .l,
    f.reg .h, 0x31, getLowByte f.sp, getHighByte f.sp, 0xC3, getLowByte target,
    getHighByte target, f.flagByte, f.reg .a]

variable [IOPort ι δ] (env : Environment ι) {s : State δ} {f : File} {target : Word}

/-- The instructions are fetched where their code lies. -/
theorem fetches_loading (hpc : s.pc = 0)
    (hcode : ∀ i < 21, s.memory (BitVec.ofNat 16 i) = (loader f target).getD i 0) :
    s.Fetches env loading := by
  obtain ⟨file, pc, memory, devices, enableRequested, enabled, pending, halted⟩ := s
  change pc = 0 at hpc
  subst hpc
  refine ⟨?_, ?_, ?_, ?_, ?_, ?_, ?_, trivial⟩
  · change Op.decode (memory 0) = _
    rw [show memory 0 = 0x31 from hcode 0 (by decide)]
    rfl
  · change Op.decode (memory 3) = _
    rw [show memory 3 = 0xF1 from hcode 3 (by decide)]
    rfl
  · change Op.decode (memory 4) = _
    rw [show memory 4 = 0x01 from hcode 4 (by decide)]
    rfl
  · change Op.decode (memory 7) = _
    rw [show memory 7 = 0x11 from hcode 7 (by decide)]
    rfl
  · change Op.decode (memory 10) = _
    rw [show memory 10 = 0x21 from hcode 10 (by decide)]
    rfl
  · change Op.decode (memory 13) = _
    rw [show memory 13 = 0x31 from hcode 13 (by decide)]
    rfl
  · change Op.decode (memory 16) = _
    rw [show memory 16 = 0xC3 from hcode 16 (by decide)]
    rfl

/-- They load the file and leave the program counter at the target. -/
theorem performAll_loading (hpc : s.pc = 0)
    (hcode : ∀ i < 21, s.memory (BitVec.ofNat 16 i) = (loader f target).getD i 0) :
    (s.performAll env loading).toFile = f ∧ (s.performAll env loading).pc = target ∧
      (s.performAll env loading).memory = s.memory := by
  obtain ⟨file, pc, memory, devices, enableRequested, enabled, pending, halted⟩ := s
  change pc = 0 at hpc
  subst hpc
  have hword : ∀ {x : Byte} {y : Byte} {w : Word}, x = getHighByte w → y = getLowByte w →
      combineBytes x y = w := by
    rintro x y w rfl rfl
    exact combineBytes_getHighByte_getLowByte w
  refine ⟨File.ext_stackPair ?_ fun p => ?_, ?_, rfl⟩
  · change combineBytes (memory 15) (memory 14) = _
    exact hword (hcode 15 (by decide)) (hcode 14 (by decide))
  · cases p with
    | bc =>
      change combineBytes (getHighByte (combineBytes (memory 6) (memory 5)))
        (getLowByte (combineBytes (memory 6) (memory 5))) = _
      rw [combineBytes_getHighByte_getLowByte]
      exact congrArg₂ combineBytes (hcode 6 (by decide)) (hcode 5 (by decide))
    | de =>
      change combineBytes (getHighByte (combineBytes (memory 9) (memory 8)))
        (getLowByte (combineBytes (memory 9) (memory 8))) = _
      rw [combineBytes_getHighByte_getLowByte]
      exact congrArg₂ combineBytes (hcode 9 (by decide)) (hcode 8 (by decide))
    | hl =>
      change combineBytes (getHighByte (combineBytes (memory 12) (memory 11)))
        (getLowByte (combineBytes (memory 12) (memory 11))) = _
      rw [combineBytes_getHighByte_getLowByte]
      exact congrArg₂ combineBytes (hcode 12 (by decide)) (hcode 11 (by decide))
    | psw =>
      have hsp : combineBytes (memory 2) (memory 1) = 0x13 :=
        hword (hcode 2 (by decide)) (hcode 1 (by decide))
      have hpopped : combineBytes (memory (combineBytes (memory 2) (memory 1) + 1))
          (memory (combineBytes (memory 2) (memory 1))) = f.stackPair .psw := by
        rw [hsp]
        exact congrArg₂ combineBytes (hcode 20 (by decide)) (hcode 19 (by decide))
      change (file.setStackPair (combineBytes (memory (combineBytes (memory 2) (memory 1) + 1))
        (memory (combineBytes (memory 2) (memory 1)))) .psw).stackPair .psw = _
      rw [hpopped]
      exact File.stackPair_setStackPair_self file f .psw
  · change combineBytes (memory 18) (memory 17) = _
    exact hword (hcode 18 (by decide)) (hcode 17 (by decide))

end Arch

namespace Cpu

/-- **Every state of the registers can be reached.** Whatever the registers, the program counter
and the bytes from `0x15` on are to be, some code in front of these bytes takes a new CPU there
in seven cycles and leaves memory as it is. -/
theorem reachable (r : Registers) (target : Word) (memory : Host) :
    ∃ host : Host, (∀ a, 0x15 ≤ a → host a = memory a) ∧
      let c := system.after (Cpu.new (Buses.fullRam host)) (List.replicate 7 .cycle)
      c.registers.SameButScratch r ∧ c.pc = target ∧ c.buses.read = (Buses.fullRam host).read := by
  refine ⟨fun a => (Arch.loader r.file target).getD a (memory a), fun a ha => ?_, ?_⟩
  · have hlength : (Arch.loader r.file target).length ≤ a := ha
    change List.getD _ _ _ = _
    rw [List.getD_eq_getElem?_getD, List.getElem?_eq_none hlength, Option.getD_none]
  · intro c
    set new := Cpu.new (Buses.fullRam fun a => (Arch.loader r.file target).getD a (memory a))
    have hcode : ∀ i < 21, new.arch.memory (BitVec.ofNat 16 i) =
        (Arch.loader r.file target).getD i 0 := by
      intro i hi
      have hlength : i < (Arch.loader r.file target).length := hi
      change MemoryBus.flat.read _ _ = _
      rw [MemoryBus.read_flat, BitVec.toNat_ofNat, Nat.mod_eq_of_lt (by omega)]
      change List.getD _ _ _ = _
      rw [List.getD_eq_getElem?_getD, List.getD_eq_getElem?_getD, List.getElem?_eq_getElem hlength,
        Option.getD_some, Option.getD_some]
    obtain ⟨hafter, -⟩ := Arch.State.after_of_fetches new.buses.environment Arch.loading
      (by decide) (s := new.arch) ⟨rfl, rfl⟩ (Arch.fetches_loading _ rfl hcode)
    obtain ⟨hfile, hpc, hmemory⟩ := Arch.performAll_loading new.buses.environment rfl hcode
    rw [← hafter, ← (new.arch_after _).1] at hfile hpc hmemory
    exact ⟨file_eq_iff_sameButScratch.mp hfile, hpc, hmemory⟩

end Cpu

end Fake8080
