import Fake8080.Programs.Code
import Fake8080.Arch.Observation
import Fake8080.Library.Hoare

/-!
# A copy loop

Ten bytes of code that copy as many bytes as `BC` says from `DE` on to `HL` on. The loop runs on
the emulator as it is meant to, for every length from 1 to 65536 and every placement, overlaps
that do not overwrite a byte before it is read and destinations that cannot be written included
(`Cpu.copies`). The invariant `Copying` counts the bytes that are left.
-/

namespace Fake8080

universe u v

variable {ι : Type u} {δ : Type v}

namespace Arch

/-- The instructions of a round. -/
def copyRound : List Op :=
  [.ldax .de, .mov .memory (.reg .a), .inx .hl, .inx .de, .dcx .bc, .mov (.reg .a) (.reg .b),
    .alu .ora (.reg .c), .jmp (some (.z, true))]

/-- The code of the loop, at an address. -/
def copyCode (start : Word) : List Byte :=
  [0x1A, 0x77, 0x23, 0x13, 0x0B, 0x78, 0xB1, 0xC2, getLowByte start, getHighByte start]

variable [IOPort ι δ] (env : Environment ι)

/-- What a round stores. -/
def State.copied (s : State δ) : Word → Byte :=
  env.store s.memory [(s.pair .hl, s.memory (s.pair .de))]

/-- The round is fetched if it lies at `pc` and does not overwrite itself. -/
theorem fetches_copyRound {s : State δ} (hcode : HasCode s.memory s.pc (copyCode s.pc))
    (hkept : HasCode (s.copied env) s.pc (copyCode s.pc)) : s.Fetches env copyRound := by
  obtain ⟨h0, h1, -⟩ := hcode
  obtain ⟨-, -, h2, h3, h4, h5, h6, h7, -⟩ := hkept
  refine ⟨?_, ?_, ?_, ?_, ?_, ?_, ?_, ?_, trivial⟩
  · rw [h0]; rfl
  · change Op.decode (s.memory (s.pc + 1)) = _
    rw [h1]; rfl
  · change Op.decode (s.copied env (s.pc + 1 + 1)) = _
    rw [h2]; rfl
  · change Op.decode (s.copied env (s.pc + 1 + 1 + 1)) = _
    rw [h3]; rfl
  · change Op.decode (s.copied env (s.pc + 1 + 1 + 1 + 1)) = _
    rw [h4]; rfl
  · change Op.decode (s.copied env (s.pc + 1 + 1 + 1 + 1 + 1)) = _
    rw [h5]; rfl
  · change Op.decode (s.copied env (s.pc + 1 + 1 + 1 + 1 + 1 + 1)) = _
    rw [h6]; rfl
  · change Op.decode (s.copied env (s.pc + 1 + 1 + 1 + 1 + 1 + 1 + 1)) = _
    rw [h7]; rfl

/-- A round leaves the pairs one further and the counter one lower. -/
theorem performAll_copyRound (s : State δ) :
    let t := s.performAll env copyRound
    t.pair .hl = s.pair .hl + 1 ∧ t.pair .de = s.pair .de + 1 ∧ t.pair .bc = s.pair .bc - 1 ∧
    t.sp = s.sp ∧ t.memory = s.copied env ∧ t.devices = s.devices := by
  refine ⟨?_, ?_, ?_, rfl, rfl, rfl⟩ <;> exact combineBytes_getHighByte_getLowByte _

omit [IOPort ι δ] in
/-- `MOV A,B` and `ORA C` give zero just when `BC` is zero. -/
theorem or_bytes_eq_zero (x : Word) : getHighByte x ||| getLowByte x = 0 ↔ x = 0 := by
  constructor
  · intro h
    obtain ⟨hhigh, hlow⟩ := BitVec.or_eq_zero_iff.mp h
    rw [← combineBytes_getHighByte_getLowByte x, hhigh, hlow]
    rfl
  · rintro rfl
    rfl

/-- A round goes back to its start until the counter is zero. -/
theorem pc_performAll_copyRound (s : State δ) (hkept : HasCode (s.copied env) s.pc (copyCode s.pc)) :
    (s.performAll env copyRound).pc = if s.pair .bc = 1 then s.pc + 10 else s.pc := by
  obtain ⟨-, -, -, -, -, -, -, -, hlow, hhigh, -⟩ := hkept
  change (if (decide (getHighByte (s.pair .bc - 1) ||| getLowByte (s.pair .bc - 1) = 0) != true) = true
    then combineBytes (s.copied env (s.pc + 1 + 1 + 1 + 1 + 1 + 1 + 1 + 1 + 1))
      (s.copied env (s.pc + 1 + 1 + 1 + 1 + 1 + 1 + 1 + 1))
    else s.pc + 1 + 1 + 1 + 1 + 1 + 1 + 1 + 1 + 2) = _
  rw [hlow, hhigh, combineBytes_getHighByte_getLowByte]
  have hzero : s.pair .bc - 1 = 0 ↔ s.pair .bc = 1 := by bv_omega
  have hend : s.pc + 1 + 1 + 1 + 1 + 1 + 1 + 1 + 1 + 2 = s.pc + 10 := by bv_omega
  by_cases h : s.pair .bc = 1
  · rw [if_pos h, decide_eq_true ((or_bytes_eq_zero _).mpr (hzero.mpr h)), hend]
    rfl
  · rw [if_neg h, decide_eq_false fun hor => h (hzero.mp ((or_bytes_eq_zero _).mp hor))]
    rfl

/-! ### The loop -/

/-- What the loop stores in its first rounds. -/
def State.copies (s : State δ) (n : ℕ) : List (Word × Byte) :=
  (List.range n).map fun i =>
    (s.pair .hl + BitVec.ofNat 16 i, s.memory (s.pair .de + BitVec.ofNat 16 i))

/-- The loop lies at `pc`, and copying `n` bytes overwrites neither the loop nor a byte that is
still to be copied. -/
structure CopyFits (s : State δ) (n : ℕ) : Prop where
  /-- The loop lies at `pc`. -/
  code : HasCode s.memory s.pc (copyCode s.pc)
  /-- The loop is not overwritten. -/
  keepsCode : ∀ i < n, ∀ j < 10,
    env.affects (s.pair .hl + BitVec.ofNat 16 i) (s.pc + BitVec.ofNat 16 j) = false
  /-- No byte is overwritten before it is read. -/
  keepsSource : ∀ j < n, ∀ i < j,
    env.affects (s.pair .hl + BitVec.ofNat 16 i) (s.pair .de + BitVec.ofNat 16 j) = false

/-- The loop with `k` of `n` bytes left. -/
structure Copying (s : State δ) (n k : ℕ) (t : State δ) : Prop where
  /-- There are as many. -/
  le : k ≤ n
  /-- The next round begins, or the loop has been left. -/
  pc : t.pc = if k = 0 then s.pc + 10 else s.pc
  /-- Where the next byte goes. -/
  hl : t.pair .hl = s.pair .hl + BitVec.ofNat 16 (n - k)
  /-- Where the next byte is. -/
  de : t.pair .de = s.pair .de + BitVec.ofNat 16 (n - k)
  /-- The counter. -/
  bc : t.pair .bc = BitVec.ofNat 16 k
  /-- The stack pointer is not used. -/
  sp : t.sp = s.sp
  /-- The other bytes have been copied. -/
  memory : t.memory = env.store s.memory (s.copies (n - k))
  /-- Devices are not used. -/
  devices : t.devices = s.devices
  /-- The next instruction is executed. -/
  quiet : t.Quiet

variable {env} {s : State δ} {n : ℕ}

omit [IOPort ι δ] in
theorem CopyFits.hasCode (h : CopyFits env s n) {i : ℕ} (hi : i ≤ n) :
    HasCode (env.store s.memory (s.copies i)) s.pc (copyCode s.pc) := by
  refine h.code.store env fun w hw j hj => ?_
  obtain ⟨k, hk, rfl⟩ := List.mem_map.mp hw
  exact h.keepsCode k ((List.mem_range.mp hk).trans_le hi) j hj

omit [IOPort ι δ] in
/-- A byte is copied as it was at the start. -/
theorem CopyFits.copied (h : CopyFits env s n) {i : ℕ} (hi : i < n) {t : State δ}
    (hhl : t.pair .hl = s.pair .hl + BitVec.ofNat 16 i)
    (hde : t.pair .de = s.pair .de + BitVec.ofNat 16 i)
    (hmemory : t.memory = env.store s.memory (s.copies i)) :
    t.copied env = env.store s.memory (s.copies (i + 1)) := by
  have hbyte : t.memory (t.pair .de) = s.memory (s.pair .de + BitVec.ofNat 16 i) := by
    rw [hmemory, hde]
    refine env.store_of_not_affects s.memory fun w hw => ?_
    obtain ⟨k, hk, rfl⟩ := List.mem_map.mp hw
    exact h.keepsSource i hi k (List.mem_range.mp hk)
  rw [State.copied, hbyte, hhl, hmemory, State.copies, State.copies, List.range_succ, List.map_append]
  exact List.foldl_append.symm

/-- **Round.** A round leaves one byte less. -/
theorem triple_copying (h : CopyFits env s n) (hn : n ≤ 65536) (k : ℕ) :
    (machine env).Triple (Copying env s n (k + 1)) (List.replicate 8 .cycle)
      (Copying env s n k) := by
  intro t ht
  have hk := ht.le
  have hindex : n - k = n - (k + 1) + 1 := by omega
  have hpc : t.pc = s.pc := ht.pc.trans (if_neg (Nat.succ_ne_zero k))
  have hcopied : t.copied env = env.store s.memory (s.copies (n - k)) := by
    rw [hindex]
    exact h.copied (by omega) ht.hl ht.de ht.memory
  have hkept : HasCode (t.copied env) t.pc (copyCode t.pc) := by
    rw [hcopied, hpc]
    exact h.hasCode (n.sub_le k)
  have hfetch : t.Fetches env copyRound := by
    refine fetches_copyRound env ?_ hkept
    rw [ht.memory, hpc]
    exact h.hasCode (n.sub_le _)
  obtain ⟨hafter, hquiet⟩ := State.after_of_fetches env copyRound (by decide) ht.quiet hfetch
  obtain ⟨hhl, hde, hbc, hsp, hmemory, hdevices⟩ := performAll_copyRound env t
  have hone : t.pair .bc = 1 ↔ k = 0 := by
    rw [ht.bc]
    constructor
    · intro heq
      have hnat := congrArg BitVec.toNat heq
      rw [BitVec.toNat_ofNat] at hnat
      have hone : (1 : Word).toNat = 1 := rfl
      omega
    · rintro rfl
      rfl
  have hnext : ∀ x : Word, x + BitVec.ofNat 16 (n - (k + 1)) + 1 = x + BitVec.ofNat 16 (n - k) := by
    intro x
    rw [hindex, BitVec.ofNat_add]
    bv_omega
  rw [show List.replicate 8 Action.cycle = List.replicate copyRound.length .cycle from rfl, hafter]
  exact {
    le := Nat.le_of_succ_le hk
    pc := by rw [pc_performAll_copyRound env t hkept, hpc]; simp only [hone]
    hl := by rw [hhl, ht.hl, hnext]
    de := by rw [hde, ht.de, hnext]
    bc := by rw [hbc, ht.bc, BitVec.ofNat_add]; bv_omega
    sp := hsp.trans ht.sp
    memory := hmemory.trans hcopied
    devices := hdevices.trans ht.devices
    quiet := hquiet }

end Arch

namespace Cpu

variable [IOPort ι δ]

/-- **The loop copies.** With the loop at `pc`, `n` in `BC` (zero standing for 65536), the CPU
not halted and no interrupt to accept, `8 * n` cycles write the `n` bytes from `DE` on to `HL`
on, one after another, and nothing else; they leave the pairs past what they copied, the counter
zero, and the program counter behind the loop. -/
theorem copies (c : Cpu ι δ) {n : ℕ} (hpositive : 0 < n) (hn : n ≤ 65536)
    (hfits : Arch.CopyFits c.buses.environment c.arch n)
    (hbc : c.registers.getCombinedRegister .bc = BitVec.ofNat 16 n) (hquiet : c.arch.Quiet) :
    let c' := system.after c (List.replicate (8 * n) .cycle)
    c'.pc = c.pc + 10 ∧ c'.sp = c.sp ∧ c'.registers.getCombinedRegister .bc = 0 ∧
    c'.registers.getCombinedRegister .de =
      c.registers.getCombinedRegister .de + BitVec.ofNat 16 n ∧
    c'.registers.getCombinedRegister .hl =
      c.registers.getCombinedRegister .hl + BitVec.ofNat 16 n ∧
    c'.buses.read = c.buses.environment.store c.buses.read (c.arch.copies n) ∧
    c'.buses.devices = c.buses.devices := by
  have hstart : Arch.Copying c.buses.environment c.arch n n c.arch := {
    le := le_rfl
    pc := (if_neg hpositive.ne').symm
    hl := by rw [Nat.sub_self]; exact (BitVec.add_zero _).symm
    de := by rw [Nat.sub_self]; exact (BitVec.add_zero _).symm
    bc := hbc
    sp := rfl
    memory := by rw [Nat.sub_self]; rfl
    devices := rfl
    quiet := hquiet }
  have hloop := Reactive.Triple.iterate (Arch.triple_copying hfits hn) n
  rw [List.flatten_replicate_replicate, Nat.mul_comm] at hloop
  obtain ⟨t, ⟨rfl, -⟩, ht⟩ := hloop.of_simulation (simulation_machine c.buses.environment) c
    ⟨c.arch, ⟨rfl, rfl⟩, hstart⟩
  exact ⟨ht.pc, ht.sp, ht.bc, ht.de, ht.hl, ht.memory, ht.devices⟩

/-- A CPU about to move three bytes one address down. -/
def copyDown : Cpu Empty Unit :=
  { Cpu.new (Buses.fullRam fun a => (Arch.copyCode 0).getD a (BitVec.ofNat 8 a)) with
    registers := ((Registers.initial.setCombinedRegister .bc 3).setCombinedRegister .de
      0x122).setCombinedRegister .hl 0x121 }

/-- The last of them is moved. -/
theorem copies_copyDown :
    (system.after copyDown (List.replicate (8 * 3) .cycle)).buses.read 0x123 = 0x24 := by
  have hfits : Arch.CopyFits copyDown.buses.environment copyDown.arch 3 :=
    ⟨⟨by decide, by decide, by decide, by decide, by decide, by decide, by decide, by decide,
      by decide, by decide, trivial⟩, by decide +kernel, by decide +kernel⟩
  have hread := (copies copyDown (by decide) (by decide) hfits (by decide)
    ⟨rfl, rfl⟩).2.2.2.2.2.1
  rw [hread]
  decide +kernel

end Cpu

end Fake8080
