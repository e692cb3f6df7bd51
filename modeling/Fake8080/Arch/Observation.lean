import Fake8080.Arch.Refinement

/-!
# What no program can find out

CPUs that look the same and work in the same environment stay so forever, whatever is
called on them: the architecture is all there is to see. So where the embedding program
keeps the bytes behind the regions does not matter (`Cpu.relocate_indistinguishable`), and a
bus of any number of RAM regions that gives each address a byte of its own is one RAM region
of 65536 bytes (`Cpu.flatten_indistinguishable`).
-/

namespace Fake8080

universe u v

variable {ι : Type u} {δ : Type v}

namespace Cpu

section Indistinguishable

variable [IOPort ι δ]

/-- Nothing that is called tells the CPUs apart: the calls do the same on both, they add the
same calls on the buses to the log, and a program sees the same state afterwards. -/
def Indistinguishable (c d : Cpu ι δ) : Prop :=
  ∀ actions : List Action,
    system.history c actions = system.history d actions ∧
    (∃ calls, (system.after c actions).buses.log = c.buses.log ++ calls ∧
      (system.after d actions).buses.log = d.buses.log ++ calls) ∧
    (system.after c actions).arch = (system.after d actions).arch

/-- CPUs that look the same in the same environment cannot be told apart. -/
theorem indistinguishable_of_arch_eq {c d : Cpu ι δ} (harch : c.arch = d.arch)
    (henvironment : c.buses.environment = d.buses.environment) : Indistinguishable c d := by
  intro actions
  have hhistory : observed.history c actions = observed.history d actions := by
    rw [arch_history, arch_history, harch, henvironment]
  refine ⟨?_, ⟨((observed.history c actions).map Prod.snd).flatten, log_after c actions, ?_⟩, ?_⟩
  · rw [← history_observed, ← history_observed, hhistory]
  · rw [hhistory]
    exact log_after d actions
  · rw [(c.arch_after actions).1, (d.arch_after actions).1, harch, henvironment]

end Indistinguishable

/-- Register files look the same exactly if they differ at most in the scratch registers. -/
theorem file_eq_iff_sameButScratch {r r' : Registers} :
    r.file = r'.file ↔ r.SameButScratch r' := by
  constructor
  · intro h reg hw hz
    have hreg : ∀ x : Arch.Reg, r.getRegister x.register = r'.getRegister x.register :=
      fun x => congrFun (congrArg Arch.File.reg h) x
    have hsp : r.getCombinedRegister .sp = r'.getCombinedRegister .sp := congrArg Arch.File.sp h
    cases reg with
    | a => exact hreg .a
    | b => exact hreg .b
    | c => exact hreg .c
    | d => exact hreg .d
    | e => exact hreg .e
    | h => exact hreg .h
    | l => exact hreg .l
    | f => rw [r.getRegister_f_eq_flagByte, r'.getRegister_f_eq_flagByte, h]
    | spHigh =>
      exact (r.getHighByte_getCombinedRegister .sp).symm.trans
        ((congrArg getHighByte hsp).trans (r'.getHighByte_getCombinedRegister .sp))
    | spLow =>
      exact (r.getLowByte_getCombinedRegister .sp).symm.trans
        ((congrArg getLowByte hsp).trans (r'.getLowByte_getCombinedRegister .sp))
    | w => exact absurd rfl hw
    | z => exact absurd rfl hz
  · intro h
    have hf : r.getRegister .f = r'.getRegister .f := h .f (by decide) (by decide)
    refine Arch.File.ext ?_ (funext fun x => ?_) (funext fun flag => h.getFlag flag) ?_ ?_
    · exact h.getCombinedRegister (by decide)
    · exact h x.register (by cases x <;> decide) (by cases x <;> decide)
    · exact congrArg (getBit · 5) hf
    · exact congrArg (getBit · 3) hf

end Cpu

/-! ### Moving the bytes -/

/-- An entry whose array lies `k` bytes further on. -/
def RegionEntry.shift (entry : RegionEntry) (k : ℕ) : RegionEntry :=
  { entry with
    region := match entry.region with
      | .ramRegion memory => .ramRegion ⟨k + memory.data, memory.size⟩
      | .romRegion memory => .romRegion ⟨k + memory.data, memory.size⟩
      | .openBusRegion size => .openBusRegion size }

namespace Buses

/-- The second buses are the first with the bytes behind the regions moved: an address is
mapped to a byte in the one if it is in the other, the bytes go elsewhere, no two of them to
the same place, and take their contents with them. -/
structure Relocation (b b' : Buses ι δ) (place : ℕ → ℕ) : Prop where
  /-- No two bytes go to the same place. -/
  injective : Function.Injective place
  /-- Writes store into the moved bytes. -/
  stored : ∀ address, b'.memoryBus.storedByte address =
    (b.memoryBus.storedByte address).map place
  /-- Reads look at the moved bytes. -/
  viewed : ∀ address, b'.memoryBus.viewedByte address =
    (b.memoryBus.viewedByte address).map place
  /-- The bytes take their contents with them. -/
  host : ∀ address byte, b.memoryBus.viewedByte address = some byte →
    b'.host (place byte) = b.host byte
  /-- The ports are the same. -/
  ioBus : b'.ioBus = b.ioBus
  /-- The devices are the same. -/
  devices : b'.devices = b.devices

variable {b b' : Buses ι δ} {place : ℕ → ℕ}

/-- A relocation does not change what the addresses read. -/
theorem Relocation.read_eq (h : b.Relocation b' place) : b'.read = b.read := by
  change b'.memoryBus.read b'.host = b.memoryBus.read b.host
  rw [MemoryBus.read_eq_view, MemoryBus.read_eq_view]
  funext address
  rw [AliasedStore.view, AliasedStore.view, h.viewed]
  cases hbyte : b.memoryBus.viewedByte address with
  | none => rfl
  | some byte => exact h.host address byte hbyte

theorem Relocation.environment_eq (h : b.Relocation b' place) :
    b'.environment = b.environment := by
  have haffects : ∀ address other, b'.memoryBus.Affects address other ↔
      b.memoryBus.Affects address other := by
    intro address other
    rw [MemoryBus.Affects, AliasedStore.Affects, h.stored, h.viewed, ne_eq, Option.map_eq_none_iff,
      (Option.map_injective h.injective).eq_iff]
    rfl
  rw [environment, environment, h.ioBus]
  simp only [haffects]

/-- The buses with every array of the embedding program `k` bytes further on. -/
def shift (b : Buses ι δ) (k : ℕ) : Buses ι δ :=
  { b with
    memoryBus := ⟨b.memoryBus.regions.map (·.shift k)⟩
    host := fun byte => b.host (byte - k) }

theorem relocation_shift (b : Buses ι δ) (k : ℕ) : b.Relocation (b.shift k) (k + ·) := by
  have hfind : ∀ address, (b.shift k).memoryBus.findRegion address =
      (b.memoryBus.findRegion address).shift k := by
    intro address
    rw [MemoryBus.findRegion, shift, List.find?_map]
    exact Option.getD_map (·.shift k) MemoryBus.openMemory _
  refine ⟨fun _ _ h => Nat.add_left_cancel h, fun address => ?_, fun address => ?_, ?_, rfl, rfl⟩
  · rw [MemoryBus.storedByte, MemoryBus.storedByte, hfind]
    cases h : (b.memoryBus.findRegion address).region <;> simp [RegionEntry.shift, h, Nat.add_assoc]
  · rw [MemoryBus.viewedByte, MemoryBus.viewedByte, hfind]
    cases h : (b.memoryBus.findRegion address).region <;> simp [RegionEntry.shift, h, Nat.add_assoc]
  · intro address byte _
    exact congrArg b.host (Nat.add_sub_cancel_left k byte)

end Buses

namespace Cpu

variable [IOPort ι δ]

/-- **The bytes may lie anywhere.** A CPU whose regions are spans of other arrays, with the
same contents and sharing the same bytes among them, cannot be told from the first one by
any sequence of calls. -/
theorem relocate_indistinguishable (c : Cpu ι δ) {buses : Buses ι δ} {place : ℕ → ℕ}
    (h : c.buses.Relocation buses place) : Indistinguishable c { c with buses := buses } := by
  refine indistinguishable_of_arch_eq ?_ h.environment_eq.symm
  exact Arch.State.ext_toFile rfl rfl h.read_eq.symm h.devices.symm rfl rfl rfl rfl

/-- The test fixture with its array 4096 bytes further on. -/
theorem relocate_mapMemory :
    Indistinguishable (Cpu.new (Buses.mapMemory [0x3E, 0x2A]))
      { Cpu.new (Buses.mapMemory [0x3E, 0x2A]) with
        buses := (Buses.mapMemory [0x3E, 0x2A]).shift 4096 } :=
  relocate_indistinguishable _ ((Buses.mapMemory [0x3E, 0x2A]).relocation_shift 4096)

end Cpu

/-! ### One flat memory -/

/-- The buses with all of memory one RAM region that holds what the addresses read. -/
def Buses.flatten (b : Buses ι δ) : Buses ι δ :=
  { b with
    memoryBus := .flat
    host := fun byte => b.read (BitVec.ofNat 16 byte) }

/-- **RAM is flat.** If every address is RAM and no two share a byte, nothing that is called
tells the CPU from one whose memory is a single RAM region of 65536 bytes, however many
regions there are and in whatever order they were mapped. -/
theorem Cpu.flatten_indistinguishable [IOPort ι δ] (c : Cpu ι δ)
    (hram : ∀ address, c.buses.memoryBus.storedByte address ≠ none)
    (hown : Function.Injective c.buses.memoryBus.storedByte) :
    Indistinguishable c { c with buses := c.buses.flatten } := by
  -- what is stored in RAM is what is read there
  have hviewed : ∀ address, c.buses.memoryBus.viewedByte address =
      c.buses.memoryBus.storedByte address := by
    intro address
    have h := hram address
    rw [MemoryBus.storedByte] at h
    rw [MemoryBus.viewedByte, MemoryBus.storedByte]
    cases hregion : (c.buses.memoryBus.findRegion address).region with
    | ramRegion memory => rfl
    | romRegion memory => simp [hregion] at h
    | openBusRegion size => simp [hregion] at h
  have haffects : ∀ address other,
      c.buses.memoryBus.Affects address other ↔ address = other := by
    intro address other
    rw [MemoryBus.Affects, AliasedStore.Affects, hviewed, hown.eq_iff]
    exact ⟨fun h => h.2, fun h => ⟨hram address, h⟩⟩
  refine indistinguishable_of_arch_eq ?_ ?_
  · refine Arch.State.ext_toFile rfl rfl ?_ rfl rfl rfl rfl rfl
    funext address
    change _ = MemoryBus.flat.read c.buses.flatten.host address
    rw [MemoryBus.read_flat]
    change _ = c.buses.read (BitVec.ofNat 16 address.toNat)
    rw [BitVec.ofNat_toNat, BitVec.setWidth_eq]
    rfl
  · change Arch.Environment.mk _ _ = Arch.Environment.mk _ _
    have hflat : c.buses.flatten.memoryBus = .flat := rfl
    simp only [haffects, hflat, MemoryBus.affects_flat]
    rfl

/-- Full RAM over an array that begins at byte 4096 is flat. -/
theorem Cpu.flatten_shifted :
    Indistinguishable (Cpu.new ((Buses.fullRam fun _ => 0x3C).shift 4096))
      { Cpu.new ((Buses.fullRam fun _ => 0x3C).shift 4096) with
        buses := ((Buses.fullRam fun _ => 0x3C).shift 4096).flatten } := by
  have hstored : ∀ address, ((Buses.fullRam fun _ => 0x3C).shift 4096).memoryBus.storedByte address =
      some (4096 + address.toNat) := by
    intro address
    rw [((Buses.fullRam fun _ => 0x3C).relocation_shift 4096).stored]
    exact congrArg (Option.map (4096 + ·)) (MemoryBus.storedByte_flat address).1
  refine flatten_indistinguishable _ (fun address => ?_) fun address other h => ?_
  · exact (hstored address).trans_ne (Option.some_ne_none _)
  · have heq := (hstored address).symm.trans (h.trans (hstored other))
    exact BitVec.eq_of_toNat_eq (Nat.add_left_cancel (Option.some_inj.mp heq))

end Fake8080
