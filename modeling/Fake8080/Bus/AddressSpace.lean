import Fake8080.Bus.Table
import Fake8080.Step.Effect

/-!
# The address space behind a bus

A program sees a bus through its 65536 addresses. What counts is what each address reads
and which addresses show what is written through which; where the bytes lie, which region
classes hold them and in which order they were mapped does not. The bus performs writes on
what its addresses read as an aliased store does on what its names show, whether or not
its accesses stay in bounds.
-/

namespace Fake8080

universe u v

namespace MemoryBus

/-- The byte a write through an address stores into, if any. -/
def storedByte (bus : MemoryBus) (address : Word) : Option ℕ :=
  let entry := bus.findRegion address
  match entry.region with
  | .ramRegion memory => some (memory.data + (address - entry.start).toNat)
  | _ => none

/-- The byte a read of an address looks at, if any. -/
def viewedByte (bus : MemoryBus) (address : Word) : Option ℕ :=
  let entry := bus.findRegion address
  match entry.region with
  | .ramRegion memory | .romRegion memory => some (memory.data + (address - entry.start).toNat)
  | .openBusRegion _ => none

/-- What is written through the first address is read at the second. -/
def Affects (bus : MemoryBus) (address other : Word) : Prop :=
  AliasedStore.Affects bus.storedByte bus.viewedByte address other

instance (bus : MemoryBus) : DecidableRel bus.Affects := fun address other =>
  inferInstanceAs (Decidable (AliasedStore.Affects bus.storedByte bus.viewedByte address other))

variable (bus : MemoryBus) (host : Host)

theorem read_eq_view : bus.read host = AliasedStore.view bus.viewedByte 0xFF host := by
  funext address
  rw [read_eq, AliasedStore.view, viewedByte]
  cases (bus.findRegion address).region with
  | ramRegion memory => rfl
  | romRegion memory => rfl
  | openBusRegion size => rfl

/-- A write stores into the byte its address names, if any. -/
theorem write_eq_storedByte (address : Word) (value : Byte) :
    bus.write host address value = AliasedStore.write bus.storedByte host (address, value) := by
  rw [write_eq, AliasedStore.write, storedByte]
  cases (bus.findRegion address).region with
  | ramRegion memory => rfl
  | romRegion memory => rfl
  | openBusRegion size => rfl

/-- After a write the addresses it affects read the value, all others what they read. -/
theorem read_write (address : Word) (value : Byte) :
    bus.read (bus.write host address value) =
      AliasedStore.writeView bus.Affects (bus.read host) (address, value) := by
  rw [read_eq_view, write_eq_storedByte, AliasedStore.view_write, read_eq_view]
  rfl

/-- An address that is not mapped to RAM affects nothing. -/
theorem not_affects_of_storedByte_eq_none {bus : MemoryBus} {address : Word}
    (h : bus.storedByte address = none) (other : Word) : ¬ bus.Affects address other :=
  fun haffects => haffects.1 h

theorem storedByte_eq_none {bus : MemoryBus}
    (h : ∀ entry ∈ bus.regions, ∀ memory, entry.region ≠ .ramRegion memory) (address : Word) :
    bus.storedByte address = none := by
  have hregion : ∀ memory, (bus.findRegion address).region ≠ .ramRegion memory := by
    intro memory
    rcases bus.findRegion_cases address with hfind | ⟨-, hopen⟩
    · exact h _ (List.mem_of_find?_eq_some hfind) memory
    · rw [hopen, openMemory]
      exact fun h => by cases h
  rw [storedByte]
  cases hr : (bus.findRegion address).region with
  | ramRegion memory => exact absurd hr (hregion memory)
  | romRegion memory => rfl
  | openBusRegion size => rfl

/-! ### One region of RAM -/

/-- The bus whose memory is one RAM region of 65536 bytes. -/
def flat : MemoryBus := .build [⟨0, 0xFFFF, .ramRegion ⟨0, 65536⟩⟩]

theorem findRegion_flat (address : Word) :
    flat.findRegion address = ⟨0, 0xFFFF, .ramRegion ⟨0, 65536⟩⟩ := by
  have hcovers : RegionEntry.Covers ⟨0, 0xFFFF, .ramRegion ⟨0, 65536⟩⟩ address := by
    rw [RegionEntry.Covers, BitVec.le_def, BitVec.le_def]
    exact ⟨Nat.zero_le _, Nat.le_of_lt_succ address.isLt⟩
  have haccepted : RegionEntry.Accepted ⟨0, 0xFFFF, .ramRegion ⟨0, 65536⟩⟩ := by decide
  rw [flat, findRegion_build]
  simp only [List.find?, hcovers, haccepted, and_self, decide_true, Option.getD_some]

/-- An address of the one region stores into the byte of its number and shows it. -/
theorem storedByte_flat (address : Word) :
    flat.storedByte address = some address.toNat ∧ flat.viewedByte address = some address.toNat := by
  simp [storedByte, viewedByte, findRegion_flat]

/-- An address of the one region reads the byte of its number. -/
theorem read_flat (address : Word) : flat.read host address = host address.toNat := by
  rw [read_eq_view, AliasedStore.view, (storedByte_flat address).2]
  rfl

/-- In the one region an address affects itself only. -/
theorem affects_flat (address other : Word) : flat.Affects address other ↔ address = other := by
  rw [Affects, AliasedStore.Affects, (storedByte_flat address).1, (storedByte_flat other).2,
    Option.some_inj, BitVec.toNat_inj]
  exact ⟨fun h => h.2, fun h => ⟨Option.some_ne_none _, h⟩⟩

end MemoryBus

namespace Buses

variable {ι : Type u} {δ : Type v} [IOPort ι δ] (b : Buses ι δ)

theorem read_performAll_writes (writes : List (Word × Byte)) :
    (b.performAll (writes.map fun w => .write w.1 w.2)).read =
      writes.foldl (AliasedStore.writeView b.memoryBus.Affects) b.read := by
  induction writes generalizing b with
  | nil => rfl
  | cons w writes ih =>
    have hw : (b.write w.1 w.2).read =
        AliasedStore.writeView b.memoryBus.Affects b.read w :=
      b.memoryBus.read_write b.host w.1 w.2
    rw [List.map_cons, performAll_cons, List.foldl_cons, ← hw]
    exact ih (b.write w.1 w.2)

end Buses

end Fake8080
