import Fake8080.Model.Registers

/-!
# The memory bus

`MemoryBus.hpp` and `MemoryBus.cpp`: the three region classes, the table of mapped
regions and the bus accesses that go through its first match.

A region does not own its bytes: it holds a `std::span`, a pointer and a length, into
arrays of the embedding program. Those arrays are one flat store `Host` of bytes indexed
by address, and a `Span` is an address and a length in it, so that two spans may share
bytes or not, exactly as in the source. `memory_m[offset]` is pointer arithmetic without
a bounds check; here it reads or writes the byte at that address, whether or not the
offset lies inside the span. That an access does stay inside is a theorem about the
table, never part of the definition.
-/

namespace Fake8080

/-- The bytes of the embedding program, by address. -/
abbrev Host := ℕ → Byte

/-- A `std::span` of bytes: where its first byte is and how many there are. -/
structure Span where
  /-- The address of the first byte. -/
  data : ℕ
  /-- The number of bytes (`std::span::size`). -/
  size : ℕ
  deriving DecidableEq

/-- The address `a` belongs to the span. -/
def Span.Contains (s : Span) (a : ℕ) : Prop := s.data ≤ a ∧ a < s.data + s.size

/-- Two spans share no byte. -/
def Span.Disjoint (s t : Span) : Prop := ∀ a, s.Contains a → ¬ t.Contains a

/-! ### Regions -/

/-- The region classes: `RamRegion`, `RomRegion` and `OpenBusRegion`. -/
inductive IMemRegion
  | ramRegion (memory : Span)
  | romRegion (memory : Span)
  | openBusRegion (size : Word)
  deriving DecidableEq

namespace IMemRegion

/-- `read`: the byte at an offset; an open bus always answers `0xFF`. -/
def read (host : Host) : IMemRegion → Word → Byte
  | ramRegion memory, offset => host (memory.data + offset.toNat)
  | romRegion memory, offset => host (memory.data + offset.toNat)
  | openBusRegion _, _ => 0xFF

/-- `write`: only a RAM region stores the byte. -/
def write (host : Host) : IMemRegion → Word → Byte → Host
  | ramRegion memory, offset, value =>
    Function.update host (memory.data + offset.toNat) value
  | romRegion _, _, _ => host
  | openBusRegion _, _, _ => host

/-- `size`: the length of the span as a `uint16_t`. -/
def size : IMemRegion → Word
  | ramRegion memory => BitVec.ofNat 16 memory.size
  | romRegion memory => BitVec.ofNat 16 memory.size
  | openBusRegion size => size

/-- The span of a region that has one. -/
def span? : IMemRegion → Option Span
  | ramRegion memory => some memory
  | romRegion memory => some memory
  | openBusRegion _ => none

end IMemRegion

/-! ### The bus -/

/-- An entry of the region table, and the arguments of a call of `map`. -/
structure RegionEntry where
  /-- The first address of the range. -/
  start : Word
  /-- The last address of the range. -/
  endAddress : Word
  /-- The region behind the range. -/
  region : IMemRegion
  deriving DecidableEq

/-- The address lies in the entry's range. -/
def RegionEntry.Covers (entry : RegionEntry) (address : Word) : Prop :=
  entry.start ≤ address ∧ address ≤ entry.endAddress

instance (entry : RegionEntry) (address : Word) : Decidable (entry.Covers address) :=
  inferInstanceAs (Decidable (_ ∧ _))

/-- The exception `std::invalid_argument`, with its text. -/
structure InvalidArgument where
  /-- The text of the exception. -/
  what : String
  deriving DecidableEq

/-- The bus: the vector of mapped regions, in the order of the calls that mapped them. -/
structure MemoryBus where
  /-- The vector `regions_m`. -/
  regions : List RegionEntry

namespace MemoryBus

/-- The entry that stands for unmapped addresses (`Open_Memory`). -/
def openMemory : RegionEntry := ⟨0, 0, .openBusRegion 0⟩

/-- `map`: append a range and its region, unless the range is reversed or its length as a
`uint16_t` is not the region's size. -/
def map (bus : MemoryBus) (start endAddress : Word) (region : IMemRegion) :
    Except InvalidArgument MemoryBus :=
  if endAddress < start then
    .error ⟨"Direcciones incorrectas. end < start"⟩
  else
    let rangeSize : Word := endAddress - start + 1
    if region.size ≠ rangeSize then
      .error ⟨"La región debe ser del mismo tamaño que el rango de direcciones"⟩
    else
      .ok { bus with regions := bus.regions ++ [⟨start, endAddress, region⟩] }

/-- `map` again, with the bus as the state it works on: an exception leaves the function
where it is thrown, with the bus as it is there. -/
def execMap (start endAddress : Word) (region : IMemRegion) :
    ExceptT InvalidArgument (StateM MemoryBus) Unit := do
  if endAddress < start then
    throw ⟨"Direcciones incorrectas. end < start"⟩
  let rangeSize : Word := endAddress - start + 1
  if region.size ≠ rangeSize then
    throw ⟨"La región debe ser del mismo tamaño que el rango de direcciones"⟩
  modify fun bus => { bus with regions := bus.regions ++ [⟨start, endAddress, region⟩] }

/-- `findRegion`: the first entry whose range holds the address, else the open bus. -/
def findRegion (bus : MemoryBus) (address : Word) : RegionEntry :=
  (bus.regions.find? fun i => address ≥ i.start ∧ address ≤ i.endAddress).getD openMemory

/-- `read`: the byte the chosen region holds at the address's offset in its range. -/
def read (bus : MemoryBus) (host : Host) (address : Word) : Byte :=
  let entry := bus.findRegion address
  let offset : Word := address - entry.start
  entry.region.read host offset

/-- `write`: store through the chosen region. -/
def write (bus : MemoryBus) (host : Host) (address : Word) (value : Byte) : Host :=
  let entry := bus.findRegion address
  let offset : Word := address - entry.start
  entry.region.write host offset value

/-- A call of `map` whose exception, if any, the caller catches and ignores. -/
def mapOrSkip (bus : MemoryBus) (call : RegionEntry) : MemoryBus :=
  match bus.map call.start call.endAddress call.region with
  | .ok bus' => bus'
  | .error _ => bus

/-- The bus that a sequence of `map` calls builds on a new one. -/
def build (calls : List RegionEntry) : MemoryBus := calls.foldl mapOrSkip ⟨[]⟩

/-- The host address of the RAM cell an address resolves to: the region found is RAM and
the offset is inside its span. -/
def ramCell (bus : MemoryBus) (address : Word) : Option ℕ :=
  let entry := bus.findRegion address
  match entry.region with
  | .ramRegion memory =>
    let offset := (address - entry.start).toNat
    if offset < memory.size then some (memory.data + offset) else none
  | _ => none

end MemoryBus

end Fake8080
