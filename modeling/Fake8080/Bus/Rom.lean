import Fake8080.Bus.Cells
import Fake8080.Step.Cycle

/-!
# What a program cannot change

Whatever a program does, it reaches memory through `MemoryBus::write` alone, and a write
through a table in bounds stores into a RAM span or nowhere. So the bytes of ROM, and all
that is read through a region that is not RAM, stay as they are for every run.
-/

namespace Fake8080

universe u v

variable {ι : Type u} {δ : Type v}

namespace MemoryBus

/-- No accepted call maps RAM that shares a byte with ROM of an accepted call. -/
def RamDisjointFromRom (calls : List RegionEntry) : Prop :=
  ∀ call ∈ calls, call.Accepted → ∀ other ∈ calls, other.Accepted → ∀ s t,
    call.region = .ramRegion s → other.region = .romRegion t → s.Disjoint t

/-- The address does not lie in a RAM span of the table. -/
def OutsideRam (bus : MemoryBus) (byte : ℕ) : Prop :=
  ∀ entry ∈ bus.regions, ∀ s, entry.region = .ramRegion s → ¬ s.Contains byte

theorem RamDisjointFromRom.outsideRam {calls : List RegionEntry} (h : RamDisjointFromRom calls)
    {other : RegionEntry} (hmem : other ∈ calls) (haccepted : other.Accepted) {t : Span}
    (hregion : other.region = .romRegion t) {byte : ℕ} (hbyte : t.Contains byte) :
    (build calls).OutsideRam byte := by
  intro call hcall s hs hcontains
  obtain ⟨hcallmem, hcallaccepted⟩ := mem_regions_build.mp hcall
  exact h call hcallmem hcallaccepted other hmem haccepted s t hs hregion byte hcontains hbyte

theorem write_apply_of_outsideRam {bus : MemoryBus} (hb : bus.InBounds) {byte : ℕ}
    (h : bus.OutsideRam byte) (host : Host) (address : Word) (value : Byte) :
    bus.write host address value byte = host byte := by
  rw [write_eq_aliasedStore hb, AliasedStore.write_apply, if_neg]
  intro hcell
  obtain ⟨memory, offset, hres, rfl⟩ := (ramCell_eq_some_iff hb).mp hcell
  obtain ⟨entry, hentry, hregion⟩ := mem_of_resolve hres
  have hlt : offset.toNat < memory.size := hb.offset_lt hres rfl
  exact h entry hentry memory hregion ⟨Nat.le_add_right _ _, Nat.add_lt_add_left hlt _⟩

end MemoryBus

namespace Buses

variable [IOPort ι δ]

theorem host_performAll_of_outsideRam {b : Buses ι δ} (hb : b.memoryBus.InBounds) {byte : ℕ}
    (h : b.memoryBus.OutsideRam byte) (events : List (BusEvent ι)) :
    (b.performAll events).host byte = b.host byte := by
  induction events generalizing b with
  | nil => rfl
  | cons e events ih =>
    have he : (b.perform e).memoryBus = b.memoryBus := by cases e <;> rfl
    rw [performAll_cons, ih (he ▸ hb) (he ▸ h)]
    cases e with
    | write address value => exact b.memoryBus.write_apply_of_outsideRam hb h _ _ _
    | deviceIn device => rfl
    | deviceOut device value => rfl

end Buses

namespace Cpu

variable [IOPort ι δ]

/-- A run never changes the table. -/
@[simp]
theorem memoryBus_after (c : Cpu ι δ) (inputs : List Action) :
    (system.after c inputs).buses.memoryBus = c.buses.memoryBus :=
  system.after_induction (fun _ => True)
    (P := fun d => d.buses.memoryBus = c.buses.memoryBus)
    (fun d a _ hd => by rw [buses_step, Buses.memoryBus_performAll, hd]) rfl fun _ _ => trivial

theorem host_after_of_outsideRam {c : Cpu ι δ} (hb : c.buses.memoryBus.InBounds) {byte : ℕ}
    (h : c.buses.memoryBus.OutsideRam byte) (inputs : List Action) :
    (system.after c inputs).buses.host byte = c.buses.host byte := by
  induction inputs using List.reverseRecOn with
  | nil => rfl
  | append_singleton inputs a ih =>
    have htable := memoryBus_after c inputs
    rw [Reactive.after_concat, buses_step,
      Buses.host_performAll_of_outsideRam (htable ▸ hb) (htable ▸ h), ih]

/-- **ROM never changes.** Over any table built by calls of `map` whose accepted ones map
non-empty regions, with RAM spans that share no byte with the ROM spans, and for every run
from every state: no byte of a ROM span of an accepted call changes, and an address that the
earliest accepted call covering it does not map to RAM, or that no accepted call covers,
reads the same throughout. -/
theorem rom_unchanged (calls : List RegionEntry) (c : Cpu ι δ)
    (hbus : c.buses.memoryBus = .build calls) (hne : MemoryBus.NonemptySpans calls)
    (hdisjoint : MemoryBus.RamDisjointFromRom calls) (inputs : List Action) :
    (∀ call ∈ calls, call.Accepted → ∀ memory, call.region = .romRegion memory →
      ∀ byte, memory.Contains byte →
        (system.after c inputs).buses.host byte = c.buses.host byte) ∧
    ∀ address, (∀ memory offset,
        MemoryBus.resolveCalls calls address ≠ some (.ramRegion memory, offset)) →
      (system.after c inputs).buses.read address = c.buses.read address := by
  rw [← MemoryBus.resolve_build]
  have hb : c.buses.memoryBus.InBounds := hbus ▸ hne.inBounds
  have hrom : ∀ call ∈ calls, call.Accepted → ∀ memory, call.region = .romRegion memory →
      ∀ byte, memory.Contains byte →
        (system.after c inputs).buses.host byte = c.buses.host byte := by
    intro call hcall haccepted memory hregion byte hbyte
    exact host_after_of_outsideRam hb
      (hbus ▸ hdisjoint.outsideRam hcall haccepted hregion hbyte) inputs
  -- what is read through another region is a byte of a ROM span or no byte at all
  refine ⟨hrom, fun address hnotram => ?_⟩
  rw [Buses.read, Buses.read, memoryBus_after, hbus]
  rcases hres : (MemoryBus.build calls).resolve address with _ | ⟨region, offset⟩
  · rw [MemoryBus.read_of_resolve_none hres, MemoryBus.read_of_resolve_none hres]
  · rw [MemoryBus.read_of_resolve hres, MemoryBus.read_of_resolve hres]
    cases region with
    | ramRegion memory => exact absurd hres (hnotram memory offset)
    | openBusRegion size => rfl
    | romRegion memory =>
      obtain ⟨call, hcall, hregion⟩ := MemoryBus.mem_of_resolve hres
      obtain ⟨hmem, haccepted⟩ := MemoryBus.mem_regions_build.mp hcall
      have hlt : offset.toNat < memory.size := hne.inBounds.offset_lt hres rfl
      exact hrom call hmem haccepted memory hregion _
        ⟨Nat.le_add_right _ _, Nat.add_lt_add_left hlt _⟩

/-- One byte of ROM with RAM mapped later over the same address. -/
def romCalls : List RegionEntry := [⟨0, 0, .romRegion ⟨0, 1⟩⟩, ⟨0, 7, .ramRegion ⟨1, 8⟩⟩]

/-- The byte of ROM is the instruction `MOV M, A`. -/
def romMachine : Buses Empty Unit where
  memoryBus := .build romCalls
  ioBus := .initial
  host := fun byte => if byte = 0 then 0x77 else 0
  devices := ()
  log := []

/-- A program that stores into its own ROM still finds itself there. -/
theorem rom_unchanged_by_store :
    (system.after (Cpu.new romMachine) [.cycle, .cycle]).buses.read 0 = 0x77 := by
  have hne : MemoryBus.NonemptySpans romCalls := by
    simp [MemoryBus.NonemptySpans, romCalls, IMemRegion.span?]
  have hdisjoint : MemoryBus.RamDisjointFromRom romCalls := by
    simp [MemoryBus.RamDisjointFromRom, romCalls, Span.Disjoint, Span.Contains]
    exact fun _ _ a h _ => by omega
  have hresolve : MemoryBus.resolveCalls romCalls 0 = some (.romRegion ⟨0, 1⟩, 0) := by decide
  exact (rom_unchanged romCalls (Cpu.new romMachine) rfl hne hdisjoint [.cycle, .cycle]).2 0
    fun memory offset h => by cases hresolve.symm.trans h

end Cpu

end Fake8080
