import Fake8080.Bus.Table

/-!
# The bus as a store of cells

Ranges may overlap, a region may be mapped more than once, and a region mapped earlier
hides one mapped later. What an address means is settled by `resolve`: the region of the
earliest mapping that holds it and the offset there, which for a bus that is built by calls
of `map` is the earliest accepted call's (`resolve_build`). Over non-empty regions with
disjoint spans the bus is a store of cells written through aliases, a cell being a RAM region
and an offset, and the bytes behind it refine that store.
-/

namespace Fake8080

namespace MemoryBus

/-! ### Resolution -/

/-- The region and offset of the earliest mapping that holds an address. -/
def resolve (bus : MemoryBus) (address : Word) : Option (IMemRegion × Word) :=
  (bus.regions.find? fun entry => entry.Covers address).map fun entry =>
    (entry.region, entry.offset address)

/-- The region and offset of the earliest accepted call whose range holds an address. -/
def resolveCalls (calls : List RegionEntry) (address : Word) : Option (IMemRegion × Word) :=
  (calls.find? fun call => call.Accepted ∧ call.Covers address).map fun call =>
    (call.region, call.offset address)

theorem resolve_build (calls : List RegionEntry) :
    (build calls).resolve = resolveCalls calls := by
  funext address
  rw [resolve, resolveCalls, regions_build, List.find?_filter]
  congr 2
  funext call
  refine decide_eq_decide.mpr ?_
  rw [decide_eq_true_eq, decide_eq_true_eq]

/-- An address resolves to what `findRegion` chooses, if it is mapped. -/
theorem resolve_cases (bus : MemoryBus) (address : Word) :
    (bus.findRegion address ∈ bus.regions ∧ bus.resolve address = some
      ((bus.findRegion address).region, (bus.findRegion address).offset address)) ∨
    (bus.findRegion address = openMemory ∧ bus.resolve address = none) := by
  rw [resolve]
  rcases bus.findRegion_cases address with hfound | ⟨hnone, hopen⟩
  · exact .inl ⟨List.mem_of_find?_eq_some hfound, by rw [hfound, Option.map_some]⟩
  · exact .inr ⟨hopen, by rw [hnone, Option.map_none]⟩

theorem read_of_resolve {bus : MemoryBus} {address : Word} {region : IMemRegion} {offset : Word}
    (h : bus.resolve address = some (region, offset)) (host : Host) :
    bus.read host address = region.read host offset := by
  rcases bus.resolve_cases address with ⟨-, hsome⟩ | ⟨-, hnone⟩
  · rw [h, Option.some.injEq, Prod.mk.injEq] at hsome
    rw [read_eq, hsome.1, hsome.2]
  · rw [h] at hnone
    cases hnone

theorem read_of_resolve_none {bus : MemoryBus} {address : Word}
    (h : bus.resolve address = none) (host : Host) : bus.read host address = 0xFF := by
  rcases bus.resolve_cases address with ⟨-, hsome⟩ | ⟨hopen, -⟩
  · rw [h] at hsome
    cases hsome
  · rw [read_eq, hopen]
    rfl

/-- The region an address resolves to is mapped. -/
theorem mem_of_resolve {bus : MemoryBus} {address : Word} {region : IMemRegion} {offset : Word}
    (h : bus.resolve address = some (region, offset)) :
    ∃ entry ∈ bus.regions, entry.region = region := by
  rcases bus.resolve_cases address with ⟨hmem, hsome⟩ | ⟨-, hnone⟩
  · rw [h, Option.some.injEq, Prod.mk.injEq] at hsome
    exact ⟨_, hmem, hsome.1.symm⟩
  · rw [h] at hnone
    cases hnone

theorem InBounds.offset_lt {bus : MemoryBus} (hb : bus.InBounds) {address : Word}
    {region : IMemRegion} {offset : Word} (h : bus.resolve address = some (region, offset))
    {memory : Span} (hm : region.span? = some memory) : offset.toNat < memory.size := by
  rcases bus.resolve_cases address with ⟨-, hsome⟩ | ⟨-, hnone⟩
  · rw [h, Option.some.injEq, Prod.mk.injEq] at hsome
    have hlt := hb address memory (by rw [← hsome.1, hm])
    rwa [← hsome.2] at hlt
  · rw [h] at hnone
    cases hnone

/-- The RAM cell of an address is the byte it resolves to in a RAM region. -/
theorem ramCell_eq_some_iff {bus : MemoryBus} (hb : bus.InBounds) {address : Word} {cell : ℕ} :
    bus.ramCell address = some cell ↔ ∃ memory offset,
      bus.resolve address = some (.ramRegion memory, offset) ∧
        cell = memory.data + offset.toNat := by
  rcases bus.resolve_cases address with ⟨-, hsome⟩ | ⟨hopen, hnone⟩
  · rw [ramCell, hsome]
    cases hregion : (bus.findRegion address).region with
    | ramRegion memory =>
      have hlt : ((bus.findRegion address).offset address).toNat < memory.size :=
        hb address memory (by rw [hregion, IMemRegion.span?])
      simp only [RegionEntry.offset] at hlt ⊢
      simp only [if_pos hlt]
      constructor
      · intro h
        exact ⟨memory, _, rfl, (Option.some.inj h).symm⟩
      · rintro ⟨memory', offset', h, rfl⟩
        cases h
        rfl
    | romRegion memory => simp
    | openBusRegion size => simp
  · rw [ramCell, hopen, hnone]
    simp [openMemory]

theorem region_of_ramCell {bus : MemoryBus} {address : Word} {cell : ℕ}
    (h : bus.ramCell address = some cell) : ∃ memory,
      (bus.findRegion address).region = .ramRegion memory ∧
        cell = memory.data + ((bus.findRegion address).offset address).toNat := by
  rw [ramCell] at h
  cases hregion : (bus.findRegion address).region with
  | ramRegion memory =>
    simp only [hregion] at h
    split at h
    · exact ⟨memory, rfl, (Option.some.inj h).symm⟩
    · cases h
  | romRegion memory =>
    simp only [hregion] at h
    cases h
  | openBusRegion size =>
    simp only [hregion] at h
    cases h

theorem read_of_ramCell {bus : MemoryBus} {address : Word} {cell : ℕ}
    (h : bus.ramCell address = some cell) (host : Host) : bus.read host address = host cell := by
  obtain ⟨memory, hregion, rfl⟩ := region_of_ramCell h
  rw [read_eq, hregion, IMemRegion.read]

/-- A write to an address with a RAM cell changes the cell and nothing else. -/
theorem write_of_ramCell {bus : MemoryBus} {address : Word} {cell : ℕ}
    (h : bus.ramCell address = some cell) (host : Host) (value : Byte) :
    bus.write host address value = Function.update host cell value := by
  obtain ⟨memory, hregion, rfl⟩ := region_of_ramCell h
  rw [write_eq, hregion, IMemRegion.write]

/-- In bounds, a write changes the RAM cell its address resolves to, if any. -/
theorem write_eq_aliasedStore {bus : MemoryBus} (hb : bus.InBounds) (host : Host)
    (address : Word) (value : Byte) :
    bus.write host address value = AliasedStore.write bus.ramCell host (address, value) := by
  rw [write_eq, AliasedStore.write, ramCell]
  cases hregion : (bus.findRegion address).region with
  | ramRegion memory =>
    have hlt : ((bus.findRegion address).offset address).toNat < memory.size :=
      hb address memory (by rw [hregion, IMemRegion.span?])
    simp only [RegionEntry.offset] at hlt ⊢
    simp only [if_pos hlt]
    rfl
  | romRegion memory => rfl
  | openBusRegion size => rfl

theorem foldl_write_eq_writeAll {bus : MemoryBus} (hb : bus.InBounds) (host : Host)
    (writes : List (Word × Byte)) :
    writes.foldl (fun host w => bus.write host w.1 w.2) host =
      AliasedStore.writeAll bus.ramCell host writes := by
  have hstep : (fun (host : Host) (w : Word × Byte) => bus.write host w.1 w.2) =
      AliasedStore.write bus.ramCell := by
    funext host w
    exact write_eq_aliasedStore hb host w.1 w.2
  rw [hstep, AliasedStore.writeAll]

/-! ### Disjoint spans -/

/-- Different regions of accepted calls view spans that share no byte. -/
def DisjointSpans (calls : List RegionEntry) : Prop :=
  ∀ call ∈ calls, call.Accepted → ∀ other ∈ calls, other.Accepted →
    call.region ≠ other.region → ∀ s t, call.region.span? = some s →
      other.region.span? = some t → s.Disjoint t

variable {calls : List RegionEntry}

/-- With disjoint spans, two in-bounds bytes are one byte only in one region. -/
theorem DisjointSpans.eq_of_same_byte (hd : DisjointSpans calls)
    (hb : (build calls).InBounds) {a a' : Word} {region region' : IMemRegion}
    {offset offset' : Word} (ha : (build calls).resolve a = some (region, offset))
    (ha' : (build calls).resolve a' = some (region', offset')) {s t : Span}
    (hs : region.span? = some s) (ht : region'.span? = some t)
    (hbyte : s.data + offset.toNat = t.data + offset'.toNat) :
    region = region' ∧ offset = offset' := by
  have hlt := hb.offset_lt ha hs
  have hlt' := hb.offset_lt ha' ht
  obtain ⟨entry, hentry, rfl⟩ := mem_of_resolve ha
  obtain ⟨entry', hentry', rfl⟩ := mem_of_resolve ha'
  rw [mem_regions_build] at hentry hentry'
  -- both offsets lie inside their spans, so different regions would share the byte
  have hregion : entry.region = entry'.region := by
    by_contra hne
    exact hd entry hentry.1 hentry.2 entry' hentry'.1 hentry'.2 hne s t hs ht
      (s.data + offset.toNat) ⟨Nat.le_add_right _ _, by omega⟩ ⟨by omega, by omega⟩
  rw [hregion, ht, Option.some.injEq] at hs
  refine ⟨hregion, BitVec.eq_of_toNat_eq ?_⟩
  rw [hs] at hbyte
  omega

/-- With disjoint spans, the addresses of a RAM cell are those that resolve to it. -/
theorem DisjointSpans.ramCell_eq_iff (hd : DisjointSpans calls)
    (hb : (build calls).InBounds) {a : Word} {memory : Span} {offset : Word}
    (ha : (build calls).resolve a = some (.ramRegion memory, offset)) (a' : Word) :
    (build calls).ramCell a' = some (memory.data + offset.toNat) ↔
      (build calls).resolve a' = some (.ramRegion memory, offset) := by
  rw [ramCell_eq_some_iff hb]
  constructor
  · rintro ⟨memory', offset', ha', hbyte⟩
    obtain ⟨hregion, rfl⟩ := hd.eq_of_same_byte hb ha ha' rfl rfl hbyte
    rw [ha', ← hregion]
  · exact fun ha' => ⟨memory, offset, ha', rfl⟩

/-- With disjoint spans, no RAM cell is a byte of a ROM region. -/
theorem DisjointSpans.ramCell_ne_of_rom (hd : DisjointSpans calls)
    (hb : (build calls).InBounds) {a : Word} {memory : Span} {offset : Word}
    (ha : (build calls).resolve a = some (.romRegion memory, offset)) (a' : Word) :
    (build calls).ramCell a' ≠ some (memory.data + offset.toNat) := by
  intro hcell
  obtain ⟨memory', offset', ha', hbyte⟩ := (ramCell_eq_some_iff hb).mp hcell
  have hregion := (hd.eq_of_same_byte hb ha ha' rfl rfl hbyte).1
  cases hregion

/-! ### Reads after writes -/

/-- Mapping one more region changes nothing for an address that was covered. -/
theorem find?_append_of_covered {address : Word}
    (h : ∃ call ∈ calls, call.Accepted ∧ call.Covers address) (call : RegionEntry) :
    ((calls ++ [call]).find? fun call => call.Accepted ∧ call.Covers address) =
      calls.find? fun call => call.Accepted ∧ call.Covers address := by
  have hsome : (calls.find? fun call => call.Accepted ∧ call.Covers address).isSome := by
    rw [List.find?_isSome]
    obtain ⟨covering, hmem, hcovers⟩ := h
    exact ⟨covering, hmem, decide_eq_true hcovers⟩
  rw [List.find?_append, Option.or_of_isSome hsome]

/-- **Every address reads what was last written to its cell.** Let an address resolve to the
region and offset of the earliest accepted call that covers it. Over non-empty regions with
disjoint spans, mapped in any order and any number of times over any ranges, a read after
any sequence of writes returns: for RAM the last value written through an address that
resolves to the same region and offset, or the initial byte there if there was none; for
ROM the initial byte; for an open bus or an unmapped address `0xFF`. Writes that resolve
elsewhere do not affect it, and a further `map` does not change the region that is found for
a covered address, nor what it resolves to. -/
theorem read_after_writes (calls : List RegionEntry) (hne : NonemptySpans calls)
    (hd : DisjointSpans calls) (host : Host) (writes : List (Word × Byte)) (address : Word) :
    let bus := build calls
    let host' := writes.foldl (fun host w => bus.write host w.1 w.2) host
    (∀ memory offset, resolveCalls calls address = some (.ramRegion memory, offset) →
      bus.read host' address =
        (AliasedStore.lastWrite (resolveCalls calls) (.ramRegion memory, offset) writes).getD
          (host (memory.data + offset.toNat))) ∧
    (∀ memory offset, resolveCalls calls address = some (.romRegion memory, offset) →
      bus.read host' address = host (memory.data + offset.toNat)) ∧
    (∀ size offset, resolveCalls calls address = some (.openBusRegion size, offset) →
      bus.read host' address = 0xFF) ∧
    (resolveCalls calls address = none → bus.read host' address = 0xFF) ∧
    ((∀ w ∈ writes, resolveCalls calls w.1 ≠ resolveCalls calls address) →
      bus.read host' address = bus.read host address) ∧
    ∀ call, (∃ other ∈ calls, other.Accepted ∧ other.Covers address) →
      (build (calls ++ [call])).findRegion address = bus.findRegion address ∧
        resolveCalls (calls ++ [call]) address = resolveCalls calls address := by
  intro bus host'
  rw [← resolve_build]
  have hb : bus.InBounds := hne.inBounds
  have hhost' : host' = AliasedStore.writeAll bus.ramCell host writes :=
    foldl_write_eq_writeAll hb host writes
  have hram : ∀ memory offset, bus.resolve address = some (.ramRegion memory, offset) →
      bus.read host' address =
        (AliasedStore.lastWrite bus.resolve (.ramRegion memory, offset) writes).getD
          (host (memory.data + offset.toNat)) := by
    intro memory offset h
    rw [read_of_resolve h, IMemRegion.read, hhost', AliasedStore.writeAll_apply,
      AliasedStore.lastWrite_congr _ (hd.ramCell_eq_iff hb h)]
  have hrom : ∀ memory offset, bus.resolve address = some (.romRegion memory, offset) →
      bus.read host' address = host (memory.data + offset.toNat) := by
    intro memory offset h
    rw [read_of_resolve h, IMemRegion.read, hhost']
    exact AliasedStore.writeAll_apply_of_forall_ne _ fun w _ => hd.ramCell_ne_of_rom hb h w.1
  refine ⟨hram, hrom, fun size offset h => read_of_resolve h host',
    fun h => read_of_resolve_none h host', fun hother => ?_, fun call hcovered => ?_⟩
  · -- no write resolves to the address: each kind of region reads what it read before
    rcases hres : bus.resolve address with _ | ⟨region, offset⟩
    · rw [read_of_resolve_none hres, read_of_resolve_none hres]
    cases region with
    | ramRegion memory =>
      have hnone : AliasedStore.lastWrite bus.resolve (.ramRegion memory, offset) writes =
          none := by
        rw [AliasedStore.lastWrite, Option.map_eq_none_iff, List.find?_eq_none]
        simpa [bus, hres] using hother
      rw [hram memory offset hres, hnone, Option.getD_none, read_of_resolve hres, IMemRegion.read]
    | romRegion memory => rw [hrom memory offset hres, read_of_resolve hres, IMemRegion.read]
    | openBusRegion size => rw [read_of_resolve hres, read_of_resolve hres]; rfl
  · have hfind := find?_append_of_covered hcovered call
    refine ⟨?_, ?_⟩
    · rw [findRegion_build, findRegion_build, hfind]
    · rw [resolve_build, resolveCalls, resolveCalls, hfind]

/-- Two bytes of RAM mapped twice, and ROM partly hidden by the second mapping. -/
def mirroredCalls : List RegionEntry :=
  [⟨0, 1, .ramRegion ⟨0, 2⟩⟩, ⟨2, 3, .ramRegion ⟨0, 2⟩⟩, ⟨3, 4, .romRegion ⟨2, 2⟩⟩]

/-- A write through the mirror is read at the first address. -/
theorem read_mirrored_after_writes :
    (build mirroredCalls).read ([(0, 7), (2, 9), (4, 5)].foldl
      (fun host w => (build mirroredCalls).write host w.1 w.2) fun _ => 0) 0 = 9 := by
  have hne : NonemptySpans mirroredCalls := by
    simp [NonemptySpans, mirroredCalls, IMemRegion.span?]
  have hd : DisjointSpans mirroredCalls := by
    simp [DisjointSpans, mirroredCalls, IMemRegion.span?, Span.Disjoint, Span.Contains]
    exact ⟨fun _ _ a _ _ => by omega, fun _ _ a _ _ => by omega,
      fun _ => ⟨fun _ a h _ => h, fun _ a h _ => h⟩⟩
  exact (read_after_writes mirroredCalls hne hd (fun _ => 0) [(0, 7), (2, 9), (4, 5)] 0).1
    ⟨0, 2⟩ 0 (by decide)

end MemoryBus

end Fake8080
