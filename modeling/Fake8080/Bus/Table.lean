import Fake8080.Library.AliasedStore
import Fake8080.Model.MemoryBus

/-!
# The region table and the bounds of its accesses

What a sequence of `map` calls builds, and which entry `findRegion` chooses. The size
check of `map` compares two lengths modulo 65536. For every entry it accepts, the offset
of a covered address lies inside the region's span, with one exception: an empty span is
accepted over the full range of addresses, because both lengths are then 0.
-/

namespace Fake8080

/-! ### Accepted calls -/

namespace RegionEntry

/-- The two checks of `map`. -/
def Accepted (entry : RegionEntry) : Prop :=
  entry.start ≤ entry.endAddress ∧ entry.region.size = entry.endAddress - entry.start + 1

instance (entry : RegionEntry) : Decidable entry.Accepted :=
  inferInstanceAs (Decidable (_ ∧ _))

/-- The exception of a call that is not accepted. -/
def rejection (entry : RegionEntry) : InvalidArgument :=
  if entry.endAddress < entry.start then
    ⟨"Direcciones incorrectas. end < start"⟩
  else
    ⟨"La región debe ser del mismo tamaño que el rango de direcciones"⟩

/-- An empty span over the full range of addresses. -/
def MapsEmptySpan (entry : RegionEntry) : Prop :=
  entry.start = 0 ∧ entry.endAddress = 0xFFFF ∧
    ∃ memory, entry.region.span? = some memory ∧ memory.size = 0

/-- The offset of an address in the entry's range. -/
def offset (entry : RegionEntry) (address : Word) : Word := address - entry.start

theorem toNat_size_of_span? {region : IMemRegion} {memory : Span}
    (h : region.span? = some memory) : region.size.toNat = memory.size % 65536 := by
  cases region with
  | openBusRegion size => cases h
  | ramRegion m =>
    cases h
    exact BitVec.toNat_ofNat _ _
  | romRegion m =>
    cases h
    exact BitVec.toNat_ofNat _ _

/-- In an accepted entry the offset of a covered address lies in the span, unless the
entry maps an empty span over everything. -/
theorem offset_lt_size {entry : RegionEntry} (ha : entry.Accepted)
    {address : Word} (hc : entry.Covers address) {memory : Span}
    (hm : entry.region.span? = some memory) (hne : ¬ entry.MapsEmptySpan) :
    (entry.offset address).toNat < memory.size := by
  obtain ⟨hle, hsize⟩ := ha
  obtain ⟨hstart, hend⟩ := hc
  have hmod := toNat_size_of_span? hm
  rw [hsize] at hmod
  rw [offset]
  by_cases hfull : entry.start = 0 ∧ entry.endAddress = 0xFFFF
  · -- both lengths are 0 modulo 65536, so a span that is not empty is long enough
    have hpos : memory.size ≠ 0 := fun h => hne ⟨hfull.1, hfull.2, memory, hm, h⟩
    rw [hfull.1, hfull.2] at hmod
    have hzero : memory.size % 65536 = 0 := hmod.symm
    have hlt := (address - entry.start).isLt
    omega
  · -- the range is shorter than 65536, so its length survives the truncation
    have hshort : (address - entry.start).toNat < (entry.endAddress - entry.start + 1).toNat := by
      bv_omega
    have hle := Nat.mod_le memory.size 65536
    omega

theorem MapsEmptySpan.covers {entry : RegionEntry} (h : entry.MapsEmptySpan)
    (address : Word) : entry.Covers address := by
  obtain ⟨hs, he, -⟩ := h
  rw [Covers, hs, he]
  constructor <;> bv_omega

end RegionEntry

namespace MemoryBus

/-! ### The table a sequence of calls builds -/

/-- `map` appends the entry of an accepted call and throws otherwise. -/
theorem map_eq (bus : MemoryBus) (call : RegionEntry) :
    bus.map call.start call.endAddress call.region =
      if call.Accepted then .ok ⟨bus.regions ++ [call]⟩ else .error call.rejection := by
  rw [map, RegionEntry.rejection]
  by_cases hle : call.endAddress < call.start
  · have hna : ¬ call.Accepted := fun h => by
      have := h.1
      bv_omega
    rw [if_pos hle, if_neg hna, if_pos hle]
  · rw [if_neg hle, if_neg hle]
    by_cases hsize : call.region.size = call.endAddress - call.start + 1
    · have ha : call.Accepted := ⟨by bv_omega, hsize⟩
      rw [if_pos ha]
      simp only [hsize, ne_eq, not_true_eq_false, if_false]
    · have hna : ¬ call.Accepted := fun h => hsize h.2
      rw [if_neg hna]
      simp only [hsize, ne_eq, not_false_eq_true, if_true]

/-- A call appends its entry if it is accepted and is skipped otherwise. -/
theorem regions_mapOrSkip (bus : MemoryBus) (call : RegionEntry) :
    (bus.mapOrSkip call).regions = bus.regions ++ [call].filter (·.Accepted) := by
  rw [mapOrSkip, map_eq]
  by_cases h : call.Accepted
  · rw [if_pos h]
    simp [h]
  · rw [if_neg h]
    simp [h]

/-- The table holds the accepted calls in their order. -/
theorem regions_build (calls : List RegionEntry) :
    (build calls).regions = calls.filter (·.Accepted) := by
  induction calls using List.reverseRecOn with
  | nil => rfl
  | append_singleton calls call ih =>
    rw [build, List.foldl_append, List.foldl_cons, List.foldl_nil, regions_mapOrSkip,
      List.filter_append, ← ih, build]

theorem mem_regions_build {calls : List RegionEntry} {call : RegionEntry} :
    call ∈ (build calls).regions ↔ call ∈ calls ∧ call.Accepted := by
  rw [regions_build, List.mem_filter, decide_eq_true_iff]

/-- The region found is the earliest accepted call's whose range holds the address. -/
theorem findRegion_build (calls : List RegionEntry) (address : Word) :
    (build calls).findRegion address =
      (calls.find? fun call => call.Accepted ∧ call.Covers address).getD openMemory := by
  rw [findRegion, regions_build, List.find?_filter]
  congr 2
  funext call
  refine decide_eq_decide.mpr ?_
  rw [decide_eq_true_eq, decide_eq_true_eq]
  exact Iff.rfl

theorem findRegion_cases (bus : MemoryBus) (address : Word) :
    (bus.regions.find? fun entry => entry.Covers address) = some (bus.findRegion address) ∨
      (bus.regions.find? fun entry => entry.Covers address) = none ∧
        bus.findRegion address = openMemory := by
  have hfind : bus.findRegion address =
      (bus.regions.find? fun entry => entry.Covers address).getD openMemory := rfl
  rw [hfind]
  cases bus.regions.find? fun entry => entry.Covers address with
  | none => exact .inr ⟨rfl, rfl⟩
  | some entry => exact .inl rfl

/-! ### Bounds -/

/-- `read` hands the region found the offset in its range. -/
theorem read_eq (bus : MemoryBus) (host : Host) (address : Word) :
    bus.read host address =
      (bus.findRegion address).region.read host ((bus.findRegion address).offset address) := rfl

theorem write_eq (bus : MemoryBus) (host : Host) (address : Word) (value : Byte) :
    bus.write host address value = (bus.findRegion address).region.write host
      ((bus.findRegion address).offset address) value := rfl

/-- Every access through the table stays inside the span of the region it chooses. -/
def InBounds (bus : MemoryBus) : Prop :=
  ∀ address memory, (bus.findRegion address).region.span? = some memory →
    ((bus.findRegion address).offset address).toNat < memory.size

theorem inBounds_of_forall {calls : List RegionEntry}
    (h : ∀ call ∈ (build calls).regions, ¬ call.MapsEmptySpan) : (build calls).InBounds := by
  intro address memory hm
  rcases findRegion_cases (build calls) address with hfound | ⟨-, hopen⟩
  · have hmem := List.mem_of_find?_eq_some hfound
    have hcovers : ((build calls).findRegion address).Covers address := by
      simpa using List.find?_some hfound
    have haccepted := (mem_regions_build.mp hmem).2
    exact RegionEntry.offset_lt_size haccepted hcovers hm (h _ hmem)
  · rw [hopen] at hm
    cases hm

/-- No accepted call maps an empty span. -/
def NonemptySpans (calls : List RegionEntry) : Prop :=
  ∀ call ∈ calls, call.Accepted → ∀ memory, call.region.span? = some memory → memory.size ≠ 0

theorem NonemptySpans.inBounds {calls : List RegionEntry} (h : NonemptySpans calls) :
    (build calls).InBounds := by
  refine inBounds_of_forall fun call hcall ⟨_, _, memory, hm, hz⟩ => ?_
  obtain ⟨hmem, haccepted⟩ := mem_regions_build.mp hcall
  exact h call hmem haccepted memory hm hz

/-- **The exact condition for accesses to stay in bounds.** Whatever is mapped, every
address reaches inside the span of the region `findRegion` chooses if and only if no call
maps an empty span over the full range while some address is not covered by an earlier
accepted call. -/
theorem inBounds_build_iff (calls : List RegionEntry) :
    (build calls).InBounds ↔
      ∀ earlier call later, calls = earlier ++ call :: later → call.Accepted →
        call.MapsEmptySpan → ∀ address, ∃ other ∈ earlier, other.Accepted ∧ other.Covers address := by
  constructor
  · intro h earlier call later hcalls ha hempty address
    by_contra hnone
    push Not at hnone
    -- the uncovered address goes to the empty span, whose every offset is outside
    obtain ⟨-, -, memory, hm, hz⟩ := id hempty
    have hfind : (build calls).findRegion address = call := by
      have hsome : (calls.find? fun call => call.Accepted ∧ call.Covers address) = some call :=
        List.find?_eq_some_iff_append.mpr ⟨by simp [ha, hempty.covers], earlier, later, hcalls,
          fun other hother => by
            have := hnone other hother
            simpa [imp_iff_not_or] using this⟩
      rw [findRegion_build, hsome, Option.getD_some]
    have hlt := h address memory (by rw [hfind, hm])
    omega
  · intro h address memory hm
    rw [findRegion_build] at hm ⊢
    cases hfind : calls.find? fun call => call.Accepted ∧ call.Covers address with
    | none =>
      rw [hfind] at hm
      cases hm
    | some call =>
      rw [hfind, Option.getD_some] at hm
      obtain ⟨hcall, earlier, later, hcalls, hearlier⟩ := List.find?_eq_some_iff_append.mp hfind
      obtain ⟨ha, hcovers⟩ : call.Accepted ∧ call.Covers address := by simpa using hcall
      refine RegionEntry.offset_lt_size ha hcovers hm fun hempty => ?_
      obtain ⟨other, hother, hoa, hoc⟩ := h earlier call later hcalls ha hempty address
      have := hearlier other hother
      simp [hoa, hoc] at this

/-- An empty RAM region over the full range is accepted and every access misses it. -/
theorem inBounds_broken :
    ¬ ∀ calls : List RegionEntry, (build calls).InBounds := by
  intro h
  have hlt := h [⟨0, 0xFFFF, .ramRegion ⟨0, 0⟩⟩] 0 ⟨0, 0⟩ (by decide)
  exact Nat.not_lt_zero _ hlt

end MemoryBus

end Fake8080
