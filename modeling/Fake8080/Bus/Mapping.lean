import Fake8080.Bus.Table
import Fake8080.Library.Reactive
import Mathlib.Data.List.Find
import Mathlib.Data.List.Pairwise

/-!
# The contract of `map`, and mapping in another order

A call of `map` is meant to append its entry exactly if the region is as long as the range,
and to leave the bus alone when it throws. The second holds always. The first fails for a
span longer than the address space: both lengths are compared modulo 65536.

Accepted calls over ranges that share no address may be issued in any order: whatever is
then read and written, no read tells the two buses apart and the same bytes are stored.
-/

namespace Fake8080

/-! ### One call -/

namespace RegionEntry

/-- The ranges share no address. -/
def Disjoint (entry other : RegionEntry) : Prop :=
  ∀ address, entry.Covers address → ¬ other.Covers address

theorem Disjoint.symm {entry other : RegionEntry} (h : entry.Disjoint other) :
    other.Disjoint entry :=
  fun address hother hentry => h address hentry hother

instance : Std.Symm Disjoint := ⟨fun _ _ => Disjoint.symm⟩

/-- The span is as long as the range. -/
def Fits (entry : RegionEntry) (memory : Span) : Prop :=
  entry.start ≤ entry.endAddress ∧
    (memory.size : ℤ) = entry.endAddress.toNat - entry.start.toNat + 1

/-- The span is longer than the address space, and as long as the range modulo 65536. -/
def WrapsSize (entry : RegionEntry) (memory : Span) : Prop :=
  entry.start ≤ entry.endAddress ∧ 65536 < memory.size ∧
    memory.size % 65536 = (entry.endAddress.toNat - entry.start.toNat + 1) % 65536

instance (entry : RegionEntry) (memory : Span) : Decidable (entry.WrapsSize memory) :=
  inferInstanceAs (Decidable (_ ∧ _ ∧ _))

/-- The checks of `map`, in numbers. -/
theorem accepted_iff_mod {entry : RegionEntry} {memory : Span}
    (hm : entry.region.span? = some memory) :
    entry.Accepted ↔ entry.start ≤ entry.endAddress ∧
      memory.size % 65536 = (entry.endAddress.toNat - entry.start.toNat + 1) % 65536 := by
  refine and_congr_right fun hle => ?_
  have hrange : (entry.endAddress - entry.start + 1).toNat =
      (entry.endAddress.toNat - entry.start.toNat + 1) % 65536 := by
    bv_omega
  rw [← BitVec.toNat_inj, toNat_size_of_span? hm, hrange]

/-- A call on a span that is not empty is accepted if the span fits, or if it wraps. -/
theorem accepted_iff_fits_or_wrapsSize {entry : RegionEntry} {memory : Span}
    (hm : entry.region.span? = some memory) (hne : memory.size ≠ 0) :
    entry.Accepted ↔ entry.Fits memory ∨ entry.WrapsSize memory := by
  rw [accepted_iff_mod hm, Fits, WrapsSize, ← and_or_left]
  refine and_congr_right fun hle => ?_
  have hlt := entry.endAddress.isLt
  have hle' : entry.start.toNat ≤ entry.endAddress.toNat := hle
  constructor
  · intro hmod
    omega
  · rintro (hfits | ⟨-, hmod⟩)
    · omega
    · exact hmod

theorem Fits.not_wrapsSize {entry : RegionEntry} {memory : Span} (h : entry.Fits memory) :
    ¬ entry.WrapsSize memory := by
  rintro ⟨-, hlong, -⟩
  have hlt := entry.endAddress.isLt
  have hsize := h.2
  omega

end RegionEntry

namespace MemoryBus

/-- `map` on the bus as a state is `map`: a throw leaves the bus as it was. -/
theorem execMap_eq_map (bus : MemoryBus) (start endAddress : Word) (region : IMemRegion) :
    execMap start endAddress region bus =
      match bus.map start endAddress region with
      | .ok bus' => (.ok (), bus')
      | .error e => (.error e, bus) := by
  rw [execMap, map]
  by_cases hle : endAddress < start
  · rw [if_pos hle, if_pos hle]
    rfl
  · rw [if_neg hle, if_neg hle]
    by_cases hsize : region.size ≠ endAddress - start + 1
    · simp only [if_pos hsize]
      rfl
    · simp only [if_neg hsize]
      rfl

/-- What a call of `map` does. -/
theorem execMap_eq (bus : MemoryBus) (call : RegionEntry) :
    execMap call.start call.endAddress call.region bus =
      if call.Accepted then (.ok (), ⟨bus.regions ++ [call]⟩)
      else (.error call.rejection, bus) := by
  rw [execMap_eq_map, map_eq]
  by_cases h : call.Accepted
  · rw [if_pos h, if_pos h]
  · rw [if_neg h, if_neg h]

/-! ### Reads and writes -/

/-- An access to the bus. -/
inductive Access
  | read (address : Word)
  | write (address : Word) (value : Byte)

/-- The bus and the bytes behind it under accesses: a read reports the byte read, a write
reports nothing. -/
def accessSystem : Reactive (MemoryBus × Host) Access (Option Byte) where
  step s access :=
    match access with
    | .read _ => s
    | .write address value => (s.1, s.1.write s.2 address value)
  event s access :=
    match access with
    | .read address => some (s.1.read s.2 address)
    | .write _ _ => none

/-- Over the same bytes, no accesses tell the buses apart: every read reports the same byte,
during them and after them, and they leave the same bytes. -/
structure Indistinguishable (bus bus' : MemoryBus) : Prop where
  history : ∀ host accesses, accessSystem.history (bus, host) accesses =
    accessSystem.history (bus', host) accesses
  read : ∀ host accesses address,
    let s := accessSystem.after (bus, host) accesses
    let s' := accessSystem.after (bus', host) accesses
    s.1.read s.2 address = s'.1.read s'.2 address
  host : ∀ host accesses, (accessSystem.after (bus, host) accesses).2 =
    (accessSystem.after (bus', host) accesses).2

/-- The buses choose the same entry for every address. -/
def SameLookup (bus bus' : MemoryBus) : Prop :=
  ∀ address, bus.findRegion address = bus'.findRegion address

namespace SameLookup

variable {bus bus' : MemoryBus}

/-- A read depends on the entry chosen only. -/
theorem read_eq (h : bus.SameLookup bus') (host : Host) (address : Word) :
    bus.read host address = bus'.read host address := by
  rw [MemoryBus.read_eq, MemoryBus.read_eq, h address]

theorem write_eq (h : bus.SameLookup bus') (host : Host) (address : Word) (value : Byte) :
    bus.write host address value = bus'.write host address value := by
  rw [MemoryBus.write_eq, MemoryBus.write_eq, h address]

/-- The same lookups over the same bytes. -/
def OverSameHost (s t : MemoryBus × Host) : Prop := s.1.SameLookup t.1 ∧ s.2 = t.2

theorem bisimulation : accessSystem.Bisimulation OverSameHost where
  event := by
    rintro ⟨bus, host⟩ ⟨bus', host'⟩ access ⟨hlookup, rfl⟩
    cases access with
    | read address => exact congrArg some (hlookup.read_eq host address)
    | write address value => rfl
  step := by
    rintro ⟨bus, host⟩ ⟨bus', host'⟩ access ⟨hlookup, rfl⟩
    cases access with
    | read address => exact ⟨hlookup, rfl⟩
    | write address value => exact ⟨hlookup, hlookup.write_eq host address value⟩

theorem indistinguishable (h : bus.SameLookup bus') : bus.Indistinguishable bus' := by
  have hstart : ∀ host, OverSameHost (bus, host) (bus', host) := fun host => ⟨h, rfl⟩
  refine ⟨fun host accesses => ?_, fun host accesses address => ?_, fun host accesses => ?_⟩
  · exact bisimulation.history (hstart host) accesses
  · intro s s'
    obtain ⟨hlookup, hhost⟩ : OverSameHost s s' := bisimulation.after (hstart host) accesses
    rw [hhost]
    exact hlookup.read_eq _ _
  · exact (bisimulation.after (hstart host) accesses).2

end SameLookup

/-! ### The contract of a call -/

/-- A call of `map` succeeds exactly if the span is as long as the range. If it succeeds the
table has the new entry at its end, if it throws the bus is the old one. -/
structure MapContract (bus : MemoryBus) (call : RegionEntry) (memory : Span) : Prop where
  succeeds_iff : (execMap call.start call.endAddress call.region bus).1 = .ok () ↔
    call.start ≤ call.endAddress ∧
      (memory.size : ℤ) = call.endAddress.toNat - call.start.toNat + 1
  of_success : (execMap call.start call.endAddress call.region bus).1 = .ok () →
    (execMap call.start call.endAddress call.region bus).2.regions = bus.regions ++ [call]
  of_throw : ∀ e, (execMap call.start call.endAddress call.region bus).1 = .error e →
    (execMap call.start call.endAddress call.region bus).2 = bus ∧
      (execMap call.start call.endAddress call.region bus).2.Indistinguishable bus

theorem execMap_fst_eq_ok_iff (bus : MemoryBus) (call : RegionEntry) :
    (execMap call.start call.endAddress call.region bus).1 = .ok () ↔ call.Accepted := by
  rw [execMap_eq]
  by_cases h : call.Accepted
  · rw [if_pos h]
    exact iff_of_true rfl h
  · rw [if_neg h]
    refine iff_of_false ?_ h
    rintro ⟨⟩

/-- **When `map` keeps its contract.** For a RAM or ROM region over a span that is not empty,
any range and any table: `map` succeeds exactly if the span is as long as the range,
appending its entry then and leaving the bus alone otherwise, if and only if the span is
not one longer than 65536 bytes with the length of the range modulo 65536. -/
theorem mapContract_iff (bus : MemoryBus) (call : RegionEntry) (memory : Span)
    (hm : call.region.span? = some memory) (hne : memory.size ≠ 0) :
    bus.MapContract call memory ↔ ¬ call.WrapsSize memory := by
  constructor
  · rintro ⟨hsucceeds, -, -⟩ hwraps
    have haccepted := (RegionEntry.accepted_iff_fits_or_wrapsSize hm hne).mpr (.inr hwraps)
    have hfits : call.Fits memory := hsucceeds.mp ((execMap_fst_eq_ok_iff bus call).mpr haccepted)
    exact hfits.not_wrapsSize hwraps
  · intro hwraps
    refine ⟨?_, ?_, ?_⟩
    · rw [execMap_fst_eq_ok_iff, RegionEntry.accepted_iff_fits_or_wrapsSize hm hne,
        or_iff_left hwraps]
      exact Iff.rfl
    · intro hok
      rw [execMap_eq, if_pos ((execMap_fst_eq_ok_iff bus call).mp hok)]
    · intro e he
      have hna : ¬ call.Accepted := by
        rw [← execMap_fst_eq_ok_iff bus, he]
        rintro ⟨⟩
      rw [execMap_eq, if_neg hna]
      exact ⟨rfl, SameLookup.indistinguishable fun _ => rfl⟩

/-- All of memory as one region of 65536 bytes: both lengths wrap to 0. -/
theorem mapContract_fullRange :
    (⟨[]⟩ : MemoryBus).MapContract ⟨0, 0xFFFF, .ramRegion ⟨0, 65536⟩⟩ ⟨0, 65536⟩ :=
  (mapContract_iff ⟨[]⟩ ⟨0, 0xFFFF, .ramRegion ⟨0, 65536⟩⟩ ⟨0, 65536⟩ rfl (by decide)).mpr
    (by decide)

/-- A span of 65537 bytes is accepted for a range of one address. -/
theorem mapContract_broken : ¬ ∀ (bus : MemoryBus) (call : RegionEntry) (memory : Span),
    call.region.span? = some memory → memory.size ≠ 0 → bus.MapContract call memory := by
  intro h
  have hcontract := h ⟨[]⟩ ⟨0, 0, .ramRegion ⟨0, 65537⟩⟩ ⟨0, 65537⟩ rfl (by decide)
  have hok := (execMap_fst_eq_ok_iff ⟨[]⟩ ⟨0, 0, .ramRegion ⟨0, 65537⟩⟩).mpr (by decide)
  have hsize := (hcontract.succeeds_iff.mp hok).2
  exact absurd hsize (by decide)

/-! ### Calls in any order -/

/-- A sequence of calls of `map`, up to the first that throws. -/
def mapAll : List RegionEntry → ExceptT InvalidArgument (StateM MemoryBus) Unit
  | [] => pure ()
  | call :: calls => do
    execMap call.start call.endAddress call.region
    mapAll calls

/-- After an accepted call the others go on from the longer table. -/
theorem mapAll_cons_of_accepted {call : RegionEntry} (h : call.Accepted)
    (calls : List RegionEntry) (bus : MemoryBus) :
    mapAll (call :: calls) bus = mapAll calls ⟨bus.regions ++ [call]⟩ := by
  have hcall := execMap_eq bus call
  rw [if_pos h] at hcall
  simp only [mapAll, bind, ExceptT.bind, ExceptT.mk, StateT.bind, hcall]
  rfl

/-- A call that is not accepted ends the sequence. -/
theorem mapAll_cons_of_not_accepted {call : RegionEntry} (h : ¬ call.Accepted)
    (calls : List RegionEntry) (bus : MemoryBus) :
    mapAll (call :: calls) bus = (.error call.rejection, bus) := by
  have hcall := execMap_eq bus call
  rw [if_neg h] at hcall
  simp only [mapAll, bind, ExceptT.bind, ExceptT.mk, StateT.bind, hcall]
  rfl

/-- No call throws if and only if all are accepted, whatever their order and the table
before; the table then has them at its end. -/
theorem mapAll_eq_ok_iff {calls : List RegionEntry} {bus built : MemoryBus} :
    mapAll calls bus = (.ok (), built) ↔
      (∀ call ∈ calls, call.Accepted) ∧ built = ⟨bus.regions ++ calls⟩ := by
  induction calls generalizing bus with
  | nil =>
    rw [List.append_nil]
    constructor
    · rintro ⟨⟩
      exact ⟨fun call hcall => absurd hcall List.not_mem_nil, rfl⟩
    · rintro ⟨-, rfl⟩
      rfl
  | cons call calls ih =>
    by_cases h : call.Accepted
    · rw [mapAll_cons_of_accepted h, ih, List.append_assoc, List.singleton_append]
      simp [h]
    · rw [mapAll_cons_of_not_accepted h]
      refine iff_of_false ?_ fun hall => h (hall.1 call List.mem_cons_self)
      rintro ⟨⟩

/-- A call that is skipped when it throws leaves the bus that `map` leaves. -/
theorem mapOrSkip_eq (bus : MemoryBus) (call : RegionEntry) :
    bus.mapOrSkip call = (execMap call.start call.endAddress call.region bus).2 := by
  rw [mapOrSkip, execMap_eq_map]
  cases bus.map call.start call.endAddress call.region with
  | ok bus' => rfl
  | error e => rfl

/-- Calls none of which throws build what they build with those that throw skipped. -/
theorem build_eq_of_mapAll {calls : List RegionEntry} {built : MemoryBus}
    (h : mapAll calls ⟨[]⟩ = (.ok (), built)) : build calls = built := by
  obtain ⟨haccepted, rfl⟩ := mapAll_eq_ok_iff.mp h
  have hregions : (build calls).regions = calls := by
    rw [regions_build, List.filter_eq_self]
    exact fun call hcall => decide_eq_true (haccepted call hcall)
  exact congrArg MemoryBus.mk hregions

/-- In a table over ranges that share no address, at most one entry covers an address. -/
theorem subsingleton_covers {calls : List RegionEntry}
    (hdisjoint : calls.Pairwise RegionEntry.Disjoint) (address : Word) :
    {call ∈ calls | call.Covers address}.Subsingleton := by
  rintro call ⟨hcall, hcovers⟩ other ⟨hother, hcovers'⟩
  by_contra hne
  exact hdisjoint.forall hcall hother hne address hcovers hcovers'

/-- Entries at the end of the table over ranges that share no address may be reordered. -/
theorem sameLookup_of_perm (bus : MemoryBus) {calls calls' : List RegionEntry}
    (hperm : calls.Perm calls') (hdisjoint : calls.Pairwise RegionEntry.Disjoint) :
    (⟨bus.regions ++ calls⟩ : MemoryBus).SameLookup ⟨bus.regions ++ calls'⟩ := by
  intro address
  have hfind : calls.find? (fun call => call.Covers address) =
      calls'.find? fun call => call.Covers address := by
    refine List.find?_eq_find?_of_perm hperm ?_
    simpa using subsingleton_covers hdisjoint address
  -- the entries that were there before are found first in both
  have hcovers : ∀ entries : List RegionEntry, (⟨entries⟩ : MemoryBus).findRegion address =
      (entries.find? fun entry => entry.Covers address).getD openMemory := fun _ => rfl
  rw [hcovers, hcovers, List.find?_append, List.find?_append, hfind]

/-- **The order of disjoint mappings does not matter.** If calls of `map` over ranges that
share no address all succeed in one order, they succeed in every order, from the same table,
and no reads and writes tell the two buses apart: every read returns the same byte, and the
same bytes are stored. -/
theorem mapAll_perm {calls calls' : List RegionEntry} (hperm : calls.Perm calls')
    (hdisjoint : calls.Pairwise RegionEntry.Disjoint) {bus built : MemoryBus}
    (hcalls : mapAll calls bus = (.ok (), built)) :
    ∃ built', mapAll calls' bus = (.ok (), built') ∧ built.Indistinguishable built' := by
  obtain ⟨haccepted, rfl⟩ := mapAll_eq_ok_iff.mp hcalls
  have haccepted' : ∀ call ∈ calls', call.Accepted :=
    fun call hcall => haccepted call (hperm.symm.subset hcall)
  exact ⟨_, mapAll_eq_ok_iff.mpr ⟨haccepted', rfl⟩,
    (sameLookup_of_perm bus hperm hdisjoint).indistinguishable⟩

/-- Two adjacent regions mapped from the upper one down. -/
theorem mapAll_perm_adjacent : ∃ built',
    mapAll [⟨0x40, 0x7F, .romRegion ⟨64, 64⟩⟩, ⟨0, 0x3F, .ramRegion ⟨0, 64⟩⟩] ⟨[]⟩ =
        (.ok (), built') ∧
      (⟨[⟨0, 0x3F, .ramRegion ⟨0, 64⟩⟩, ⟨0x40, 0x7F, .romRegion ⟨64, 64⟩⟩]⟩ :
        MemoryBus).Indistinguishable built' := by
  have hdisjoint : [⟨0, 0x3F, .ramRegion ⟨0, 64⟩⟩,
      ⟨0x40, 0x7F, .romRegion ⟨64, 64⟩⟩].Pairwise RegionEntry.Disjoint := by
    refine List.pairwise_pair.mpr fun address hlow hhigh => ?_
    have hle := hlow.2
    have hge := hhigh.1
    bv_omega
  exact mapAll_perm (List.Perm.swap _ _ _) hdisjoint (mapAll_eq_ok_iff.mpr ⟨by decide, rfl⟩)

end MemoryBus

end Fake8080
