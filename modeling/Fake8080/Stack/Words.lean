import Fake8080.Stack.Lifo

/-!
# Words in memory

Four pieces of the source store or load a word of two bytes: `writeTwoBytes`,
`readTwoBytes`, `readNextTwoBytes`, and `PUSH` and `POP` with their bytes in opposite
orders. On addresses that resolve to two distinct RAM cells they all use one format, the
low byte first, at the wrap of the address space as well.
-/

namespace Fake8080

universe u v

variable {ι : Type u} {δ : Type v}

/-- An address and the next one resolve to two distinct RAM cells. -/
structure MemoryBus.WordCells (bus : MemoryBus) (address : Word) (lower upper : ℕ) : Prop where
  ramCell : bus.ramCell address = some lower
  ramCell_next : bus.ramCell (address + 1) = some upper
  distinct : lower ≠ upper

/-- The host with a word stored in two cells. -/
def Host.storeWord (host : Host) (lower upper : ℕ) (value : Word) : Host :=
  Function.update (Function.update host lower (getLowByte value)) upper (getHighByte value)

/-- The word stored in two cells. -/
def Host.loadWord (host : Host) (lower upper : ℕ) : Word := combineBytes (host upper) (host lower)

namespace Host

variable (host : Host) {lower upper : ℕ}

/-- A stored word is loaded back. -/
theorem loadWord_storeWord (h : lower ≠ upper) (value : Word) :
    (host.storeWord lower upper value).loadWord lower upper = value := by
  rw [loadWord, storeWord, Function.update_self, Function.update_of_ne h, Function.update_self,
    combineBytes_getHighByte_getLowByte]

/-- Storing a word changes no other byte. -/
theorem storeWord_of_ne {byte : ℕ} (hlower : byte ≠ lower) (hupper : byte ≠ upper)
    (value : Word) : host.storeWord lower upper value byte = host byte := by
  rw [storeWord, Function.update_of_ne hupper, Function.update_of_ne hlower]

theorem loadWord_congr {host host' : Host} (hlower : host lower = host' lower)
    (hupper : host upper = host' upper) :
    host.loadWord lower upper = host'.loadWord lower upper := by
  rw [loadWord, loadWord, hlower, hupper]

/-- Storing the word that is there, after any other, restores the host. -/
theorem storeWord_storeWord_loadWord (h : lower ≠ upper) (value : Word) :
    (host.storeWord lower upper value).storeWord lower upper (host.loadWord lower upper) =
      host := by
  rw [storeWord, storeWord, loadWord, getHighByte_combineBytes, getLowByte_combineBytes]
  -- the old byte of each cell overwrites the new one
  rw [Function.update_comm h, Function.update_idem,
    Function.update_comm h.symm, Function.update_idem,
    Function.update_eq_self, Function.update_eq_self]

end Host

namespace Cpu

variable {lower upper : ℕ} {address : Word}

/-! ### The helpers -/

theorem host_writeTwoBytes {c : Cpu ι δ} (h : c.buses.memoryBus.WordCells address lower upper)
    (value : Word) :
    (c.writeTwoBytes address value).buses.host = c.buses.host.storeWord lower upper value := by
  rw [Host.storeWord, ← MemoryBus.write_of_ramCell h.ramCell_next,
    ← MemoryBus.write_of_ramCell h.ramCell]
  rfl

theorem readTwoBytes_eq {c : Cpu ι δ} (h : c.buses.memoryBus.WordCells address lower upper) :
    c.readTwoBytes address = c.buses.host.loadWord lower upper := by
  rw [readTwoBytes, Buses.read, Buses.read, MemoryBus.read_of_ramCell h.ramCell_next,
    MemoryBus.read_of_ramCell h.ramCell, Host.loadWord]

theorem readNextTwoBytes_fst (c : Cpu ι δ) : c.readNextTwoBytes.1 = c.readTwoBytes c.pc := by
  rw [readNextTwoBytes_eq]
  rfl

variable [IOPort ι δ]

theorem host_push {b : Buses ι δ} {sp : Word} (h : b.memoryBus.WordCells (sp - 2) lower upper)
    (word : Word) : (b.performAll (Superfunction.pushEvents sp word)).host =
      b.host.storeWord lower upper word := by
  have haddress : sp - 2 + 1 = sp - 1 := by bv_omega
  have hupper := h.ramCell_next
  rw [haddress] at hupper
  -- the push writes the high byte first
  rw [Buses.host_performAll_pushEvents hupper h.ramCell, Host.storeWord,
    Function.update_comm h.distinct]

/-- A pushed word is read back while its two cells are unchanged. -/
theorem readTwoBytes_of_pushed {b : Buses ι δ} {sp word : Word}
    (h : b.memoryBus.WordCells (sp - 2) lower upper) {c : Cpu ι δ}
    (hbus : c.buses.memoryBus = b.memoryBus)
    (hl : c.buses.host lower = (b.performAll (Superfunction.pushEvents sp word)).host lower)
    (hu : c.buses.host upper = (b.performAll (Superfunction.pushEvents sp word)).host upper) :
    c.readTwoBytes (sp - 2) = word := by
  rw [readTwoBytes_eq (hbus ▸ h), Host.loadWord_congr hl hu, host_push h,
    Host.loadWord_storeWord _ h.distinct]

theorem host_store {b : Buses ι δ} (h : b.memoryBus.WordCells address lower upper) (word : Word) :
    (b.performAll (Superfunction.storeEvents address word)).host =
      b.host.storeWord lower upper word := by
  rw [Host.storeWord, ← MemoryBus.write_of_ramCell h.ramCell_next,
    ← MemoryBus.write_of_ramCell h.ramCell]
  rfl

/-! ### The instructions -/

section Instructions

variable {c d : Cpu ι δ}

theorem buses_cycle_push {p : BitVec 2} (h : c.cycleEvent = .exec (Instruction.push p).encode) :
    c.cycle.buses = c.buses.performAll (Superfunction.pushEvents c.sp
      (c.registers.getCombinedRegister (stackPair p))) := by
  rw [cycle_eq_superfunction_next h, Instruction.ofOpcode_encode]
  rfl

theorem registers_cycle_pop {p : BitVec 2} (h : c.cycleEvent = .exec (Instruction.pop p).encode) :
    c.cycle.registers = (c.registers.setCombinedRegister .sp (c.sp + 2)).setCombinedRegister
      (stackPair p) (c.readTwoBytes c.sp) := by
  rw [cycle_eq_superfunction_next h, Instruction.ofOpcode_encode]
  rfl

theorem buses_cycle_shld (h : c.cycleEvent = .exec 0x22) :
    c.cycle.buses = c.buses.performAll (Superfunction.storeEvents c.immediateWord c.hl) := by
  have hf : Superfunction.ofOpcode 0x22 = .shldA16 := Superfunction.ofOpcode_eq_decode _
  rw [cycle_eq_superfunction_next h, hf, Superfunction.next, Superfunction.footprint,
    operandWord_fetched]
  rfl

theorem hl_cycle_lhld (h : c.cycleEvent = .exec 0x2A) :
    c.cycle.hl = c.readTwoBytes c.immediateWord := by
  have hf : Superfunction.ofOpcode 0x2A = .lhldA16 := Superfunction.ofOpcode_eq_decode _
  rw [cycle_eq_superfunction_next h, hf, Superfunction.next, Superfunction.nextRegisters,
    operandWord_fetched, hl, Registers.getCombinedRegister_setCombinedRegister_self _ (by decide)]
  rfl

/-- What `XTHL` does: `HL` and the word at `SP` change places. -/
theorem cycle_of_xthl (h : c.cycleEvent = .exec 0xE3) :
    c.cycle.hl = c.readTwoBytes c.sp ∧ c.cycle.sp = c.sp ∧
      c.cycle.buses = c.buses.performAll (Superfunction.storeEvents c.sp c.hl) := by
  have hf : Superfunction.ofOpcode 0xE3 = .xthl := Superfunction.ofOpcode_eq_decode _
  rw [cycle_eq_superfunction_next h, hf]
  refine ⟨?_, ?_, rfl⟩
  · exact Registers.getCombinedRegister_setCombinedRegister_self _ (by decide) _
  · exact Registers.getCombinedRegister_setCombinedRegister_of_ne _ (by decide) _

/-- The table and the bytes of two cells are the same in both states. -/
structure KeepsWord (lower upper : ℕ) (c d : Cpu ι δ) : Prop where
  memoryBus : d.buses.memoryBus = c.buses.memoryBus
  lower : d.buses.host lower = c.buses.host lower
  upper : d.buses.host upper = c.buses.host upper

/-- Bus events leave two word cells in place. -/
theorem wordCells_performAll {address' : Word} {events : List (BusEvent ι)}
    (hbuses : d.buses = c.buses.performAll events) (haddress : address' = address)
    (h : c.buses.memoryBus.WordCells address lower upper) :
    d.buses.memoryBus.WordCells address' lower upper := by
  rw [hbuses, Buses.memoryBus_performAll, haddress]
  exact h

/-- The table is still the one of before the bus events of a cycle. -/
theorem KeepsWord.memoryBus_eq (h : c.cycle.KeepsWord lower upper d) {events : List (BusEvent ι)}
    (hbuses : c.cycle.buses = c.buses.performAll events) :
    d.buses.memoryBus = c.buses.memoryBus := by
  rw [h.memoryBus, hbuses, Buses.memoryBus_performAll]

theorem hl_cycle_lhld_of_shld (hc : c.cycleEvent = .exec 0x22) (hd : d.cycleEvent = .exec 0x2A)
    (haddress : d.immediateWord = c.immediateWord)
    (hcells : c.buses.memoryBus.WordCells c.immediateWord lower upper)
    (hkeeps : c.cycle.KeepsWord lower upper d) : d.cycle.hl = c.hl := by
  have hbuses := buses_cycle_shld hc
  have hbus := hkeeps.memoryBus_eq hbuses
  rw [hl_cycle_lhld hd, haddress, readTwoBytes_eq (hbus ▸ hcells),
    Host.loadWord_congr hkeeps.lower hkeeps.upper, hbuses, host_store hcells,
    Host.loadWord_storeWord _ hcells.distinct]

theorem cycle_of_xthl_xthl (hc : c.cycleEvent = .exec 0xE3) (hc' : c.cycle.cycleEvent = .exec 0xE3)
    (hcells : c.buses.memoryBus.WordCells c.sp lower upper) :
    c.cycle.cycle.hl = c.hl ∧ c.cycle.cycle.sp = c.sp ∧
      c.cycle.cycle.buses.host = c.buses.host := by
  obtain ⟨hhl, hsp, hbuses⟩ := cycle_of_xthl hc
  obtain ⟨hhl', hsp', hbuses'⟩ := cycle_of_xthl hc'
  have hcells' := wordCells_performAll hbuses hsp hcells
  have hhost : c.cycle.buses.host = c.buses.host.storeWord lower upper c.hl := by
    rw [hbuses, host_store hcells]
  refine ⟨?_, hsp'.trans hsp, ?_⟩
  · rw [hhl', readTwoBytes_eq hcells', hhost, Host.loadWord_storeWord _ hcells.distinct]
  · -- the second exchange stores the word the first one found
    rw [hbuses', host_store hcells', hhost, hhl, readTwoBytes_eq hcells,
      Host.storeWord_storeWord_loadWord _ hcells.distinct]

theorem cycle_of_push_xthl (hc : c.cycleEvent = .exec 0xE5) (hd : d.cycleEvent = .exec 0xE3)
    (hcells : c.buses.memoryBus.WordCells (c.sp - 2) lower upper) (hsp : d.sp = c.cycle.sp)
    (hkeeps : c.cycle.KeepsWord lower upper d) :
    d.cycle.hl = c.hl ∧ d.cycle.sp = d.sp ∧ d.cycle.readTwoBytes d.cycle.sp = d.hl := by
  have hpushed : c.pushedWord = some c.hl := by
    simp only [pushedWord, hc]
    rfl
  obtain ⟨hsp', hbuses⟩ := cycle_of_pushedWord hpushed
  obtain ⟨hhl, hspd, hbusesd⟩ := cycle_of_xthl hd
  have hbus := hkeeps.memoryBus_eq hbuses
  have hd' : d.sp = c.sp - 2 := hsp.trans hsp'
  have hcells' : d.buses.memoryBus.WordCells d.sp lower upper := by
    rw [hbus, hd']
    exact hcells
  refine ⟨?_, hspd, ?_⟩
  · have hlower := hkeeps.lower
    have hupper := hkeeps.upper
    rw [hbuses] at hlower hupper
    rw [hhl, hd', readTwoBytes_of_pushed hcells hbus hlower hupper]
  · have hcells'' := wordCells_performAll hbusesd hspd hcells'
    rw [readTwoBytes_eq hcells'', hbusesd, host_store hcells',
      Host.loadWord_storeWord _ hcells.distinct]

end Instructions

/-- **One format for words.** On two distinct RAM cells at an address and the next one, both
modulo 65536: `readTwoBytes` reads what `writeTwoBytes` wrote and no other byte changes,
`PUSH` leaves the memory `writeTwoBytes` leaves, and whatever the cells `POP` and
`readNextTwoBytes` read what `readTwoBytes` reads. So `LHLD` restores the `HL` that `SHLD`
stored, two `XTHL` cancel, and `XTHL` after `PUSH H` hands back the pushed word and leaves
`HL` in its place, as long as nothing writes to the two cells in between. -/
theorem words_little_endian (c : Cpu ι δ) :
    (∀ (address value : Word) (lower upper : ℕ),
      c.buses.memoryBus.WordCells address lower upper →
        (c.writeTwoBytes address value).readTwoBytes address = value ∧
          ∀ byte, byte ≠ lower → byte ≠ upper →
            (c.writeTwoBytes address value).buses.host byte = c.buses.host byte) ∧
    (∀ (p : BitVec 2) (lower upper : ℕ), c.cycleEvent = .exec (Instruction.push p).encode →
      c.buses.memoryBus.WordCells (c.sp - 2) lower upper → c.cycle.buses.host =
        (c.writeTwoBytes (c.sp - 2)
          (c.registers.getCombinedRegister (stackPair p))).buses.host) ∧
    (∀ p : BitVec 2, c.cycleEvent = .exec (Instruction.pop p).encode → c.cycle.registers =
      (c.registers.setCombinedRegister .sp (c.sp + 2)).setCombinedRegister (stackPair p)
        (c.readTwoBytes c.sp)) ∧
    (∀ address : Word, ({ c with pc := address } : Cpu ι δ).readNextTwoBytes.1 =
      c.readTwoBytes address) ∧
    (∀ (d : Cpu ι δ) (lower upper : ℕ), c.cycleEvent = .exec 0x22 → d.cycleEvent = .exec 0x2A →
      d.immediateWord = c.immediateWord →
      c.buses.memoryBus.WordCells c.immediateWord lower upper →
      c.cycle.KeepsWord lower upper d → d.cycle.hl = c.hl) ∧
    (∀ lower upper : ℕ, c.cycleEvent = .exec 0xE3 → c.cycle.cycleEvent = .exec 0xE3 →
      c.buses.memoryBus.WordCells c.sp lower upper →
        c.cycle.cycle.hl = c.hl ∧ c.cycle.cycle.sp = c.sp ∧
          c.cycle.cycle.buses.host = c.buses.host) ∧
    (∀ (d : Cpu ι δ) (lower upper : ℕ), c.cycleEvent = .exec 0xE5 → d.cycleEvent = .exec 0xE3 →
      c.buses.memoryBus.WordCells (c.sp - 2) lower upper → d.sp = c.cycle.sp →
      c.cycle.KeepsWord lower upper d →
        d.cycle.hl = c.hl ∧ d.cycle.sp = d.sp ∧ d.cycle.readTwoBytes d.cycle.sp = d.hl) := by
  refine ⟨fun address value lower upper hcells => ⟨?_, fun byte hlower hupper => ?_⟩,
    fun p lower upper h hcells => ?_, fun p => registers_cycle_pop, fun address => ?_,
    fun d lower upper => hl_cycle_lhld_of_shld, fun lower upper => cycle_of_xthl_xthl,
    fun d lower upper => cycle_of_push_xthl⟩
  · have hcells' : (c.writeTwoBytes address value).buses.memoryBus.WordCells address lower upper :=
      hcells
    rw [readTwoBytes_eq hcells', host_writeTwoBytes hcells,
      Host.loadWord_storeWord _ hcells.distinct]
  · rw [host_writeTwoBytes hcells, Host.storeWord_of_ne _ hlower hupper]
  · rw [buses_cycle_push h, host_push hcells, host_writeTwoBytes hcells]
  · exact readNextTwoBytes_fst _

/-- A word at the top address has its high byte at address 0. -/
theorem words_little_endian_wrap :
    ((Cpu.new (Buses.fullRam fun _ => 0)).writeTwoBytes 0xFFFF 0x1234).readTwoBytes 0xFFFF =
      0x1234 :=
  ((words_little_endian (Cpu.new (Buses.fullRam fun _ => 0))).1 0xFFFF 0x1234 65535 0
    ⟨by decide, by decide, by decide⟩).1

end Cpu

end Fake8080
