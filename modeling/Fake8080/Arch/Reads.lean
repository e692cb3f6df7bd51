import Fake8080.Arch.Execution

/-!
# What a run reads is all that matters

`Op.reads` lists the addresses an instruction reads besides its opcode, and `State.reads`
those a call reads. Contents of memory that a run never reads have no influence on it
(`Cpu.unread_memory`): whatever they are, the calls do the same, and at the end each such byte
is either what it was before or was overwritten, with the same value.
-/

namespace Fake8080

universe u v

variable {ι : Type u} {δ : Type v}

namespace Arch

/-! ### The addresses read -/

/-- The address an operand is read at, if it is in memory. -/
def State.operandReads (s : State δ) : Operand → List Word
  | .reg _ => []
  | .memory => [s.pair .hl]

/-- The addresses an instruction reads, from a state whose `pc` is past the opcode. A
conditional jump or call reads its operand whether or not it is taken. -/
def Op.reads (s : State δ) : Op → List Word
  | mov _ source => s.operandReads source
  | alu _ source => s.operandReads source
  | inr destination => s.operandReads destination
  | dcr destination => s.operandReads destination
  | mvi _ | aluImmediate _ | input | output => [s.pc]
  | lxi _ | sta | shld | jmp _ | call _ => [s.pc, s.pc + 1]
  | ldax p => [s.pair p]
  | lda => [s.pc, s.pc + 1, s.word s.pc]
  | lhld => [s.pc, s.pc + 1, s.word s.pc, s.word s.pc + 1]
  | pop _ | xthl => [s.sp, s.sp + 1]
  | ret condition => if s.holds condition then [s.sp, s.sp + 1] else []
  | _ => []

/-- The addresses an event reads. -/
def State.reads (s : State δ) : Event → List Word
  | .exec opcode => s.pc :: (Op.decode opcode).reads s.fetched
  | _ => []

/-! ### Instructions -/

section Instructions

variable (s : State δ) {memory : Word → Byte}

/-- The state with another memory. -/
def State.withMemory (s : State δ) (memory : Word → Byte) : State δ := { s with memory := memory }

theorem immediate_withMemory (h : ∀ x ∈ [s.pc], memory x = s.memory x) :
    (s.withMemory memory).immediate = s.immediate := h s.pc (List.mem_singleton_self _)

theorem word_withMemory {address : Word} (h : ∀ x ∈ [address, address + 1], memory x = s.memory x) :
    (s.withMemory memory).word address = s.word address := by
  have hlow := h address (by simp)
  have hhigh := h (address + 1) (by simp)
  exact congrArg₂ combineBytes hhigh hlow

theorem operand_withMemory (x : Operand) (h : ∀ y ∈ s.operandReads x, memory y = s.memory y) :
    (s.withMemory memory).operand x = s.operand x := by
  cases x with
  | reg r => rfl
  | memory => exact h _ (List.mem_singleton_self _)

theorem Op.stores_withMemory (op : Op) (h : ∀ x ∈ op.reads s, memory x = s.memory x) :
    op.stores (s.withMemory memory) = op.stores s := by
  cases op with
  | mov destination source =>
    have hoperand := operand_withMemory s source h
    cases destination <;> simp only [stores, hoperand] <;> rfl
  | mvi destination =>
    have himmediate := immediate_withMemory s h
    cases destination <;> simp only [stores, himmediate] <;> rfl
  | inr destination =>
    have hoperand := operand_withMemory s destination h
    cases destination <;> simp only [stores, hoperand] <;> rfl
  | dcr destination =>
    have hoperand := operand_withMemory s destination h
    cases destination <;> simp only [stores, hoperand] <;> rfl
  | sta =>
    have hword := word_withMemory s h
    change [((s.withMemory memory).word s.pc, _)] = _
    rw [hword]
    rfl
  | shld =>
    have hword := word_withMemory s h
    change [((s.withMemory memory).word s.pc, _), ((s.withMemory memory).word s.pc + 1, _)] = _
    rw [hword]
    rfl
  | _ => rfl

theorem Op.deviceCall_withMemory (env : Environment ι) (op : Op)
    (h : ∀ x ∈ op.reads s, memory x = s.memory x) :
    op.deviceCall env (s.withMemory memory) = op.deviceCall env s := by
  cases op with
  | input =>
    have himmediate := immediate_withMemory s h
    simp only [deviceCall, himmediate]
  | output =>
    have himmediate := immediate_withMemory s h
    simp only [deviceCall, himmediate]
    rfl
  | _ => rfl

/-- What an instruction does depends on what it reads only. -/
theorem Op.operate_withMemory [IOPort ι δ] (env : Environment ι) (op : Op)
    (h : ∀ x ∈ op.reads s, memory x = s.memory x) :
    op.operate env (s.withMemory memory) = (op.operate env s).withMemory memory := by
  have hsub : ∀ {address} {rest : List Word}, (∀ x ∈ address :: (address + 1) :: rest,
      memory x = s.memory x) → (s.withMemory memory).word address = s.word address := by
    intro address rest h
    refine word_withMemory s fun x hx => h x ?_
    simp only [List.mem_cons, List.not_mem_nil, or_false] at hx
    simp only [List.mem_cons]
    tauto
  cases op with
  | mov destination source =>
    simp only [operate, operand_withMemory s source h]
    rfl
  | mvi destination =>
    have himmediate := immediate_withMemory s h
    simp only [operate, himmediate]
    rfl
  | alu operation source =>
    simp only [operate, operand_withMemory s source h]
    rfl
  | aluImmediate operation =>
    have himmediate := immediate_withMemory s h
    simp only [operate, himmediate]
    rfl
  | inr destination =>
    simp only [operate, operand_withMemory s destination h]
    rfl
  | dcr destination =>
    simp only [operate, operand_withMemory s destination h]
    rfl
  | lxi p =>
    have hword : (s.withMemory memory).word (s.withMemory memory).pc = s.word s.pc := hsub h
    simp only [operate, hword]
    rfl
  | ldax p =>
    have hread : (s.withMemory memory).memory ((s.withMemory memory).pair p) =
        s.memory (s.pair p) := h (s.pair p) (List.mem_singleton_self _)
    simp only [operate, hread]
    rfl
  | lda =>
    have hword : (s.withMemory memory).word (s.withMemory memory).pc = s.word s.pc := hsub h
    have hread : (s.withMemory memory).memory (s.word s.pc) = s.memory (s.word s.pc) :=
      h (s.word s.pc) (by simp [reads])
    simp only [operate, hword, hread]
    rfl
  | lhld =>
    have hword : (s.withMemory memory).word (s.withMemory memory).pc = s.word s.pc := hsub h
    have hvalue : (s.withMemory memory).word (s.word s.pc) = s.word (s.word s.pc) :=
      word_withMemory s fun x hx => h x (by simp only [reads]; simp at hx ⊢; tauto)
    simp only [operate, hword, hvalue]
    rfl
  | pop p =>
    have hword : (s.withMemory memory).word (s.withMemory memory).sp = s.word s.sp := hsub h
    simp only [operate, hword]
    rfl
  | xthl =>
    have hword : (s.withMemory memory).word (s.withMemory memory).sp = s.word s.sp := hsub h
    simp only [operate, hword]
    rfl
  | jmp condition =>
    have hword : (s.withMemory memory).word (s.withMemory memory).pc = s.word s.pc := hsub h
    simp only [operate, hword]
    rfl
  | call condition =>
    have hword : (s.withMemory memory).word (s.withMemory memory).pc = s.word s.pc := hsub h
    have hholds : (s.withMemory memory).holds condition = s.holds condition := rfl
    simp only [operate, hword, hholds]
    split <;> rfl
  | ret condition =>
    have hholds : (s.withMemory memory).holds condition = s.holds condition := rfl
    simp only [operate, hholds]
    by_cases hcondition : s.holds condition = true
    · have hword : (s.withMemory memory).word (s.withMemory memory).sp = s.word s.sp := by
        rw [reads, if_pos hcondition] at h
        exact hsub h
      rw [if_pos hcondition, if_pos hcondition, hword]
      rfl
    · rw [if_neg hcondition, if_neg hcondition]
  | input =>
    have himmediate := immediate_withMemory s h
    simp only [operate, himmediate]
    split <;> rfl
  | output =>
    have himmediate := immediate_withMemory s h
    simp only [operate, himmediate]
    split <;> rfl
  | _ => rfl

end Instructions

/-! ### Runs -/

/-- The states differ at most in bytes at certain addresses, where they have what they had. -/
structure DiffersAt (unread : Word → Prop) (memory memory' : Word → Byte) (s t : State δ) :
    Prop where
  /-- They differ in memory only. -/
  same : t = s.withMemory t.memory
  /-- A byte that differs is at one of the addresses and was not overwritten. -/
  byte : ∀ address, s.memory address = t.memory address ∨
    unread address ∧ s.memory address = memory address ∧ t.memory address = memory' address

section Runs

variable [IOPort ι δ] (env : Environment ι) {unread : Word → Prop}
  {memory memory' : Word → Byte} {s t : State δ}

omit [IOPort ι δ] in
theorem cycleEvent_withMemory (s : State δ)
    (h : ∀ x ∈ s.reads s.cycleEvent, memory x = s.memory x) :
    (s.withMemory memory).cycleEvent = s.cycleEvent := by
  by_cases haccept : (s.pending.isSome && (s.enableRequested || s.enabled)) = true
  · exact (if_pos haccept).trans (if_pos haccept).symm
  · by_cases hhalted : s.halted = true
    · exact ((if_neg haccept).trans (if_pos hhalted)).trans
        ((if_neg haccept).trans (if_pos hhalted)).symm
    · have hexec : s.cycleEvent = .exec (s.memory s.pc) :=
        (if_neg haccept).trans (if_neg hhalted)
      rw [hexec] at h ⊢
      refine ((if_neg haccept).trans (if_neg hhalted)).trans (congrArg Event.exec ?_)
      exact h s.pc List.mem_cons_self

omit [IOPort ι δ] in
/-- What a call does depends on what it reads only. -/
theorem event_withMemory (s : State δ) (a : Action)
    (h : ∀ x ∈ s.reads (s.event a), memory x = s.memory x) :
    (s.withMemory memory).event a = s.event a := by
  cases a with
  | cycle => exact cycleEvent_withMemory s h
  | requestInterrupt interruptNum => rfl
  | reset => rfl

omit [IOPort ι δ] in
/-- The same stores keep the states apart as they were. -/
theorem DiffersAt.store (h : DiffersAt unread memory memory' s t) (stores : List (Word × Byte))
    (address : Word) :
    env.store s.memory stores address = env.store t.memory stores address ∨
      unread address ∧ env.store s.memory stores address = memory address ∧
        env.store t.memory stores address = memory' address := by
  rcases AliasedStore.foldl_writeView_cases (fun a b => env.affects a b) s.memory t.memory stores
    address with heq | ⟨hs, ht⟩
  · exact .inl heq
  · rcases h.byte address with heq | ⟨hunread, hs', ht'⟩
    · exact .inl (hs.trans (heq.trans ht.symm))
    · exact .inr ⟨hunread, hs.trans hs', ht.trans ht'⟩

omit [IOPort ι δ] in
theorem DiffersAt.read (h : DiffersAt unread memory memory' s t) {address : Word}
    (hread : ¬ unread address) : t.memory address = s.memory address :=
  ((h.byte address).resolve_right fun hbyte => hread hbyte.1).symm

/-- States that differ where a call does not read stay so, and the call does the same. -/
theorem DiffersAt.step (h : DiffersAt unread memory memory' s t) {a : Action}
    (hreads : ∀ x ∈ s.reads (s.event a), ¬ unread x) :
    (machine env).event s a = (machine env).event t a ∧
      DiffersAt unread memory memory' ((machine env).step s a) ((machine env).step t a) := by
  have hread : ∀ x ∈ s.reads (s.event a), t.memory x = s.memory x :=
    fun x hx => h.read (hreads x hx)
  have hsame := h.same
  have hevent : t.event a = s.event a := by
    rw [hsame]
    exact event_withMemory s a hread
  change (s.event a, s.stepCalls env (s.event a)) = (t.event a, t.stepCalls env (t.event a)) ∧
    DiffersAt unread memory memory' (s.next env (s.event a)) (t.next env (t.event a))
  rw [hevent]
  generalize s.event a = e at hread
  cases e with
  | accept =>
    refine ⟨by rw [hsame]; rfl, ⟨?_, fun address => ?_⟩⟩
    · rw [hsame]
      rfl
    · have hpushed : t.pushed t.pc = s.pushed s.pc := by rw [hsame]; rfl
      change env.store s.memory _ address = env.store t.memory _ address ∨ _ ∧
        env.store s.memory _ address = _ ∧ env.store t.memory _ address = _
      rw [hpushed]
      exact h.store env _ address
  | exec opcode =>
    have hfetched : t.fetched = s.fetched.withMemory t.memory := by
      conv_lhs => rw [hsame]
      rfl
    have hop : ∀ x ∈ (Op.decode opcode).reads s.fetched, t.memory x = s.fetched.memory x :=
      fun x hx => hread x (List.mem_cons_of_mem _ hx)
    have hstores := Op.stores_withMemory s.fetched _ hop
    have hcall := Op.deviceCall_withMemory s.fetched env _ hop
    have hoperate := Op.operate_withMemory s.fetched env _ hop
    rw [← hfetched] at hstores hcall hoperate
    refine ⟨?_, ⟨?_, fun address => ?_⟩⟩
    · simp only [State.stepCalls, hstores, hcall]
    · simp only [State.next, hoperate, hstores]
      rfl
    · change env.store s.memory _ address = env.store t.memory _ address ∨ _ ∧
        env.store s.memory _ address = _ ∧ env.store t.memory _ address = _
      rw [hstores]
      exact h.store env _ address
  | idle => exact ⟨rfl, ⟨by rw [hsame]; rfl, h.byte⟩⟩
  | request interruptNum => exact ⟨rfl, ⟨by rw [hsame]; rfl, h.byte⟩⟩
  | reset => exact ⟨rfl, ⟨by rw [hsame]; rfl, h.byte⟩⟩

end Runs

end Arch

namespace Cpu

variable [IOPort ι δ]

/-- **What a run does not read does not matter.** Let two CPUs look the same but for the bytes
at certain addresses, and let a run of the first never read those addresses. Then the same run
of the second does the same, call by call; at the end they look the same again but for bytes at
those addresses, and each byte that differs is what it was at the start. -/
theorem unread_memory (unread : Word → Prop) {c d : Cpu ι δ}
    (henvironment : c.buses.environment = d.buses.environment)
    (hsame : d.arch = { c.arch with memory := d.buses.read })
    (hbytes : ∀ address, ¬ unread address → c.buses.read address = d.buses.read address)
    {actions : List Action}
    (hreads : observed.Along (fun c a => ∀ x ∈ c.arch.reads (system.event c a), ¬ unread x) c
      actions) :
    let c' := system.after c actions
    let d' := system.after d actions
    observed.history c actions = observed.history d actions ∧
    d'.arch = { c'.arch with memory := d'.buses.read } ∧
    ∀ address, c'.buses.read address = d'.buses.read address ∨
      unread address ∧ c'.buses.read address = c.buses.read address ∧
        d'.buses.read address = d.buses.read address := by
  have hinitial : Arch.DiffersAt unread c.buses.read d.buses.read c.arch d.arch := by
    refine ⟨hsame, fun address => ?_⟩
    by_cases h : unread address
    · exact .inr ⟨h, rfl, rfl⟩
    · exact .inl (hbytes address h)
  have hsimulation : (observed (ι := ι) (δ := δ)).Simulation observed
      (fun c a => ∀ x ∈ c.arch.reads (system.event c a), ¬ unread x) (fun _ _ => True)
      fun c' d' => Arch.DiffersAt unread c.buses.read d.buses.read c'.arch d'.arch ∧
        c'.buses.environment = d'.buses.environment :=
    simulation_of_arch id id (fun _ s e => ∀ x ∈ s.reads e, ¬ unread x) (Arch.DiffersAt unread _ _)
      fun env {_ _ _} h hrule => h.step env hrule
  have hany : observed.Along (fun _ _ => True) d actions :=
    Reactive.along_of_forall (fun _ _ => trivial) d actions
  obtain ⟨hafter, -⟩ := hsimulation.after ⟨hinitial, henvironment⟩ hreads hany
  exact ⟨hsimulation.history ⟨hinitial, henvironment⟩ hreads hany, hafter.same, hafter.byte⟩

/-- `LDA 10H` and `STA 100H`, with the same byte at all addresses from `0x100` on. -/
def unreadProgram (byte : Byte) : Cpu Empty Unit :=
  Cpu.new (Buses.fullRam fun a =>
    if a < 256 then [0x3A, 0x10, 0x00, 0x32, 0x00, 0x01].getD a 0x77 else byte)

/-- Two cycles read their operands and the byte at `0x10`, and store it at `0x100`. They do the
same whatever stands from `0x100` on, and the byte stored is the same afterwards. -/
theorem unreadProgram_stores :
    let c := system.after (unreadProgram 1) [.cycle, .cycle]
    let d := system.after (unreadProgram 2) [.cycle, .cycle]
    observed.history (unreadProgram 1) [.cycle, .cycle] =
        observed.history (unreadProgram 2) [.cycle, .cycle] ∧
      d.arch = { c.arch with memory := d.buses.read } ∧
      c.buses.read 0x100 = d.buses.read 0x100 := by
  intro c d
  have hbytes : ∀ address : Word, ¬ 0x100 ≤ address →
      (unreadProgram 1).buses.read address = (unreadProgram 2).buses.read address := by
    intro address h
    have hlt : address.toNat < 256 := by bv_omega
    change MemoryBus.flat.read _ address = MemoryBus.flat.read _ address
    rw [MemoryBus.read_flat, MemoryBus.read_flat]
    exact (if_pos hlt).trans (if_pos hlt).symm
  have hlda : (unreadProgram 1).arch.reads (system.event (unreadProgram 1) .cycle) =
      [0, 1, 2, 0x10] := by
    have hevent : system.event (unreadProgram 1) .cycle = .exec 0x3A := by decide +kernel
    have hop : Arch.Op.decode 0x3A = .lda := by decide
    rw [hevent, Arch.State.reads, hop, Arch.Op.reads]
    decide +kernel
  let first := system.step (unreadProgram 1) .cycle
  have hsta : first.arch.reads (system.event first .cycle) = [3, 4, 5] := by
    have hevent : system.event first .cycle = .exec 0x32 := by decide +kernel
    have hop : Arch.Op.decode 0x32 = .sta := by decide
    rw [hevent, Arch.State.reads, hop, Arch.Op.reads]
    decide +kernel
  have hreads : observed.Along
      (fun c a => ∀ x ∈ c.arch.reads (system.event c a), ¬ 0x100 ≤ x)
      (unreadProgram 1) [.cycle, .cycle] := by
    have hfirst : ∀ x ∈ (unreadProgram 1).arch.reads (system.event (unreadProgram 1) .cycle),
        ¬ 0x100 ≤ x := by
      rw [hlda]
      simp
    have hsecond : ∀ x ∈ first.arch.reads (system.event first .cycle), ¬ 0x100 ≤ x := by
      rw [hsta]
      simp
    exact ⟨hfirst, hsecond, trivial⟩
  obtain ⟨hhistory, hsame, hstored⟩ :=
    unread_memory (0x100 ≤ ·) (c := unreadProgram 1) (d := unreadProgram 2) rfl rfl hbytes hreads
  refine ⟨hhistory, hsame, (hstored 0x100).resolve_right fun h => ?_⟩
  -- the byte is not what it was
  have hchanged : c.buses.read 0x100 ≠ (unreadProgram 1).buses.read 0x100 := by decide +kernel
  exact hchanged h.2.1

end Cpu

end Fake8080
