import Chip8.Proofs.Events

/-! # What writes to memory

Memory is written to by three events only: a program is loaded, the decimal digits of a register are
stored, or a block of registers is. Every byte of memory is the one that was written there last, or
as it was at first.
-/
namespace Chip8

/-- An address, and the byte that is written there. -/
abbrev Write := Nat × UInt8

/-- The byte that some writes, the last of which counts, leave at an address. -/
def lastWritten? (address : Nat) (writes : List Write) : Option UInt8 :=
  writes.reverse.lookup address

theorem lastWritten?_cons (address : Nat) (w : Write) (rest : List Write) :
    lastWritten? address (w :: rest) =
      (lastWritten? address rest).or (if address = w.1 then some w.2 else none) := by
  rcases w with ⟨written, byte⟩
  simp only [lastWritten?, List.reverse_cons, List.lookup_append, List.lookup_cons, List.lookup_nil]
  by_cases h : address = written
  · simp [h]
  · simp [h, beq_eq_false_iff_ne.2 h]

/-- The writes of bytes to consecutive addresses, which wrap around the memory. -/
def writesFrom (address : Nat) (bytes : List UInt8) : List Write :=
  bytes.mapIdx fun i byte => ((address + i) % 4096, byte)

theorem writesFrom_cons (address : Nat) (byte : UInt8) (rest : List UInt8) :
    writesFrom address (byte :: rest) =
      (address % 4096, byte) :: writesFrom (address + 1) rest := by
  simp [writesFrom, List.mapIdx_cons, Nat.add_assoc, Nat.add_comm 1]

theorem lt_of_mem_writesFrom {address : Nat} {bytes : List UInt8} {w : Write}
    (h : w ∈ writesFrom address bytes) : w.1 < 4096 := by
  obtain ⟨i, hi, rfl⟩ := List.mem_mapIdx.1 h
  exact Nat.mod_lt _ (by decide)

theorem writesFrom_eq_map (address : Nat) (bytes : List UInt8) :
    writesFrom address bytes =
      (List.range bytes.length).map fun i => ((address + i) % 4096, bytes.getD i 0) := by
  apply List.ext_getElem
  · simp [writesFrom]
  · intro i hi _
    have hlt : i < bytes.length := by simpa [writesFrom] using hi
    simp [writesFrom, hlt]

namespace Memory

def apply (m : Memory) (writes : List Write) : Memory :=
  writes.foldl (fun m w => m.write w.1 w.2) m

theorem apply_append (m : Memory) (first second : List Write) :
    m.apply (first ++ second) = (m.apply first).apply second := List.foldl_append

theorem writeAll_eq_apply (m : Memory) (address : Nat) (bytes : List UInt8) :
    m.writeAll address bytes = m.apply (writesFrom address bytes) := by
  induction bytes generalizing m address with
  | nil => rfl
  | cons byte rest ih =>
    rw [writeAll, ih, writesFrom_cons, ← write_mod]
    rfl

theorem read_apply {writes : List Write} (h : ∀ w ∈ writes, w.1 < 4096) (m : Memory) {address : Nat}
    (ha : address < 4096) :
    (m.apply writes).read address = (lastWritten? address writes).getD (m.read address) := by
  induction writes generalizing m with
  | nil => rfl
  | cons w rest ih =>
    obtain ⟨hw, hrest⟩ := List.forall_mem_cons.1 h
    have hstep : m.apply (w :: rest) = (m.write w.1 w.2).apply rest := rfl
    rw [hstep, ih hrest, lastWritten?_cons]
    cases lastWritten? address rest with
    | some byte => rfl
    | none =>
      by_cases heq : address = w.1
      · subst heq
        simp
      · have hne : w.1 % 4096 ≠ address % 4096 := by omega
        simp [heq, read_write_of_ne m w.2 hne]

theorem read_writeAll (m : Memory) {start address : Nat} {bytes : List UInt8}
    (h : start + bytes.length ≤ 4096) (ha : address < 4096) :
    (m.writeAll start bytes).read address =
      if start ≤ address then bytes[address - start]?.getD (m.read address)
      else m.read address := by
  induction bytes generalizing m start with
  | nil => simp [writeAll]
  | cons byte rest ih =>
    rw [List.length_cons] at h
    rw [writeAll, ih _ (by omega)]
    rcases Nat.lt_trichotomy address start with hlt | rfl | hgt
    · have hne : start % 4096 ≠ address % 4096 := by omega
      rw [if_neg (by omega), if_neg (by omega), read_write_of_ne m byte hne]
    · rw [if_neg (by omega), if_pos (Nat.le_refl address), Nat.sub_self, read_write_self]
      rfl
    · have hne : start % 4096 ≠ address % 4096 := by omega
      obtain ⟨i, rfl⟩ := Nat.exists_eq_add_of_lt hgt
      have hindex : start + i + 1 - start = i + 1 := by omega
      have hindex' : start + i + 1 - (start + 1) = i := by omega
      rw [if_pos (by omega), if_pos (by omega), hindex, hindex', read_write_of_ne m byte hne]
      rfl

theorem read_zero (address : Nat) : zero.read address = 0 := by
  simp [read, zero]

theorem read_initial {address : Nat} (ha : address < 4096) :
    initial.read address =
      if 0x50 ≤ address ∧ address < 0xA0 then font.getD (address - 0x50) 0 else 0 := by
  have hlength : font.length = 0xA0 - 0x50 := rfl
  have hread : (zero.writeAll fontStart font).read address = if fontStart ≤ address then
      font[address - fontStart]?.getD (zero.read address) else zero.read address :=
    zero.read_writeAll (by decide) ha
  rw [read_zero] at hread
  rw [initial, hread, fontStart]
  by_cases hstart : 0x50 ≤ address
  · by_cases hend : address < 0xA0
    · rw [if_pos hstart, if_pos ⟨hstart, hend⟩, List.getD_eq_getElem?_getD]
    · have hnone : font[address - 0x50]? = none := List.getElem?_eq_none (by omega)
      rw [if_pos hstart, if_neg (fun h => hend h.2), hnone]
      rfl
  · rw [if_neg hstart, if_neg (fun h => hstart h.1)]

end Memory

namespace Cpu

/-- The bytes that an instruction stores from the address in `I` on. -/
def stored (c : Cpu) : Instruction → List UInt8
  | .storeDecimal x => decimalDigits (c.register x)
  | .storeRegisters last => c.block last
  | _ => []

theorem memory_pastBlock (c : Cpu) (legacy : Bool) (last : Register) :
    (c.pastBlock legacy last).memory = c.memory := by
  cases legacy <;> rfl

theorem memory_setBlock (c : Cpu) (bytes : List UInt8) : (c.setBlock bytes).memory = c.memory := by
  unfold setBlock
  rfl

theorem length_block (c : Cpu) (last : Register) : (c.block last).length = last.val + 1 := by
  rw [block, List.length_take, Vector.length_toList]
  exact Nat.min_eq_left last.isLt

theorem getElem?_block (c : Cpu) {last r : Register} (h : r ≤ last) :
    (c.block last)[r.val]? = some (c.register r) := by
  rw [block, List.getElem?_take_of_lt (Nat.lt_succ_of_le h), Vector.getElem?_toList]
  exact Vector.getElem?_eq_getElem r.isLt

end Cpu

/-- What an event writes to memory. -/
def Event.writes : Event → List Write
  | .executes m => writesFrom m.cpu.index.toNat (m.cpu.stored m.nextInstruction)
  | .loads program => writesFrom programStart (program.take (memorySize - programStart))

namespace Machine

def writes (m : Machine) (session : List Operation) : List Write :=
  (m.events session).flatMap Event.writes

theorem memory_execute (m : Machine) (pc : UInt16) (i : Instruction) :
    (m.execute pc i).machine.cpu.memory =
      m.cpu.memory.writeAll m.cpu.index.toNat (m.cpu.stored i) := by
  cases i with
  | ret =>
    simp only [execute]
    split <;> rfl
  | call address =>
    simp only [execute, Cpu.push?]
    split
    · rfl
    · rename_i hp
      split at hp
      · cases hp
        rfl
      · cases hp
  | arithmetic op x y => cases op <;> rfl
  | skip condition =>
    simp only [execute, effect, mapCpu, Cpu.skipIf]
    split <;> rfl
  | storeRegisters last =>
    exact (m.cpu.store (m.cpu.block last)).memory_pastBlock m.settings.legacyMemory last
  | loadRegisters last =>
    have hblock := m.cpu.memory_setBlock (m.cpu.bytesAtIndex (last.val + 1))
    exact (Cpu.memory_pastBlock _ m.settings.legacyMemory last).trans hblock
  | _ => rfl

theorem memory_executeNext (m : Machine) :
    m.executeNext.state.cpu.memory = m.cpu.memory.apply (Event.executes m).writes := by
  have hexecute := (m.mapCpu Cpu.advance).memory_execute m.cpu.pc m.nextInstruction
  rw [Event.writes, ← Memory.writeAll_eq_apply]
  cases hr : m.nextEffect.result with
  | error e =>
    have hsame : m.nextEffect.machine = m.mapCpu Cpu.advance := execute_of_error hr
    rw [(executeNext_of_error hr).2]
    exact (congrArg (·.cpu.memory) hsame).symm.trans hexecute
  | ok p =>
    rw [(executeNext_of_ok hr).2]
    exact hexecute

theorem memory_aside {m n : Machine} (h : Aside m n) : n.cpu.memory = m.cpu.memory := by
  cases h with
  | press key =>
    cases hx : m.awaiting with
    | none => rw [pressKey_of_running hx]
    | some x =>
      rw [pressKey_of_awaiting hx]
      rfl
  | _ => rfl

theorem Course.memory {m n : Machine} {events : List Event} (h : Course m events n) :
    n.cpu.memory = m.cpu.memory.apply (events.flatMap Event.writes) := by
  induction h with
  | refl m => rfl
  | executes hrun _ ih =>
    rw [ih, memory_executeNext, List.flatMap_cons, Memory.apply_append]
  | @loads m n events program _ ih =>
    have hload : (m.loadProgram program).cpu.memory =
        m.cpu.memory.apply (Event.loads program).writes :=
      m.cpu.memory.writeAll_eq_apply programStart _
    rw [ih, hload, List.flatMap_cons, Memory.apply_append]
  | aside ha _ ih => rw [ih, memory_aside ha]

theorem lt_of_mem_writes {m : Machine} {session : List Operation} {w : Write}
    (h : w ∈ m.writes session) : w.1 < 4096 := by
  obtain ⟨event, -, hw⟩ := List.mem_flatMap.1 h
  cases event with
  | executes b => exact lt_of_mem_writesFrom hw
  | loads program => exact lt_of_mem_writesFrom hw

end Machine

theorem Event.writes_loads (program : List UInt8) :
    (Event.loads program).writes =
      (List.range (min program.length 3584)).map fun i => (0x200 + i, program.getD i 0) := by
  have hsize : memorySize - programStart = 3584 := rfl
  rw [writes, hsize, writesFrom_eq_map, List.length_take, Nat.min_comm, programStart]
  apply List.map_congr_left
  intro i hi
  have hlt : i < 3584 := by
    have := List.mem_range.1 hi
    omega
  have haddress : (0x200 + i) % 4096 = 0x200 + i := Nat.mod_eq_of_lt (by omega)
  simp [haddress, hlt]

namespace Machine
variable {b : Machine} {x : Register}

theorem writes_storeDecimal (h : b.nextInstruction = .storeDecimal x) :
    ∃ d₀ d₁ d₂ : UInt8,
      (Event.executes b).writes =
        [(b.cpu.index.toNat % 4096, d₀), ((b.cpu.index.toNat + 1) % 4096, d₁),
          ((b.cpu.index.toNat + 2) % 4096, d₂)] ∧
      d₀ ≤ 9 ∧ d₁ ≤ 9 ∧ d₂ ≤ 9 ∧
      100 * d₀.toNat + 10 * d₁.toNat + d₂.toNat = (b.cpu.register x).toNat := by
  have hlt := (b.cpu.register x).toNat_lt
  refine ⟨_, _, _, by rw [Event.writes, h]; rfl, ?_, ?_, ?_, ?_⟩
  all_goals
    simp only [UInt8.le_iff_toNat_le, UInt8.toNat_div, UInt8.toNat_mod, UInt8.reduceToNat]
    omega

theorem writes_storeRegisters (h : b.nextInstruction = .storeRegisters x) :
    (Event.executes b).writes = (List.range (x.val + 1)).map fun i =>
      ((b.cpu.index.toNat + i) % 4096, b.cpu.registerAt i) := by
  have hx := x.isLt
  have hwrites : (Event.executes b).writes =
      writesFrom b.cpu.index.toNat (b.cpu.block x) := by rw [Event.writes, h]; rfl
  rw [hwrites, writesFrom_eq_map, b.cpu.length_block]
  apply List.map_congr_left
  intro i hi
  have hlt := List.mem_range.1 hi
  have hval : (Nibble.ofNat i).val = i := Nat.mod_eq_of_lt (by omega)
  have hle : Nibble.ofNat i ≤ x := Fin.le_def.2 (by omega)
  have hbyte := b.cpu.getElem?_block hle
  rw [hval] at hbyte
  rw [List.getD_eq_getElem?_getD, hbyte]
  rfl

theorem writes_other (hd : ∀ x, b.nextInstruction ≠ .storeDecimal x)
    (hr : ∀ x, b.nextInstruction ≠ .storeRegisters x) : (Event.executes b).writes = [] := by
  rw [Event.writes]
  generalize b.nextInstruction = i at hd hr
  cases i with
  | storeDecimal x => exact absurd rfl (hd x)
  | storeRegisters x => exact absurd rfl (hr x)
  | _ => rfl

/-- Every byte of memory is the one that was written there last, or as it was before, which is the
font or zero in a new machine. Programs that are loaded, as far as they fit, and the instructions
that store decimal digits and register blocks write, and nothing else does. -/
theorem memory_is_last_written :
    (∀ (m : Machine) session, ∀ address < 4096,
      (m.performAll session).cpu.memory.read address =
        (lastWritten? address (m.writes session)).getD (m.cpu.memory.read address)) ∧
    (∀ settings entropy generator session, ∀ address < 4096,
      let m := new settings entropy generator
      (m.performAll session).cpu.memory.read address =
        (lastWritten? address (m.writes session)).getD
          (if 0x50 ≤ address ∧ address < 0xA0 then font.getD (address - 0x50) 0 else 0)) ∧
    (∀ (m : Machine) session,
      m.writes session = (m.events session).flatMap Event.writes ∧
      Event.executions (m.events session) = m.trace session ∧
      Event.programs (m.events session) = session.filterMap Operation.load?) ∧
    (∀ (m : Machine) program,
      (m.perform (.loadProgram program)).result = .ok (.loaded (min program.length 3584)) ∧
      (Event.loads program).writes =
        (List.range (min program.length 3584)).map fun i => (0x200 + i, program.getD i 0)) ∧
    (∀ (b : Machine) x, b.nextInstruction = .storeDecimal x →
      ∃ d₀ d₁ d₂ : UInt8,
        (Event.executes b).writes =
          [(b.cpu.index.toNat % 4096, d₀), ((b.cpu.index.toNat + 1) % 4096, d₁),
            ((b.cpu.index.toNat + 2) % 4096, d₂)] ∧
        d₀ ≤ 9 ∧ d₁ ≤ 9 ∧ d₂ ≤ 9 ∧
        100 * d₀.toNat + 10 * d₁.toNat + d₂.toNat = (b.cpu.register x).toNat) ∧
    (∀ (b : Machine) x, b.nextInstruction = .storeRegisters x →
      (Event.executes b).writes = (List.range (x.val + 1)).map fun i =>
        ((b.cpu.index.toNat + i) % 4096, b.cpu.registerAt i)) ∧
    (∀ b : Machine, (∀ x, b.nextInstruction ≠ .storeDecimal x) →
      (∀ x, b.nextInstruction ≠ .storeRegisters x) → (Event.executes b).writes = []) := by
  have hlast (m : Machine) (session : List Operation) {address : Nat} (ha : address < 4096) :
      (m.performAll session).cpu.memory.read address =
        (lastWritten? address (m.writes session)).getD (m.cpu.memory.read address) := by
    rw [(m.course_performAll session).1.memory]
    exact Memory.read_apply (fun w hw => lt_of_mem_writes hw) _ ha
  refine ⟨fun m session address ha => hlast m session ha, ?_, ?_, ?_, ?_, ?_, ?_⟩
  · intro settings entropy generator session address ha m
    rw [hlast m session ha, ← Memory.read_initial ha]
    rfl
  · intro m session
    exact ⟨rfl, (m.course_performAll session).2.symm, m.programs_events session⟩
  · intro m program
    exact ⟨rfl, Event.writes_loads program⟩
  · intro b x h
    exact writes_storeDecimal h
  · intro b x h
    exact writes_storeRegisters h
  · intro b hd hr
    exact writes_other hd hr

/-- The digits of 255 are stored around the end of memory, and the font stays behind them. -/
theorem memory_is_last_written_of_wrap :
    let session := [.loadProgram [0x60, 0xFF, 0xAF, 0xFF, 0xF0, 0x33], .runSteps 3]
    let memory := ((new {} 0).performAll session).cpu.memory
    memory.read 0xFFF = 2 ∧ memory.read 0x000 = 5 ∧ memory.read 0x050 = 0xF0 := by
  intro session memory
  have hwritten : lastWritten? 0xFFF ((new {} 0).writes session) = some 2 ∧
      lastWritten? 0x000 ((new {} 0).writes session) = some 5 ∧
      lastWritten? 0x050 ((new {} 0).writes session) = none := by
    decide +kernel
  obtain ⟨hlast, hfirst, hfont⟩ := hwritten
  have hread := memory_is_last_written.2.1 {} 0 .chaCha session
  refine ⟨?_, ?_, ?_⟩
  · exact (hread 0xFFF (by decide)).trans (by rw [hlast]; rfl)
  · exact (hread 0x000 (by decide)).trans (by rw [hfirst]; rfl)
  · exact (hread 0x050 (by decide)).trans (by rw [hfont]; rfl)

end Machine
end Chip8
