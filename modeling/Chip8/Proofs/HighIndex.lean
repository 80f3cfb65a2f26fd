import Chip8.Proofs.Lockstep

/-! # The upper bits of `I`

`I` keeps sixteen bits, of which memory sees the lower twelve. Nothing else that a program does with
`I` looks further: sprites, digits and register blocks begin at a cell of memory, and adding to `I`
costs more where the low byte carries. So two machines whose `I` differ by a multiple of the size of
memory are alike to their host.
-/
namespace Chip8

namespace Memory
variable {a c : Nat}

theorem readAll_congr (m : Memory) (h : a % 4096 = c % 4096) (count : Nat) :
    m.readAll a count = m.readAll c count := by
  apply List.map_congr_left
  intro i _
  have hi : (a + i) % 4096 = (c + i) % 4096 := by omega
  rw [← read_mod, hi, read_mod]

theorem writeAll_congr (m : Memory) (h : a % 4096 = c % 4096) (bytes : List UInt8) :
    m.writeAll a bytes = m.writeAll c bytes := by
  induction bytes generalizing m a c with
  | nil => rfl
  | cons byte rest ih =>
    rw [writeAll, writeAll, ← write_mod, h, write_mod]
    exact ih _ (by omega)

end Memory

/-- Two addresses are of the same cell of memory. -/
def SameCell (a c : UInt16) : Prop := c.toNat % 4096 = a.toNat % 4096

instance (a c : UInt16) : Decidable (SameCell a c) :=
  inferInstanceAs (Decidable (c.toNat % 4096 = a.toNat % 4096))

namespace SameCell
variable {a c : UInt16}

theorem refl (a : UInt16) : SameCell a a := rfl

/-- Both sums wrap at sixteen bits, which is a multiple of the size of memory. -/
theorem add (h : SameCell a c) (offset : UInt16) : SameCell (a + offset) (c + offset) := by
  simp only [SameCell, UInt16.toNat_add] at h ⊢
  omega

theorem crossesPage_eq (h : SameCell a c) (offset : UInt8) :
    Cost.crossesPage c offset = Cost.crossesPage a offset := by
  have hlow : c.toNat % 256 = a.toNat % 256 := by
    simp only [SameCell] at h
    omega
  rw [Cost.crossesPage, Cost.crossesPage, hlow]

end SameCell

namespace Cpu

theorem store_setIndex (c : Cpu) {index : UInt16} (h : SameCell c.index index)
    (bytes : List UInt8) : (c.setIndex index).store bytes = (c.store bytes).setIndex index :=
  congrArg (fun memory => { c with memory, index }) (c.memory.writeAll_congr h bytes)

theorem bytesAtIndex_setIndex (c : Cpu) {index : UInt16} (h : SameCell c.index index)
    (count : Nat) : (c.setIndex index).bytesAtIndex count = c.bytesAtIndex count :=
  c.memory.readAll_congr h count

theorem index_setBlock (c : Cpu) (bytes : List UInt8) : (c.setBlock bytes).index = c.index := by
  unfold setBlock
  rfl

theorem pastBlock_setIndex (c : Cpu) {index : UInt16} (h : SameCell c.index index)
    (legacy : Bool) (last : Register) :
    ∃ index', (c.setIndex index).pastBlock legacy last =
        (c.pastBlock legacy last).setIndex index' ∧
      SameCell (c.pastBlock legacy last).index index' := by
  cases legacy with
  | false => exact ⟨index, rfl, h⟩
  | true => exact ⟨_, rfl, h.add (UInt16.ofNat (last.val + 1))⟩

end Cpu

namespace Machine

def withIndex (m : Machine) (index : UInt16) : Machine := m.mapCpu (·.setIndex index)

theorem memory_withIndex (m : Machine) (index : UInt16) :
    (m.withIndex index).cpu.memory = m.cpu.memory := rfl

/-- Two machines agree on all but the bits of `I` that memory does not see. -/
structure AgreeButHighIndex (m n : Machine) : Prop where
  rest : n = m.withIndex n.cpu.index
  cell : SameCell m.cpu.index n.cpu.index

theorem draw_withIndex (m : Machine) {index : UInt16} (h : SameCell m.cpu.index index)
    (x y : Register) (rows : Nibble) :
    (m.withIndex index).draw x y rows =
      ⟨(m.draw x y rows).machine.withIndex index, (m.draw x y rows).result⟩ := by
  have hsprite (count : Nat) : (m.withIndex index).cpu.bytesAtIndex count =
      m.cpu.bytesAtIndex count := m.cpu.bytesAtIndex_setIndex h count
  have hdrawing : (m.withIndex index).drawing x y rows = m.drawing x y rows := by
    simp only [drawing, hsprite]
    rfl
  rw [draw_eq, draw_eq, hdrawing]
  rfl

end Machine

def Instruction.usesIndex : Instruction → Bool
  | .loadIndex _ | .addIndex _ | .loadGlyph _ | .draw .. | .storeDecimal _ | .storeRegisters _
  | .loadRegisters _ => true
  | _ => false

namespace Machine

theorem screen_withIndex (m : Machine) (index : UInt16) (screen : Screen) (cost : Nat) :
    effect { m.withIndex index with screen } .draw cost =
      ⟨(effect { m with screen } .draw cost).machine.withIndex index, .ok (.draw, cost)⟩ := rfl

theorem execute_withIndex (m : Machine) (index : UInt16) (pc : UInt16) {i : Instruction}
    (hi : i.usesIndex = false) :
    (m.withIndex index).execute pc i =
      ⟨(m.execute pc i).machine.withIndex index, (m.execute pc i).result⟩ := by
  cases i with
  | loadIndex address => cases hi
  | addIndex x => cases hi
  | loadGlyph x => cases hi
  | draw x y rows => cases hi
  | storeDecimal x => cases hi
  | storeRegisters last => cases hi
  | loadRegisters last => cases hi
  | ret =>
    have htop : (m.withIndex index).cpu.top? = m.cpu.top? := rfl
    simp only [execute, htop]
    cases m.cpu.top? <;> rfl
  | call address =>
    by_cases hroom : m.cpu.sp < 16
    · have hp := Cpu.push?_of_lt hroom m.cpu.pc
      have hp' := Cpu.push?_of_lt (c := (m.withIndex index).cpu) hroom (m.withIndex index).cpu.pc
      simp only [execute, hp, hp']
      rfl
    · have hp := (m.cpu.push?_eq_none_iff m.cpu.pc).2 (Nat.le_of_not_lt hroom)
      have hp' := ((m.withIndex index).cpu.push?_eq_none_iff (m.withIndex index).cpu.pc).2
        (Nat.le_of_not_lt hroom)
      simp only [execute, hp, hp']
  | skip condition =>
    have hholds : (m.withIndex index).holds condition = m.holds condition := by
      cases condition <;> rfl
    simp only [execute, hholds]
    cases m.holds condition <;> rfl
  | arithmetic op x y => cases op <;> rfl
  | scrollDown rows => exact m.screen_withIndex index (m.screen.scrollDown rows) Cost.extended
  | scrollRight => exact m.screen_withIndex index m.screen.scrollRight Cost.extended
  | scrollLeft => exact m.screen_withIndex index m.screen.scrollLeft Cost.extended
  | _ => rfl

theorem index_execute (m : Machine) (pc : UInt16) {i : Instruction}
    (hi : i.usesIndex = false) : (m.execute pc i).machine.cpu.index = m.cpu.index := by
  exact congrArg (·.machine.cpu.index) (m.execute_withIndex m.cpu.index pc hi)

/-- Instructions do the same with either index, and leave the two of the same cell. -/
theorem execute_sameCell (m : Machine) {index : UInt16} (h : SameCell m.cpu.index index)
    (pc : UInt16) (i : Instruction) :
    ∃ index', (m.withIndex index).execute pc i =
        ⟨(m.execute pc i).machine.withIndex index', (m.execute pc i).result⟩ ∧
      SameCell (m.execute pc i).machine.cpu.index index' := by
  cases hi : i.usesIndex with
  | false =>
    refine ⟨index, m.execute_withIndex index pc hi, ?_⟩
    rw [m.index_execute pc hi]
    exact h
  | true =>
    cases i with
    | loadIndex address => exact ⟨address, rfl, .refl address⟩
    | loadGlyph x => exact ⟨_, rfl, .refl _⟩
    | addIndex x =>
      refine ⟨index + (m.cpu.register x).toUInt16, ?_, h.add _⟩
      have hregister : (m.withIndex index).cpu.register x = m.cpu.register x := rfl
      have hindex : (m.withIndex index).cpu.index = index := rfl
      simp only [execute, hregister, hindex, h.crossesPage_eq]
      rfl
    | draw x y rows => exact ⟨index, m.draw_withIndex h x y rows, h⟩
    | storeDecimal x =>
      have hstore := m.cpu.store_setIndex h (Cpu.decimalDigits (m.cpu.register x))
      refine ⟨index, ?_, h⟩
      exact congrArg (fun cpu => effect { m with cpu } .normal _) hstore
    | storeRegisters last =>
      have hstore := m.cpu.store_setIndex h (m.cpu.block last)
      obtain ⟨index', hpast, hcell⟩ :=
        (m.cpu.store (m.cpu.block last)).pastBlock_setIndex h m.settings.legacyMemory last
      refine ⟨index', ?_, hcell⟩
      rw [← hstore] at hpast
      exact congrArg (fun cpu => effect { m with cpu } .normal (blockCost last)) hpast
    | loadRegisters last =>
      have hload : (m.cpu.setIndex index).setBlock
          ((m.cpu.setIndex index).bytesAtIndex (last.val + 1)) =
            (m.cpu.setBlock (m.cpu.bytesAtIndex (last.val + 1))).setIndex index := by
        rw [m.cpu.bytesAtIndex_setIndex h]
        rfl
      have hcell : SameCell (m.cpu.setBlock (m.cpu.bytesAtIndex (last.val + 1))).index index := by
        rw [Cpu.index_setBlock]
        exact h
      obtain ⟨index', hpast, hcell'⟩ := Cpu.pastBlock_setIndex _ hcell m.settings.legacyMemory last
      refine ⟨index', ?_, hcell'⟩
      rw [← hload] at hpast
      exact congrArg (fun cpu => effect { m with cpu } .normal (blockCost last)) hpast
    | _ => cases hi

namespace AgreeButHighIndex
variable {m n : Machine}

theorem settle {effect : Effect} {index : UInt16} (h : SameCell effect.machine.cpu.index index)
    (pc : UInt16) (notices : List Notice) :
    (effect.settle pc notices).Alike AgreeButHighIndex
      (Effect.settle pc notices ⟨effect.machine.withIndex index, effect.result⟩) := by
  rcases effect with ⟨k, e | ⟨flow, cost⟩⟩
  · exact ⟨⟨rfl, h⟩, rfl, rfl⟩
  · exact ⟨⟨rfl, h⟩, rfl, rfl⟩

theorem executeNext (h : m.AgreeButHighIndex n) :
    m.executeNext.Alike AgreeButHighIndex n.executeNext := by
  obtain ⟨hrest, hcell⟩ := h
  generalize n.cpu.index = index at hrest hcell
  subst hrest
  obtain ⟨index', heffect, hcell'⟩ :=
    (m.mapCpu Cpu.advance).execute_sameCell hcell m.cpu.pc m.nextInstruction
  have hnextEffect : (m.withIndex index).nextEffect =
      ⟨m.nextEffect.machine.withIndex index', m.nextEffect.result⟩ := heffect
  rw [Machine.executeNext, Machine.executeNext, hnextEffect]
  exact settle hcell' m.cpu.pc _

theorem pressKey (h : m.AgreeButHighIndex n) (key : Key) :
    (m.pressKey key).AgreeButHighIndex (n.pressKey key) := by
  obtain ⟨hrest, hcell⟩ := h
  generalize n.cpu.index = index at hrest hcell
  subst hrest
  cases hx : m.awaiting with
  | none =>
    rw [pressKey_of_running hx, pressKey_of_running (m := m.withIndex index) hx]
    exact ⟨rfl, hcell⟩
  | some x =>
    rw [pressKey_of_awaiting hx, pressKey_of_awaiting (m := m.withIndex index) hx]
    exact ⟨rfl, hcell⟩

end AgreeButHighIndex

theorem lockstep_agreeButHighIndex : Lockstep (fun _ => True) AgreeButHighIndex where
  fault h := (congrArg Machine.fault h.rest :)
  awaiting h := (congrArg Machine.awaiting h.rest :)
  owed h := (congrArg Machine.owed h.rest :)
  clock h := (congrArg Machine.clock h.rest :)
  executeNext h _ := h.executeNext
  pay owed h := ⟨congrArg (fun m : Machine => { m with owed }) h.rest, h.cell⟩
  withClock clock h := ⟨congrArg (·.withClock clock) h.rest, h.cell⟩
  timers elapsed h :=
    ⟨congrArg (fun m : Machine => { m with timers := m.timers.advance elapsed }) h.rest, h.cell⟩
  pressKey key h := h.pressKey key
  releaseKey key h := ⟨congrArg (·.releaseKey key) h.rest, h.cell⟩
  clearKeys h := ⟨congrArg clearKeys h.rest, h.cell⟩
  loadProgram program h := ⟨congrArg (·.loadProgram program) h.rest, h.cell⟩
  setTiming timing h := ⟨congrArg (·.setTiming timing) h.rest, h.cell⟩
  setRate hz h := ⟨congrArg (·.setRate hz) h.rest, h.cell⟩

/-- A host that brings the same to two machines whose `I` are of the same cell is told the same by
both, and finds nothing else between them that differs. -/
theorem high_index_unobservable {m n : Machine} (h : m.AgreeButHighIndex n)
    (session : List Operation) :
    (m.performAll session).AgreeButHighIndex (n.performAll session) ∧
    ∀ operation, ((m.performAll session).perform operation).Alike AgreeButHighIndex
      ((n.performAll session).perform operation) :=
  ⟨lockstep_agreeButHighIndex.performAll h fun _ _ => trivial,
    fun _ => lockstep_agreeButHighIndex.alike h fun _ _ => trivial⟩

/-- With `I` past the end of memory a machine crosses a page, draws and stores as with `I` at its
start. -/
theorem high_index_unobservable_of_wrap :
    let m := new {} 0
    let n := m.withIndex 0xF000
    let program := [0x60, 0xFF, 0xF0, 0x1E, 0xD0, 0x05, 0xF0, 0x33]
    let session : List Operation := [.setTiming .cosmac, .loadProgram program, .runSteps 4]
    m.cpu.index = 0 ∧ n.cpu.index = 0xF000 ∧ m.AgreeButHighIndex n ∧
      (m.performAll session).AgreeButHighIndex (n.performAll session) ∧
      ∀ elapsed, ((n.performAll session).perform (.update elapsed)).result =
        ((m.performAll session).perform (.update elapsed)).result := by
  intro m n program session
  have h : m.AgreeButHighIndex n := ⟨rfl, by decide⟩
  obtain ⟨hagree, halike⟩ := high_index_unobservable h session
  exact ⟨rfl, rfl, h, hagree, fun elapsed => (halike (.update elapsed)).result⟩

end Machine
end Chip8
