import Chip8.Proofs.HighIndex
import Chip8.Proofs.Writes
import Mathlib.Order.Interval.Finset.Fin

/-! # Blocks of registers

Registers that were stored are found again where they lie, and registers that were loaded are stored
as they lie there. A block is at most sixteen bytes long, so its addresses are distinct even where
they wrap around the end of memory or beyond the upper bits of `I`.
-/
namespace Chip8

namespace Memory
variable {a c : Nat} {bytes : List UInt8}

theorem write_read (m : Memory) (a : Nat) : m.write a (m.read a) = m := by
  simp [write, read]

theorem read_writeAll_of_outside (m : Memory)
    (h : ∀ i < bytes.length, (a + i) % 4096 ≠ c % 4096) :
    (m.writeAll a bytes).read c = m.read c := by
  induction bytes generalizing m a with
  | nil => rfl
  | cons byte rest ih =>
    have hrest : ∀ i < rest.length, (a + 1 + i) % 4096 ≠ c % 4096 := by
      intro i hi
      rw [Nat.add_assoc, Nat.add_comm 1 i]
      exact h (i + 1) (Nat.succ_lt_succ hi)
    rw [writeAll, ih _ hrest]
    exact m.read_write_of_ne byte (h 0 (Nat.succ_pos _))

theorem read_writeAll_add (m : Memory) (h : bytes.length ≤ 4096) {i : Nat} (hi : i < bytes.length) :
    (m.writeAll a bytes).read (a + i) = bytes[i] := by
  induction bytes generalizing m a i with
  | nil => cases hi
  | cons byte rest ih =>
    rw [List.length_cons] at h hi
    rw [writeAll]
    cases i with
    | zero =>
      have houtside : ∀ j < rest.length, (a + 1 + j) % 4096 ≠ a % 4096 := by
        intro j hj
        omega
      exact (read_writeAll_of_outside _ houtside).trans (m.read_write_self a byte)
    | succ i =>
      have hnext : a + (i + 1) = a + 1 + i := by omega
      rw [hnext, ih _ (by omega) (by omega), List.getElem_cons_succ]

theorem writeAll_readAll (m : Memory) (a count : Nat) : m.writeAll a (m.readAll a count) = m := by
  induction count generalizing a with
  | zero => rfl
  | succ count ih =>
    have hread : m.readAll a (count + 1) = m.read a :: m.readAll (a + 1) count := by
      simp [readAll, List.range_succ_eq_map, Nat.add_assoc, Nat.add_comm 1]
    rw [hread, writeAll, write_read, ih]

end Memory

namespace Cpu
variable (c : Cpu) {last : Register} {bytes : List UInt8}

theorem register_setBlock (bytes : List UInt8) (r : Register) :
    (c.setBlock bytes).register r = bytes[r.val]?.getD (c.register r) := by
  simp [setBlock, register]

theorem block_setBlock (h : bytes.length = last.val + 1) :
    (c.setBlock bytes).block last = bytes := by
  apply List.ext_getElem
  · rw [length_block, h]
  · intro i hi hbyte
    simp [block, setBlock, hbyte]

theorem toNat_index_pastBlock (legacy : Bool) (last : Register) :
    (c.pastBlock legacy last).index.toNat =
      if legacy then (c.index.toNat + last + 1) % 65536 else c.index.toNat := by
  have hlast := last.isLt
  cases legacy with
  | false => rfl
  | true =>
    change (c.index + UInt16.ofNat (last.val + 1)).toNat = _
    rw [UInt16.toNat_add, UInt16.toNat_ofNat', if_pos rfl]
    omega

theorem v_pastBlock (legacy : Bool) (last : Register) : (c.pastBlock legacy last).v = c.v := by
  cases legacy <;> rfl

theorem pastBlock_store_eq (bytes : List UInt8) (legacy : Bool) (last : Register) :
    let d := (c.store bytes).pastBlock legacy last
    d = { c with memory := d.memory, index := d.index } := by
  cases legacy <;> rfl

theorem pastBlock_setBlock_eq (bytes : List UInt8) (legacy : Bool) (last : Register) :
    let d := (c.setBlock bytes).pastBlock legacy last
    d = { c with v := d.v, index := d.index } := by
  cases legacy <;> rfl

/-- A load gives the bytes from `I` on, and then registers that are not of the block. -/
theorem register_load (legacy : Bool) (last r : Register) :
    ((c.setBlock (c.bytesAtIndex (last.val + 1))).pastBlock legacy last).register r =
      if r ≤ last then c.memory.read (c.index.toNat + r) else c.register r := by
  rw [register, v_pastBlock]
  change (c.setBlock _).register r = _
  rw [register_setBlock]
  by_cases hr : r ≤ last
  · have hlt : r.val < last.val + 1 := Nat.lt_succ_of_le hr
    simp [bytesAtIndex, Memory.readAll, hr, hlt]
  · have hlt : ¬r.val < last.val + 1 := fun h => hr (Nat.le_of_lt_succ h)
    simp [bytesAtIndex, Memory.readAll, hr, hlt]

end Cpu

namespace Machine

theorem card_cells (start : Nat) (last : Register) :
    ((Finset.Iic last).image fun r : Register => (start + r) % 4096).card = last + 1 := by
  have hinjective : Function.Injective fun r : Register => (start + r) % 4096 := by
    intro r r' h
    have hr := r.isLt
    have hr' := r'.isLt
    simp only at h
    exact Fin.ext (by omega)
  rw [Finset.card_image_of_injective _ hinjective, Fin.card_Iic]

/-- Registers that were stored are loaded again, and memory that was loaded is stored again. A store
writes the distinct cells of its block only and a load its registers only, and both leave `I` where
it was or, with the habit, behind the block. -/
theorem register_blocks_return (m : Machine) (pc pc' : UInt16) (last : Register) :
    let store (n : Machine) := n.execute pc (.storeRegisters last)
    let load (n : Machine) := n.execute pc' (.loadRegisters last)
    let s := (store m).machine
    let l := (load m).machine
    let index := m.cpu.index
    let cell (r : Register) := (index.toNat + r) % 4096
    let cells := (Finset.Iic last).image cell
    let behind :=
      if m.settings.legacyMemory then (index.toNat + last + 1) % 65536 else index.toNat
    (store m).result = .ok (.normal, blockCost last) ∧
    (load m).result = .ok (.normal, blockCost last) ∧
    (∀ v r, (load { s with cpu := { s.cpu with index, v } }).machine.cpu.register r =
      if r ≤ last then m.cpu.register r else v.get r) ∧
    (store (l.withIndex index)).machine.cpu.memory = m.cpu.memory ∧
    cells.card = last + 1 ∧
    (∀ r ≤ last, s.cpu.memory.read (cell r) = m.cpu.register r) ∧
    (∀ a, a % 4096 ∉ cells → s.cpu.memory.read a = m.cpu.memory.read a) ∧
    (∀ r, l.cpu.register r =
      if r ≤ last then m.cpu.memory.read (cell r) else m.cpu.register r) ∧
    s.cpu.index.toNat = behind ∧ l.cpu.index.toNat = behind ∧
    s = { m with cpu := { m.cpu with memory := s.cpu.memory, index := s.cpu.index } } ∧
    l = { m with cpu := { m.cpu with v := l.cpu.v, index := l.cpu.index } } := by
  intro store load s l index cell cells behind
  have hlast := last.isLt
  have hlength := m.cpu.length_block last
  have hmemory : s.cpu.memory = m.cpu.memory.writeAll index.toNat (m.cpu.block last) :=
    m.memory_execute pc (.storeRegisters last)
  have hstored (r : Register) (hr : r ≤ last) :
      s.cpu.memory.read (index.toNat + r) = m.cpu.register r := by
    have hlt : r.val < (m.cpu.block last).length := hlength ▸ Nat.lt_succ_of_le hr
    have hbyte := m.cpu.getElem?_block hr
    rw [List.getElem?_eq_getElem hlt, Option.some.injEq] at hbyte
    rw [hmemory, ← hbyte]
    exact m.cpu.memory.read_writeAll_add (by omega) hlt
  have hloaded : l.cpu.block last = m.cpu.bytesAtIndex (last.val + 1) := by
    have hv : l.cpu.v = (m.cpu.setBlock (m.cpu.bytesAtIndex (last.val + 1))).v :=
      Cpu.v_pastBlock _ m.settings.legacyMemory last
    rw [Cpu.block, hv]
    exact m.cpu.block_setBlock (m.cpu.length_bytesAtIndex _)
  refine ⟨rfl, rfl, ?_, ?_, card_cells _ _, ?_, ?_, ?_, ?_, ?_, ?_, ?_⟩
  · intro v r
    have hload := Cpu.register_load { s.cpu with index, v } m.settings.legacyMemory last r
    refine hload.trans (ite_congr rfl (fun hr => hstored r hr) fun _ => rfl)
  · have hstore := (l.withIndex index).memory_execute pc (.storeRegisters last)
    have hkept : l.cpu.memory = m.cpu.memory := m.memory_execute pc' (.loadRegisters last)
    have hblock : (l.withIndex index).cpu.block last = m.cpu.bytesAtIndex (last.val + 1) := hloaded
    rw [Cpu.stored, hblock, memory_withIndex, hkept] at hstore
    exact hstore.trans (m.cpu.memory.writeAll_readAll _ _)
  · intro r hr
    rw [Memory.read_mod]
    exact hstored r hr
  · intro a ha
    rw [hmemory]
    apply Memory.read_writeAll_of_outside
    intro i hi heq
    have hi' : i < last.val + 1 := hlength ▸ hi
    refine ha (Finset.mem_image.2 ⟨⟨i, by omega⟩, ?_, heq⟩)
    exact Finset.mem_Iic.2 (Nat.le_of_lt_succ hi')
  · intro r
    rw [Memory.read_mod]
    exact m.cpu.register_load m.settings.legacyMemory last r
  · exact (m.cpu.store (m.cpu.block last)).toNat_index_pastBlock m.settings.legacyMemory last
  · have hindex := (m.cpu.setBlock (m.cpu.bytesAtIndex (last.val + 1))).toNat_index_pastBlock
      m.settings.legacyMemory last
    rwa [Cpu.index_setBlock] at hindex
  · exact congrArg (fun cpu => { m with cpu })
      (m.cpu.pastBlock_store_eq (m.cpu.block last) m.settings.legacyMemory last)
  · exact congrArg (fun cpu => { m with cpu })
      (m.cpu.pastBlock_setBlock_eq _ m.settings.legacyMemory last)

/-- Four registers are stored from the last two cells of memory around to the first two, with `I` so
high that it wraps as well, and are loaded again after all registers were cleared. -/
theorem register_blocks_return_around_memory :
    let m := ((new { legacyMemory := true } 0).performAll
      [.loadProgram [0x60, 0x0A, 0x61, 0x0B, 0x62, 0x0C, 0x63, 0x0D], .runSteps 4]).withIndex 0xFFFE
    let s := (m.execute 0x208 (.storeRegisters 3)).machine
    let cleared := { s with cpu := { s.cpu with index := 0xFFFE, v := Vector.replicate 16 0 } }
    s.cpu.memory.read 0xFFF = 0x0B ∧ s.cpu.memory.read 0x000 = 0x0C ∧
      s.cpu.memory.read 0x002 = m.cpu.memory.read 0x002 ∧ s.cpu.index.toNat = 2 ∧
      (cleared.execute 0x20A (.loadRegisters 3)).machine.cpu.register 2 = 0x0C := by
  intro m s cleared
  have hstart : m.cpu.index = 0xFFFE ∧ m.settings.legacyMemory = true ∧
      m.cpu.register 1 = 0x0B ∧ m.cpu.register 2 = 0x0C := by decide +kernel
  obtain ⟨hindex, hlegacy, h1, h2⟩ := hstart
  obtain ⟨-, -, hload, -, -, hstored, houtside, -, hbehind, -⟩ :=
    register_blocks_return m 0x208 0x20A 3
  rw [hindex] at hload hstored houtside hbehind
  refine ⟨?_, ?_, ?_, ?_, ?_⟩
  · exact (hstored 1 (by decide)).trans h1
  · exact (hstored 2 (by decide)).trans h2
  · exact houtside 2 (by decide)
  · rw [hlegacy] at hbehind
    exact hbehind
  · exact (hload (Vector.replicate 16 0) 2).trans h2

end Machine
end Chip8
