import Chip8.Machine.Operation
import Chip8.Proofs.Execution
import Chip8.Proofs.Plotting
import Mathlib.Data.Finset.Prod

/-! # Drawing in low resolution

A sprite of at most fifteen rows covers every low resolution pixel at most once, though it wraps
around both edges. So each covered block of two by two pixels is flipped as a whole, whatever is in
it, and the collisions are the covered pixels that were set before the draw.
-/
namespace Chip8

namespace Screen

def blockCovers (cell : Nat × Nat) (x y : Nat) : Bool :=
  decide (x / 2 % 64 = cell.1 % 64 ∧ y / 2 % 32 = cell.2 % 32)

theorem physical_flipBlock (s : Screen) (a b x y : Nat) :
    (s.flipBlock a b).physical x y = (s.physical x y ^^ blockCovers (a, b) x y) := by
  have hcorner {i j : Nat} (hi : i < 2) (hj : j < 2) :
      decide ((2 * a + i) % 128 = x % 128 ∧ (2 * b + j) % 64 = y % 64) =
        (decide (x % 2 = i) && decide (y % 2 = j) && blockCovers (a, b) x y) := by
    rw [blockCovers, ← Bool.decide_and, ← Bool.decide_and, decide_eq_decide]
    omega
  have h00 := hcorner (i := 0) (j := 0) (by decide) (by decide)
  have h10 := hcorner (i := 1) (j := 0) (by decide) (by decide)
  have h01 := hcorner (i := 0) (j := 1) (by decide) (by decide)
  have h11 := hcorner (i := 1) (j := 1) (by decide) (by decide)
  simp only [Nat.add_zero] at h00 h10 h01
  simp only [flipBlock, physical_flip_eq_xor, h00, h10, h01, h11]
  rcases Nat.mod_two_eq_zero_or_one x with hx | hx <;>
    rcases Nat.mod_two_eq_zero_or_one y with hy | hy <;>
    simp [hx, hy]

theorem plots_plotLow : Plots plotLow blockCovers fun cell => (2 * cell.1, 2 * cell.2) where
  hires _ _ _ := rfl
  physical s _ cell x y := physical_flipBlock s cell.1 cell.2 x y
  count _ _ _ := rfl
  covers_spot cell := by simp [blockCovers]

theorem mem_lowCells {x y X Y : Nat} {sprite : List UInt8} :
    (X, Y) ∈ lowCells x y sprite ↔
      ∃ r < sprite.length, ∃ c < 8, (sprite[r]?.getD 0).toNat.testBit (7 - c) = true ∧
        X = (x + c) % 64 ∧ Y = (y + r) % 32 := by
  induction sprite generalizing y with
  | nil => simp [lowCells]
  | cons row rest ih =>
    simp only [lowCells, List.mem_append, List.mem_map, mem_setColumns, Prod.mk.injEq, ih]
    constructor
    · rintro (⟨c, ⟨hc, hbit⟩, hX, hY⟩ | ⟨r, hr, c, hc, hbit, hX, hY⟩)
      · exact ⟨0, Nat.succ_pos _, c, hc, hbit, hX.symm, hY.symm⟩
      · have hrow : y + 1 + r = y + (r + 1) := by omega
        exact ⟨r + 1, Nat.succ_lt_succ hr, c, hc, hbit, hX, hrow ▸ hY⟩
    · rintro ⟨r, hr, c, hc, hbit, hX, hY⟩
      cases r with
      | zero => exact Or.inl ⟨c, ⟨hc, hbit⟩, hX.symm, hY.symm⟩
      | succ r =>
        have hrow : y + (r + 1) = y + 1 + r := by omega
        exact Or.inr ⟨r, Nat.lt_of_succ_lt_succ hr, c, hc, hbit, hX, hrow ▸ hY⟩

theorem lt_of_mem_lowCells {x y X Y : Nat} {sprite : List UInt8}
    (h : (X, Y) ∈ lowCells x y sprite) : X < 64 ∧ Y < 32 := by
  obtain ⟨r, -, c, -, -, rfl, rfl⟩ := mem_lowCells.1 h
  exact ⟨Nat.mod_lt _ (by decide), Nat.mod_lt _ (by decide)⟩

theorem nodup_lowCells {x y : Nat} {sprite : List UInt8} (h : sprite.length ≤ 32) :
    (lowCells x y sprite).Nodup := by
  induction sprite generalizing y with
  | nil => exact List.nodup_nil
  | cons row rest ih =>
    rw [List.length_cons] at h
    rw [lowCells, List.nodup_append]
    refine ⟨?_, ih (by omega), ?_⟩
    · apply (nodup_setColumns 8 row.toNat).map_on
      intro c hc d hd hcd
      have hc' := (mem_setColumns.1 hc).1
      have hd' := (mem_setColumns.1 hd).1
      have hcolumn : (x + c) % 64 = (x + d) % 64 := congrArg Prod.fst hcd
      omega
    · rintro ⟨X, Y⟩ hfirst ⟨X', Y'⟩ hrest heq
      obtain ⟨c, -, hcell⟩ := List.mem_map.1 hfirst
      obtain ⟨r, hr, -, -, -, -, hY⟩ := mem_lowCells.1 hrest
      have hrow : y % 32 = Y := congrArg Prod.snd hcell
      have hsame : Y = Y' := congrArg Prod.snd heq
      omega

theorem apart_lowCells {x y : Nat} {sprite : List UInt8} (h : sprite.length ≤ 32) :
    Apart blockCovers (lowCells x y sprite) := by
  apply (nodup_lowCells (x := x) (y := y) h).imp_of_mem
  rintro ⟨X, Y⟩ ⟨X', Y'⟩ hcell hcell' hne a b hcovers
  obtain ⟨hX, hY⟩ := lt_of_mem_lowCells hcell
  obtain ⟨hX', hY'⟩ := lt_of_mem_lowCells hcell'
  simp only [blockCovers, decide_eq_true_eq, decide_eq_false_iff_not] at hcovers ⊢
  rintro ⟨hx, hy⟩
  apply hne
  rw [Prod.mk.injEq]
  omega

theorem length_lowCells_le (x y : Nat) (sprite : List UInt8) :
    (lowCells x y sprite).length ≤ 8 * sprite.length := by
  induction sprite generalizing y with
  | nil => exact Nat.le_refl 0
  | cons row rest ih =>
    have hrow : (setColumns 8 row.toNat).length ≤ 8 := List.length_filter_le _ _
    have hrest := ih (y + 1)
    rw [lowCells, List.length_append, List.length_map, List.length_cons]
    omega

theorem lowCells_append (x y : Nat) (above below : List UInt8) :
    lowCells x y (above ++ below) = lowCells x y above ++ lowCells x (y + above.length) below := by
  induction above generalizing y with
  | nil => rfl
  | cons row rest ih =>
    rw [List.cons_append, lowCells, lowCells, ih, List.append_assoc, List.length_cons,
      Nat.add_right_comm, Nat.add_assoc]

theorem lowCells_add_height (x y : Nat) (sprite : List UInt8) :
    lowCells x (y + 32) sprite = lowCells x y sprite := by
  induction sprite generalizing y with
  | nil => rfl
  | cons row rest ih => rw [lowCells, lowCells, Nat.add_right_comm, ih, Nat.add_mod_right]

theorem lowCells_repeated {sprite : List UInt8} (h : sprite.length = 32) (x y n : Nat) :
    lowCells x y (List.replicate n sprite).flatten =
      (List.replicate n (lowCells x y sprite)).flatten := by
  induction n generalizing y with
  | zero => rfl
  | succ n ih =>
    rw [List.replicate_succ, List.flatten_cons, lowCells_append, h, ih, lowCells_add_height,
      List.replicate_succ, List.flatten_cons]

theorem any_lowCells {x y X Y i j : Nat} {sprite : List UInt8} (hX : X < 64) (hY : Y < 32)
    (hi : i < 2) (hj : j < 2) :
    (lowCells x y sprite).any (blockCovers · (2 * X + i) (2 * Y + j)) =
      decide ((X, Y) ∈ lowCells x y sprite) := by
  rw [Bool.eq_iff_iff, List.any_eq_true, decide_eq_true_eq]
  constructor
  · rintro ⟨⟨X', Y'⟩, hcell, hcovers⟩
    obtain ⟨hX', hY'⟩ := lt_of_mem_lowCells hcell
    simp only [blockCovers, decide_eq_true_eq] at hcovers
    have hsame : X' = X ∧ Y' = Y := by omega
    obtain ⟨rfl, rfl⟩ := hsame
    exact hcell
  · intro hcell
    refine ⟨(X, Y), hcell, ?_⟩
    simp only [blockCovers, decide_eq_true_eq]
    omega

/-- A sprite of at most 32 rows flips the blocks that its cells cover, and counts those that were
set. -/
theorem drawLow_eq (s : Screen) (x y : Nat) {sprite : List UInt8} (h : sprite.length ≤ 32) :
    let d := s.drawLow x y sprite
    let cells := lowCells (x % 64) (y % 32) sprite
    let hits := cells.countP fun cell => s.physical (2 * cell.1) (2 * cell.2)
    d.screen.hires = s.hires ∧ d.rows = sprite.length ∧ d.collisions = hits ∧
      d.flag = (if 0 < hits then 1 else 0) ∧
      ∀ X < 64, ∀ Y < 32, ∀ i < 2, ∀ j < 2, d.screen.physical (2 * X + i) (2 * Y + j) =
        (s.physical (2 * X + i) (2 * Y + j) ^^ decide ((X, Y) ∈ cells)) := by
  intro d cells hits
  have hapart : Apart blockCovers cells := apart_lowCells h
  have hcount : d.collisions = hits := by
    have hfold := plots_plotLow.count_foldl hapart s 0
    rw [Nat.zero_add] at hfold
    exact hfold
  refine ⟨plots_plotLow.hires_foldl cells s 0, rfl, hcount, ?_, ?_⟩
  · rw [← hcount]
    rfl
  · intro X hX Y hY i hi j hj
    have hfold := plots_plotLow.physical_foldl hapart s 0 (2 * X + i) (2 * Y + j)
    rw [any_lowCells hX hY hi hj] at hfold
    exact hfold

end Screen

namespace Machine

/-- Whether the sprite of a draw in low resolution, with its upper left corner at the position in
two registers, has a set bit for a pixel. -/
def lowCovers (m : Machine) (x y : Register) (rows : Nibble) (X Y : Nat) : Bool :=
  let column := (X + 64 - (m.cpu.register x).toNat % 64) % 64
  let row := (Y + 32 - (m.cpu.register y).toNat % 32) % 32
  decide (column < 8 ∧ row < rows.val) &&
    (m.cpu.memory.read ((m.cpu.index.toNat + row) % 4096)).toNat.testBit (7 - column)

/-- The pixels with a set bit of that sprite that are set themselves. -/
def lowHits (m : Machine) (x y : Register) (rows : Nibble) : Finset (Nat × Nat) :=
  (Finset.range 64 ×ˢ Finset.range 32).filter fun p =>
    m.lowCovers x y rows p.1 p.2 = true ∧ m.screen.pixel p.1 p.2 = true

theorem length_lowSprite (c : Cpu) (rows : Nibble) : (c.bytesAtIndex rows.val).length ≤ 32 := by
  have hrows := rows.isLt
  rw [Cpu.length_bytesAtIndex]
  omega

theorem mem_lowCells_iff (m : Machine) (x y : Register) (rows : Nibble) {X Y : Nat} (hX : X < 64)
    (hY : Y < 32) :
    (X, Y) ∈ Screen.lowCells ((m.cpu.register x).toNat % 64) ((m.cpu.register y).toNat % 32)
        (m.cpu.bytesAtIndex rows.val) ↔ m.lowCovers x y rows X Y = true := by
  have hrows := rows.isLt
  rw [Screen.mem_lowCells, Cpu.length_bytesAtIndex]
  simp only [lowCovers, Bool.and_eq_true, decide_eq_true_eq, Memory.read_mod]
  constructor
  · rintro ⟨r, hr, c, hc, hbit, hXc, hYr⟩
    have hcolumn : (X + 64 - (m.cpu.register x).toNat % 64) % 64 = c := by omega
    have hrow : (Y + 32 - (m.cpu.register y).toNat % 32) % 32 = r := by omega
    rw [m.cpu.getElem?_bytesAtIndex hr] at hbit
    rw [hcolumn, hrow]
    exact ⟨⟨hc, hr⟩, hbit⟩
  · rintro ⟨⟨hc, hr⟩, hbit⟩
    refine ⟨_, hr, _, hc, ?_, by omega, by omega⟩
    rw [m.cpu.getElem?_bytesAtIndex hr]
    exact hbit

theorem card_lowHits {m : Machine} (hlow : m.screen.hires = false) (x y : Register)
    (rows : Nibble) :
    ((Screen.lowCells ((m.cpu.register x).toNat % 64) ((m.cpu.register y).toNat % 32)
        (m.cpu.bytesAtIndex rows.val)).countP
      fun cell => m.screen.physical (2 * cell.1) (2 * cell.2)) = (m.lowHits x y rows).card := by
  rw [List.countP_eq_length_filter]
  set hits := (Screen.lowCells ((m.cpu.register x).toNat % 64) ((m.cpu.register y).toNat % 32)
    (m.cpu.bytesAtIndex rows.val)).filter fun cell => m.screen.physical (2 * cell.1) (2 * cell.2)
  have hnodup : hits.Nodup := (Screen.nodup_lowCells (length_lowSprite m.cpu rows)).filter _
  have hset : hits.toFinset = m.lowHits x y rows := by
    ext ⟨X, Y⟩
    have hpixel : m.screen.pixel X Y = m.screen.physical (2 * X) (2 * Y) := by
      simp [Screen.pixel, hlow]
    rw [List.mem_toFinset, List.mem_filter, lowHits, Finset.mem_filter, Finset.mem_product,
      Finset.mem_range, Finset.mem_range, hpixel]
    constructor
    · rintro ⟨hcell, hset⟩
      obtain ⟨hX, hY⟩ := Screen.lt_of_mem_lowCells hcell
      exact ⟨⟨hX, hY⟩, (m.mem_lowCells_iff x y rows hX hY).1 hcell, hset⟩
    · rintro ⟨⟨hX, hY⟩, hcovers, hset⟩
      exact ⟨(m.mem_lowCells_iff x y rows hX hY).2 hcovers, hset⟩
  rw [← hset, List.toFinset_card_of_nodup hnodup]

theorem drawing_low {m : Machine} (hlow : m.screen.hires = false) (x y : Register)
    (rows : Nibble) :
    m.drawing x y rows = m.screen.drawLow (m.cpu.register x).toNat (m.cpu.register y).toNat
      (m.cpu.bytesAtIndex rows.val) := by
  simp [drawing, hlow]

/-- A draw in low resolution flips the blocks of the pixels with a set bit and leaves all others,
sets VF when one of the pixels was set, and is charged for as many collisions as there were such
pixels. Besides it moves to the next instruction, and nothing else changes. -/
theorem step_draw_low {m : Machine} (hf : m.fault = none) (hx : m.awaiting = none)
    (hlow : m.screen.hires = false) {x y : Register} {rows : Nibble}
    (hi : m.nextInstruction = .draw x y rows) :
    let n := m.step.state
    let hits := (m.lowHits x y rows).card
    let cost := m.settings.timing.cyclesOf (Cost.draw rows.val hits)
    m.step.result = .ok .draw ∧ (m.drawing x y rows).collisions = hits ∧
    (∀ X < 64, ∀ Y < 32, ∀ i < 2, ∀ j < 2, n.screen.physical (2 * X + i) (2 * Y + j) =
      (m.screen.physical (2 * X + i) (2 * Y + j) ^^ m.lowCovers x y rows X Y)) ∧
    n = { m with
      screen := { m.screen with pixels := n.screen.pixels }
      cpu := { m.cpu with
        pc := (m.cpu.pc + 2) % 4096
        v := m.cpu.v.set 15 (if 0 < hits then 1 else 0) }
      lastCost := cost
      owed := cost - 1 } := by
  intro n hits cost
  obtain ⟨hresult, hstate⟩ := step_draw hf hx hi
  obtain ⟨hhires, hrows, hcollisions, hflag, hpixels⟩ := Screen.drawLow_eq m.screen
    (m.cpu.register x).toNat (m.cpu.register y).toNat (length_lowSprite m.cpu rows)
  rw [← drawing_low hlow] at hhires hrows hcollisions hflag hpixels
  rw [card_lowHits hlow] at hcollisions hflag
  rw [Cpu.length_bytesAtIndex] at hrows
  rw [hrows, hcollisions, hflag] at hstate
  have hscreen : n.screen = (m.drawing x y rows).screen := congrArg Machine.screen hstate
  refine ⟨hresult, hcollisions, ?_, ?_⟩
  · intro X hX Y hY i hi j hj
    rw [hscreen, hpixels X hX Y hY i hi j hj]
    simp only [m.mem_lowCells_iff x y rows hX hY, Bool.decide_eq_true]
  · have hkept : { m.screen with pixels := n.screen.pixels } = (m.drawing x y rows).screen := by
      rw [hscreen]
      exact congrArg (Screen.mk _) hhires.symm
    rw [hkept]
    exact hstate

/-- The top of a digit that is drawn again in the same place, with VF as a coordinate, is erased:
all of its four pixels collide. -/
theorem step_draw_low_again :
    let m := (new { timing := .cosmac } 0).performAll
      [.loadProgram [0xA0, 0x50, 0xDF, 0x01, 0xD0, 0xF1], .step, .step]
    (m.fault = none ∧ m.awaiting = none ∧ m.screen.hires = false ∧
      m.nextInstruction = .draw 0 15 1) ∧
      m.screen.physical 1 1 = true ∧ m.step.state.screen.physical 1 1 = false ∧
      m.step.state.cpu.register 15 = 1 ∧ m.step.state.lastCost = Cost.draw 1 4 := by
  intro m
  have hstart : (m.fault = none ∧ m.awaiting = none ∧ m.screen.hires = false ∧
      m.nextInstruction = .draw 0 15 1) ∧ m.settings.timing = .cosmac ∧
      m.screen.physical 1 1 = true ∧ m.lowCovers 0 15 1 0 0 = true ∧
      (m.lowHits 0 15 1).card = 4 := by
    decide +kernel
  obtain ⟨⟨hf, hx, hlow, hi⟩, htiming, hset, hcovers, hhits⟩ := hstart
  obtain ⟨-, -, hpixels, hstate⟩ := step_draw_low hf hx hlow hi
  have hcleared := hpixels 0 (by decide) 0 (by decide) 1 (by decide) 1 (by decide)
  rw [hcovers] at hcleared
  rw [hhits, htiming] at hstate
  refine ⟨⟨hf, hx, hlow, hi⟩, hset, ?_, ?_, ?_⟩
  · rw [hcleared]
    simp [hset]
  · have hv : m.step.state.cpu.v = m.cpu.v.set 15 1 := congrArg (·.cpu.v) hstate
    rw [Cpu.register, hv]
    exact Vector.getElem_set_self _
  · rw [hstate]
    rfl

end Machine
end Chip8
