import Chip8.Machine.Operation
import Chip8.Proofs.Execution
import Chip8.Proofs.Plotting
import Mathlib.Algebra.BigOperators.Group.Finset.Sigma
import Mathlib.Algebra.BigOperators.Group.Finset.Piecewise
import Mathlib.Data.Finset.Prod
import Mathlib.Data.Nat.Count

/-! # Drawing in high resolution

The rows of a sprite lie in different rows of the screen, since those below the bottom edge are
clipped and do not come in again at the top. So every row meets what was on the screen before the
draw: each covered pixel is flipped once, the collisions are the covered pixels that were set, and
a row is counted in the flag when it has one of them or is clipped.
-/
namespace Chip8

namespace Screen

/-- Whether a row of a sprite, with its left edge in column `x`, has a set bit for a column. -/
def rowCovers (width x row X : Nat) : Bool :=
  let column := (X + 128 - x % 128) % 128
  decide (column < width) && row.testBit (width - 1 - column)

def pointCovers (y x X Y : Nat) : Bool := decide (x % 128 = X % 128 ∧ y % 64 = Y % 64)

theorem plots_plotHigh (y : Nat) : Plots (plotHigh y) (pointCovers y) fun x => (x, y) where
  hires _ _ _ := rfl
  physical s _ x X Y := physical_flip_eq_xor s x y X Y
  count _ _ _ := rfl
  covers_spot x := by simp [pointCovers]

/-- The columns that a row of a sprite covers, not yet wrapped around the right edge. -/
def rowCells (width x row : Nat) : List Nat := (setColumns width row).map (x + ·)

theorem eq_of_mem_rowCells {width : Nat} (h : width ≤ 128) {x row a b : Nat}
    (ha : a ∈ rowCells width x row) (hb : b ∈ rowCells width x row) (hab : a % 128 = b % 128) :
    a = b := by
  obtain ⟨c, hc, rfl⟩ := List.mem_map.1 ha
  obtain ⟨d, hd, rfl⟩ := List.mem_map.1 hb
  have hc' := (mem_setColumns.1 hc).1
  have hd' := (mem_setColumns.1 hd).1
  omega

theorem nodup_rowCells (width x row : Nat) : (rowCells width x row).Nodup :=
  (nodup_setColumns width row).map fun _ _ => Nat.add_left_cancel

theorem apart_rowCells {width : Nat} (h : width ≤ 128) (x y row : Nat) :
    Apart (pointCovers y) (rowCells width x row) := by
  apply (nodup_rowCells width x row).imp_of_mem
  intro a b ha hb hne X Y hcovers
  simp only [pointCovers, decide_eq_true_eq, decide_eq_false_iff_not] at hcovers ⊢
  rintro ⟨hX, -⟩
  exact hne (eq_of_mem_rowCells h ha hb (hcovers.1.trans hX.symm))

theorem any_rowCells {width : Nat} (h : width ≤ 128) (x y row X Y : Nat) :
    (rowCells width x row).any (pointCovers y · X Y) =
      (decide (y % 64 = Y % 64) && rowCovers width x row X) := by
  rw [Bool.eq_iff_iff, List.any_eq_true]
  simp only [rowCells, List.mem_map, mem_setColumns, pointCovers, rowCovers, Bool.and_eq_true,
    decide_eq_true_eq]
  constructor
  · rintro ⟨_, ⟨c, ⟨hc, hbit⟩, rfl⟩, hX, hY⟩
    have hcolumn : (X + 128 - x % 128) % 128 = c := by omega
    rw [hcolumn]
    exact ⟨hY, hc, hbit⟩
  · rintro ⟨hY, hc, hbit⟩
    exact ⟨_, ⟨_, ⟨hc, hbit⟩, rfl⟩, by omega, hY⟩

theorem physical_mod (s : Screen) (x y : Nat) : s.physical (x % 128) y = s.physical x y := by
  simp [physical, position]

theorem countP_rowCells {width : Nat} (h : width ≤ 128) (s : Screen) (x y row : Nat) :
    ((rowCells width x row).countP fun a => s.physical a y) =
      ((Finset.range 128).filter fun X =>
        rowCovers width x row X = true ∧ s.physical X y = true).card := by
  rw [List.countP_eq_length_filter]
  set hits := (rowCells width x row).filter fun a => s.physical a y
  have hnodup : (hits.map (· % 128)).Nodup := by
    apply ((nodup_rowCells width x row).filter _).map_on
    intro a ha b hb hab
    exact eq_of_mem_rowCells h (List.mem_of_mem_filter ha) (List.mem_of_mem_filter hb) hab
  have hset : (hits.map (· % 128)).toFinset =
      (Finset.range 128).filter fun X =>
        rowCovers width x row X = true ∧ s.physical X y = true := by
    ext X
    simp only [hits, rowCells, List.mem_toFinset, List.mem_map, List.mem_filter, mem_setColumns,
      Finset.mem_filter, Finset.mem_range, rowCovers, Bool.and_eq_true, decide_eq_true_eq]
    constructor
    · rintro ⟨_, ⟨⟨c, ⟨hc, hbit⟩, rfl⟩, hphysical⟩, rfl⟩
      have hcolumn : ((x + c) % 128 + 128 - x % 128) % 128 = c := by omega
      rw [hcolumn, physical_mod]
      exact ⟨Nat.mod_lt _ (by decide), ⟨hc, hbit⟩, hphysical⟩
    · rintro ⟨hX, ⟨hc, hbit⟩, hphysical⟩
      have hmod : (x + (X + 128 - x % 128) % 128) % 128 = X := by omega
      refine ⟨_, ⟨⟨_, ⟨hc, hbit⟩, rfl⟩, ?_⟩, hmod⟩
      rw [← physical_mod, hmod]
      exact hphysical
  rw [← hset, List.toFinset_card_of_nodup hnodup, List.length_map]

/-- Whether a sprite with its upper left corner at a position has a set bit for a pixel. -/
def spriteCovers (width x y : Nat) (rows : List Nat) (X Y : Nat) : Bool :=
  decide (y ≤ Y) && rowCovers width x (rows[Y - y]?.getD 0) X

theorem rowCovers_zero (width x X : Nat) : rowCovers width x 0 X = false := by
  simp [rowCovers]

theorem spriteCovers_nil (width x y X Y : Nat) : spriteCovers width x y [] X Y = false := by
  simp [spriteCovers, rowCovers_zero]

theorem spriteCovers_head (width x y row : Nat) (rest : List Nat) (X : Nat) :
    spriteCovers width x y (row :: rest) X y = rowCovers width x row X := by
  simp [spriteCovers]

theorem spriteCovers_tail {y Y : Nat} (h : y ≠ Y) (width x row : Nat) (rest : List Nat) (X : Nat) :
    spriteCovers width x y (row :: rest) X Y = spriteCovers width x (y + 1) rest X Y := by
  simp only [spriteCovers]
  by_cases hY : y < Y
  · have hrow : Y - y = Y - (y + 1) + 1 := by omega
    have hle : y ≤ Y := Nat.le_of_lt hY
    have hle' : y + 1 ≤ Y := hY
    rw [hrow, List.getElem?_cons_succ, decide_eq_true hle, decide_eq_true hle']
  · have hle : ¬y ≤ Y := by omega
    have hle' : ¬y + 1 ≤ Y := hY
    rw [decide_eq_false hle, decide_eq_false hle', Bool.false_and, Bool.false_and]

theorem spriteCovers_above {y Y : Nat} (h : Y < y) (width x : Nat) (rows : List Nat) (X : Nat) :
    spriteCovers width x y rows X Y = false := by
  simp [spriteCovers, Nat.not_le_of_lt h]

def drawRow (s : Screen) (width x y row : Nat) : Screen :=
  ((rowCells width x row).foldl (plotHigh y) (s, 0)).1

/-- The set pixels in a row of the screen, among those that are covered. -/
def rowHits (s : Screen) (covers : Nat → Nat → Bool) (Y : Nat) : Finset Nat :=
  (Finset.range 128).filter fun X => covers X Y = true ∧ s.physical X Y = true

theorem physical_drawRow {width : Nat} (h : width ≤ 128) (s : Screen) (x y row X Y : Nat) :
    (s.drawRow width x y row).physical X Y =
      (s.physical X Y ^^ (decide (y % 64 = Y % 64) && rowCovers width x row X)) := by
  rw [drawRow, (plots_plotHigh y).physical_foldl (apart_rowCells h x y row), any_rowCells h]

theorem drawRows_cons {y : Nat} (hy : y < 64) {width : Nat} (h : width ≤ 128) (x row : Nat)
    (rest : List Nat) (s : Screen) (hits collisions : Nat) :
    drawRows width x y (row :: rest) s hits collisions =
      let count := (s.rowHits (spriteCovers width x y (row :: rest)) y).card
      drawRows width x (y + 1) rest (s.drawRow width x y row)
        (if count > 0 then hits + 1 else hits) (collisions + count) := by
  have hcount := (plots_plotHigh y).count_foldl (apart_rowCells h x y row) s 0
  rw [Nat.zero_add, countP_rowCells h] at hcount
  simp only [rowHits, spriteCovers_head, ← hcount]
  rw [drawRows, if_pos hy]
  rfl

theorem drawRows_clipped {y : Nat} (hy : 64 ≤ y) (width x row : Nat)
    (rest : List Nat) (s : Screen) (hits collisions : Nat) :
    drawRows width x y (row :: rest) s hits collisions =
      drawRows width x (y + 1) rest s (hits + 1) collisions := by
  rw [drawRows, if_neg (Nat.not_lt_of_le hy)]

theorem physical_drawRows {width : Nat} (h : width ≤ 128) (x y : Nat) (rows : List Nat)
    (s : Screen) (hits collisions : Nat) {X Y : Nat} (hY : Y < 64) :
    (drawRows width x y rows s hits collisions).1.physical X Y =
      (s.physical X Y ^^ spriteCovers width x y rows X Y) := by
  induction rows generalizing y s hits collisions with
  | nil => simp [drawRows, spriteCovers_nil]
  | cons row rest ih =>
    by_cases hy : y < 64
    · rw [drawRows_cons hy h]
      dsimp only
      rw [ih, physical_drawRow h, Nat.mod_eq_of_lt hy, Nat.mod_eq_of_lt hY]
      by_cases hyY : y = Y
      · subst hyY
        rw [spriteCovers_head, spriteCovers_above (Nat.lt_succ_self y)]
        simp
      · rw [spriteCovers_tail hyY]
        simp [hyY]
    · rw [drawRows_clipped (Nat.le_of_not_lt hy), ih, spriteCovers_tail (by omega)]

/-- A row is drawn where no other row is: the others find the same pixels with and without it. -/
theorem rowHits_drawRow {width : Nat} (h : width ≤ 128) (s : Screen) {y Y : Nat} (hy : y < 64)
    (hY : Y < 64) (hne : y ≠ Y) (x row : Nat) (rest : List Nat) :
    (s.drawRow width x y row).rowHits (spriteCovers width x (y + 1) rest) Y =
      s.rowHits (spriteCovers width x y (row :: rest)) Y := by
  ext X
  simp only [rowHits, Finset.mem_filter, physical_drawRow h, Nat.mod_eq_of_lt hy,
    Nat.mod_eq_of_lt hY, hne, spriteCovers_tail hne, decide_false, Bool.false_and, Bool.xor_false]

theorem rowHits_above {y Y : Nat} (h : Y < y) (s : Screen) (width x : Nat) (rows : List Nat) :
    s.rowHits (spriteCovers width x y rows) Y = ∅ := by
  simp [rowHits, spriteCovers_above h]

/-- The set pixels of the screen, among those that are covered. -/
def hitPixels (s : Screen) (covers : Nat → Nat → Bool) : Finset (Nat × Nat) :=
  (Finset.range 128 ×ˢ Finset.range 64).filter fun p =>
    covers p.1 p.2 = true ∧ s.physical p.1 p.2 = true

theorem card_hitPixels (s : Screen) (covers : Nat → Nat → Bool) :
    (s.hitPixels covers).card = ∑ Y ∈ Finset.range 64, (s.rowHits covers Y).card := by
  simp only [hitPixels, rowHits, Finset.card_filter, Finset.sum_product_right]

theorem collisions_drawRows {width : Nat} (h : width ≤ 128) (x y : Nat) (rows : List Nat)
    (s : Screen) (hits collisions : Nat) :
    (drawRows width x y rows s hits collisions).2.2 =
      collisions + (s.hitPixels (spriteCovers width x y rows)).card := by
  rw [card_hitPixels]
  induction rows generalizing y s hits collisions with
  | nil => simp [drawRows, spriteCovers_nil, rowHits]
  | cons row rest ih =>
    by_cases hy : y < 64
    · have hmem : y ∈ Finset.range 64 := Finset.mem_range.2 hy
      have hrest : ∑ Y ∈ (Finset.range 64).erase y,
            ((s.drawRow width x y row).rowHits (spriteCovers width x (y + 1) rest) Y).card =
          ∑ Y ∈ (Finset.range 64).erase y,
            (s.rowHits (spriteCovers width x y (row :: rest)) Y).card := by
        apply Finset.sum_congr rfl
        intro Y hY
        obtain ⟨hne, hlt⟩ := Finset.mem_erase.1 hY
        rw [rowHits_drawRow h s hy (Finset.mem_range.1 hlt) hne.symm]
      rw [drawRows_cons hy h]
      dsimp only
      rw [ih, ← Finset.add_sum_erase _ _ hmem, ← Finset.add_sum_erase _ _ hmem, hrest,
        rowHits_above (Nat.lt_succ_self y), Finset.card_empty]
      omega
    · have hrest : ∑ Y ∈ Finset.range 64, (s.rowHits (spriteCovers width x (y + 1) rest) Y).card =
          ∑ Y ∈ Finset.range 64, (s.rowHits (spriteCovers width x y (row :: rest)) Y).card := by
        apply Finset.sum_congr rfl
        intro Y hY
        have hlt := Finset.mem_range.1 hY
        rw [rowHits_above (by omega), rowHits_above (by omega)]
      rw [drawRows_clipped (Nat.le_of_not_lt hy), ih, hrest]

/-- The rows of a sprite that are clipped or have a set pixel among those that are covered. -/
def flaggedRows (s : Screen) (covers : Nat → Nat → Bool) (y count : Nat) : Finset Nat :=
  (Finset.range count).filter fun r =>
    64 ≤ y + r ∨ (s.rowHits covers (y + r)).Nonempty

theorem card_flaggedRows_succ (s : Screen) (covers : Nat → Nat → Bool) (y count : Nat) :
    (s.flaggedRows covers y (count + 1)).card =
      (s.flaggedRows covers (y + 1) count).card +
        if 64 ≤ y ∨ (s.rowHits covers y).Nonempty then 1 else 0 := by
  simp only [flaggedRows, ← Nat.count_eq_card_filter_range, Nat.count_succ', Nat.add_zero,
    ← Nat.add_assoc, Nat.add_right_comm y 1]

theorem hits_drawRows {width : Nat} (h : width ≤ 128) (x y : Nat) (rows : List Nat)
    (s : Screen) (hits collisions : Nat) :
    (drawRows width x y rows s hits collisions).2.1 =
      hits + (s.flaggedRows (spriteCovers width x y rows) y rows.length).card := by
  induction rows generalizing y s hits collisions with
  | nil => simp [drawRows, flaggedRows]
  | cons row rest ih =>
    rw [List.length_cons, card_flaggedRows_succ]
    by_cases hy : y < 64
    · have hrest : (s.drawRow width x y row).flaggedRows (spriteCovers width x (y + 1) rest) (y + 1)
            rest.length =
          s.flaggedRows (spriteCovers width x y (row :: rest)) (y + 1) rest.length := by
        apply Finset.filter_congr
        intro r _
        by_cases hclip : 64 ≤ y + 1 + r
        · simp [hclip]
        · rw [rowHits_drawRow h s hy (by omega) (by omega)]
      rw [drawRows_cons hy h]
      dsimp only
      rw [ih, hrest]
      simp only [Nat.not_le_of_lt hy, false_or, gt_iff_lt, Finset.card_pos]
      split <;> omega
    · have hclip : 64 ≤ y := Nat.le_of_not_lt hy
      have hrest : s.flaggedRows (spriteCovers width x (y + 1) rest) (y + 1) rest.length =
          s.flaggedRows (spriteCovers width x y (row :: rest)) (y + 1) rest.length := by
        apply Finset.filter_congr
        intro r _
        have hall : 64 ≤ y + 1 + r := by omega
        simp [hall]
      rw [drawRows_clipped hclip, ih, hrest]
      simp only [hclip, true_or, if_true]
      omega

theorem hires_drawRows {width : Nat} (h : width ≤ 128) (x y : Nat) (rows : List Nat) (s : Screen)
    (hits collisions : Nat) : (drawRows width x y rows s hits collisions).1.hires = s.hires := by
  induction rows generalizing y s hits collisions with
  | nil => rfl
  | cons row rest ih =>
    by_cases hy : y < 64
    · rw [drawRows_cons hy h]
      exact (ih _ _ _ _).trans ((plots_plotHigh y).hires_foldl (rowCells width x row) s 0)
    · rw [drawRows_clipped (Nat.le_of_not_lt hy), ih]

/-- The rows of a sprite, one byte each, or two in a wide sprite. -/
def spriteRows (wide : Bool) (sprite : List UInt8) : List Nat :=
  if wide then wideRows sprite else sprite.map UInt8.toNat

def spriteWidth (wide : Bool) : Nat := if wide then 16 else 8

theorem spriteWidth_le (wide : Bool) : spriteWidth wide ≤ 128 := by
  cases wide <;> decide

/-- A sprite of any rows flips the pixels that it covers, and counts those that were set and the
rows that had one of them or were clipped. -/
theorem drawHigh_eq (s : Screen) (x y : Nat) (sprite : List UInt8) (wide : Bool) :
    let d := s.drawHigh x y sprite wide
    let rows := spriteRows wide sprite
    let covers := spriteCovers (spriteWidth wide) (x % 128) (y % 64) rows
    d.screen.hires = s.hires ∧ d.rows = rows.length ∧
      d.collisions = (s.hitPixels covers).card ∧
      d.flag = UInt8.ofNat (min (s.flaggedRows covers (y % 64) rows.length).card 255) ∧
      ∀ X, ∀ Y < 64, d.screen.physical X Y = (s.physical X Y ^^ covers X Y) := by
  intro d rows covers
  have hwidth := spriteWidth_le wide
  have hhits := hits_drawRows hwidth (x % 128) (y % 64) rows s 0 0
  have hcollisions := collisions_drawRows hwidth (x % 128) (y % 64) rows s 0 0
  rw [Nat.zero_add] at hhits hcollisions
  refine ⟨hires_drawRows hwidth _ _ rows s 0 0, rfl, hcollisions, ?_, ?_⟩
  · rw [← hhits]
    rfl
  · intro X Y hY
    exact physical_drawRows hwidth _ _ rows s 0 0 hY

theorem getElem?_wideRows (sprite : List UInt8) (r : Nat) :
    (wideRows sprite)[r]?.getD 0 =
      (sprite[2 * r]?.getD 0).toNat * 256 + (sprite[2 * r + 1]?.getD 0).toNat := by
  induction sprite using wideRows.induct generalizing r with
  | case1 => simp [wideRows]
  | case2 a => cases r <;> simp [wideRows]
  | case3 a b rest ih =>
    cases r with
    | zero => simp [wideRows]
    | succ r => simpa [wideRows, Nat.mul_add] using ih r

theorem length_wideRows (sprite : List UInt8) :
    (wideRows sprite).length = (sprite.length + 1) / 2 := by
  induction sprite using wideRows.induct with
  | case1 => rfl
  | case2 a => simp [wideRows]
  | case3 a b rest ih =>
    simp only [wideRows, List.length_cons, ih]
    omega

end Screen

namespace Machine

/-- The number of rows of a sprite in high resolution: sixteen where the instruction says none. -/
def highCount (rows : Nibble) : Nat := if rows.val = 0 then 16 else rows.val

theorem highCount_le (rows : Nibble) : highCount rows ≤ 16 := by
  have hrows := rows.isLt
  rw [highCount]
  split <;> omega

/-- A row of the sprite of a draw in high resolution: a byte, or two of them, high end first, where
the instruction says no number of rows. -/
def highRow (m : Machine) (rows : Nibble) (r : Nat) : Nat :=
  let byte (i : Nat) := (m.cpu.memory.read ((m.cpu.index.toNat + i) % 4096)).toNat
  if rows.val = 0 then byte (2 * r) * 256 + byte (2 * r + 1) else byte r

/-- Whether the sprite of a draw in high resolution, with its upper left corner at the position in
two registers, has a set bit for a pixel. -/
def highCovers (m : Machine) (x y : Register) (rows : Nibble) (X Y : Nat) : Bool :=
  let width := if rows.val = 0 then 16 else 8
  let column := (X + 128 - (m.cpu.register x).toNat % 128) % 128
  let row := Y - (m.cpu.register y).toNat % 64
  decide ((m.cpu.register y).toNat % 64 ≤ Y ∧ row < highCount rows ∧ column < width) &&
    (m.highRow rows row).testBit (width - 1 - column)

def highSprite (m : Machine) (rows : Nibble) : List UInt8 :=
  m.cpu.bytesAtIndex (if rows.val = 0 then 32 else rows.val)

theorem length_highSprite (m : Machine) (rows : Nibble) :
    (Screen.spriteRows (rows.val == 0) (m.highSprite rows)).length = highCount rows := by
  by_cases hwide : rows.val = 0
  · simp [Screen.spriteRows, highSprite, highCount, hwide, Screen.length_wideRows,
      Cpu.length_bytesAtIndex]
  · simp [Screen.spriteRows, highSprite, highCount, hwide, Cpu.length_bytesAtIndex]

theorem getElem?_highSprite (m : Machine) (rows : Nibble) (r : Nat) :
    (Screen.spriteRows (rows.val == 0) (m.highSprite rows))[r]?.getD 0 =
      if r < highCount rows then m.highRow rows r else 0 := by
  by_cases hr : r < highCount rows
  · rw [if_pos hr]
    by_cases hwide : rows.val = 0
    · simp only [highCount, hwide, if_true] at hr
      simp only [highSprite, Screen.spriteRows, highRow, hwide, if_true, beq_self_eq_true,
        Screen.getElem?_wideRows, Memory.read_mod]
      rw [m.cpu.getElem?_bytesAtIndex (by omega), m.cpu.getElem?_bytesAtIndex (by omega)]
    · simp only [highCount, hwide, if_false] at hr
      have hbyte := m.cpu.getElem?_bytesAtIndex hr
      have hmap (o : Option UInt8) : (o.map UInt8.toNat).getD 0 = (o.getD 0).toNat := by
        cases o <;> rfl
      have hnarrow : (rows.val == 0) = false := by simp [hwide]
      simp only [highSprite, Screen.spriteRows, highRow, hwide, hnarrow, if_false,
        Bool.false_eq_true, List.getElem?_map, hmap, hbyte, Memory.read_mod]
  · rw [if_neg hr, List.getElem?_eq_none (by rw [length_highSprite]; omega), Option.getD_none]

theorem spriteCovers_highSprite (m : Machine) (x y : Register) (rows : Nibble) :
    Screen.spriteCovers (Screen.spriteWidth (rows.val == 0)) ((m.cpu.register x).toNat % 128)
        ((m.cpu.register y).toNat % 64) (Screen.spriteRows (rows.val == 0) (m.highSprite rows)) =
      m.highCovers x y rows := by
  funext X Y
  simp only [Screen.spriteCovers, Screen.rowCovers, Screen.spriteWidth, highCovers,
    getElem?_highSprite, Nat.mod_mod, beq_iff_eq]
  by_cases hrow : Y - (m.cpu.register y).toNat % 64 < highCount rows
  · simp only [hrow, if_true, true_and, Bool.decide_and, Bool.and_assoc]
  · simp [hrow]

theorem drawing_high {m : Machine} (hhigh : m.screen.hires = true) (x y : Register)
    (rows : Nibble) :
    m.drawing x y rows = m.screen.drawHigh (m.cpu.register x).toNat (m.cpu.register y).toNat
      (m.highSprite rows) (rows.val == 0) := by
  simp [drawing, hhigh, highSprite]

theorem card_flaggedRows_le (s : Screen) (covers : Nat → Nat → Bool) (y : Nat) (rows : Nibble) :
    (s.flaggedRows covers y (highCount rows)).card ≤ 16 := by
  have hcard := Finset.card_filter_le (Finset.range (highCount rows)) fun r =>
    64 ≤ y + r ∨ (s.rowHits covers (y + r)).Nonempty
  rw [Finset.card_range] at hcard
  exact Nat.le_trans hcard (highCount_le rows)

/-- A draw in high resolution flips the pixels with a set bit and leaves all others, sets VF to the
number of rows that were clipped or had a set bit on a set pixel, and is charged for all rows and
for as many collisions as there were such pixels. Besides it moves to the next instruction, and
nothing else changes. -/
theorem step_draw_high {m : Machine} (hf : m.fault = none) (hx : m.awaiting = none)
    (hhigh : m.screen.hires = true) {x y : Register} {rows : Nibble}
    (hi : m.nextInstruction = .draw x y rows) :
    let n := m.step.state
    let covers := m.highCovers x y rows
    let count := highCount rows
    let hits := (m.screen.hitPixels covers).card
    let flag := (m.screen.flaggedRows covers ((m.cpu.register y).toNat % 64) count).card
    let cost := m.settings.timing.cyclesOf (Cost.draw count hits)
    m.step.result = .ok .draw ∧
    (m.drawing x y rows).rows = count ∧ (m.drawing x y rows).collisions = hits ∧
    flag ≤ 16 ∧ (n.cpu.register 15).toNat = flag ∧
    (∀ X < 128, ∀ Y < 64,
      n.screen.physical X Y = (m.screen.physical X Y ^^ covers X Y)) ∧
    n = { m with
      screen := { m.screen with pixels := n.screen.pixels }
      cpu := { m.cpu.setFlag (UInt8.ofNat flag) with pc := (m.cpu.pc + 2) % 4096 }
      lastCost := cost
      owed := cost - 1 } := by
  intro n covers count hits flag cost
  obtain ⟨hresult, hstate⟩ := step_draw hf hx hi
  obtain ⟨hhires, hrows, hcollisions, hflag, hpixels⟩ := Screen.drawHigh_eq m.screen
    (m.cpu.register x).toNat (m.cpu.register y).toNat (m.highSprite rows) (rows.val == 0)
  rw [← drawing_high hhigh] at hhires hrows hcollisions hflag hpixels
  rw [spriteCovers_highSprite] at hcollisions hflag hpixels
  rw [length_highSprite] at hrows hflag
  have hle : flag ≤ 16 := card_flaggedRows_le m.screen covers _ rows
  have hmin : min flag 255 = flag := Nat.min_eq_left (by omega)
  change (m.drawing x y rows).flag = UInt8.ofNat (min flag 255) at hflag
  rw [hmin] at hflag
  rw [hrows, hcollisions, hflag] at hstate
  have hscreen : n.screen = (m.drawing x y rows).screen := congrArg Machine.screen hstate
  refine ⟨hresult, hrows, hcollisions, hle, ?_, ?_, ?_⟩
  · have hcpu : n.cpu = m.cpu.advance.setFlag (UInt8.ofNat flag) := congrArg Machine.cpu hstate
    have hregister : n.cpu.register 15 = UInt8.ofNat flag := by
      rw [hcpu]
      exact Cpu.register_setRegister_self _ _ _
    rw [hregister, UInt8.toNat_ofNat', Nat.mod_eq_of_lt (by omega)]
  · intro X _ Y hY
    rw [hscreen]
    exact hpixels X Y hY
  · have hkept : { m.screen with pixels := n.screen.pixels } = (m.drawing x y rows).screen := by
      rw [hscreen]
      exact congrArg (Screen.mk _) hhires.symm
    rw [hkept]
    exact hstate

/-- A square of sixteen rows with a single set bit, drawn again in the bottom row of the screen and
near its right edge: the pixel, which came in again on the left, is erased, its row collides and all
other rows are clipped. -/
theorem step_draw_high_again :
    let m := (new {} 0).performAll
      [.loadProgram [0x00, 0xFF, 0x60, 0x78, 0x61, 0x3F, 0xA2, 0x0C, 0xD0, 0x10, 0xD0, 0x10,
        0x00, 0x80], .runSteps 5]
    (m.fault = none ∧ m.awaiting = none ∧ m.screen.hires = true ∧
      m.nextInstruction = .draw 0 1 0) ∧
      m.screen.physical 0 63 = true ∧ m.step.state.screen.physical 0 63 = false ∧
      (m.step.state.cpu.register 15).toNat = 16 := by
  intro m
  have hstart : (m.fault = none ∧ m.awaiting = none ∧ m.screen.hires = true ∧
      m.nextInstruction = .draw 0 1 0) ∧
      m.screen.physical 0 63 = true ∧ m.highCovers 0 1 0 0 63 = true ∧
      (m.screen.flaggedRows (m.highCovers 0 1 0) ((m.cpu.register 1).toNat % 64)
        (highCount 0)).card = 16 := by
    decide +kernel
  obtain ⟨⟨hf, hx, hhigh, hi⟩, hset, hcovers, hflag⟩ := hstart
  obtain ⟨-, -, -, -, hregister, hpixels, -⟩ := step_draw_high hf hx hhigh hi
  refine ⟨⟨hf, hx, hhigh, hi⟩, hset, ?_, hregister.trans hflag⟩
  rw [hpixels 0 (by decide) 63 (by decide), hcovers, hset]
  rfl

end Machine
end Chip8
