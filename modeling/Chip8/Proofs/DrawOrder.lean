import Chip8.Proofs.HighSprite
import Chip8.Proofs.LowSprite
import Mathlib.Algebra.Ring.Nat

/-! # Draws in any order

A draw flips pixels that depend on where it is and on its sprite, not on what is on the screen. So
it does not matter in which order sprites are drawn, and one that is drawn twice is not there. Only
the collisions tell what was on the screen: each set bit finds its pixel set in one of two draws
that follow on each other, and clear in the other.
-/
namespace Chip8

/-- A sprite with its position, in low or in high resolution. -/
inductive Draw
  | low (x y : Nat) (sprite : List UInt8)
  | high (x y : Nat) (sprite : List UInt8) (wide : Bool)
deriving DecidableEq, Repr

namespace Draw

/-- Whether a draw flips a physical pixel. The rows of a low sprite come to the same pixel again
where the sprite is higher than the screen. -/
def flips : Draw → Nat → Nat → Bool
  | .low x y sprite, X, Y =>
    ((Screen.lowCells (x % 64) (y % 32) sprite).countP (Screen.blockCovers · X Y)).bodd
  | .high x y sprite wide, X, Y =>
    Screen.spriteCovers (Screen.spriteWidth wide) (x % 128) (y % 64)
      (Screen.spriteRows wide sprite) X Y

/-- No two rows of the sprite come to the same row of the screen. Those of a sprite in high
resolution never do. -/
def RowsApart : Draw → Prop
  | .low _ _ sprite => sprite.length ≤ 32
  | .high .. => True

/-- The bytes of the sprite but for those of clipped rows. -/
def unclipped : Draw → List UInt8
  | .low _ _ sprite => sprite
  | .high _ y sprite wide => sprite.take ((64 - y % 64) * if wide then 2 else 1)

end Draw

def bitCount (byte : UInt8) : Nat := (List.range 8).countP byte.toNat.testBit

namespace Screen

def drawing (s : Screen) : Draw → Drawing
  | .low x y sprite => s.drawLow x y sprite
  | .high x y sprite wide => s.drawHigh x y sprite wide

def drawAll (s : Screen) (draws : List Draw) : Screen :=
  draws.foldl (fun s d => (s.drawing d).screen) s

theorem hires_drawing (s : Screen) (d : Draw) : (s.drawing d).screen.hires = s.hires := by
  cases d with
  | low x y sprite => exact plots_plotLow.hires_foldl _ s 0
  | high x y sprite wide => exact (s.drawHigh_eq x y sprite wide).1

theorem physical_drawing (s : Screen) (d : Draw) (X : Nat) {Y : Nat} (hY : Y < 64) :
    (s.drawing d).screen.physical X Y = (s.physical X Y ^^ d.flips X Y) := by
  cases d with
  | low x y sprite => exact plots_plotLow.physical_foldl_bodd _ s 0 X Y
  | high x y sprite wide =>
    obtain ⟨-, -, -, -, hpixels⟩ := s.drawHigh_eq x y sprite wide
    exact hpixels X Y hY

theorem drawAll_cons (s : Screen) (d : Draw) (rest : List Draw) :
    s.drawAll (d :: rest) = (s.drawing d).screen.drawAll rest := rfl

theorem hires_drawAll (s : Screen) (draws : List Draw) : (s.drawAll draws).hires = s.hires := by
  induction draws generalizing s with
  | nil => rfl
  | cons d rest ih =>
    rw [drawAll_cons]
    exact (ih _).trans (s.hires_drawing d)

/-- A pixel is flipped by all draws together where an odd number of them flips it. -/
theorem physical_drawAll (s : Screen) (draws : List Draw) (X : Nat) {Y : Nat} (hY : Y < 64) :
    (s.drawAll draws).physical X Y = (s.physical X Y ^^ (draws.countP (·.flips X Y)).bodd) := by
  induction draws generalizing s with
  | nil => simp [drawAll]
  | cons d rest ih =>
    rw [drawAll_cons, ih, s.physical_drawing d X hY, List.countP_cons]
    cases d.flips X Y with
    | false => simp
    | true => simp [Nat.bodd_succ]

theorem drawAll_congr (s : Screen) {draws draws' : List Draw}
    (h : ∀ X Y, (draws'.countP (·.flips X Y)).bodd = (draws.countP (·.flips X Y)).bodd) :
    s.drawAll draws' = s.drawAll draws := by
  apply eq_of_physical
  · rw [hires_drawAll, hires_drawAll]
  · intro X _ Y hY
    rw [s.physical_drawAll draws' X hY, s.physical_drawAll draws X hY, h]

theorem drawAll_perm (s : Screen) {draws draws' : List Draw} (h : draws.Perm draws') :
    s.drawAll draws' = s.drawAll draws := by
  apply drawAll_congr
  intro X Y
  rw [h.countP_eq]

theorem drawAll_twice (s : Screen) (d : Draw) (before between after : List Draw) :
    s.drawAll (before ++ d :: (between ++ d :: after)) =
      s.drawAll (before ++ (between ++ after)) := by
  apply drawAll_congr
  intro X Y
  simp only [List.countP_append, List.countP_cons, Nat.bodd_add]
  cases d.flips X Y <;> simp

theorem length_setColumns (width bits : Nat) :
    (setColumns width bits).length = (List.range width).countP bits.testBit := by
  have hreverse : (List.range width).map (width - 1 - ·) = (List.range width).reverse := by
    rw [List.range_eq_range', List.reverse_range', Nat.zero_add]
    simp [List.range_eq_range']
  rw [← List.countP_reverse, ← hreverse, List.countP_map, setColumns,
    ← List.countP_eq_length_filter]
  rfl

theorem length_setColumns_byte (byte : UInt8) :
    (setColumns 8 byte.toNat).length = bitCount byte := length_setColumns 8 byte.toNat

theorem length_setColumns_pair (high low : UInt8) :
    (setColumns 16 (high.toNat * 256 + low.toNat)).length = bitCount high + bitCount low := by
  have hbit := Nat.testBit_two_pow_mul_add high.toNat low.toNat_lt
  rw [length_setColumns, List.range_add (n := 8) (m := 8), List.countP_append, List.countP_map,
    Nat.mul_comm, Nat.add_comm (bitCount high)]
  congr 1
  · apply List.countP_congr
    intro k hk
    rw [hbit, if_pos (List.mem_range.1 hk)]
  · apply List.countP_congr
    intro k _
    rw [Function.comp_apply, hbit, if_neg (by omega), Nat.add_sub_cancel_left]

def setBits (width : Nat) (rows : List Nat) : Nat :=
  (rows.map fun row => (setColumns width row).length).sum

theorem length_lowCells (x y : Nat) (sprite : List UInt8) :
    (lowCells x y sprite).length = (sprite.map bitCount).sum := by
  induction sprite generalizing y with
  | nil => rfl
  | cons row rest ih =>
    rw [lowCells, List.length_append, List.length_map, length_setColumns_byte, ih, List.map_cons,
      List.sum_cons]

theorem setBits_narrow (sprite : List UInt8) :
    setBits 8 (sprite.map UInt8.toNat) = (sprite.map bitCount).sum := by
  rw [setBits, List.map_map]
  congr 2
  funext byte
  exact length_setColumns_byte byte

theorem setBits_wideRows (sprite : List UInt8) :
    setBits 16 (wideRows sprite) = (sprite.map bitCount).sum := by
  induction sprite using wideRows.induct with
  | case1 => rfl
  | case2 a =>
    have hzero : bitCount 0 = 0 := by decide
    have hlast := length_setColumns_pair a 0
    simpa [setBits, wideRows, hzero] using hlast
  | case3 a b rest ih =>
    have hfirst := length_setColumns_pair a b
    simp only [setBits, wideRows, List.map_cons, List.sum_cons] at ih ⊢
    rw [hfirst, ih, Nat.add_assoc]

theorem take_wideRows (sprite : List UInt8) (count : Nat) :
    (wideRows sprite).take count = wideRows (sprite.take (count * 2)) := by
  induction sprite using wideRows.induct generalizing count with
  | case1 => simp [wideRows]
  | case2 a => cases count <;> simp [wideRows, Nat.succ_mul]
  | case3 a b rest ih =>
    cases count with
    | zero => simp [wideRows]
    | succ count => simp [wideRows, Nat.succ_mul, ih]

theorem setBits_spriteRows (wide : Bool) (sprite : List UInt8) (count : Nat) :
    setBits (spriteWidth wide) ((spriteRows wide sprite).take count) =
      ((sprite.take (count * if wide then 2 else 1)).map bitCount).sum := by
  cases wide with
  | false =>
    have hcount : (count * if false then 2 else 1) = count := Nat.mul_one count
    rw [hcount, ← setBits_narrow, List.map_take]
    rfl
  | true =>
    have hcount : (count * if true then 2 else 1) = count * 2 := rfl
    rw [hcount, ← setBits_wideRows, ← take_wideRows]
    rfl

def full : Screen := ⟨Vector.replicate 8192 true, false⟩

theorem physical_full (x y : Nat) : full.physical x y = true := by
  simp [physical, full]

/-- What two screens have of the covered pixels, where one has those that the other has not. -/
theorem card_hitPixels_flipped {s t : Screen} {covers : Nat → Nat → Bool}
    (h : ∀ X, ∀ Y < 64, t.physical X Y = (s.physical X Y ^^ covers X Y)) :
    (s.hitPixels covers).card + (t.hitPixels covers).card = (full.hitPixels covers).card := by
  have hs : s.hitPixels covers = (full.hitPixels covers).filter fun p =>
      s.physical p.1 p.2 = true := by
    ext p
    simp [hitPixels, physical_full, and_assoc]
  have ht : t.hitPixels covers = (full.hitPixels covers).filter fun p =>
      ¬s.physical p.1 p.2 = true := by
    ext p
    simp only [hitPixels, physical_full, Finset.mem_filter, Finset.mem_product, Finset.mem_range,
      and_true, and_assoc]
    refine and_congr_right fun _ => and_congr_right fun hY => and_congr_right fun hcovers => ?_
    rw [h p.1 p.2 hY, hcovers]
    simp
  rw [hs, ht, Finset.card_filter_add_card_filter_not]

theorem card_rowHits_full {width : Nat} (h : width ≤ 128) (x y row : Nat) (rest : List Nat) :
    (full.rowHits (spriteCovers width x y (row :: rest)) y).card =
      (setColumns width row).length := by
  have hcount := countP_rowCells h full x y row
  simp only [physical_full, List.countP_true] at hcount
  simp only [rowHits, spriteCovers_head, physical_full, ← hcount]
  exact List.length_map _

theorem card_hitPixels_full {width : Nat} (h : width ≤ 128) (x y : Nat) (rows : List Nat) :
    (full.hitPixels (spriteCovers width x y rows)).card = setBits width (rows.take (64 - y)) := by
  rw [card_hitPixels]
  induction rows generalizing y with
  | nil => simp [spriteCovers_nil, rowHits, setBits]
  | cons row rest ih =>
    by_cases hy : y < 64
    · have hmem : y ∈ Finset.range 64 := Finset.mem_range.2 hy
      have hrest : ∑ Y ∈ (Finset.range 64).erase y,
            (full.rowHits (spriteCovers width x y (row :: rest)) Y).card =
          ∑ Y ∈ (Finset.range 64).erase y,
            (full.rowHits (spriteCovers width x (y + 1) rest) Y).card := by
        apply Finset.sum_congr rfl
        intro Y hY
        have hne := (Finset.mem_erase.1 hY).1
        simp only [rowHits, spriteCovers_tail hne.symm]
      have htail := ih (y + 1)
      rw [← Finset.add_sum_erase _ _ hmem, rowHits_above (Nat.lt_succ_self y), Finset.card_empty,
        Nat.zero_add] at htail
      have htake : 64 - y = 64 - (y + 1) + 1 := by omega
      rw [← Finset.add_sum_erase _ _ hmem, hrest, htail, card_rowHits_full h, htake,
        List.take_succ_cons]
      rfl
    · have hnone : 64 - y = 0 := by omega
      rw [hnone]
      apply Finset.sum_eq_zero
      intro Y hY
      rw [rowHits_above (by have := Finset.mem_range.1 hY; omega), Finset.card_empty]

/-- The collisions of a draw and of the same draw again: of each set bit that is not clipped, one of
the two finds the pixel set. -/
theorem collisions_drawing_twice (s : Screen) {d : Draw} (h : d.RowsApart) :
    (s.drawing d).collisions + ((s.drawing d).screen.drawing d).collisions =
      (d.unclipped.map bitCount).sum := by
  cases d with
  | low x y sprite =>
    rw [Draw.unclipped, ← length_lowCells (x % 64) (y % 32)]
    exact plots_plotLow.count_foldl_twice (apart_lowCells h) s
  | high x y sprite wide =>
    obtain ⟨-, -, hfirst, -, hpixels⟩ := s.drawHigh_eq x y sprite wide
    obtain ⟨-, -, hsecond, -, -⟩ := (s.drawHigh x y sprite wide).screen.drawHigh_eq x y sprite wide
    rw [Draw.unclipped, ← setBits_spriteRows, ← card_hitPixels_full (spriteWidth_le wide) (x % 128),
      ← card_hitPixels_flipped hpixels, ← hfirst, ← hsecond]
    rfl

/-- A sprite as high as the screen, and the same again below it, over and over: each time the second
takes the first back, and the two find the pixel of every set bit set once. -/
theorem drawLow_repeated (s : Screen) (x y : Nat) {sprite : List UInt8} (h : sprite.length = 32)
    (n : Nat) :
    let d := s.drawLow x y (List.replicate (2 * n) sprite).flatten
    d.screen = s ∧ d.collisions = n * (sprite.map bitCount).sum := by
  have hfold := plots_plotLow.foldl_repeated
    (apart_lowCells (x := x % 64) (y := y % 32) (Nat.le_of_eq h)) s 0 n
  rw [← lowCells_repeated h, Nat.zero_add, length_lowCells] at hfold
  exact ⟨congrArg Prod.fst hfold, congrArg Prod.snd hfold⟩

theorem rows_drawing_eq (s t : Screen) (d : Draw) : (t.drawing d).rows = (s.drawing d).rows := by
  cases d with
  | low x y sprite => rfl
  | high x y sprite wide => rfl

/-- Draws in any order lead to the same screen, in either resolution and with sprites of any size,
and in whatever resolution it is, which they leave alone; and two of them that are the same, with
others before, between and behind them, might as well be left out. Where the rows of the sprite
are apart, a draw and the same again find the pixel of every set bit, but for those of clipped rows,
set once together. -/
theorem draws_commute_and_cancel (s : Screen) (draws : List Draw) :
    (s.drawAll draws).hires = s.hires ∧
    (∀ draws', draws.Perm draws' → s.drawAll draws' = s.drawAll draws) ∧
    (∀ d before between after, draws = before ++ d :: (between ++ d :: after) →
      s.drawAll draws = s.drawAll (before ++ (between ++ after))) ∧
    ∀ d : Draw, d.RowsApart →
      let first := s.drawing d
      let second := first.screen.drawing d
      first.collisions + second.collisions = (d.unclipped.map bitCount).sum ∧
      second.rows = first.rows := by
  refine ⟨s.hires_drawAll draws, ?_, ?_, ?_⟩
  · intro draws' h
    exact s.drawAll_perm h
  · rintro d before between after rfl
    exact s.drawAll_twice d before between after
  · intro d h first second
    exact ⟨s.collisions_drawing_twice h, s.rows_drawing_eq first.screen d⟩

/-- A sprite of 33 rows, of which the last comes to the first again, and a wide one of three bytes,
of which the last lies below the bottom edge. The two may be drawn in the other order, the first
twice leaves the second alone, and the five set bits above the edge each find their pixel set
once. -/
theorem draws_commute_and_cancel_of_tall :
    let tall := Draw.low 60 31 (List.replicate 33 0xF1)
    let wide := Draw.high 120 63 [0x81, 0x07, 0xFF] true
    let s := full.drawAll [wide]
    s.drawAll [wide, tall] = s.drawAll [tall, wide] ∧
      s.drawAll [tall, wide, tall] = s.drawAll [wide] ∧
      (s.drawing wide).collisions + ((s.drawing wide).screen.drawing wide).collisions = 5 := by
  intro tall wide s
  obtain ⟨-, hperm, -, -⟩ := draws_commute_and_cancel s [tall, wide]
  obtain ⟨-, -, htwice, hcounts⟩ := draws_commute_and_cancel s [tall, wide, tall]
  have hbits : (wide.unclipped.map bitCount).sum = 5 := by decide
  exact ⟨hperm _ (.swap wide tall []), htwice tall [] [wide] [] rfl,
    (hcounts wide trivial).1.trans hbits⟩

end Screen
end Chip8
