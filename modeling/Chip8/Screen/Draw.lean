import Chip8.Screen.Basic

/-! # Drawing sprites

A sprite is drawn by flipping the pixels of its set bits, one after the other, row by row. Each
flip that finds its pixel set is a collision. In low resolution a row is one byte and the sprite
wraps around both edges. In high resolution a row is one byte, or two in a wide sprite; it wraps
around the right edge, and rows below the bottom edge are clipped.
-/
namespace Chip8

/-- What drawing a sprite did. -/
structure Drawing where
  screen : Screen
  flag : UInt8
  rows : Nat
  collisions : Nat

/-- The columns of the set bits in a row of the given width, from the left. -/
def setColumns (width bits : Nat) : List Nat :=
  (List.range width).filter fun c => bits.testBit (width - 1 - c)

namespace Screen

/-- The low resolution pixels that a sprite covers, in drawing order. -/
def lowCells (x y : Nat) : List UInt8 → List (Nat × Nat)
  | [] => []
  | row :: rest =>
    (setColumns 8 row.toNat).map (fun c => ((x + c) % 64, y % 32)) ++ lowCells x (y + 1) rest

/-- Flip a low resolution pixel, and count it when it was set. -/
def plotLow (state : Screen × Nat) (cell : Nat × Nat) : Screen × Nat :=
  let (s, hits) := state
  let hit := s.physical (2 * cell.1) (2 * cell.2)
  (s.flipBlock cell.1 cell.2, if hit then hits + 1 else hits)

/-- Draw in low resolution. The flag tells whether there was a collision. -/
def drawLow (s : Screen) (x y : Nat) (sprite : List UInt8) : Drawing :=
  let (screen, collisions) := (lowCells (x % 64) (y % 32) sprite).foldl plotLow (s, 0)
  ⟨screen, if collisions > 0 then 1 else 0, sprite.length, collisions⟩

/-- The rows of a sprite two bytes wide; a missing last byte counts as zero. -/
def wideRows : List UInt8 → List Nat
  | [] => []
  | [a] => [a.toNat * 256]
  | a :: b :: rest => (a.toNat * 256 + b.toNat) :: wideRows rest

def plotHigh (y : Nat) (state : Screen × Nat) (x : Nat) : Screen × Nat :=
  let (s, hits) := state
  let hit := s.physical x y
  (s.flip x y, if hit then hits + 1 else hits)

/-- Draw the rows of a high resolution sprite. `hits` counts the rows that collided or were
clipped, `collisions` the pixels. -/
def drawRows (width x : Nat) : Nat → List Nat → Screen → (hits collisions : Nat) →
    Screen × Nat × Nat
  | _, [], s, hits, collisions => (s, hits, collisions)
  | y, row :: rest, s, hits, collisions =>
    if y < 64 then
      let (s, c) := ((setColumns width row).map (x + ·)).foldl (plotHigh y) (s, 0)
      drawRows width x (y + 1) rest s (if c > 0 then hits + 1 else hits) (collisions + c)
    else drawRows width x (y + 1) rest s (hits + 1) collisions

/-- Draw in high resolution. The flag is the number of rows that collided or were clipped, at most
what a byte holds. -/
def drawHigh (s : Screen) (x y : Nat) (sprite : List UInt8) (wide : Bool) : Drawing :=
  let rows := if wide then wideRows sprite else sprite.map UInt8.toNat
  let (screen, hits, collisions) :=
    drawRows (if wide then 16 else 8) (x % 128) (y % 64) rows s 0 0
  ⟨screen, UInt8.ofNat (min hits 255), rows.length, collisions⟩

end Screen
end Chip8
