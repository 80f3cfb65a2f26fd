import Chip8.Screen.Basic

/-! # Scrolling

Scrolling moves the physical pixels, in either resolution: down by any number of rows, sideways by
four columns. What moves past an edge is lost, and what comes in is clear.
-/
namespace Chip8.Screen

def scrollColumns : Nat := 4

def scrollDown (s : Screen) (rows : Nat) : Screen :=
  { s with pixels := Vector.ofFn fun i : Fin 8192 =>
      if rows * 128 ≤ i.val then s.pixels[(⟨i.val - rows * 128, by omega⟩ : Fin 8192)] else false }

def scrollRight (s : Screen) : Screen :=
  { s with pixels := Vector.ofFn fun i : Fin 8192 =>
      if 4 ≤ i.val % 128 then s.pixels[(⟨i.val - 4, by omega⟩ : Fin 8192)] else false }

def scrollLeft (s : Screen) : Screen :=
  { s with pixels := Vector.ofFn fun i : Fin 8192 =>
      if h : i.val % 128 < 124 then s.pixels[(⟨i.val + 4, by omega⟩ : Fin 8192)] else false }

theorem hires_scrollDown (s : Screen) (rows : Nat) : (s.scrollDown rows).hires = s.hires :=
  s.hires_withPixels _

theorem hires_scrollRight (s : Screen) : s.scrollRight.hires = s.hires := s.hires_withPixels _

theorem hires_scrollLeft (s : Screen) : s.scrollLeft.hires = s.hires := s.hires_withPixels _

theorem physical_scrollDown (s : Screen) (rows x y : Nat) (hy : y < 64) :
    (s.scrollDown rows).physical x y = if rows ≤ y then s.physical x (y - rows) else false := by
  have e : rows * 128 ≤ x % 128 + y % 64 * 128 ↔ rows ≤ y := by omega
  simp only [physical, scrollDown, position, Fin.getElem_fin, Vector.getElem_ofFn, e]
  split
  · congr 1
    omega
  · rfl

theorem physical_scrollRight (s : Screen) (x y : Nat) (hx : x < 128) :
    s.scrollRight.physical x y = if 4 ≤ x then s.physical (x - 4) y else false := by
  have e : 4 ≤ (x % 128 + y % 64 * 128) % 128 ↔ 4 ≤ x := by omega
  simp only [physical, scrollRight, position, Fin.getElem_fin, Vector.getElem_ofFn, e]
  split
  · congr 1
    omega
  · rfl

theorem physical_scrollLeft (s : Screen) (x y : Nat) (hx : x < 128) :
    s.scrollLeft.physical x y = if x < 124 then s.physical (x + 4) y else false := by
  have e : (x % 128 + y % 64 * 128) % 128 < 124 ↔ x < 124 := by omega
  simp only [physical, scrollLeft, position, Fin.getElem_fin, Vector.getElem_ofFn, e]
  split
  · congr 1
    omega
  · rfl

end Chip8.Screen
