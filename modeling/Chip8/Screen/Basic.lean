/-! # The screen

A grid of 128 by 64 physical pixels, and the resolution in which it is addressed. In low resolution
a logical pixel is a block of two by two physical ones, read at its upper left corner. Changing the
resolution leaves the pixels alone. Coordinates wrap around both edges.
-/
namespace Chip8

structure Screen where
  pixels : Vector Bool 8192
  hires : Bool
deriving DecidableEq

namespace Screen

def blank : Screen := ⟨Vector.replicate 8192 false, false⟩

def width (s : Screen) : Nat := if s.hires then 128 else 64
def height (s : Screen) : Nat := if s.hires then 64 else 32

/-- The position of a physical pixel in the grid, row by row. -/
def position (x y : Nat) : Fin 8192 := ⟨x % 128 + y % 64 * 128, by omega⟩

def physical (s : Screen) (x y : Nat) : Bool := s.pixels[position x y]

/-- The logical pixel at a coordinate. -/
def pixel (s : Screen) (x y : Nat) : Bool :=
  if s.hires then s.physical x y else s.physical (2 * x) (2 * y)

def clear (s : Screen) : Screen := { s with pixels := Vector.replicate 8192 false }

def setHires (s : Screen) (on : Bool) : Screen := { s with hires := on }

def flip (s : Screen) (x y : Nat) : Screen :=
  let i := position x y
  { s with pixels := s.pixels.set i (!s.pixels[i]) }

def flipBlock (s : Screen) (x y : Nat) : Screen :=
  (((s.flip (2 * x) (2 * y)).flip (2 * x + 1) (2 * y)).flip (2 * x) (2 * y + 1)).flip
    (2 * x + 1) (2 * y + 1)

/-- The pixels are a variable here: those of a scrolled screen would be compared one by one. -/
theorem hires_withPixels (s : Screen) (pixels : Vector Bool 8192) :
    { s with pixels }.hires = s.hires := rfl

theorem position_eq_iff {x y x' y' : Nat} :
    position x y = position x' y' ↔ x % 128 = x' % 128 ∧ y % 64 = y' % 64 := by
  simp only [position, Fin.mk.injEq]
  omega

theorem physical_blank (x y : Nat) : blank.physical x y = false := by
  simp [physical, blank]

theorem physical_flip (s : Screen) (x y x' y' : Nat) :
    (s.flip x y).physical x' y' =
      if x % 128 = x' % 128 ∧ y % 64 = y' % 64 then !s.physical x' y' else s.physical x' y' := by
  simp only [physical, flip, Fin.getElem_fin]
  rw [Vector.getElem_set]
  by_cases h : position x y = position x' y'
  · simp [h, position_eq_iff.1 h]
  · rw [if_neg (fun e => h (Fin.ext e)), if_neg (fun e => h (position_eq_iff.2 e))]

theorem eq_of_physical {s t : Screen} (hhires : t.hires = s.hires)
    (hpixels : ∀ x < 128, ∀ y < 64, t.physical x y = s.physical x y) : t = s := by
  obtain ⟨pixels, hires⟩ := s
  obtain ⟨pixels', hires'⟩ := t
  obtain rfl : hires' = hires := hhires
  congr 1
  ext i hi
  have h := hpixels (i % 128) (Nat.mod_lt i (by decide)) (i / 128) (by omega)
  have hposition : i % 128 % 128 + i / 128 % 64 * 128 = i := by omega
  simpa only [physical, position, Fin.getElem_fin, hposition] using h

end Screen
end Chip8
