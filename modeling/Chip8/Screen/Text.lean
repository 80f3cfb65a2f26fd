import Chip8.Screen.Basic

/-! # The screen as rows and as text

The logical pixels row by row, as one list, and as lines with `#` for a set pixel and `.` for a
clear one.
-/
namespace Chip8.Screen

def row (s : Screen) (y : Nat) : List Bool := (List.range s.width).map fun x => s.pixel x y

def rows (s : Screen) : List (List Bool) := (List.range s.height).map s.row

def snapshot (s : Screen) : List Bool := s.rows.flatten

def physicalRow (s : Screen) (y : Nat) : List Bool :=
  (List.range 128).map fun x => s.physical x y

def mark (on : Bool) : Char := if on then '#' else '.'

def lineOf (pixels : List Bool) : List Char := pixels.map mark ++ ['\n']

def dump (s : Screen) : String := String.ofList (s.rows.flatMap lineOf)

end Chip8.Screen
