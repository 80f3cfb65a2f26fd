import Chip8.Instruction.Decode
import Chip8.Instruction.Mnemonic
import Chip8.Memory

/-! # Program listings

A program is listed two bytes to a line, from the address where programs are loaded: the address,
the word, and the instruction it reads as. Sprites among the instructions are listed as whatever
they read as. An odd last byte is listed as a byte.
-/
namespace Chip8
namespace Listing

def wordLine (address : Nat) (w : Word) : String :=
  Hex.upper 4 address ++ ": " ++ w.text ++ "  " ++ (Instruction.decode w).mnemonic ++ "\n"

def byteLine (address : Nat) (b : UInt8) : String :=
  let byte := Hex.upper 2 b.toNat
  Hex.upper 4 address ++ ": " ++ byte ++ "    db 0x" ++ byte ++ "\n"

/-- The lines of the bytes that lie from an address on. -/
def lines (address : Nat) : List UInt8 → List String
  | [] => []
  | [b] => [byteLine address b]
  | high :: low :: rest => wordLine address (.ofBytes high low) :: lines (address + 2) rest

end Listing

def listing (program : List UInt8) : String :=
  String.join (Listing.lines programStart program)

/-- A program that is listed line by line, and how many of its bytes were listed. -/
structure Lister where
  program : List UInt8
  listed : Nat := 0

namespace Lister

/-- The next line, empty at the end of the program. -/
def next (l : Lister) : String × Lister :=
  let address := programStart + l.listed
  match l.program.drop l.listed with
  | [] => ("", l)
  | [b] => (Listing.byteLine address b, { l with listed := l.listed + 1 })
  | high :: low :: _ =>
    (Listing.wordLine address (.ofBytes high low), { l with listed := l.listed + 2 })

theorem program_next (l : Lister) : l.next.2.program = l.program := by
  simp only [next]
  split <;> rfl

/-- Before the end of the program, a line takes at least a byte. -/
theorem listed_lt_next {l : Lister} (h : l.listed < l.program.length) :
    l.listed < l.next.2.listed := by
  simp only [next]
  split
  · rename_i hdrop
    have hle := List.drop_eq_nil_iff.1 hdrop
    omega
  · exact Nat.lt_succ_self _
  · exact Nat.lt_add_of_pos_right (by decide)

def writeRest (l : Lister) (written : String) : String × Lister :=
  if l.listed < l.program.length then l.next.2.writeRest (written ++ l.next.1) else (written, l)
termination_by l.program.length - l.listed
decreasing_by
  have hlt := listed_lt_next ‹_›
  rw [program_next]
  omega

def all (l : Lister) : String × Lister := { l with listed := 0 }.writeRest ""

end Lister
end Chip8
