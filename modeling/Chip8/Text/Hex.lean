/-! # Hexadecimal text

Numbers as base 16 digits. A field of fixed width is filled with zeros on the left and is never
cut: a number that needs more digits than the field has is written in full.
-/
namespace Chip8.Hex

def upperDigits (n : Nat) : List Char := (Nat.toDigits 16 n).map Char.toUpper

/-- Upper case digits, at least `width` of them. -/
def upper (width n : Nat) : String := String.ofList ((upperDigits n).leftpad width '0')

end Chip8.Hex
