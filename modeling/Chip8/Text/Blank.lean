/-! # White space

The 25 characters with the `White_Space` property, and removal of such characters from both ends
of a text. Core's class `Char.isWhitespace` holds only four of them.
-/
namespace Chip8.Text

def isBlank (c : Char) : Bool :=
  let n := c.toNat
  (9 ≤ n && n ≤ 13) || n = 0x20 || n = 0x85 || n = 0xA0 || n = 0x1680 ||
    (0x2000 ≤ n && n ≤ 0x200A) || n = 0x2028 || n = 0x2029 || n = 0x202F || n = 0x205F ||
    n = 0x3000

def trim (s : String) : String :=
  String.ofList (((s.toList.dropWhile isBlank).reverse.dropWhile isBlank).reverse)

def isAllBlank (s : String) : Bool := s.toList.all isBlank

end Chip8.Text
