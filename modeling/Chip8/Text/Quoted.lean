import Chip8.Text.Hidden

/-! # Quoted text

Text between double quotes. Quotes and backslashes are escaped, so are line breaks, tabs and NUL,
and a character without a glyph of its own is written as its hexadecimal code point in braces.
-/
namespace Chip8.Text

def escape (c : Char) : List Char :=
  if c = '"' then ['\\', '"']
  else if c = '\\' then ['\\', '\\']
  else if c = '\n' then ['\\', 'n']
  else if c = '\r' then ['\\', 'r']
  else if c = '\t' then ['\\', 't']
  else if c = '\x00' then ['\\', '0']
  else if isHidden c then ['\\', 'u', '\x7b'] ++ Nat.toDigits 16 c.toNat ++ ['\x7d']
  else [c]

def quoted (s : String) : String :=
  String.ofList ('"' :: s.toList.flatMap escape ++ ['"'])

end Chip8.Text
