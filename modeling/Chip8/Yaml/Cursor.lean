/-! # Reading a text by lines and columns

A cursor is the rest of a text with its place: how many bytes were read, the line, and the column in
it, which counts characters. A carriage return followed by a line feed is one line break.
-/
namespace Chip8.Yaml

def isAllowed (c : Char) : Bool :=
  let n := c.toNat
  n = 0x9 || n = 0xA || n = 0xD || (0x20 ≤ n && n ≤ 0x7E) || n = 0x85 ||
    (0xA0 ≤ n && n ≤ 0xD7FF) || (0xE000 ≤ n && n ≤ 0xFFFD) || 0x10000 ≤ n

def isBlank (c : Char) : Bool := c = ' ' || c = '\t'

def isBreak (c : Char) : Bool :=
  c = '\n' || c = '\r' || c = '\u0085' || c = '\u2028' || c = '\u2029'

/-- The character that a line break stands for in a scalar. -/
def breakChar (c : Char) : Char := if c = '\u2028' || c = '\u2029' then c else '\n'

/-- Whether a text goes on with a blank, a line break, or not at all. -/
def atSpace : List Char → Bool
  | [] => true
  | c :: _ => isBlank c || isBreak c

def startsWith (c : Char) (text : List Char) : Bool := text.head? == some c

structure Cursor where
  rest : List Char
  index : Nat
  line : Nat
  column : Nat

namespace Cursor

def ofText (text : List Char) : Cursor := ⟨text, 0, 0, 0⟩

def size (text : List Char) : Nat := text.foldl (fun n c => n + c.utf8Size) 0

def skip (c : Cursor) (count : Nat) : Cursor where
  rest := c.rest.drop count
  index := c.index + size (c.rest.take count)
  line := c.line
  column := c.column + count

/-- Move to a later place in the line, given what is left from there on. -/
def goTo (c : Cursor) (rest : List Char) : Cursor := c.skip (c.rest.length - rest.length)

/-- Whether the line begins with three dashes or three dots, alone or before a space. -/
def atMarker (c : Cursor) (mark : Char) : Bool :=
  c.column == 0 && c.rest.take 3 == [mark, mark, mark] && atSpace (c.rest.drop 3)

def atDocumentMarker (c : Cursor) : Bool := c.atMarker '-' || c.atMarker '.'

end Cursor

/-- Blanks and line breaks between two words of a scalar. `first` and `more` hold the breaks, and
blanks count only where there was none. -/
structure Gap where
  blanks : List Char := []
  broken : Bool := false
  first : List Char := []
  more : List Char := []

namespace Gap

/-- What a gap stands for. A single line break is folded into a space, and of several the first is
dropped. -/
def text (g : Gap) : List Char :=
  if !g.broken then g.blanks
  else if g.first = ['\n'] then if g.more = [] then [' '] else g.more
  else g.first ++ g.more

def addBreak (g : Gap) (c : Char) : Gap :=
  if g.broken then { g with more := g.more ++ [c] }
  else { g with blanks := [], broken := true, first := [c] }

def addBlank (g : Gap) (c : Char) : Gap :=
  if g.broken then g else { g with blanks := g.blanks ++ [c] }

/-- Read blanks and line breaks into a gap. A tab in the indentation, left of the column `floor`,
is refused. -/
def read (floor : Nat) (g : Gap) (index line column : Nat) : List Char → Option (Gap × Cursor)
  | [] => some (g, ⟨[], index, line, column⟩)
  | c :: rest =>
    if isBlank c then
      if g.broken && column < floor && c == '\t' then none
      else (g.addBlank c).read floor (index + 1) line (column + 1) rest
    else if c == '\r' && startsWith '\n' rest then g.read floor (index + 1) line column rest
    else if isBreak c then
      (g.addBreak (breakChar c)).read floor (index + c.utf8Size) (line + 1) 0 rest
    else some (g, ⟨c :: rest, index, line, column⟩)

end Gap

def Cursor.readGap (c : Cursor) (floor : Nat) (g : Gap) : Option (Gap × Cursor) :=
  g.read floor c.index c.line c.column c.rest

end Chip8.Yaml
