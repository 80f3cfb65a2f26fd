import Chip8.Yaml.Scalar

/-! # Tokens

A document as a sequence of tokens. Block collections are recognised by columns: a collection opens
where something stands further right than the innermost open one, and closes where something stands
left of it. A key is recognised late, by the colon behind it, which must be in the same line and at
most 1024 bytes away; the tokens for it are then put in where the key began.
-/
namespace Chip8.Yaml

inductive Token
  | documentStart
  | documentEnd
  | sequenceStart
  | mappingStart
  | blockEnd
  | flowSequenceStart
  | flowSequenceEnd
  | flowMappingStart
  | flowMappingEnd
  | entry
  | comma
  | key
  | value
  | scalar (s : Scalar)
deriving DecidableEq, Repr

/-- A place where a key may have begun: the tokens before it, its place in the text, and whether
only a key may stand there. -/
structure KeyMark where
  tokens : Nat
  index : Nat
  line : Nat
  column : Nat
  required : Bool

/-- A text that is read as far as `cursor`. -/
structure Lexer where
  cursor : Cursor
  /-- Whether a key may begin here. -/
  keyAllowed : Bool
  /-- The columns of the open block collections, innermost first. -/
  indents : List Nat
  /-- The last place for a key inside the innermost bracket, or outside of all. -/
  mark : Option KeyMark
  /-- The same for the brackets around it, innermost first; one for each open bracket. -/
  outer : List (Option KeyMark)
  /-- Newest first. -/
  tokens : List Token
  count : Nat

namespace Lexer

def ofText (text : List Char) : Lexer where
  cursor := .ofText text
  keyAllowed := true
  indents := []
  mark := none
  outer := []
  tokens := []
  count := 0

def inFlow (l : Lexer) : Bool := !l.outer.isEmpty

def emit (l : Lexer) (t : Token) : Lexer :=
  { l with tokens := t :: l.tokens, count := l.count + 1 }

/-- Put tokens, newest first, in behind the first `position` tokens. -/
def insert (l : Lexer) (position : Nat) (ts : List Token) : Lexer :=
  let later := l.count - position
  { l with
    tokens := l.tokens.take later ++ ts ++ l.tokens.drop later
    count := l.count + ts.length }

def skip (l : Lexer) (count : Nat) : Lexer := { l with cursor := l.cursor.skip count }

def opensAt (l : Lexer) (column : Nat) : Bool :=
  !l.inFlow && l.indents.head?.all (· < column)

/-- Open a block collection at the current column, unless one is open there. -/
def openBlock (l : Lexer) (t : Token) : Lexer :=
  if l.opensAt l.cursor.column then
    { l.emit t with indents := l.cursor.column :: l.indents }
  else l

/-- Close the block collections that are further right than a column; all without one. -/
def closeBlocks (column : Option Nat) : List Nat → Lexer → Lexer
  | [], l => l
  | i :: rest, l =>
    if column.all (· < i) then closeBlocks column rest { l.emit .blockEnd with indents := rest }
    else l

def closeTo (l : Lexer) (column : Option Nat) : Lexer :=
  if l.inFlow then l else closeBlocks column l.indents l

/-- Forget the last place for a key, which must not be one where a key is required. -/
def dropMark (l : Lexer) : Option Lexer :=
  if l.mark.any (·.required) then none else some { l with mark := none }

def setMark (l : Lexer) : Option Lexer :=
  if l.keyAllowed then
    l.dropMark.map fun l =>
      { l with mark := some {
          tokens := l.count
          index := l.cursor.index
          line := l.cursor.line
          column := l.cursor.column
          required := !l.inFlow && l.indents.head? == some l.cursor.column } }
  else some l

/-- Whether a colon here would be too far behind a place for a key. -/
def isStale (l : Lexer) (k : KeyMark) : Bool :=
  k.line < l.cursor.line || k.index + 1024 < l.cursor.index

def dropStale (l : Lexer) : Option Lexer :=
  if (l.mark :: l.outer).any fun k => k.any fun k => l.isStale k && k.required then none
  else some { l with
    mark := l.mark.filter (!l.isStale ·)
    outer := l.outer.map (·.filter (!l.isStale ·)) }

/-- Skip blanks, comments and line breaks. Outside of brackets a key may begin in a new line, and
a tab is a blank only where no key may begin. A byte order mark may begin a line; it takes a
column. -/
def skipSpace (inFlow : Bool) (inComment keyAllowed : Bool) (index line column : Nat) :
    List Char → Cursor × Bool
  | [] => (⟨[], index, line, column⟩, keyAllowed)
  | c :: rest =>
    if c == '\r' && startsWith '\n' rest then
      skipSpace inFlow false keyAllowed (index + 1) line column rest
    else if isBreak c then
      skipSpace inFlow false (keyAllowed || !inFlow) (index + c.utf8Size) (line + 1) 0 rest
    else if inComment || c == '#' then
      skipSpace inFlow true keyAllowed (index + c.utf8Size) line (column + 1) rest
    else if column == 0 && c == '\ufeff' then
      skipSpace inFlow false keyAllowed (index + c.utf8Size) line (column + 1) rest
    else if c == ' ' || (c == '\t' && (inFlow || !keyAllowed)) then
      skipSpace inFlow false keyAllowed (index + 1) line (column + 1) rest
    else (⟨c :: rest, index, line, column⟩, keyAllowed)

/-- Move to the next token, and close what ends before it. -/
def approach (l : Lexer) : Option Lexer := do
  let c := l.cursor
  let (cursor, keyAllowed) :=
    skipSpace l.inFlow false l.keyAllowed c.index c.line c.column c.rest
  let l ← { l with cursor, keyAllowed }.dropStale
  some (l.closeTo (some cursor.column))

def readMarker (l : Lexer) (t : Token) : Option Lexer := do
  let l ← (l.closeTo none).dropMark
  some ({ l with keyAllowed := false }.skip 3 |>.emit t)

def openBracket (l : Lexer) (t : Token) : Option Lexer := do
  let l ← l.setMark
  some ({ l with outer := l.mark :: l.outer, mark := none, keyAllowed := true }.skip 1 |>.emit t)

def closeBracket (l : Lexer) (t : Token) : Option Lexer := do
  let l ← l.dropMark
  let l := match l.outer with
    | [] => l
    | mark :: outer => { l with mark, outer }
  some ({ l with keyAllowed := false }.skip 1 |>.emit t)

def readComma (l : Lexer) : Option Lexer := do
  let l ← l.dropMark
  some ({ l with keyAllowed := true }.skip 1 |>.emit .comma)

def readEntry (l : Lexer) : Option Lexer := do
  let l ← if l.inFlow then some l
    else if l.keyAllowed then some (l.openBlock .sequenceStart)
    else none
  let l ← l.dropMark
  some ({ l with keyAllowed := true }.skip 1 |>.emit .entry)

def readKey (l : Lexer) : Option Lexer := do
  let l ← if l.inFlow then some l
    else if l.keyAllowed then some (l.openBlock .mappingStart)
    else none
  let l ← l.dropMark
  some ({ l with keyAllowed := !l.inFlow }.skip 1 |>.emit .key)

/-- A colon: what stands at the last place for a key is a key, if there is such a place. -/
def readValue (l : Lexer) : Option Lexer := do
  let l ← match l.mark with
    | some k =>
      let l := if l.opensAt k.column then
          { l.insert k.tokens [.key, .mappingStart] with indents := k.column :: l.indents }
        else l.insert k.tokens [.key]
      some { l with mark := none, keyAllowed := false }
    | none =>
      if l.inFlow then some { l with keyAllowed := false }
      else if l.keyAllowed then some { l.openBlock .mappingStart with keyAllowed := true }
      else none
  some (l.skip 1 |>.emit .value)

def readQuotedScalar (l : Lexer) (double : Bool) : Option Lexer := do
  let l ← l.setMark
  let c := l.cursor.skip 1
  let (text, cursor) ← readQuoted double (c.rest.length + 1) c []
  some ({ l with cursor, keyAllowed := false }.emit (.scalar ⟨text, false⟩))

def readPlainScalar (l : Lexer) : Option Lexer := do
  let l ← l.setMark
  let c := l.cursor
  let indent := l.indents.head?.elim 0 (· + 1)
  let (text, cursor, broken) ← readPlain l.inFlow indent (c.rest.length + 1) c {} []
  some ({ l with cursor, keyAllowed := broken }.emit (.scalar ⟨text, true⟩))

def indicators : List Char :=
  ['-', '?', ':', ',', '[', ']', '\x7b', '\x7d', '#', '&', '*', '!', '|', '>', '\x27', '"', '%',
   '@', '\x60']

def startsPlain (inFlow : Bool) (c : Char) (rest : List Char) : Bool :=
  !isBlank c && (c ∉ indicators || (c == '-' && !(rest.head?.any isBlank)) ||
    (!inFlow && (c == '?' || c == ':') && !atSpace rest))

/-- Read the token at the cursor. Anchors, aliases, tags, directives and block scalars are refused. -/
def readToken (l : Lexer) (c : Char) (rest : List Char) : Option Lexer :=
  if l.cursor.atMarker '-' then l.readMarker .documentStart
  else if l.cursor.atMarker '.' then l.readMarker .documentEnd
  else if c == '[' then l.openBracket .flowSequenceStart
  else if c == '\x7b' then l.openBracket .flowMappingStart
  else if c == ']' then l.closeBracket .flowSequenceEnd
  else if c == '\x7d' then l.closeBracket .flowMappingEnd
  else if c == ',' then l.readComma
  else if c == '-' && atSpace rest then l.readEntry
  else if c == '?' && (l.inFlow || atSpace rest) then l.readKey
  else if c == ':' && (l.inFlow || atSpace rest) then l.readValue
  else if c == '\x27' then l.readQuotedScalar false
  else if c == '"' then l.readQuotedScalar true
  else if startsPlain l.inFlow c rest then l.readPlainScalar
  else none

def finish (l : Lexer) : Option (List Token) :=
  (l.closeTo none).dropMark.map fun l => l.tokens.reverse

/-- Read tokens to the end of the text, at most as many as the fuel. -/
def run : Nat → Lexer → Option (List Token)
  | 0, _ => none
  | fuel + 1, l => do
    let l ← l.approach
    match l.cursor.rest with
    | [] => l.finish
    | c :: rest => (← l.readToken c rest).run fuel

end Lexer

/-- The tokens of a text. Every token takes at least one character. -/
def tokens? (text : List Char) : Option (List Token) :=
  if text.all isAllowed then Lexer.run (text.length + 1) (.ofText text) else none

end Chip8.Yaml
