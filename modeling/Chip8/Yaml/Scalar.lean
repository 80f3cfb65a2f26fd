import Chip8.Text.Digits
import Chip8.Yaml.Cursor

/-! # Scalars

The text of a scalar, plain or between quotes, and its reading as a number or a truth value. Only a
plain scalar is a number or a truth value; a quoted one is a text whatever it says.
-/
namespace Chip8.Yaml

structure Scalar where
  text : List Char
  plain : Bool
deriving DecidableEq, Repr

/-- One word of a plain scalar and what follows it. The word ends at a space or at a colon before a
space, inside brackets also at a comma or bracket. There a colon right before an indicator is
refused. -/
def plainWord (inFlow : Bool) : List Char → Option (List Char × List Char)
  | [] => some ([], [])
  | c :: rest =>
    if isBlank c || isBreak c then some ([], c :: rest)
    else if inFlow && c == ':' && rest.head?.any (· ∈ [',', '?', '[', ']', '\x7b', '\x7d']) then
      none
    else if (c == ':' && atSpace rest) ||
        (inFlow && c ∈ [',', '[', ']', '\x7b', '\x7d']) then some ([], c :: rest)
    else (plainWord inFlow rest).map fun (word, rest) => (c :: word, rest)

/-- A plain scalar, the gap behind its last word included. The result tells whether that gap holds
a line break. In block context the scalar goes on in the next line only from column `indent` on. -/
def readPlain (inFlow : Bool) (indent : Nat) : Nat → Cursor → Gap → List Char →
    Option (List Char × Cursor × Bool)
  | 0, _, _, _ => none
  | fuel + 1, c, gap, text =>
    if c.atDocumentMarker || startsWith '#' c.rest then some (text, c, gap.broken)
    else do
      let (word, rest) ← plainWord inFlow c.rest
      let (text, gap) := if word.isEmpty then (text, gap) else (text ++ gap.text ++ word, {})
      let c := c.goTo rest
      if rest.isEmpty || !atSpace rest then some (text, c, gap.broken)
      else
        let (gap, c) ← c.readGap indent gap
        if !inFlow && c.column < indent then some (text, c, gap.broken)
        else readPlain inFlow indent fuel c gap text

/-- One word of a scalar between single quotes: a quote is written twice. -/
def singleWord : List Char → List Char × List Char
  | [] => ([], [])
  | '\x27' :: '\x27' :: rest =>
    let (word, rest) := singleWord rest
    ('\x27' :: word, rest)
  | c :: rest =>
    if c == '\x27' || isBlank c || isBreak c then ([], c :: rest)
    else
      let (word, rest) := singleWord rest
      (c :: word, rest)

def simpleEscape? (c : Char) : Option Char :=
  match c with
  | '0' => some '\x00'
  | 'a' => some '\x07'
  | 'b' => some '\x08'
  | 't' => some '\t'
  | '\t' => some '\t'
  | 'n' => some '\n'
  | 'v' => some '\x0b'
  | 'f' => some '\x0c'
  | 'r' => some '\r'
  | 'e' => some '\x1b'
  | ' ' => some ' '
  | '"' => some '"'
  | '/' => some '/'
  | '\\' => some '\\'
  | 'N' => some '\u0085'
  | '_' => some '\u00a0'
  | 'L' => some '\u2028'
  | 'P' => some '\u2029'
  | _ => none

def escapeLength? (c : Char) : Option Nat :=
  match c with
  | 'x' => some 2
  | 'u' => some 4
  | 'U' => some 8
  | _ => none

def codePoint? (digits : List Char) : Option Char := do
  let n ← digits.foldlM (fun n c => (Text.hexValue? c).map fun v => n * 16 + v) 0
  if n.isValidChar then some (Char.ofNat n) else none

/-- One word of a scalar between double quotes. A word also ends at a backslash before a line
break, which the result tells. -/
def doubleWord : Nat → List Char → Option (List Char × List Char × Bool)
  | 0, _ => none
  | _, [] => some ([], [], false)
  | fuel + 1, c :: rest =>
    if c == '"' || isBlank c || isBreak c then some ([], c :: rest, false)
    else if c == '\\' then
      match rest with
      | [] => none
      | e :: rest =>
        if isBreak e then some ([], e :: rest, true)
        else match escapeLength? e with
          | some count =>
            if rest.length < count then none
            else do
              let char ← codePoint? (rest.take count)
              let (word, rest, escaped) ← doubleWord fuel (rest.drop count)
              some (char :: word, rest, escaped)
          | none => do
            let char ← simpleEscape? e
            let (word, rest, escaped) ← doubleWord fuel rest
            some (char :: word, rest, escaped)
    else do
      let (word, rest, escaped) ← doubleWord fuel rest
      some (c :: word, rest, escaped)

def quotedWord (double : Bool) (text : List Char) : Option (List Char × List Char × Bool) :=
  if double then doubleWord (text.length + 1) text
  else
    let (word, rest) := singleWord text
    some (word, rest, false)

/-- The rest of a quoted scalar, the closing quote included. -/
def readQuoted (double : Bool) : Nat → Cursor → List Char → Option (List Char × Cursor)
  | 0, _, _ => none
  | fuel + 1, c, text =>
    if c.atDocumentMarker || c.rest.isEmpty then none
    else do
      let (word, rest, escaped) ← quotedWord double c.rest
      let c := c.goTo rest
      let text := text ++ word
      if !escaped && startsWith (if double then '"' else '\x27') rest then some (text, c.skip 1)
      else
        let (gap, c) ←
          if escaped then (skipBreak c).bind (·.readGap 0 { broken := true })
          else c.readGap 0 {}
        readQuoted double fuel c (text ++ gap.text)
where
  /-- Move past one line break. -/
  skipBreak (c : Cursor) : Option Cursor :=
    match c.rest with
    | '\r' :: '\n' :: rest => some ⟨rest, c.index + 2, c.line + 1, 0⟩
    | char :: rest => some ⟨rest, c.index + char.utf8Size, c.line + 1, 0⟩
    | [] => none

def hasLeadingZero (digits : List Char) : Bool :=
  1 < digits.length && startsWith '0' digits && digits.all Char.isDigit

/-- Digits behind one of the marks `0x`, `0o` and `0b`, and the base that the mark gives. -/
def radixDigits? : List Char → Option (Nat × List Char)
  | '0' :: 'x' :: digits => some (16, digits)
  | '0' :: 'o' :: digits => some (8, digits)
  | '0' :: 'b' :: digits => some (2, digits)
  | _ => none

/-- A whole number without its sign: with a mark for the base, or decimal without a leading zero. -/
def magnitude? (text : List Char) : Option Nat :=
  match radixDigits? text with
  | some (base, digits) => Text.natOfDigits? base digits
  | none => if hasLeadingZero text then none else Text.natOfDigits? 10 text

namespace Scalar

/-- A number of 64 bits. A plus sign may stand before it, a minus sign may not. -/
def unsigned? (s : Scalar) : Option UInt64 :=
  let digits := if startsWith '+' s.text then s.text.drop 1 else s.text
  if s.plain then
    (magnitude? digits).bind fun n => if n < UInt64.size then some (UInt64.ofNat n) else none
  else none

def signed? (s : Scalar) : Option Int :=
  if !s.plain then none
  else if startsWith '-' s.text then
    (magnitude? (s.text.drop 1)).bind fun n =>
      if n ≤ 0x8000000000000000 then some (-Int.ofNat n) else none
  else
    let digits := if startsWith '+' s.text then s.text.drop 1 else s.text
    (magnitude? digits).bind fun n =>
      if n < 0x8000000000000000 then some (Int.ofNat n) else none

def bool? (s : Scalar) : Option Bool :=
  let text := String.ofList s.text
  if !s.plain then none
  else if text = "true" ∨ text = "True" ∨ text = "TRUE" then some true
  else if text = "false" ∨ text = "False" ∨ text = "FALSE" then some false
  else none

/-- An empty plain scalar, which stands for a value that was not written. -/
def isAbsent (s : Scalar) : Bool := s.plain && s.text.isEmpty

end Scalar
end Chip8.Yaml
