/-! # Shortest decimal text of a float

The fewest digits that read back as the same number, and of those the nearest. A finite number is
`m * 2 ^ q`; the reals that round to it form an interval, whose ends belong to it exactly when `m`
is even. On the grid of the multiples of a power of ten only the two neighbours of the number need
to be tried, and grids are tried from coarse to fine.
-/
namespace Chip8.Decimal

/-- A positive number and the interval of reals that round to it, as numerators over one
denominator. -/
structure Interval where
  low : Nat
  value : Nat
  high : Nat
  den : Nat
  closed : Bool

namespace Interval

def contains (i : Interval) (numerator : Nat) : Bool :=
  if i.closed then i.low ≤ numerator && numerator ≤ i.high
  else i.low < numerator && numerator < i.high

/-- The same interval with the power of ten as the unit. -/
def inUnit (i : Interval) (power : Int) : Interval :=
  if 0 ≤ power then { i with den := i.den * Nat.pow 10 power.toNat }
  else
    let factor := Nat.pow 10 (-power).toNat
    { i with low := i.low * factor, value := i.value * factor, high := i.high * factor }

def nearestWhole? (i : Interval) : Option Nat :=
  let below := i.value / i.den
  let above := below + 1
  match i.contains (below * i.den), i.contains (above * i.den) with
  | false, false => none
  | true, false => some below
  | false, true => some above
  | true, true =>
    let down := i.value - below * i.den
    let up := above * i.den - i.value
    if down < up || (down == up && below % 2 == 0) then some below else some above

def leadingPower (i : Interval) : Int :=
  if i.den ≤ i.value then Int.ofNat ((Nat.toDigits 10 (i.value / i.den)).length - 1)
  else
    match (List.range 400).find? fun j => i.den ≤ i.value * Nat.pow 10 j with
    | some j => -Int.ofNat j
    | none => -400

def dropZero (digits : Nat) (power : Int) : Nat × Int :=
  if digits % 10 = 0 then (digits / 10, power + 1) else (digits, power)

/-- The shortest digits and the power of ten at the last of them. A number just below a power of
ten may be that power, with one zero too many. -/
def shortest (i : Interval) : Nat × Int :=
  let lead := i.leadingPower
  let tries := (List.range 17).filterMap fun n : Nat =>
    let power := lead - n
    (i.inUnit power).nearestWhole?.map fun digits => dropZero digits power
  tries.headD (i.value / i.den, 0)

end Interval

/-- The interval of a positive finite float, from its exponent and fraction fields. Below a power
of two the gap is half as wide. -/
def Interval.ofFields (exponent fraction : Nat) : Interval :=
  let m := if exponent = 0 then fraction else fraction + 0x10000000000000
  let e := max exponent 1
  let factor := Nat.pow 2 (e - 1077)
  { low := (4 * m - if fraction = 0 && 1 < exponent then 1 else 2) * factor
    value := 4 * m * factor
    high := (4 * m + 2) * factor
    den := Nat.pow 2 (1077 - e)
    closed := m % 2 == 0 }

/-- Digits at a power of ten in positional notation, always with a point. -/
def positional (digits : List Char) (power : Int) : List Char :=
  if 0 ≤ power then digits ++ List.replicate power.toNat '0' ++ ['.', '0']
  else
    let places := (-power).toNat
    let digits := digits.leftpad (places + 1) '0'
    digits.take (digits.length - places) ++ '.' :: digits.drop (digits.length - places)

/-- Digits with a point behind the first of them, where more follow, and the power of ten at the
first. -/
def scientific (digits : List Char) (lead : Int) : List Char :=
  let fraction := match digits.drop 1 with
    | [] => []
    | more => '.' :: more
  let sign := if 0 ≤ lead then '+' else '-'
  digits.take 1 ++ fraction ++ 'e' :: sign :: Nat.toDigits 10 lead.natAbs

/-- A number with its first digit at the powers of ten from -5 to 15 is written in positional
notation, any other in scientific notation. -/
def numberText (digits : List Char) (power : Int) : List Char :=
  let lead := power + Int.ofNat (digits.length - 1)
  if -5 ≤ lead ∧ lead ≤ 15 then positional digits power else scientific digits lead

/-- A float with the fewest digits; in positional notation with `.0` behind a whole number. -/
def floatText (x : Float) : String :=
  let bits := x.toBits.toNat
  let sign := if bits / 0x8000000000000000 = 1 then "-" else ""
  let exponent := bits / 0x10000000000000 % 2048
  let fraction := bits % 0x10000000000000
  if exponent = 2047 then
    if fraction = 0 then sign ++ "inf" else "NaN"
  else if exponent = 0 ∧ fraction = 0 then sign ++ "0.0"
  else
    let (digits, power) := (Interval.ofFields exponent fraction).shortest
    sign ++ String.ofList (numberText (Nat.toDigits 10 digits) power)

end Chip8.Decimal
