import Chip8.Datum.Basic
import Chip8.Decimal.Shortest
import Chip8.Text.Quoted

/-! # Refused data

Why a datum was refused: it is of the wrong kind, or of the right kind with a value out of range,
or it names an unknown variant, or a list has too many items.
-/
namespace Chip8

/-- What was expected in the place of a refused datum. -/
inductive Expected
  | unsigned
  | signed
  | key
  | boolean
  | settings
  | preferences
  | variant
  | singleVariant
  | nothing
  | fewerItems
deriving DecidableEq, Repr

def Expected.text : Expected → String
  | .unsigned => "u64"
  | .signed => "i64"
  | .key => "an integer between 0 and 15"
  | .boolean => "a boolean"
  | .settings => "struct Chip8Conf"
  | .preferences => "struct AppConfig"
  | .variant => "string or map"
  | .singleVariant => "map with a single key"
  | .nothing => "unit"
  | .fewerItems => "fewer elements in array"

def Datum.description : Datum → String
  | .null => "null"
  | .bool b => "boolean \x60" ++ (if b then "true" else "false") ++ "\x60"
  | .integer n => "integer \x60" ++ toString n ++ "\x60"
  | .float x => "floating point \x60" ++ Decimal.floatText x ++ "\x60"
  | .text s => "string " ++ Text.quoted s
  | .list _ => "sequence"
  | .record _ => "map"

inductive Refusal
  | wrongType (found : Datum) (expected : Expected)
  | wrongValue (found : Datum) (expected : Expected)
  | wrongLength (length : Nat) (expected : Expected)
  | unknownTiming (name : String)

def Refusal.message : Refusal → String
  | .wrongType found expected =>
    "invalid type: " ++ found.description ++ ", expected " ++ expected.text
  | .wrongValue found expected =>
    "invalid value: " ++ found.description ++ ", expected " ++ expected.text
  | .wrongLength length expected =>
    "invalid length " ++ toString length ++ ", expected " ++ expected.text
  | .unknownTiming name =>
    "unknown variant \x60" ++ name ++ "\x60, expected \x60fixed\x60 or \x60cosmac\x60"

end Chip8
