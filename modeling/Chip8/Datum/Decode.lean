import Chip8.Datum.Refusal
import Chip8.Keypad
import Chip8.Preferences

/-! # Reading settings from data

Settings and preferences are read from a record by field name, in the order of the names, or from a
list by position. A field that is not given keeps its default, and a name that is not a field is
passed over. The first datum that does not fit is refused.
-/
namespace Chip8

namespace Datum

def toUnsigned : Datum → Except Refusal UInt64
  | .integer n =>
    if 0 ≤ n ∧ n.toNat < UInt64.size then .ok (UInt64.ofNat n.toNat)
    else .error (.wrongValue (.integer n) .unsigned)
  | d => .error (.wrongType d .unsigned)

def toBool : Datum → Except Refusal Bool
  | .bool b => .ok b
  | d => .error (.wrongType d .boolean)

def toUnsigned? : Datum → Except Refusal (Option UInt64)
  | .null => .ok none
  | d => d.toUnsigned.map some

def toKey : Datum → Except Refusal Key
  | .integer n =>
    if n < 0x8000000000000000 then
      match Key.ofInt? n with
      | some key => .ok key
      | none => .error (.wrongValue (.integer n) .key)
    else .error (.wrongValue (.integer n) .signed)
  | d => .error (.wrongType d .signed)

def timingOfName (name : String) : Except Refusal Timing :=
  match Timing.ofName? name with
  | some timing => .ok timing
  | none => .error (.unknownTiming name)

/-- A timing mode is its name, or a record whose only field is named so and holds nothing. -/
def toTiming : Datum → Except Refusal Timing
  | .text name => timingOfName name
  | .record [(name, d)] => do
    let timing ← timingOfName name
    match d with
    | .null => .ok timing
    | d => .error (.wrongType d .nothing)
  | .record fields => .error (.wrongValue (.record fields) .singleVariant)
  | d => .error (.wrongType d .variant)

/-- Read the fields of a record, or the items of a list, into a value that holds the defaults. -/
def readInto {α : Type} (names : List String) (set : α → String → Datum → Except Refusal α)
    (expected : Expected) (defaults : α) : Datum → Except Refusal α
  | .record fields =>
    (fields.mergeSort fun a b => a.1 ≤ b.1).foldlM (fun x (name, d) => set x name d) defaults
  | .list items => do
    let x ← (names.zip items).foldlM (fun x (name, d) => set x name d) defaults
    if names.length < items.length then .error (.wrongLength items.length .fewerItems) else .ok x
  | d => .error (.wrongType d expected)

end Datum

def Settings.fieldNames : List String :=
  ["cycle_rate", "timing", "legacy_shift", "legacy_memops", "seed"]

def Settings.setField (s : Settings) (name : String) (d : Datum) : Except Refusal Settings :=
  if name = "cycle_rate" then d.toUnsigned.map fun rate => { s with rate }
  else if name = "timing" then d.toTiming.map fun timing => { s with timing }
  else if name = "legacy_shift" then d.toBool.map fun legacyShift => { s with legacyShift }
  else if name = "legacy_memops" then d.toBool.map fun legacyMemory => { s with legacyMemory }
  else if name = "seed" then d.toUnsigned?.map fun seed => { s with seed }
  else .ok s

def Settings.ofDatum (d : Datum) : Except Refusal Settings :=
  d.readInto fieldNames setField .settings {}

def Preferences.fieldNames : List String :=
  ["cycles", "timing", "legacy_shift", "legacy_memops", "sound"]

def Preferences.setField (p : Preferences) (name : String) (d : Datum) :
    Except Refusal Preferences :=
  if name = "cycles" then d.toUnsigned.map fun cycles => { p with cycles }
  else if name = "timing" then d.toTiming.map fun timing => { p with timing }
  else if name = "legacy_shift" then d.toBool.map fun legacyShift => { p with legacyShift }
  else if name = "legacy_memops" then d.toBool.map fun legacyMemory => { p with legacyMemory }
  else if name = "sound" then d.toBool.map fun sound => { p with sound }
  else .ok p

def Preferences.ofDatum (d : Datum) : Except Refusal Preferences :=
  d.readInto fieldNames setField .preferences {}

end Chip8
