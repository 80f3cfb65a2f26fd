/-! # Data

A value of the kind that settings are given as: nothing, a truth value, a number, a text, a list,
or a record of named values. Integers are kept apart from other numbers.
-/
namespace Chip8

inductive Datum
  | null
  | bool (b : Bool)
  | integer (n : Int)
  | float (x : Float)
  | text (s : String)
  | list (items : List Datum)
  | record (fields : List (String × Datum))

end Chip8
