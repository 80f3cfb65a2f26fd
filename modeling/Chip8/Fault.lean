import Chip8.Text.Hex

/-! # Faults

Errors that stop the interpreter for good: a return without a call, or a call nested too deep,
each with the address of the instruction. A third kind stands for text that could not be written;
the interpreter never raises it.
-/
namespace Chip8

inductive Fault
  | stackUnderflow (pc : UInt16)
  | stackOverflow (pc : UInt16)
  | unwritable
deriving DecidableEq, Repr

namespace Fault

def pc? : Fault → Option UInt16
  | .stackUnderflow pc => some pc
  | .stackOverflow pc => some pc
  | .unwritable => none

def message : Fault → String
  | .stackUnderflow pc => "call stack underflow at " ++ Hex.upper 4 pc.toNat
  | .stackOverflow pc => "call stack overflow at " ++ Hex.upper 4 pc.toNat
  | .unwritable => "an error occurred when formatting an argument"

end Fault
end Chip8
