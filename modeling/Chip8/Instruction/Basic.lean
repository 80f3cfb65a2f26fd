import Chip8.Instruction.Word

/-! # The instruction set

Instructions of the machine with the SUPER-CHIP extensions. The nine two-register operations and
the six conditions of a skip are types of their own. A word outside the instruction set is an
instruction too: it does nothing but move on.
-/
namespace Chip8

/-- Operations on two registers, the first of which receives the result. -/
inductive Arithmetic
  | copy | or | and | xor | add | sub | shiftRight | subReverse | shiftLeft
deriving DecidableEq, Repr

/-- Conditions under which the next instruction is skipped. -/
inductive Condition
  | equalsByte (x : Register) (byte : UInt8)
  | differsFromByte (x : Register) (byte : UInt8)
  | equals (x y : Register)
  | differs (x y : Register)
  | keyDown (x : Register)
  | keyUp (x : Register)
deriving DecidableEq, Repr

inductive Instruction
  | clearScreen
  | ret
  | exit
  | lowResolution
  | highResolution
  | scrollDown (rows : Nibble)
  | scrollRight
  | scrollLeft
  | jump (address : UInt16)
  | call (address : UInt16)
  /-- Jump to the address plus V0. -/
  | jumpOffset (address : UInt16)
  | skip (condition : Condition)
  | loadByte (x : Register) (byte : UInt8)
  | addByte (x : Register) (byte : UInt8)
  | arithmetic (op : Arithmetic) (x y : Register)
  | random (x : Register) (mask : UInt8)
  | loadIndex (address : UInt16)
  | addIndex (x : Register)
  | loadGlyph (x : Register)
  | draw (x y : Register) (rows : Nibble)
  | loadDelay (x : Register)
  | setDelay (x : Register)
  | setSound (x : Register)
  | waitKey (x : Register)
  /-- Store the three decimal digits of a register. -/
  | storeDecimal (x : Register)
  | storeRegisters (last : Register)
  | loadRegisters (last : Register)
  | unknown (word : Word)
deriving DecidableEq, Repr

end Chip8
