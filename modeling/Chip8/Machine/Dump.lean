import Chip8.Instruction.Mnemonic
import Chip8.Machine.Basic

/-! # Memory as text

Program memory as lines of an address and the word there.
-/
namespace Chip8.Machine

def dumpLine (m : Machine) (address : Nat) : String :=
  let word := Word.ofBytes (m.cpu.memory.read address) (m.cpu.memory.read (address + 1))
  Hex.upper 4 address ++ ": " ++ word.text ++ "\n"

/-- The words in the first `count` bytes of program memory; an odd last byte counts as a word. -/
def dumpMemory (m : Machine) (count : Nat) : String :=
  let count := min count (memorySize - programStart)
  String.join ((List.range ((count + 1) / 2)).map fun i => m.dumpLine (programStart + 2 * i))

end Chip8.Machine
