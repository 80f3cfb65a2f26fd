import Chip8.Text.Blank

/-! # Timing modes

With fixed timing every instruction takes one cycle, at the configured rate. With COSMAC timing an
instruction takes as many cycles as the interpreter of the COSMAC VIP needed for it, and the clock
runs at the rate of that machine.
-/
namespace Chip8

inductive Timing
  | fixed
  | cosmac
deriving DecidableEq, Repr

namespace Timing

/-- Machine cycles per second of the COSMAC VIP: 1.76 MHz, eight pulses to a cycle. -/
def cosmacRate : UInt64 := 220113

/-- The clock rate that the mode prescribes, if it does. -/
def baseRate? : Timing → Option UInt64
  | .fixed => none
  | .cosmac => some cosmacRate

def name : Timing → String
  | .fixed => "fixed"
  | .cosmac => "cosmac"

def ofName? (name : String) : Option Timing :=
  if name = "fixed" then some .fixed else if name = "cosmac" then some .cosmac else none

theorem ofName?_name (mode : Timing) : ofName? mode.name = some mode := by
  cases mode <;> simp [ofName?, name]

/-- A text that names no timing mode. -/
structure Unknown where
  name : String
deriving DecidableEq, Repr

def Unknown.message (e : Unknown) : String :=
  "unknown timing mode \"" ++ e.name ++ "\", expected fixed or cosmac"

def read (text : String) : Except Unknown Timing :=
  match ofName? (Text.trim text) with
  | some mode => .ok mode
  | none => .error ⟨Text.trim text⟩

end Timing
end Chip8
