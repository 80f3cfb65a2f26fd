import Chip8.Settings

/-! # Preferences

What a user sets once for all programs: the rate, the timing, the two habits of the COSMAC VIP, and
whether the player tells when the buzzer goes on and off.
-/
namespace Chip8

structure Preferences where
  cycles : UInt64 := Rate.default
  timing : Timing := .fixed
  legacyShift : Bool := false
  legacyMemory : Bool := false
  sound : Bool := true
deriving DecidableEq, Repr

namespace Preferences

/-- The same preferences with a rate that the clock supports. -/
def normalized (p : Preferences) : Preferences := { p with cycles := Rate.clamp p.cycles }

def toSettings (p : Preferences) (seed : Option UInt64) : Settings where
  rate := p.cycles
  timing := p.timing
  legacyShift := p.legacyShift
  legacyMemory := p.legacyMemory
  seed := seed

def setTiming (p : Preferences) (name : String) : Except Timing.Unknown Preferences :=
  (Timing.read name).map fun timing => { p with timing }

def boolText (b : Bool) : String := if b then "true" else "false"

/-- The five preferences in their written form, one to a line. -/
def text (p : Preferences) : String :=
  "cycles: " ++ toString p.cycles.toNat ++ "\n" ++
  "timing: " ++ p.timing.name ++ "\n" ++
  "legacy_shift: " ++ boolText p.legacyShift ++ "\n" ++
  "legacy_memops: " ++ boolText p.legacyMemory ++ "\n" ++
  "sound: " ++ boolText p.sound ++ "\n"

end Preferences
end Chip8
