import Chip8.Clock
import Chip8.Timing

/-! # Machine settings

The rate at which instructions run in fixed timing, the timing mode, and two habits of the COSMAC
VIP that programs may rely on: a shift that reads and writes its second register too, and register
blocks that leave `I` behind the last byte. A seed fixes the random bytes.
-/
namespace Chip8

structure Settings where
  rate : UInt64 := Rate.default
  timing : Timing := .fixed
  legacyShift : Bool := false
  legacyMemory : Bool := false
  seed : Option UInt64 := none
deriving DecidableEq, Repr

namespace Settings

/-- The rate that the clock runs at: that of the timing mode, else the configured one. -/
def clockRate (s : Settings) : UInt64 := s.timing.baseRate?.getD s.rate

def withRate (s : Settings) (hz : UInt64) : Settings := { s with rate := Rate.clamp hz }

end Settings
end Chip8
