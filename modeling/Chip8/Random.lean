/-! # Random bytes

A machine takes the bytes of a stream in order. A generator has a stream for every seed, and one for
every key of 256 bits, from which a machine without a seed takes its bytes.
-/
namespace Chip8

structure Random where
  stream : Nat → UInt8
  /-- Bytes taken so far. -/
  position : Nat

namespace Random

abbrev Key := Vector UInt32 8

instance : OfNat Key 0 := ⟨.replicate 8 0⟩

structure Generator where
  ofSeed : UInt64 → Nat → UInt8
  ofKey : Key → Nat → UInt8

/-- The stream of a seed, or of a key where there is none. -/
def Generator.stream (g : Generator) (seed : Option UInt64) (entropy : Key) : Nat → UInt8 :=
  match seed with
  | some seed => g.ofSeed seed
  | none => g.ofKey entropy

def peek (r : Random) : UInt8 := r.stream r.position

def skip (r : Random) : Random := { r with position := r.position + 1 }

end Random
end Chip8
