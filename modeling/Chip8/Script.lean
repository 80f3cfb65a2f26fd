import Chip8.Keypad
import Chip8.Yaml.Node

/-! # Key scripts

Key presses and releases at points in emulated time. A script is read from a sequence of mappings
and kept in order of time; events of the same time keep the order in which they were written.
-/
namespace Chip8

structure KeyEvent where
  /-- Milliseconds since the start of the run. -/
  millis : UInt64
  key : Key
  pressed : Bool
deriving DecidableEq, Repr

namespace KeyEvent

def keyOfScalar? (s : Yaml.Scalar) : Option Key := s.signed?.bind Key.ofInt?

def ofNode? (node : Yaml.Node) : Option KeyEvent := do
  let fields ← node.fields?
  let time ← Yaml.field? fields "at" Yaml.Scalar.unsigned? none
  let key ← Yaml.field? fields "key" keyOfScalar? none
  let pressed ← Yaml.field? fields "pressed" Yaml.Scalar.bool? (some true)
  some ⟨time, key, pressed⟩

/-- Whether an event is due, after some nanoseconds of emulated time. -/
def isDue (elapsed : Nat) (e : KeyEvent) : Bool := e.millis.toNat ≤ elapsed / 1000000

end KeyEvent

/-- The events that are still to come, in order of time. -/
structure Script where
  events : List KeyEvent
deriving DecidableEq, Repr

namespace Script

def empty : Script := ⟨[]⟩

/-- A script of events in the order in which they were written. -/
def ofEvents (events : List KeyEvent) : Script := ⟨events.mergeSort fun a b => a.millis ≤ b.millis⟩

def events? (text : String) : Option (List KeyEvent) := do
  let node ← Yaml.Node.ofText? text
  let items ← node.items?
  items.mapM KeyEvent.ofNode?

/-- The script that a text stands for, given how events are read from a text. -/
def ofText? (text : String) (read? : String → Option (List KeyEvent) := events?) : Option Script :=
  (read? text).map ofEvents

def due (s : Script) (elapsed : Nat) : List KeyEvent := s.events.takeWhile (KeyEvent.isDue elapsed)

def rest (s : Script) (elapsed : Nat) : Script := ⟨s.events.dropWhile (KeyEvent.isDue elapsed)⟩

theorem due_append_rest (s : Script) (elapsed : Nat) :
    s.due elapsed ++ (s.rest elapsed).events = s.events :=
  List.takeWhile_append_dropWhile

end Script
end Chip8
