import Chip8.Preferences
import Chip8.Text.Blank
import Chip8.Yaml.Node

/-! # Reading preferences from text

A format tells how preferences are read from a text and written as one. Whatever the format, a text
of white space alone stands for the defaults, and a rate that the clock does not support is moved to
the nearest one that it does. The format of the program is a YAML mapping; a field that is not given
keeps its default, and other fields are passed over.
-/
namespace Chip8

def Timing.ofScalar? (s : Yaml.Scalar) : Option Timing := ofName? (String.ofList s.text)

namespace Preferences

structure Format where
  read? : String → Option Preferences
  write? : Preferences → Option String

def ofFields? (fields : List (String × Yaml.Node)) : Option Preferences := do
  let cycles ← Yaml.field? fields "cycles" Yaml.Scalar.unsigned? (some Rate.default)
  let timing ← Yaml.field? fields "timing" Timing.ofScalar? (some .fixed)
  let legacyShift ← Yaml.field? fields "legacy_shift" Yaml.Scalar.bool? (some false)
  let legacyMemory ← Yaml.field? fields "legacy_memops" Yaml.Scalar.bool? (some false)
  let sound ← Yaml.field? fields "sound" Yaml.Scalar.bool? (some true)
  some { cycles, timing, legacyShift, legacyMemory, sound }

def ofNode? (node : Yaml.Node) : Option Preferences := node.fields?.bind ofFields?

def parse? (text : String) : Option Preferences := (Yaml.Node.ofText? text).bind ofNode?

def Format.yaml : Format := ⟨parse?, fun p => some p.text⟩

/-- The preferences that a text stands for. -/
def ofText? (text : String) (format : Format := .yaml) : Option Preferences :=
  if Text.isAllBlank text then some {} else (format.read? text).map normalized

end Preferences
end Chip8
