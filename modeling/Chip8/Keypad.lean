/-! # The keypad

Sixteen keys, each up or down. A key is written as `k` and its lower case digit.
-/
namespace Chip8

abbrev Key := Fin 16

def keyCount : Nat := 16

namespace Key

def text (k : Key) : String := "k" ++ String.ofList (Nat.toDigits 16 k)

/-- A number that stands for no key. -/
structure Invalid where
  id : UInt8
deriving DecidableEq, Repr

def Invalid.message (e : Invalid) : String :=
  s!"keycode must be in range 0 <= keycode < 16, got {e.id.toNat}"

def ofByte (id : UInt8) : Except Invalid Key :=
  if h : id.toNat < 16 then .ok ⟨id.toNat, h⟩ else .error ⟨id⟩

def ofInt? (n : Int) : Option Key :=
  if h : 0 ≤ n ∧ n < 16 then some ⟨n.toNat, by omega⟩ else none

def all : List Key := List.finRange 16

end Key

/-- Which of the sixteen keys are down. -/
structure Keypad where
  down : Vector Bool 16
deriving DecidableEq, Repr

namespace Keypad

def released : Keypad := ⟨Vector.replicate 16 false⟩

def set (p : Keypad) (k : Key) (pressed : Bool) : Keypad := ⟨p.down.set k pressed⟩

def isDown (p : Keypad) (k : Key) : Bool := p.down[k]

/-- Whether a key is down. A number that stands for no key is never down. -/
def isPressed (p : Keypad) (id : UInt8) : Bool :=
  if h : id.toNat < 16 then p.isDown ⟨id.toNat, h⟩ else false

def anyPressed (p : Keypad) : Bool := Key.all.any p.isDown

def pressed (p : Keypad) : List Key := Key.all.filter p.isDown

theorem isDown_released (k : Key) : released.isDown k = false := by
  simp [isDown, released]

theorem isDown_set (p : Keypad) (k j : Key) (pressed : Bool) :
    (p.set k pressed).isDown j = if k = j then pressed else p.isDown j := by
  simp only [isDown, set, Fin.getElem_fin, Vector.getElem_set, Fin.ext_iff]

theorem isPressed_iff {p : Keypad} {id : UInt8} :
    p.isPressed id = true ↔ ∃ h : id.toNat < 16, p.isDown ⟨id.toNat, h⟩ = true := by
  by_cases h : id.toNat < 16 <;> simp [isPressed, h]

/-- The keys that are down after the word `keys:`; nothing when none is. -/
def text (p : Keypad) : String :=
  if p.anyPressed then "keys:" ++ String.join (p.pressed.map fun k => " " ++ k.text) else ""

end Keypad
end Chip8
