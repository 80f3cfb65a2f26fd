/-! # Main memory

4096 bytes. Every address wraps around the size of the memory. Programs are loaded from `0x200`;
the sixteen glyphs of the font, five bytes each, lie from `0x50`.
-/
namespace Chip8

def memorySize : Nat := 4096
def programStart : Nat := 0x200
def fontStart : Nat := 0x50
def glyphHeight : Nat := 5

/-- The glyphs of the digits `0` to `F`, row by row. -/
def font : List UInt8 :=
  [0xF0, 0x90, 0x90, 0x90, 0xF0,
   0x20, 0x60, 0x20, 0x20, 0x70,
   0xF0, 0x10, 0xF0, 0x80, 0xF0,
   0xF0, 0x10, 0xF0, 0x10, 0xF0,
   0x90, 0x90, 0xF0, 0x10, 0x10,
   0xF0, 0x80, 0xF0, 0x10, 0xF0,
   0xF0, 0x80, 0xF0, 0x90, 0xF0,
   0xF0, 0x10, 0x20, 0x40, 0x40,
   0xF0, 0x90, 0xF0, 0x90, 0xF0,
   0xF0, 0x90, 0xF0, 0x10, 0xF0,
   0xF0, 0x90, 0xF0, 0x90, 0x90,
   0xE0, 0x90, 0xE0, 0x90, 0xE0,
   0xF0, 0x80, 0x80, 0x80, 0xF0,
   0xE0, 0x90, 0x90, 0x90, 0xE0,
   0xF0, 0x80, 0xF0, 0x80, 0xF0,
   0xF0, 0x80, 0xF0, 0x80, 0x80]

structure Memory where
  bytes : Vector UInt8 4096
deriving DecidableEq

namespace Memory

def cell (address : Nat) : Fin 4096 := ⟨address % 4096, Nat.mod_lt _ (by decide)⟩

def read (m : Memory) (address : Nat) : UInt8 := m.bytes[cell address]

def write (m : Memory) (address : Nat) (byte : UInt8) : Memory :=
  ⟨m.bytes.set (cell address) byte⟩

def writeAll (m : Memory) (address : Nat) : List UInt8 → Memory
  | [] => m
  | b :: rest => (m.write address b).writeAll (address + 1) rest

def readAll (m : Memory) (address count : Nat) : List UInt8 :=
  (List.range count).map fun i => m.read (address + i)

def zero : Memory := ⟨Vector.replicate 4096 0⟩

/-- Memory before a program is loaded: the font, and zero elsewhere. -/
def initial : Memory := zero.writeAll fontStart font

theorem read_mod (m : Memory) (address : Nat) : m.read (address % 4096) = m.read address := by
  simp [read, cell]

theorem write_mod (m : Memory) (address : Nat) (byte : UInt8) :
    m.write (address % 4096) byte = m.write address byte := by
  simp [write, cell]

@[simp] theorem read_write_self (m : Memory) (a : Nat) (b : UInt8) : (m.write a b).read a = b := by
  simp [read, write]

theorem read_write_of_ne (m : Memory) {a c : Nat} (b : UInt8) (h : a % 4096 ≠ c % 4096) :
    (m.write a b).read c = m.read c := by
  simp only [read, write, Fin.getElem_fin]
  exact Vector.getElem_set_ne _ _ h

theorem writeAll_append (m : Memory) (address : Nat) (first second : List UInt8) :
    m.writeAll address (first ++ second) =
      (m.writeAll address first).writeAll (address + first.length) second := by
  induction first generalizing m address with
  | nil => rfl
  | cons byte rest ih =>
    have hnext : address + (byte :: rest).length = address + 1 + rest.length := by
      rw [List.length_cons]
      omega
    rw [List.cons_append, writeAll, ih, hnext]
    rfl

end Memory
end Chip8
