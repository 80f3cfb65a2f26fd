/-! # Instruction words

An instruction is one 16-bit word, stored big end first. Its operands are fields of the word: the
family in the top nibble, the nibbles `x`, `y` and `n` below it, the low byte `nn`, and the low
twelve bits `nnn`.
-/
namespace Chip8

abbrev Word := UInt16
abbrev Register := Fin 16
abbrev Nibble := Fin 16

def Nibble.ofNat (n : Nat) : Nibble := ⟨n % 16, Nat.mod_lt _ (by decide)⟩

namespace Word

def ofBytes (high low : UInt8) : Word := UInt16.ofNat (high.toNat * 256 + low.toNat)

def family (w : Word) : Nibble := ⟨w.toNat / 4096, by have := w.toNat_lt; omega⟩
def x (w : Word) : Register := Nibble.ofNat (w.toNat / 256)
def y (w : Word) : Register := Nibble.ofNat (w.toNat / 16)
def n (w : Word) : Nibble := Nibble.ofNat w.toNat
def nn (w : Word) : UInt8 := w.toUInt8
def nnn (w : Word) : UInt16 := w % 4096

end Word
end Chip8
