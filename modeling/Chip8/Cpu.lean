import Chip8.Fault
import Chip8.Instruction.Word
import Chip8.Memory

/-! # Registers, call stack and memory

The state that instructions compute with. `I` keeps all sixteen bits, though memory sees only the
lower twelve; the program counter is kept inside memory by every jump and advance. The call stack
is sixteen slots and the number of slots in use.
-/
namespace Chip8

def stackSize : Nat := 16

structure Cpu where
  pc : UInt16
  sp : Nat
  v : Vector UInt8 16
  index : UInt16
  memory : Memory
  slots : Vector UInt16 16
deriving DecidableEq

namespace Cpu

def initial : Cpu where
  pc := UInt16.ofNat programStart
  sp := 0
  v := Vector.replicate 16 0
  index := 0
  memory := .initial
  slots := Vector.replicate 16 0

def register (c : Cpu) (x : Register) : UInt8 := c.v[x]

/-- The register with the lowest four bits of a number as its index. -/
def registerAt (c : Cpu) (index : Nat) : UInt8 := c.register (Nibble.ofNat index)

def setRegister (c : Cpu) (x : Register) (byte : UInt8) : Cpu := { c with v := c.v.set x byte }

/-- VF, which doubles as carry, borrow and collision flag. -/
def flagRegister : Register := ⟨15, by decide⟩

/-- V0, which is added to the address of a jump with an offset. -/
def offsetRegister : Register := ⟨0, by decide⟩

def setFlag (c : Cpu) (byte : UInt8) : Cpu := c.setRegister flagRegister byte

def setIndex (c : Cpu) (address : UInt16) : Cpu := { c with index := address }

/-- Write bytes to memory, from the address in `I` on. -/
def store (c : Cpu) (bytes : List UInt8) : Cpu :=
  { c with memory := c.memory.writeAll c.index.toNat bytes }

/-- The bytes in memory from the address in `I` on. -/
def bytesAtIndex (c : Cpu) (count : Nat) : List UInt8 := c.memory.readAll c.index.toNat count

def fetch (c : Cpu) : Word :=
  Word.ofBytes (c.memory.read c.pc.toNat) (c.memory.read (c.pc.toNat + 1))

def advance (c : Cpu) : Cpu := { c with pc := (c.pc + 2) % 4096 }

def jump (c : Cpu) (address : Nat) : Cpu := { c with pc := UInt16.ofNat (address % 4096) }

/-- The return addresses in use, oldest first. -/
def stack (c : Cpu) : List UInt16 := c.slots.toList.take c.sp

/-- Put a return address on the stack; nothing when all slots are in use. -/
def push? (c : Cpu) (address : UInt16) : Option Cpu :=
  if h : c.sp < 16 then some { c with slots := c.slots.set c.sp address h, sp := c.sp + 1 }
  else none

def top? (c : Cpu) : Option UInt16 :=
  if 0 < c.sp then c.slots[c.sp - 1]? else none

def pop (c : Cpu) : Cpu := { c with sp := c.sp - 1 }

/-- Copy a program into memory. Bytes that do not fit are dropped. -/
def load (c : Cpu) (program : List UInt8) : Cpu :=
  { c with memory := c.memory.writeAll programStart (program.take (memorySize - programStart)) }

def loadCount (program : List UInt8) : Nat := min program.length (memorySize - programStart)

@[simp] theorem register_setRegister_self (c : Cpu) (x : Register) (byte : UInt8) :
    (c.setRegister x byte).register x = byte := by
  simp [register, setRegister]

theorem register_setRegister (c : Cpu) (x y : Register) (byte : UInt8) :
    (c.setRegister x byte).register y = if x = y then byte else c.register y := by
  simp only [register, setRegister, Fin.getElem_fin, Vector.getElem_set, Fin.ext_iff]

theorem length_bytesAtIndex (c : Cpu) (count : Nat) : (c.bytesAtIndex count).length = count := by
  simp [bytesAtIndex, Memory.readAll]

theorem getElem?_bytesAtIndex (c : Cpu) {count r : Nat} (h : r < count) :
    (c.bytesAtIndex count)[r]?.getD 0 = c.memory.read (c.index.toNat + r) := by
  simp [bytesAtIndex, Memory.readAll, h]

theorem push?_of_lt {c : Cpu} (h : c.sp < 16) (address : UInt16) :
    c.push? address = some { c with slots := c.slots.set c.sp address h, sp := c.sp + 1 } :=
  dif_pos h

theorem push?_eq_none_iff (c : Cpu) (address : UInt16) :
    c.push? address = none ↔ stackSize ≤ c.sp := by
  simp [push?, stackSize]

theorem top?_eq_none_iff {c : Cpu} (h : c.sp ≤ 16) : c.top? = none ↔ c.sp = 0 := by
  simp only [top?]
  split
  · rw [Vector.getElem?_eq_none_iff]
    omega
  · simp only [true_iff]
    omega

theorem stack_push? {c d : Cpu} {address : UInt16} (h : c.push? address = some d) :
    d.stack = c.stack ++ [address] := by
  simp only [push?] at h
  split at h
  · rename_i hsp
    cases h
    have e : (c.slots.set c.sp address hsp).toList = c.slots.toList.set c.sp address := by
      simp [Vector.toList, Vector.set]
    simp [stack, List.take_add_one, e, hsp, List.take_set_of_le (Nat.le_refl c.sp)]
  · cases h

theorem stack_pop (c : Cpu) : c.pop.stack = c.stack.take (c.sp - 1) := by
  simp [stack, pop, List.take_take]

end Cpu
end Chip8
