import Chip8.Proofs.Checked.Basic
import Chip8.Proofs.Words

/-! # Operands within bounds

An opcode has its operands as bytes and words: nothing in its type keeps a register below sixteen.
Words are read with masks and shifts, and their families told apart by a byte of which fifteen is
not the largest value. What is read is always the opcode of an instruction, whose registers are
registers, and no family is out of the question.
-/
namespace Chip8

inductive Opcode
  | clearScreen
  | ret
  | scrollDown (n : UInt8)
  | scrollRight
  | scrollLeft
  | exit
  | lowResolution
  | highResolution
  | jump (address : UInt16)
  | call (address : UInt16)
  | skipEqualsByte (vx nn : UInt8)
  | skipDiffersFromByte (vx nn : UInt8)
  | skipEquals (vx vy : UInt8)
  | loadByte (vx nn : UInt8)
  | addByte (vx nn : UInt8)
  | copy (vx vy : UInt8)
  | or (vx vy : UInt8)
  | and (vx vy : UInt8)
  | xor (vx vy : UInt8)
  | add (vx vy : UInt8)
  | sub (vx vy : UInt8)
  | shiftRight (vx vy : UInt8)
  | subReverse (vx vy : UInt8)
  | shiftLeft (vx vy : UInt8)
  | skipDiffers (vx vy : UInt8)
  | loadIndex (address : UInt16)
  | jumpOffset (address : UInt16)
  | random (vx nn : UInt8)
  | draw (vx vy n : UInt8)
  | skipKeyDown (vx : UInt8)
  | skipKeyUp (vx : UInt8)
  | loadDelay (vx : UInt8)
  | waitKey (vx : UInt8)
  | setDelay (vx : UInt8)
  | setSound (vx : UInt8)
  | addIndex (vx : UInt8)
  | loadGlyph (vx : UInt8)
  | storeDecimal (vx : UInt8)
  | storeRegisters (vx : UInt8)
  | loadRegisters (vx : UInt8)
  | unknown (word : Word)
deriving DecidableEq, Repr

def Nibble.byte (n : Nibble) : UInt8 := UInt8.ofNat n.val

@[simp] theorem Nibble.toNat_byte (n : Nibble) : (Nibble.byte n).toNat = n.val := by
  have h := n.isLt
  rw [byte, UInt8.toNat_ofNat']
  omega

def Arithmetic.opcode (vx vy : UInt8) : Arithmetic → Opcode
  | .copy => .copy vx vy
  | .or => .or vx vy
  | .and => .and vx vy
  | .xor => .xor vx vy
  | .add => .add vx vy
  | .sub => .sub vx vy
  | .shiftRight => .shiftRight vx vy
  | .subReverse => .subReverse vx vy
  | .shiftLeft => .shiftLeft vx vy

def Condition.opcode : Condition → Opcode
  | .equalsByte x byte => .skipEqualsByte (Nibble.byte x) byte
  | .differsFromByte x byte => .skipDiffersFromByte (Nibble.byte x) byte
  | .equals x y => .skipEquals (Nibble.byte x) (Nibble.byte y)
  | .differs x y => .skipDiffers (Nibble.byte x) (Nibble.byte y)
  | .keyDown x => .skipKeyDown (Nibble.byte x)
  | .keyUp x => .skipKeyUp (Nibble.byte x)

def Instruction.opcode : Instruction → Opcode
  | .clearScreen => .clearScreen
  | .ret => .ret
  | .exit => .exit
  | .lowResolution => .lowResolution
  | .highResolution => .highResolution
  | .scrollDown rows => .scrollDown (Nibble.byte rows)
  | .scrollRight => .scrollRight
  | .scrollLeft => .scrollLeft
  | .jump address => .jump address
  | .call address => .call address
  | .jumpOffset address => .jumpOffset address
  | .skip condition => condition.opcode
  | .loadByte x byte => .loadByte (Nibble.byte x) byte
  | .addByte x byte => .addByte (Nibble.byte x) byte
  | .arithmetic op x y => op.opcode (Nibble.byte x) (Nibble.byte y)
  | .random x mask => .random (Nibble.byte x) mask
  | .loadIndex address => .loadIndex address
  | .addIndex x => .addIndex (Nibble.byte x)
  | .loadGlyph x => .loadGlyph (Nibble.byte x)
  | .draw x y rows => .draw (Nibble.byte x) (Nibble.byte y) (Nibble.byte rows)
  | .loadDelay x => .loadDelay (Nibble.byte x)
  | .setDelay x => .setDelay (Nibble.byte x)
  | .setSound x => .setSound (Nibble.byte x)
  | .waitKey x => .waitKey (Nibble.byte x)
  | .storeDecimal x => .storeDecimal (Nibble.byte x)
  | .storeRegisters last => .storeRegisters (Nibble.byte last)
  | .loadRegisters last => .loadRegisters (Nibble.byte last)
  | .unknown word => .unknown word

namespace Opcode

def registers : Opcode → List UInt8
  | .skipEquals x y | .copy x y | .or x y | .and x y | .xor x y | .add x y | .sub x y
  | .shiftRight x y | .subReverse x y | .shiftLeft x y | .skipDiffers x y | .draw x y _ => [x, y]
  | .skipEqualsByte x _ | .skipDiffersFromByte x _ | .loadByte x _ | .addByte x _ | .random x _
  | .skipKeyDown x | .skipKeyUp x | .loadDelay x | .waitKey x | .setDelay x | .setSound x
  | .addIndex x | .loadGlyph x | .storeDecimal x | .storeRegisters x | .loadRegisters x => [x]
  | _ => []

def address? : Opcode → Option UInt16
  | .jump a | .call a | .loadIndex a | .jumpOffset a => some a
  | _ => none

theorem exists_registers_opcode (i : Instruction) :
    ∃ registers : List Register, i.opcode.registers = registers.map Nibble.byte := by
  cases i with
  | skip c =>
    cases c with
    | equals x y | differs x y => exact ⟨[x, y], rfl⟩
    | equalsByte x byte | differsFromByte x byte | keyDown x | keyUp x => exact ⟨[x], rfl⟩
  | arithmetic op x y => cases op <;> exact ⟨[x, y], rfl⟩
  | draw x y rows => exact ⟨[x, y], rfl⟩
  | loadByte x byte | addByte x byte | random x mask | addIndex x | loadGlyph x | loadDelay x
  | setDelay x | setSound x | waitKey x | storeDecimal x | storeRegisters x | loadRegisters x =>
    exact ⟨[x], rfl⟩
  | _ => exact ⟨[], rfl⟩

theorem lt_of_mem_registers {i : Instruction} {x : UInt8} (h : x ∈ i.opcode.registers) :
    x.toNat < 16 := by
  obtain ⟨registers, hregisters⟩ := exists_registers_opcode i
  rw [hregisters] at h
  obtain ⟨n, -, rfl⟩ := List.mem_map.1 h
  rw [Nibble.toNat_byte]
  exact n.isLt

theorem address?_opcode (i : Instruction) : i.opcode.address? = i.address? := by
  cases i with
  | skip c => cases c <;> rfl
  | arithmetic op x y => cases op <;> rfl
  | _ => rfl

end Opcode

namespace Word

def familyByte (w : Word) : UInt8 := (w >>> 12).toUInt8
def xByte (w : Word) : UInt8 := ((w &&& 0x0F00) >>> 8).toUInt8
def yByte (w : Word) : UInt8 := ((w &&& 0x00F0) >>> 4).toUInt8
def nByte (w : Word) : UInt8 := (w &&& 0x000F).toUInt8
def lowByte (w : Word) : UInt8 := (w &&& 0x00FF).toUInt8
def addressBits (w : Word) : UInt16 := w &&& 0x0FFF

theorem familyByte_eq (w : Word) : w.familyByte = Nibble.byte w.family := by
  have h := w.toNat_lt
  apply UInt8.toNat_inj.1
  simp [familyByte, family, Nat.shiftRight_eq_div_pow]
  omega

theorem xByte_eq (w : Word) : w.xByte = Nibble.byte w.x := by
  have h : (w.toNat &&& 0xF00) >>> 8 = w.toNat / 256 % 16 := by
    rw [Nat.shiftRight_and_distrib, Nat.shiftRight_eq_div_pow]
    exact Nat.and_two_pow_sub_one_eq_mod _ 4
  apply UInt8.toNat_inj.1
  simp [xByte, x, Nibble.ofNat, h]
  omega

theorem yByte_eq (w : Word) : w.yByte = Nibble.byte w.y := by
  have h : (w.toNat &&& 0xF0) >>> 4 = w.toNat / 16 % 16 := by
    rw [Nat.shiftRight_and_distrib, Nat.shiftRight_eq_div_pow]
    exact Nat.and_two_pow_sub_one_eq_mod _ 4
  apply UInt8.toNat_inj.1
  simp [yByte, y, Nibble.ofNat, h]
  omega

theorem nByte_eq (w : Word) : w.nByte = Nibble.byte w.n := by
  have h : w.toNat &&& (0x000F : UInt16).toNat = w.toNat % 16 :=
    Nat.and_two_pow_sub_one_eq_mod _ 4
  apply UInt8.toNat_inj.1
  rw [nByte, UInt16.toNat_toUInt8, UInt16.toNat_and, h, Nibble.toNat_byte]
  exact Nat.mod_eq_of_lt (Nat.lt_of_lt_of_le (Nat.mod_lt _ (by decide)) (by decide))

theorem lowByte_eq (w : Word) : w.lowByte = w.nn := by
  have h : w.toNat &&& (0x00FF : UInt16).toNat = w.toNat % 256 :=
    Nat.and_two_pow_sub_one_eq_mod _ 8
  apply UInt8.toNat_inj.1
  rw [lowByte, UInt16.toNat_toUInt8, UInt16.toNat_and, h, nn, UInt16.toNat_toUInt8]
  omega

theorem addressBits_eq (w : Word) : w.addressBits = w.nnn := by
  have h : w.toNat &&& (0x0FFF : UInt16).toNat = w.toNat % 4096 :=
    Nat.and_two_pow_sub_one_eq_mod _ 12
  apply UInt16.toNat_inj.1
  rw [addressBits, UInt16.toNat_and, h, nnn, UInt16.toNat_mod]
  rfl

theorem and_mask_eq_iff (w : Word) : w &&& 0xFFF0 = 0x00C0 ↔ w.toNat / 16 = 0x00C := by
  rw [← UInt16.toNat_inj, toNat_and_mask]
  change w.toNat / 16 * 16 = 0x00C0 ↔ _
  omega

end Word

namespace Checked

def decodeSystem (w : Word) : Opcode :=
  if w = 0x00E0 then .clearScreen
  else if w = 0x00EE then .ret
  else if w = 0x00FB then .scrollRight
  else if w = 0x00FC then .scrollLeft
  else if w = 0x00FD then .exit
  else if w = 0x00FE then .lowResolution
  else if w = 0x00FF then .highResolution
  else if w &&& 0xFFF0 = 0x00C0 then .scrollDown w.nByte
  else .unknown w

def decodeArithmetic (w : Word) : Opcode :=
  match w.nByte.toNat with
  | 0x0 => .copy w.xByte w.yByte
  | 0x1 => .or w.xByte w.yByte
  | 0x2 => .and w.xByte w.yByte
  | 0x3 => .xor w.xByte w.yByte
  | 0x4 => .add w.xByte w.yByte
  | 0x5 => .sub w.xByte w.yByte
  | 0x6 => .shiftRight w.xByte w.yByte
  | 0x7 => .subReverse w.xByte w.yByte
  | 0xE => .shiftLeft w.xByte w.yByte
  | _ => .unknown w

def decodeKey (w : Word) : Opcode :=
  match w.lowByte.toNat with
  | 0x9E => .skipKeyDown w.xByte
  | 0xA1 => .skipKeyUp w.xByte
  | _ => .unknown w

def decodeMisc (w : Word) : Opcode :=
  match w.lowByte.toNat with
  | 0x07 => .loadDelay w.xByte
  | 0x0A => .waitKey w.xByte
  | 0x15 => .setDelay w.xByte
  | 0x18 => .setSound w.xByte
  | 0x1E => .addIndex w.xByte
  | 0x29 => .loadGlyph w.xByte
  | 0x33 => .storeDecimal w.xByte
  | 0x55 => .storeRegisters w.xByte
  | 0x65 => .loadRegisters w.xByte
  | _ => .unknown w

def decode (w : Word) : Checked Opcode :=
  match w.familyByte.toNat with
  | 0x0 => .ok (decodeSystem w)
  | 0x1 => .ok (.jump w.addressBits)
  | 0x2 => .ok (.call w.addressBits)
  | 0x3 => .ok (.skipEqualsByte w.xByte w.lowByte)
  | 0x4 => .ok (.skipDiffersFromByte w.xByte w.lowByte)
  | 0x5 => .ok (.skipEquals w.xByte w.yByte)
  | 0x6 => .ok (.loadByte w.xByte w.lowByte)
  | 0x7 => .ok (.addByte w.xByte w.lowByte)
  | 0x8 => .ok (decodeArithmetic w)
  | 0x9 => .ok (.skipDiffers w.xByte w.yByte)
  | 0xA => .ok (.loadIndex w.addressBits)
  | 0xB => .ok (.jumpOffset w.addressBits)
  | 0xC => .ok (.random w.xByte w.lowByte)
  | 0xD => .ok (.draw w.xByte w.yByte w.nByte)
  | 0xE => .ok (decodeKey w)
  | 0xF => .ok (decodeMisc w)
  | _ => .error .unreachable

theorem decodeSystem_eq (w : Word) : decodeSystem w = (Instruction.decodeSystem w).opcode := by
  simp only [decodeSystem, Instruction.decodeSystem, apply_ite Instruction.opcode,
    Word.and_mask_eq_iff, Word.nByte_eq]
  rfl

theorem decodeArithmetic_eq (w : Word) :
    decodeArithmetic w = (Instruction.decodeArithmetic w).opcode := by
  simp only [decodeArithmetic, Instruction.decodeArithmetic, Word.nByte_eq, Word.xByte_eq,
    Word.yByte_eq, Nibble.toNat_byte]
  generalize w.n.val = k
  split
  case h_10 => grind [Instruction.opcode]
  all_goals rfl

theorem decodeKey_eq (w : Word) : decodeKey w = (Instruction.decodeKey w).opcode := by
  simp only [decodeKey, Instruction.decodeKey, Word.lowByte_eq, Word.xByte_eq]
  generalize w.nn.toNat = k
  split
  case h_3 => grind [Instruction.opcode]
  all_goals rfl

theorem decodeMisc_eq (w : Word) : decodeMisc w = (Instruction.decodeMisc w).opcode := by
  simp only [decodeMisc, Instruction.decodeMisc, Word.lowByte_eq, Word.xByte_eq]
  generalize w.nn.toNat = k
  split
  case h_10 => grind [Instruction.opcode]
  all_goals rfl

/-- Every word is read as the opcode of its instruction. -/
theorem decode_eq (w : Word) : decode w = .ok (Instruction.decode w).opcode := by
  have h := w.family.isLt
  simp only [decode, Instruction.decode, Word.familyByte_eq, Word.xByte_eq, Word.yByte_eq,
    Word.nByte_eq, Word.lowByte_eq, Word.addressBits_eq, Nibble.toNat_byte, decodeSystem_eq,
    decodeArithmetic_eq, decodeKey_eq, decodeMisc_eq]
  generalize w.family.val = k at h
  split
  case h_17 =>
    exfalso
    grind
  all_goals rfl

end Checked
end Chip8
