import Chip8.Instruction.Basic

/-! # Reading an instruction from its word

Every word has exactly one reading. The families 0, 8, E and F are divided further by their low
bits; families 5 and 9 do not look at the lowest nibble.
-/
namespace Chip8.Instruction

def decodeSystem (w : Word) : Instruction :=
  if w = 0x00E0 then .clearScreen
  else if w = 0x00EE then .ret
  else if w = 0x00FB then .scrollRight
  else if w = 0x00FC then .scrollLeft
  else if w = 0x00FD then .exit
  else if w = 0x00FE then .lowResolution
  else if w = 0x00FF then .highResolution
  else if w.toNat / 16 = 0x00C then .scrollDown w.n
  else .unknown w

def decodeArithmetic (w : Word) : Instruction :=
  match w.n.val with
  | 0x0 => .arithmetic .copy w.x w.y
  | 0x1 => .arithmetic .or w.x w.y
  | 0x2 => .arithmetic .and w.x w.y
  | 0x3 => .arithmetic .xor w.x w.y
  | 0x4 => .arithmetic .add w.x w.y
  | 0x5 => .arithmetic .sub w.x w.y
  | 0x6 => .arithmetic .shiftRight w.x w.y
  | 0x7 => .arithmetic .subReverse w.x w.y
  | 0xE => .arithmetic .shiftLeft w.x w.y
  | _ => .unknown w

def decodeKey (w : Word) : Instruction :=
  match w.nn.toNat with
  | 0x9E => .skip (.keyDown w.x)
  | 0xA1 => .skip (.keyUp w.x)
  | _ => .unknown w

def decodeMisc (w : Word) : Instruction :=
  match w.nn.toNat with
  | 0x07 => .loadDelay w.x
  | 0x0A => .waitKey w.x
  | 0x15 => .setDelay w.x
  | 0x18 => .setSound w.x
  | 0x1E => .addIndex w.x
  | 0x29 => .loadGlyph w.x
  | 0x33 => .storeDecimal w.x
  | 0x55 => .storeRegisters w.x
  | 0x65 => .loadRegisters w.x
  | _ => .unknown w

def decode (w : Word) : Instruction :=
  match w.family.val with
  | 0x0 => decodeSystem w
  | 0x1 => .jump w.nnn
  | 0x2 => .call w.nnn
  | 0x3 => .skip (.equalsByte w.x w.nn)
  | 0x4 => .skip (.differsFromByte w.x w.nn)
  | 0x5 => .skip (.equals w.x w.y)
  | 0x6 => .loadByte w.x w.nn
  | 0x7 => .addByte w.x w.nn
  | 0x8 => decodeArithmetic w
  | 0x9 => .skip (.differs w.x w.y)
  | 0xA => .loadIndex w.nnn
  | 0xB => .jumpOffset w.nnn
  | 0xC => .random w.x w.nn
  | 0xD => .draw w.x w.y w.n
  | 0xE => decodeKey w
  | _ => decodeMisc w

end Chip8.Instruction
