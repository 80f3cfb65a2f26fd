import Chip8.Instruction.Basic

/-! # Writing an instruction as a word

The word of an instruction, put together from its family and operands. An unknown instruction is
its own word.
-/
namespace Chip8

/-- The word whose fields, from the top, are a family, two nibbles and a low nibble. -/
def Word.ofNibbles (family x y n : Nat) : Word :=
  UInt16.ofNat (family * 4096 + x * 256 + y * 16 + n)

/-- The word whose fields, from the top, are a family, a nibble and a low byte. -/
def Word.ofByte (family x byte : Nat) : Word := UInt16.ofNat (family * 4096 + x * 256 + byte)

def Word.ofAddress (family : Nat) (address : UInt16) : Word :=
  UInt16.ofNat (family * 4096 + address.toNat)

def Arithmetic.code : Arithmetic → Nat
  | .copy => 0x0
  | .or => 0x1
  | .and => 0x2
  | .xor => 0x3
  | .add => 0x4
  | .sub => 0x5
  | .shiftRight => 0x6
  | .subReverse => 0x7
  | .shiftLeft => 0xE

def Condition.encode : Condition → Word
  | .equalsByte x b => .ofByte 0x3 x b.toNat
  | .differsFromByte x b => .ofByte 0x4 x b.toNat
  | .equals x y => .ofNibbles 0x5 x y 0
  | .differs x y => .ofNibbles 0x9 x y 0
  | .keyDown x => .ofByte 0xE x 0x9E
  | .keyUp x => .ofByte 0xE x 0xA1

def Instruction.encode : Instruction → Word
  | .clearScreen => 0x00E0
  | .ret => 0x00EE
  | .exit => 0x00FD
  | .lowResolution => 0x00FE
  | .highResolution => 0x00FF
  | .scrollDown n => .ofByte 0x0 0x0 (0xC0 + n)
  | .scrollRight => 0x00FB
  | .scrollLeft => 0x00FC
  | .jump a => .ofAddress 0x1 a
  | .call a => .ofAddress 0x2 a
  | .jumpOffset a => .ofAddress 0xB a
  | .skip c => c.encode
  | .loadByte x b => .ofByte 0x6 x b.toNat
  | .addByte x b => .ofByte 0x7 x b.toNat
  | .arithmetic op x y => .ofNibbles 0x8 x y op.code
  | .random x b => .ofByte 0xC x b.toNat
  | .loadIndex a => .ofAddress 0xA a
  | .addIndex x => .ofByte 0xF x 0x1E
  | .loadGlyph x => .ofByte 0xF x 0x29
  | .draw x y n => .ofNibbles 0xD x y n
  | .loadDelay x => .ofByte 0xF x 0x07
  | .setDelay x => .ofByte 0xF x 0x15
  | .setSound x => .ofByte 0xF x 0x18
  | .waitKey x => .ofByte 0xF x 0x0A
  | .storeDecimal x => .ofByte 0xF x 0x33
  | .storeRegisters x => .ofByte 0xF x 0x55
  | .loadRegisters x => .ofByte 0xF x 0x65
  | .unknown w => w

end Chip8
