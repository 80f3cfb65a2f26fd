import Chip8.Instruction.Basic
import Chip8.Text.Hex

/-! # Mnemonics

The text of an instruction: registers as `v` and one upper case digit, addresses as three
hexadecimal digits after `0x`, bytes and nibbles in decimal. An unknown word is written as itself.
-/
namespace Chip8

def Word.text (w : Word) : String := Hex.upper 4 w.toNat

def registerText (x : Register) : String := "v" ++ Hex.upper 1 x

def addressText (a : UInt16) : String := "0x" ++ Hex.upper 3 a.toNat

def Arithmetic.mnemonic : Arithmetic → String
  | .copy => "LD"
  | .or => "OR"
  | .and => "AND"
  | .xor => "XOR"
  | .add => "ADD"
  | .sub => "SUB"
  | .shiftRight => "SHR"
  | .subReverse => "SUBN"
  | .shiftLeft => "SHL"

def Condition.mnemonic : Condition → String
  | .equalsByte x b => s!"SE {registerText x}, {b.toNat}"
  | .differsFromByte x b => s!"SNE {registerText x}, {b.toNat}"
  | .equals x y => s!"SE {registerText x}, {registerText y}"
  | .differs x y => s!"SNE {registerText x}, {registerText y}"
  | .keyDown x => s!"SKP {registerText x}"
  | .keyUp x => s!"SKNP {registerText x}"

def Instruction.mnemonic : Instruction → String
  | .clearScreen => "CLS"
  | .ret => "RET"
  | .exit => "EXIT"
  | .lowResolution => "LOW"
  | .highResolution => "HIGH"
  | .scrollDown n => s!"SCD {n.val}"
  | .scrollRight => "SCR"
  | .scrollLeft => "SCL"
  | .jump a => s!"JP {addressText a}"
  | .call a => s!"CALL {addressText a}"
  | .jumpOffset a => s!"JP v0, {addressText a}"
  | .skip c => c.mnemonic
  | .loadByte x b => s!"LD {registerText x}, {b.toNat}"
  | .addByte x b => s!"ADD {registerText x}, {b.toNat}"
  | .arithmetic op x y => s!"{op.mnemonic} {registerText x}, {registerText y}"
  | .random x b => s!"RND {registerText x}, {b.toNat}"
  | .loadIndex a => s!"LD I, {addressText a}"
  | .addIndex x => s!"ADD I, {registerText x}"
  | .loadGlyph x => s!"LD F, {registerText x}"
  | .draw x y n => s!"DRW {registerText x}, {registerText y}, {n.val}"
  | .loadDelay x => s!"LD {registerText x}, DT"
  | .setDelay x => s!"LD DT, {registerText x}"
  | .setSound x => s!"LD ST, {registerText x}"
  | .waitKey x => s!"LD {registerText x}, K"
  | .storeDecimal x => s!"LD B, {registerText x}"
  | .storeRegisters x => s!"LD [I], {registerText x}"
  | .loadRegisters x => s!"LD {registerText x}, [I]"
  | .unknown w => "0x" ++ w.text

end Chip8
