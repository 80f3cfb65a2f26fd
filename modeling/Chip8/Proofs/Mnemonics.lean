import Chip8.Proofs.Checked.Decoding
import Chip8.Proofs.Listing
import Mathlib.Data.List.Nodup

/-! # Mnemonics tell instructions apart

The text of an instruction is a name with operands behind it, apart by blanks, and commas between
the operands. An operand is told by its text: registers and addresses by what they begin with,
numbers by their digits, and the parts of the machine by letters. Many instructions have one name,
and many have the same operands; but of those with the same operands no two have one name. So
instructions with equal texts are equal, and words with equal texts read as the same instruction.
-/
namespace Chip8

namespace Text

/-- The words of a text stand apart by blanks, and the commas belong to none of them. -/
def words (text : List Char) : List (List Char) := (text.filter (· ≠ ',')).splitOn ' '

/-- Neither a blank nor a comma stands within a word. -/
def Unbroken (word : List Char) : Prop := ' ' ∉ word ∧ ',' ∉ word

theorem Unbroken.filter_eq {word : List Char} (h : Unbroken word) :
    word.filter (· ≠ ',') = word := by
  refine List.filter_eq_self.2 fun c hc => decide_eq_true ?_
  rintro rfl
  exact h.2 hc

theorem filter_intercalate {written : List (List Char)} (h : ∀ word ∈ written, Unbroken word) :
    ([',', ' '].intercalate written).filter (· ≠ ',') = [' '].intercalate written := by
  induction written with
  | nil => rfl
  | cons first rest ih =>
    obtain ⟨hfirst, hrest⟩ := List.forall_mem_cons.1 h
    cases rest with
    | nil => simpa using hfirst.filter_eq
    | cons second rest =>
      have hseparator : [',', ' '].filter (· ≠ ',') = [' '] := rfl
      rw [List.intercalate_cons_cons, List.intercalate_cons_cons, List.filter_append,
        List.filter_append, hfirst.filter_eq, hseparator, ih hrest]

theorem words_of_filter_eq {text : List Char} {written : List (List Char)}
    (h : text.filter (· ≠ ',') = [' '].intercalate written)
    (hwritten : ∀ word ∈ written, Unbroken word) (hne : written ≠ []) :
    words text = written := by
  rw [words, h]
  exact List.splitOn_intercalate ' ' (fun word hword => (hwritten word hword).1) hne

end Text

/-- What stands behind the name of an instruction: a value, or a part of the machine. -/
inductive Operand
  | register (x : Register)
  | address (a : UInt16)
  | number (n : Nat)
  | index
  /-- The memory from the address in `I` on. -/
  | memory
  | delay
  | sound
  | key
  | glyph
  | decimal
deriving DecidableEq, Repr

namespace Operand

def text : Operand → String
  | .register x => registerText x
  | .address a => addressText a
  | .number n => toString n
  | .index => "I"
  | .memory => "[I]"
  | .delay => "DT"
  | .sound => "ST"
  | .key => "K"
  | .glyph => "F"
  | .decimal => "B"

def ofText? : List Char → Option Operand
  | 'v' :: digits => (Text.natOfDigits? 16 digits).map fun n => .register (Nibble.ofNat n)
  | '0' :: 'x' :: digits => (Text.natOfDigits? 16 digits).map fun n => .address (UInt16.ofNat n)
  | ['I'] => some .index
  | ['[', 'I', ']'] => some .memory
  | ['D', 'T'] => some .delay
  | ['S', 'T'] => some .sound
  | ['K'] => some .key
  | ['F'] => some .glyph
  | ['B'] => some .decimal
  | digits => (Text.natOfDigits? 10 digits).map .number

theorem ofText?_of_isDigit {digits : List Char} (h : ∀ c ∈ digits, c.isDigit = true) :
    ofText? digits = (Text.natOfDigits? 10 digits).map .number := by
  unfold ofText?
  split
  case h_1 => cases h 'v' (by simp)
  case h_2 => cases h 'x' (by simp)
  case h_3 => cases h 'I' (by simp)
  case h_4 => cases h 'I' (by simp)
  case h_5 => cases h 'T' (by simp)
  case h_6 => cases h 'T' (by simp)
  case h_7 => cases h 'K' (by simp)
  case h_8 => cases h 'F' (by simp)
  case h_9 => cases h 'B' (by simp)
  case h_10 => rfl

theorem ofText?_text (o : Operand) : ofText? o.text.toList = some o := by
  cases o with
  | register x =>
    have htext : (registerText x).toList = 'v' :: (Hex.upper 1 x.val).toList := by
      simp [registerText]
    have hx : Nibble.ofNat x.val = x := Fin.ext (Nat.mod_eq_of_lt x.isLt)
    rw [text, htext, ofText?, Hex.natOfDigits?_upper, Option.map_some, hx]
  | address a =>
    have htext : (addressText a).toList = '0' :: 'x' :: (Hex.upper 3 a.toNat).toList := by
      simp [addressText]
    rw [text, htext, ofText?, Hex.natOfDigits?_upper, Option.map_some, UInt16.ofNat_toNat]
  | number n =>
    have htext : (toString n).toList = Nat.toDigits 10 n := Nat.toList_repr
    rw [text, htext, ofText?_of_isDigit Text.isDigit_of_mem_toDigits, Text.natOfDigits?_toDigits,
      Option.map_some]
  | _ => rfl

theorem toList_text_injective : Function.Injective fun o : Operand => o.text.toList := by
  intro o p h
  have hread := congrArg ofText? h
  rw [ofText?_text, ofText?_text] at hread
  exact Option.some.inj hread

theorem unbroken_text (o : Operand) : Text.Unbroken o.text.toList := by
  cases o with
  | register x =>
    exact ⟨not_mem_registerText (by decide) rfl x, not_mem_registerText (by decide) rfl x⟩
  | address a =>
    exact ⟨not_mem_addressText (by decide) rfl a, not_mem_addressText (by decide) rfl a⟩
  | number n =>
    have htext : (toString n).toList = Nat.toDigits 10 n := Nat.toList_repr
    rw [text, htext]
    exact ⟨not_mem_toDigits rfl n, not_mem_toDigits rfl n⟩
  | _ => exact ⟨by decide, by decide⟩

end Operand

namespace Instruction

/-- The first word of the text. A word outside the instruction set is its own name. -/
def name : Instruction → String
  | .clearScreen => "CLS"
  | .ret => "RET"
  | .exit => "EXIT"
  | .lowResolution => "LOW"
  | .highResolution => "HIGH"
  | .scrollDown _ => "SCD"
  | .scrollRight => "SCR"
  | .scrollLeft => "SCL"
  | .jump _ | .jumpOffset _ => "JP"
  | .call _ => "CALL"
  | .skip (.equalsByte ..) | .skip (.equals ..) => "SE"
  | .skip (.differsFromByte ..) | .skip (.differs ..) => "SNE"
  | .skip (.keyDown _) => "SKP"
  | .skip (.keyUp _) => "SKNP"
  | .arithmetic op _ _ => op.mnemonic
  | .addByte .. | .addIndex _ => "ADD"
  | .random .. => "RND"
  | .draw .. => "DRW"
  | .loadByte .. | .loadIndex _ | .loadGlyph _ | .loadDelay _ | .setDelay _ | .setSound _
  | .waitKey _ | .storeDecimal _ | .storeRegisters _ | .loadRegisters _ => "LD"
  | .unknown w => "0x" ++ w.text

def operands : Instruction → List Operand
  | .clearScreen | .ret | .exit | .lowResolution | .highResolution | .scrollRight | .scrollLeft
  | .unknown _ => []
  | .scrollDown n => [.number n]
  | .jump a | .call a => [.address a]
  | .jumpOffset a => [.register Cpu.offsetRegister, .address a]
  | .skip (.equalsByte x b) | .skip (.differsFromByte x b) | .loadByte x b | .addByte x b
  | .random x b => [.register x, .number b.toNat]
  | .skip (.equals x y) | .skip (.differs x y) | .arithmetic _ x y => [.register x, .register y]
  | .skip (.keyDown x) | .skip (.keyUp x) => [.register x]
  | .loadIndex a => [.index, .address a]
  | .addIndex x => [.index, .register x]
  | .loadGlyph x => [.glyph, .register x]
  | .draw x y n => [.register x, .register y, .number n]
  | .loadDelay x => [.register x, .delay]
  | .setDelay x => [.delay, .register x]
  | .setSound x => [.sound, .register x]
  | .waitKey x => [.register x, .key]
  | .storeDecimal x => [.decimal, .register x]
  | .storeRegisters x => [.memory, .register x]
  | .loadRegisters x => [.register x, .memory]

def line (name : String) : List Operand → String
  | [] => name
  | operands => name ++ " " ++ ", ".intercalate (operands.map Operand.text)

theorem mnemonic_eq_line (i : Instruction) : i.mnemonic = line i.name i.operands := by
  rw [← String.toList_inj]
  cases i with
  | skip c =>
    cases c <;>
      simp [mnemonic, Condition.mnemonic, name, operands, line, Operand.text, ToString.toString]
  | jumpOffset a =>
    have hv : (registerText Cpu.offsetRegister).toList = "v0".toList := by decide
    simp [mnemonic, name, operands, line, Operand.text, ToString.toString, hv]
  | _ => simp [mnemonic, name, operands, line, Operand.text, ToString.toString]

theorem isUpper_of_mem_name {i : Instruction} (h : ∀ w, i ≠ .unknown w) :
    ∀ c ∈ i.name.toList, c.isUpper = true := by
  rw [← List.all_eq_true]
  cases i with
  | unknown w => exact absurd rfl (h w)
  | skip c => cases c <;> simp only [name] <;> decide
  | arithmetic op x y => cases op <;> simp only [name] <;> decide
  | _ =>
    simp only [name]
    decide

theorem unbroken_name (i : Instruction) : Text.Unbroken i.name.toList := by
  rcases i.eq_unknown_or with ⟨w, rfl⟩ | hknown
  · have hblank : ' ' ∉ w.text.toList := Hex.not_mem_upper rfl 4 w.toNat
    have hcomma : ',' ∉ w.text.toList := Hex.not_mem_upper rfl 4 w.toNat
    exact ⟨by simp [name, hblank], by simp [name, hcomma]⟩
  · have hnot {c : Char} (hc : c.isUpper = false) : c ∉ i.name.toList := by
      intro hmem
      cases hc.symm.trans (isUpper_of_mem_name hknown c hmem)
    exact ⟨hnot rfl, hnot rfl⟩

/-- A text is taken apart into the name and the operands. -/
theorem words_mnemonic (i : Instruction) :
    Text.words i.mnemonic.toList = i.name.toList :: i.operands.map fun o => o.text.toList := by
  have hname := i.unbroken_name
  have hoperands : ∀ word ∈ i.operands.map (fun o => o.text.toList), Text.Unbroken word :=
    List.forall_mem_map.2 fun o _ => o.unbroken_text
  refine Text.words_of_filter_eq ?_ (List.forall_mem_cons.2 ⟨hname, hoperands⟩) nofun
  rw [mnemonic_eq_line]
  cases hlist : i.operands with
  | nil => simpa [line] using hname.filter_eq
  | cons first rest =>
    have hline : (line i.name (first :: rest)).toList =
        i.name.toList ++ [' '] ++
          [',', ' '].intercalate ((first :: rest).map fun o => o.text.toList) := by
      simp [line, Function.comp_def]
    have hblank : [' '].filter (· ≠ ',') = [' '] := rfl
    rw [hlist] at hoperands
    rw [hline, List.filter_append, List.filter_append, hname.filter_eq, hblank,
      Text.filter_intercalate hoperands, List.map_cons, List.intercalate_cons_cons]

/-- The instructions of the set with given operands. -/
def withOperands : List Operand → List Instruction
  | [] => [.clearScreen, .ret, .exit, .lowResolution, .highResolution, .scrollRight, .scrollLeft]
  | [.number n] => [.scrollDown (Nibble.ofNat n)]
  | [.address a] => [.jump a, .call a]
  | [.register x] => [.skip (.keyDown x), .skip (.keyUp x)]
  | [.register x, .number n] =>
    let b := UInt8.ofNat n
    [.skip (.equalsByte x b), .skip (.differsFromByte x b), .loadByte x b, .addByte x b,
      .random x b]
  | [.register x, .register y] =>
    [.skip (.equals x y), .skip (.differs x y), .arithmetic .copy x y, .arithmetic .or x y,
      .arithmetic .and x y, .arithmetic .xor x y, .arithmetic .add x y, .arithmetic .sub x y,
      .arithmetic .shiftRight x y, .arithmetic .subReverse x y, .arithmetic .shiftLeft x y]
  | [.register _, .address a] => [.jumpOffset a]
  | [.register x, .delay] => [.loadDelay x]
  | [.register x, .key] => [.waitKey x]
  | [.register x, .memory] => [.loadRegisters x]
  | [.index, .address a] => [.loadIndex a]
  | [.index, .register x] => [.addIndex x]
  | [.glyph, .register x] => [.loadGlyph x]
  | [.delay, .register x] => [.setDelay x]
  | [.sound, .register x] => [.setSound x]
  | [.decimal, .register x] => [.storeDecimal x]
  | [.memory, .register x] => [.storeRegisters x]
  | [.register x, .register y, .number n] => [.draw x y (Nibble.ofNat n)]
  | _ => []

theorem mem_withOperands {i : Instruction} (h : ∀ w, i ≠ .unknown w) :
    i ∈ withOperands i.operands := by
  cases i with
  | unknown w => exact absurd rfl (h w)
  | skip c => cases c <;> simp [withOperands, operands]
  | arithmetic op x y => cases op <;> simp [withOperands, operands]
  | _ => simp [withOperands, operands, Nibble.ofNat, Nat.mod_eq_of_lt]

theorem nodup_names (operands : List Operand) : ((withOperands operands).map name).Nodup := by
  unfold withOperands
  split <;> simp [name, Arithmetic.mnemonic]

theorem eq_unknown_of_name {i : Instruction} {w : Word} (h : i.name = (unknown w).name) :
    i = .unknown w := by
  rcases i.eq_unknown_or with ⟨v, rfl⟩ | hknown
  · have htext : Hex.upper 4 v.toNat = Hex.upper 4 w.toNat := by
      simpa [name, Word.text] using h
    have hread := Hex.natOfDigits?_upper 4 v.toNat
    rw [htext, Hex.natOfDigits?_upper] at hread
    rw [UInt16.toNat_inj.1 (Option.some.inj hread)]
  · have hx : 'x' ∈ i.name.toList := by
      rw [h]
      simp [name]
    cases isUpper_of_mem_name hknown 'x' hx

theorem eq_of_name_of_operands {i j : Instruction} (hname : i.name = j.name)
    (hoperands : i.operands = j.operands) : i = j := by
  rcases i.eq_unknown_or with ⟨w, rfl⟩ | hi
  · exact (eq_unknown_of_name hname.symm).symm
  rcases j.eq_unknown_or with ⟨w, rfl⟩ | hj
  · exact eq_unknown_of_name hname
  have hmem : i ∈ withOperands j.operands := hoperands ▸ mem_withOperands hi
  exact List.inj_on_of_nodup_map (nodup_names j.operands) hmem (mem_withOperands hj) hname

theorem mnemonic_injective : Function.Injective mnemonic := by
  intro i j h
  have hwords : i.name.toList :: i.operands.map (fun o => o.text.toList) =
      j.name.toList :: j.operands.map fun o => o.text.toList := by
    rw [← words_mnemonic, ← words_mnemonic, h]
  obtain ⟨hname, hoperands⟩ := List.cons_eq_cons.1 hwords
  exact eq_of_name_of_operands (String.toList_inj.1 hname)
    (Operand.toList_text_injective.list_map hoperands)

/-- The word of an instruction that was read is the word that it was read from, but for the lowest
nibble of a skip that compares two registers. Reading by masks and shifts gives the opcode of the
same instruction, with registers below 16 and an address below 4096. The instructions that are read
from some word are those that are read from their own, among them all of the instruction set whose
address is below 4096. Words with equal texts read as the same instruction. -/
theorem decoding_lossless :
    (∀ w : Word,
      (decode w).encode = (if w.family = 0x5 ∨ w.family = 0x9 then w &&& 0xFFF0 else w) ∧
      Checked.decode w = .ok (decode w).opcode ∧
      (∀ x ∈ (decode w).opcode.registers, x.toNat < 16) ∧
      ∀ a, (decode w).opcode.address? = some a → a.toNat < 4096) ∧
    (∀ i : Instruction,
      ((∃ w, decode w = i) ↔ decode i.encode = i) ∧
      ((∀ w, i ≠ .unknown w) → (∀ a, i.address? = some a → a.toNat < 4096) →
        decode i.encode = i)) ∧
    ∀ w v : Word, (decode w).mnemonic = (decode v).mnemonic → decode w = decode v := by
  refine ⟨fun w => ⟨?_, Checked.decode_eq w, fun x hx => Opcode.lt_of_mem_registers hx, ?_⟩,
    fun i => ⟨?_, decode_encode⟩, fun w v h => mnemonic_injective h⟩
  · by_cases hfamily : w.family = 0x5 ∨ w.family = 0x9
    · rw [if_pos hfamily, encode_decode_of_registers hfamily]
    · obtain ⟨h5, h9⟩ := not_or.1 hfamily
      rw [if_neg hfamily, encode_decode h5 h9]
  · intro a ha
    rw [Opcode.address?_opcode] at ha
    exact lt_of_address?_decode ha
  · constructor
    · rintro ⟨w, rfl⟩
      exact decode_encode_decode w
    · exact fun h => ⟨i.encode, h⟩

/-- A skip whose word has a nibble that nothing looks at. -/
theorem decoding_lossless_of_ignored_nibble :
    let i := decode 0x5123
    i = .skip (.equals 1 2) ∧ i.encode = 0x5120 ∧ decode i.encode = i ∧
      i.opcode.registers = [1, 2] ∧ (∀ x ∈ i.opcode.registers, x.toNat < 16) ∧
      i.mnemonic = "SE v1, v2" ∧ ∀ w, (decode w).mnemonic = "SE v1, v2" → decode w = i := by
  intro i
  obtain ⟨hwords, hinstructions, htexts⟩ := decoding_lossless
  obtain ⟨hencode, -, hregisters, -⟩ := hwords 0x5123
  obtain ⟨hread, -⟩ := hinstructions i
  have htext : i.mnemonic = "SE v1, v2" := by decide
  exact ⟨rfl, hencode, hread.1 ⟨0x5123, rfl⟩, by decide, hregisters, htext,
    fun w hw => htexts w 0x5123 (hw.trans htext.symm)⟩

end Instruction
end Chip8
