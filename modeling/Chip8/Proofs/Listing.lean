import Chip8.Listing
import Chip8.Proofs.Text.Lines
import Chip8.Proofs.Text.Numerals

/-! # Listings are read back

A line of a listing has three columns: an address, which is as wide as it has to be, an opcode of
one or two bytes, and what the opcode reads as. The columns are found again in the line and the lines
in the listing, so that the opcodes give back the program byte by byte. Writing the listing line by
line makes the same text.
-/
namespace Chip8

/-- The bytes that hexadecimal digits stand for, two to a byte. -/
def Text.bytesOfDigits? : List Char → Option (List UInt8)
  | [] => some []
  | [_] => none
  | high :: low :: rest =>
    (natOfDigits? 16 [high, low]).bind fun byte =>
      (bytesOfDigits? rest).map (UInt8.ofNat byte :: ·)

theorem Hex.bytesOfDigits?_upper (b : UInt8) (rest : List Char) :
    Text.bytesOfDigits? ((upper 2 b.toNat).toList ++ rest) =
      (Text.bytesOfDigits? rest).map (b :: ·) := by
  have hread := natOfDigits?_upper 2 b.toNat
  rw [toList_upper_byte b.toNat_lt] at hread ⊢
  rw [List.cons_append, List.cons_append, List.nil_append, Text.bytesOfDigits?, hread,
    Option.bind_some, UInt8.ofNat_toNat]

theorem Word.toList_text_ofBytes (high low : UInt8) :
    (Word.ofBytes high low).text.toList =
      (Hex.upper 2 high.toNat).toList ++ (Hex.upper 2 low.toNat).toList := by
  have hhigh := high.toNat_lt
  have hlow := low.toNat_lt
  have hword : (Word.ofBytes high low).toNat = high.toNat * 256 + low.toNat := by
    rw [Word.ofBytes, UInt16.toNat_ofNat']
    omega
  rw [Word.text, hword, Hex.toList_upper_word _ hlow]

theorem not_mem_toDigits {c : Char} (hc : c.isDigit = false) (n : Nat) :
    c ∉ Nat.toDigits 10 n := by
  intro h
  cases hc.symm.trans (Text.isDigit_of_mem_toDigits c h)

theorem not_mem_registerText {c : Char} (hv : c ≠ 'v') (hc : Text.hexValue? c = none)
    (x : Register) : c ∉ (registerText x).toList := by
  simp [registerText, hv, Hex.not_mem_upper hc]

theorem not_mem_addressText {c : Char} (hx : c ≠ 'x') (hc : Text.hexValue? c = none)
    (a : UInt16) : c ∉ (addressText a).toList := by
  have h0 : c ≠ '0' := by
    rintro rfl
    cases hc
  simp [addressText, h0, hx, Hex.not_mem_upper hc]

theorem Instruction.newline_not_mem_mnemonic (i : Instruction) : '\n' ∉ i.mnemonic.toList := by
  have hregister (x : Register) : '\n' ∉ (registerText x).toList :=
    not_mem_registerText (by decide) rfl x
  have haddress (a : UInt16) : '\n' ∉ (addressText a).toList :=
    not_mem_addressText (by decide) rfl a
  have hnumber (n : Nat) : '\n' ∉ Nat.toDigits 10 n := not_mem_toDigits rfl n
  cases i with
  | skip c => cases c <;> simp [mnemonic, Condition.mnemonic, ToString.toString, hregister, hnumber]
  | arithmetic op x y =>
    cases op <;> simp [mnemonic, Arithmetic.mnemonic, ToString.toString, hregister]
  | unknown w => simp [mnemonic, Word.text, Hex.not_mem_upper (c := '\n') rfl]
  | _ => simp [mnemonic, ToString.toString, hregister, haddress, hnumber]

namespace Listing

/-- A line of a listing by its columns: an address, the bytes at it, and what they read as. -/
structure Columns where
  address : List Char
  opcode : List Char
  instruction : List Char

namespace Columns

/-- The line of some columns, the second of which is six characters wide. -/
def line (c : Columns) : List Char :=
  c.address ++ ':' :: ' ' :: (c.opcode.rightpad 6 ' ' ++ c.instruction)

def ofLine (line : List Char) : Columns :=
  let address := line.takeWhile (· ≠ ':')
  let rest := line.drop (address.length + 2)
  ⟨address, (rest.take 6).takeWhile (· ≠ ' '), rest.drop 6⟩

/-- Columns that are told apart in their line. -/
structure Readable (c : Columns) : Prop where
  address : ':' ∉ c.address
  opcode : ' ' ∉ c.opcode
  width : c.opcode.length < 6
  newline_address : '\n' ∉ c.address
  newline_opcode : '\n' ∉ c.opcode
  newline_instruction : '\n' ∉ c.instruction

theorem takeWhile_append_cons {text : List Char} {stop : Char} (h : stop ∉ text)
    (rest : List Char) : (text ++ stop :: rest).takeWhile (· ≠ stop) = text := by
  have hall : ∀ c ∈ text, decide (c ≠ stop) = true := by
    intro c hc
    exact decide_eq_true fun heq => h (heq ▸ hc)
  rw [List.takeWhile_append_of_pos hall, List.takeWhile_cons_of_neg (by simp), List.append_nil]

theorem ofLine_line {c : Columns} (h : c.Readable) : ofLine c.line = c := by
  have haddress : c.line.takeWhile (· ≠ ':') = c.address := takeWhile_append_cons h.address _
  have hrest : c.line.drop (c.address.length + 2) = c.opcode.rightpad 6 ' ' ++ c.instruction := by
    rw [line, List.drop_append, List.drop_eq_nil_of_le (by omega), Nat.add_sub_cancel_left]
    rfl
  have hwidth : (c.opcode.rightpad 6 ' ').length = 6 := by
    rw [List.length_rightpad]
    have := h.width
    omega
  have hopcode : (c.opcode.rightpad 6 ' ').takeWhile (· ≠ ' ') = c.opcode := by
    have hpad : 6 - c.opcode.length = 5 - c.opcode.length + 1 := by
      have := h.width
      omega
    rw [List.rightpad, hpad, List.replicate_succ, takeWhile_append_cons h.opcode]
  simp only [ofLine, haddress, hrest]
  rw [List.take_left' hwidth, List.drop_left' hwidth, hopcode]

theorem newline_not_mem_line {c : Columns} (h : c.Readable) : '\n' ∉ c.line := by
  simp [line, List.rightpad, h.newline_address, h.newline_opcode, h.newline_instruction]

end Columns

def wordColumns (address : Nat) (w : Word) : Columns where
  address := (Hex.upper 4 address).toList
  opcode := w.text.toList
  instruction := (Instruction.decode w).mnemonic.toList

def byteColumns (address : Nat) (b : UInt8) : Columns where
  address := (Hex.upper 4 address).toList
  opcode := (Hex.upper 2 b.toNat).toList
  instruction := "db 0x".toList ++ (Hex.upper 2 b.toNat).toList

theorem address_wordColumns (address : Nat) (w : Word) :
    (wordColumns address w).address = (Hex.upper 4 address).toList := by
  rw [wordColumns]

theorem address_byteColumns (address : Nat) (b : UInt8) :
    (byteColumns address b).address = (Hex.upper 4 address).toList := by
  rw [byteColumns]

theorem length_upper_byte (b : UInt8) : (Hex.upper 2 b.toNat).toList.length = 2 := by
  rw [Hex.toList_upper_byte b.toNat_lt]
  rfl

theorem length_text_ofBytes (high low : UInt8) :
    (Word.ofBytes high low).text.toList.length = 4 := by
  rw [Word.toList_text_ofBytes, List.length_append, length_upper_byte, length_upper_byte]

/-- Hexadecimal addresses and opcodes are told apart from what stands around them. -/
theorem readable_of_hex {address opcode instruction : List Char}
    (haddress : ∀ c, Text.hexValue? c = none → c ∉ address)
    (hopcode : ∀ c, Text.hexValue? c = none → c ∉ opcode) (hwidth : opcode.length < 6)
    (hline : '\n' ∉ instruction) : Columns.Readable ⟨address, opcode, instruction⟩ where
  address := haddress ':' rfl
  opcode := hopcode ' ' rfl
  width := hwidth
  newline_address := haddress '\n' rfl
  newline_opcode := hopcode '\n' rfl
  newline_instruction := hline

theorem readable_wordColumns (address : Nat) (high low : UInt8) :
    (wordColumns address (.ofBytes high low)).Readable := by
  have haddress (c : Char) (hc : Text.hexValue? c = none) : c ∉ (Hex.upper 4 address).toList :=
    Hex.not_mem_upper hc 4 address
  have hopcode (c : Char) (hc : Text.hexValue? c = none) :
      c ∉ (Word.ofBytes high low).text.toList := Hex.not_mem_upper hc 4 _
  have hwidth : (Word.ofBytes high low).text.toList.length < 6 := by
    rw [length_text_ofBytes]
    decide
  exact readable_of_hex haddress hopcode hwidth (Instruction.newline_not_mem_mnemonic _)

theorem readable_byteColumns (address : Nat) (b : UInt8) : (byteColumns address b).Readable := by
  have haddress (c : Char) (hc : Text.hexValue? c = none) : c ∉ (Hex.upper 4 address).toList :=
    Hex.not_mem_upper hc 4 address
  have hopcode (c : Char) (hc : Text.hexValue? c = none) : c ∉ (Hex.upper 2 b.toNat).toList :=
    Hex.not_mem_upper hc 2 _
  have hwidth : (Hex.upper 2 b.toNat).toList.length < 6 := by
    rw [length_upper_byte]
    decide
  refine readable_of_hex haddress hopcode hwidth ?_
  simp [hopcode '\n' rfl]

theorem toList_wordLine (address : Nat) (high low : UInt8) :
    (wordLine address (.ofBytes high low)).toList =
      Text.ended (wordColumns address (.ofBytes high low)).line := by
  simp [wordLine, wordColumns, Columns.line, Text.ended, List.rightpad, length_text_ofBytes]

theorem toList_byteLine (address : Nat) (b : UInt8) :
    (byteLine address b).toList = Text.ended (byteColumns address b).line := by
  simp [byteLine, byteColumns, Columns.line, Text.ended, List.rightpad, length_upper_byte]

def rows (address : Nat) : List UInt8 → List Columns
  | [] => []
  | [b] => [byteColumns address b]
  | high :: low :: rest => wordColumns address (.ofBytes high low) :: rows (address + 2) rest

theorem readable_of_mem_rows {address : Nat} {program : List UInt8} :
    ∀ c ∈ rows address program, c.Readable := by
  fun_induction rows address program with
  | case1 => exact List.forall_mem_nil _
  | case2 address b => exact List.forall_mem_singleton.2 (readable_byteColumns address b)
  | case3 address high low rest ih =>
    exact List.forall_mem_cons.2 ⟨readable_wordColumns address high low, ih⟩

theorem toList_join_lines (address : Nat) (program : List UInt8) :
    (String.join (lines address program)).toList =
      ((rows address program).map Columns.line).flatMap Text.ended := by
  fun_induction rows address program with
  | case1 => rfl
  | case2 address b => simp [lines, toList_byteLine]
  | case3 address high low rest ih => simp [lines, toList_wordLine, ih]

theorem length_rows (address : Nat) (program : List UInt8) :
    (rows address program).length = (program.length + 1) / 2 := by
  fun_induction rows address program with
  | case1 => rfl
  | case2 address b => simp
  | case3 address high low rest ih =>
    simp only [List.length_cons, ih]
    omega

theorem drop_rows (address : Nat) (program : List UInt8) (i : Nat) :
    (rows address program).drop i = rows (address + 2 * i) (program.drop (2 * i)) := by
  induction i generalizing address program with
  | zero => rfl
  | succ i ih =>
    obtain _ | ⟨high, _ | ⟨low, rest⟩⟩ := program
    · rfl
    · exact List.drop_nil
    · have haddress : address + 2 + 2 * i = address + 2 * (i + 1) := by omega
      exact (ih (address + 2) rest).trans (by rw [haddress]; rfl)

theorem getElem?_rows (address : Nat) (program : List UInt8) (i : Nat) :
    (rows address program)[i]? = (rows (address + 2 * i) (program.drop (2 * i))).head? := by
  rw [← drop_rows, List.head?_drop]

theorem getElem?_rows_word (address : Nat) {program : List UInt8} {i : Nat}
    (h : 2 * i + 1 < program.length) :
    (rows address program)[i]? =
      some (wordColumns (address + 2 * i) (.ofBytes program[2 * i] program[2 * i + 1])) := by
  rw [getElem?_rows, List.drop_eq_getElem_cons (Nat.lt_of_succ_lt h), List.drop_eq_getElem_cons h]
  rfl

theorem getElem?_rows_byte (address : Nat) {program : List UInt8} {i : Nat}
    (h : program.length = 2 * i + 1) :
    (rows address program)[i]? = some (byteColumns (address + 2 * i) program[2 * i]) := by
  rw [getElem?_rows, List.drop_eq_getElem_cons (by omega), List.drop_eq_nil_of_le (by omega)]
  rfl

theorem bytesOfDigits?_wordColumns (address : Nat) (high low : UInt8) :
    Text.bytesOfDigits? (wordColumns address (.ofBytes high low)).opcode = some [high, low] := by
  have hlow := Hex.bytesOfDigits?_upper low []
  rw [List.append_nil] at hlow
  rw [wordColumns, Word.toList_text_ofBytes, Hex.bytesOfDigits?_upper, hlow]
  rfl

theorem bytesOfDigits?_byteColumns (address : Nat) (b : UInt8) :
    Text.bytesOfDigits? (byteColumns address b).opcode = some [b] := by
  have hb := Hex.bytesOfDigits?_upper b []
  rw [List.append_nil] at hb
  rw [byteColumns, hb]
  rfl

/-- Every row tells its address and the bytes there. -/
theorem exists_getElem?_rows (address : Nat) {program : List UInt8} {i : Nat}
    (h : i < (program.length + 1) / 2) :
    ∃ row, (rows address program)[i]? = some row ∧
      row.address = (Hex.upper 4 (address + 2 * i)).toList ∧
      Text.bytesOfDigits? row.opcode = some ((program.drop (2 * i)).take 2) := by
  by_cases hword : 2 * i + 1 < program.length
  · refine ⟨_, getElem?_rows_word address hword, address_wordColumns _ _, ?_⟩
    rw [bytesOfDigits?_wordColumns, List.drop_eq_getElem_cons (by omega),
      List.drop_eq_getElem_cons hword]
    rfl
  · have hbyte : program.length = 2 * i + 1 := by omega
    refine ⟨_, getElem?_rows_byte address hbyte, address_byteColumns _ _, ?_⟩
    rw [bytesOfDigits?_byteColumns, List.drop_eq_getElem_cons (by omega),
      List.drop_eq_nil_of_le (by omega)]
    rfl

theorem bytesOfDigits?_rows (address : Nat) (program : List UInt8) :
    Text.bytesOfDigits? ((rows address program).flatMap Columns.opcode) = some program := by
  fun_induction rows address program with
  | case1 => rfl
  | case2 address b =>
    rw [List.flatMap_singleton]
    exact bytesOfDigits?_byteColumns address b
  | case3 address high low rest ih =>
    rw [List.flatMap_cons, wordColumns, Word.toList_text_ofBytes, List.append_assoc,
      Hex.bytesOfDigits?_upper, Hex.bytesOfDigits?_upper, ih]
    rfl

theorem lines_toList (address : Nat) (program : List UInt8) :
    Text.lines (String.join (lines address program)).toList =
      (rows address program).map Columns.line := by
  rw [toList_join_lines]
  refine Text.lines_flatMap_ended (List.forall_mem_map.2 fun c hc => ?_)
  exact Columns.newline_not_mem_line (readable_of_mem_rows c hc)

theorem map_ofLine_rows (address : Nat) (program : List UInt8) :
    ((rows address program).map Columns.line).map Columns.ofLine = rows address program := by
  have hsame : (rows address program).map (Columns.ofLine ∘ Columns.line) =
      (rows address program).map id :=
    List.map_congr_left fun c hc => Columns.ofLine_line (readable_of_mem_rows c hc)
  rw [List.map_map, hsame, List.map_id]

end Listing

namespace Lister

def rest (l : Lister) : String :=
  String.join (Listing.lines (programStart + l.listed) (l.program.drop l.listed))

/-- What some calls write together, and the lister after them. -/
def nextMany (l : Lister) : Nat → String × Lister
  | 0 => ("", l)
  | n + 1 =>
    let (written, l) := l.nextMany n
    let (line, l) := l.next
    (written ++ line, l)

theorem rest_of_all_listed {l : Lister} (h : l.program.length ≤ l.listed) : l.rest = "" := by
  rw [rest, List.drop_eq_nil_of_le h]
  rfl

theorem next_of_all_listed {l : Lister} (h : l.program.length ≤ l.listed) : l.next = ("", l) := by
  rw [next, List.drop_eq_nil_of_le h]

theorem next_append_rest (l : Lister) : l.next.1 ++ l.next.2.rest = l.rest := by
  simp only [next]
  split
  · exact String.empty_append
  · rename_i b hdrop
    have htail : l.program.drop (l.listed + 1) = [] := by
      rw [← List.drop_drop, hdrop]
      rfl
    simp [rest, hdrop, htail, Listing.lines]
  · rename_i high low more hdrop
    have htail : l.program.drop (l.listed + 2) = more := by
      rw [← List.drop_drop, hdrop]
      rfl
    simp [rest, hdrop, htail, Listing.lines, Nat.add_assoc]

theorem listed_next {l : Lister} (h : l.listed ≤ l.program.length) :
    l.next.2.listed = min (l.listed + 2) l.program.length := by
  have hlength : (l.program.drop l.listed).length = l.program.length - l.listed := List.length_drop
  simp only [next]
  split <;> rename_i hdrop <;> simp only [hdrop, List.length_nil, List.length_cons] at hlength <;>
    dsimp only <;> omega

theorem fst_writeRest (l : Lister) (written : String) :
    (l.writeRest written).1 = written ++ l.rest := by
  fun_induction writeRest l written with
  | case1 l written _ ih => rw [ih, String.append_assoc, next_append_rest]
  | case2 l written h => rw [rest_of_all_listed (Nat.le_of_not_lt h), String.append_empty]

theorem fst_all (l : Lister) : l.all.1 = listing l.program := by
  rw [all, fst_writeRest, String.empty_append]
  rfl

theorem program_nextMany (l : Lister) (n : Nat) : (l.nextMany n).2.program = l.program := by
  induction n with
  | zero => rfl
  | succ n ih => exact (program_next _).trans ih

theorem nextMany_append_rest (l : Lister) (n : Nat) :
    (l.nextMany n).1 ++ (l.nextMany n).2.rest = l.rest := by
  induction n with
  | zero => exact String.empty_append
  | succ n ih => rw [nextMany, String.append_assoc, next_append_rest, ih]

theorem listed_nextMany {l : Lister} (h : l.listed ≤ l.program.length) (n : Nat) :
    (l.nextMany n).2.listed = min (l.listed + 2 * n) l.program.length := by
  induction n with
  | zero => exact (Nat.min_eq_left h).symm
  | succ n ih =>
    have hle : (l.nextMany n).2.listed ≤ (l.nextMany n).2.program.length := by
      rw [program_nextMany, ih]
      exact Nat.min_le_right _ _
    rw [nextMany, listed_next hle, program_nextMany, ih]
    omega

theorem all_listed_nextMany (program : List UInt8) (more : Nat) :
    let l := (nextMany { program } ((program.length + 1) / 2 + more)).2
    l.program.length ≤ l.listed := by
  intro l
  have hlisted : l.listed = min (0 + 2 * ((program.length + 1) / 2 + more)) program.length :=
    listed_nextMany (l := { program }) (Nat.zero_le _) _
  have hprogram : l.program = program := program_nextMany _ _
  rw [hprogram, hlisted]
  omega

theorem fst_nextMany (program : List UInt8) (more : Nat) :
    (nextMany { program } ((program.length + 1) / 2 + more)).1 = listing program := by
  have hrest := nextMany_append_rest { program } ((program.length + 1) / 2 + more)
  rwa [rest_of_all_listed (all_listed_nextMany program more), String.append_empty] at hrest

end Lister

theorem lines_listing (program : List UInt8) :
    Text.lines (listing program).toList =
      (Listing.rows programStart program).map Listing.Columns.line :=
  Listing.lines_toList programStart program

theorem columns_listing (program : List UInt8) :
    (Text.lines (listing program).toList).map Listing.Columns.ofLine =
      Listing.rows programStart program := by
  rw [lines_listing, Listing.map_ofLine_rows]

theorem listing_injective {first second : List UInt8} (h : listing first = listing second) :
    first = second := by
  have hrows : Listing.rows programStart first = Listing.rows programStart second := by
    rw [← columns_listing, ← columns_listing, h]
  refine Option.some.inj ?_
  rw [← Listing.bytesOfDigits?_rows programStart first, hrows, Listing.bytesOfDigits?_rows]

/-- A listing consists of whole lines, one for every two bytes, each with the address of its bytes
and with them; a byte that is left over has its own. So the bytes are found again in the opcodes, and
no two programs have one listing. The same text is written line by line, by as many calls as there
are lines, and by a listing of the whole program after any number of calls. -/
theorem listing_lossless (program : List UInt8) :
    let fresh : Lister := { program }
    let text := fresh.all.1
    let lines := Text.lines text.toList
    let rows := lines.map Listing.Columns.ofLine
    let count := (program.length + 1) / 2
    text = listing program ∧
    lines.flatMap Text.ended = text.toList ∧
    lines.length = count ∧
    (∀ i < count, ∃ row, rows[i]? = some row ∧
      row.address = (Hex.upper 4 (0x200 + 2 * i)).toList ∧
      Text.natOfDigits? 16 row.address = some (0x200 + 2 * i) ∧
      Text.bytesOfDigits? row.opcode = some ((program.drop (2 * i)).take 2)) ∧
    Text.bytesOfDigits? (rows.flatMap Listing.Columns.opcode) = some program ∧
    (∀ front b, program = front ++ [b] → front.length % 2 = 0 →
      rows.getLast? = some (Listing.byteColumns (0x200 + front.length) b)) ∧
    (∀ other, listing other = text → other = program) ∧
    (∀ more, (fresh.nextMany (count + more)).1 = text ∧
      (fresh.nextMany (count + more)).2.next.1 = "") ∧
    (∀ n, (fresh.nextMany n).2.all.1 = text) := by
  intro fresh text lines rows count
  have htext : text = listing program := fresh.fst_all
  have hrows : rows = Listing.rows programStart program := by
    rw [← columns_listing, ← htext]
  have hcount : rows.length = count := by rw [hrows, Listing.length_rows]
  have hlines : lines.flatMap Text.ended = (listing program).toList := by
    rw [show lines = _ from congrArg (fun s => Text.lines s.toList) htext, lines_listing,
      ← Listing.toList_join_lines]
    rfl
  rw [hrows, htext]
  refine ⟨rfl, hlines, ?_, ?_, Listing.bytesOfDigits?_rows _ program, ?_, ?_, ?_, ?_⟩
  · rw [← hcount, List.length_map]
  · intro i hi
    obtain ⟨row, hrow, haddress, hbytes⟩ := Listing.exists_getElem?_rows programStart hi
    exact ⟨row, hrow, haddress, haddress ▸ Hex.natOfDigits?_upper 4 _, hbytes⟩
  · intro front b hprogram heven
    have hlength : program.length = 2 * (front.length / 2) + 1 := by
      rw [hprogram, List.length_append, List.length_singleton]
      omega
    have hlast : (Listing.rows programStart program).length - 1 = front.length / 2 := by
      rw [Listing.length_rows]
      omega
    have hfront : 2 * (front.length / 2) = front.length := by omega
    rw [List.getLast?_eq_getElem?, hlast, Listing.getElem?_rows_byte programStart hlength]
    simp only [hfront, hprogram, List.getElem_concat_length]
    rfl
  · exact fun other h => listing_injective h
  · intro more
    have hend := Lister.all_listed_nextMany program more
    exact ⟨Lister.fst_nextMany program more, congrArg Prod.fst (Lister.next_of_all_listed hend)⟩
  · intro n
    rw [Lister.fst_all, Lister.program_nextMany]

/-- An odd byte is listed on a line of its own. -/
theorem listing_lossless_of_odd :
    let program : List UInt8 := [0x00, 0xE0, 0x12]
    let rows := (Text.lines (listing program).toList).map Listing.Columns.ofLine
    listing program = "0200: 00E0  CLS\n0202: 12    db 0x12\n" ∧
    rows.getLast? = some ⟨"0202".toList, "12".toList, "db 0x12".toList⟩ ∧
    Text.bytesOfDigits? (rows.flatMap Listing.Columns.opcode) = some program := by
  intro program rows
  obtain ⟨htext, -, -, -, hbytes, hodd, -⟩ := listing_lossless program
  rw [htext] at hbytes hodd
  exact ⟨by decide, (hodd [0x00, 0xE0] 0x12 rfl rfl).trans (by rfl), hbytes⟩

end Chip8
