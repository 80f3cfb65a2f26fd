import Chip8.Yaml.Node
import Mathlib.Tactic.Common

/-! # Fields, one to a line

A text of lines that hold a key, a colon and a value, all plain words, is read as one mapping of
these keys to these values. The first key opens the mapping, every further line goes on with it, and
the end of the text closes it.
-/
namespace Chip8.Yaml

/-- Letters, digits and the underscore, which stand for themselves wherever they stand. -/
def isWordChar (c : Char) : Bool := c.isAlphanum || c == '_'

theorem toNat_lt_of_isWordChar {c : Char} (h : isWordChar c = true) : c.toNat < 128 := by
  delta isWordChar Char.isAlphanum Char.isAlpha Char.isUpper Char.isLower Char.isDigit at h
  simp only [Bool.or_eq_true, Bool.and_eq_true, decide_eq_true_eq, beq_iff_eq,
    UInt32.le_iff_toNat_le] at h
  rcases h with ((h | h) | h) | rfl
  · exact Nat.lt_of_le_of_lt h.2 (by decide)
  · exact Nat.lt_of_le_of_lt h.2 (by decide)
  · exact Nat.lt_of_le_of_lt h.2 (by decide)
  · decide

theorem forall_isWordChar {P : Char → Prop}
    (h : ∀ n < 128, isWordChar (Char.ofNat n) = true → P (Char.ofNat n)) {c : Char}
    (hc : isWordChar c = true) : P c := by
  have hofNat : Char.ofNat c.toNat = c := Char.ofNat_toNat c
  rw [← hofNat]
  exact h _ (toNat_lt_of_isWordChar hc) (hofNat.symm ▸ hc)

theorem isAllowed_of_isWordChar {c : Char} (h : isWordChar c = true) : isAllowed c = true :=
  forall_isWordChar (P := fun c => isAllowed c = true) (by decide) h

theorem utf8Size_of_isWordChar {c : Char} (h : isWordChar c = true) : c.utf8Size = 1 :=
  forall_isWordChar (P := fun c => c.utf8Size = 1) (by decide) h

theorem ne_of_isWordChar {c d : Char} (hc : isWordChar c = true) (hd : isWordChar d = false) :
    c ≠ d := by
  rintro rfl
  cases hc.symm.trans hd

theorem isBlank_of_isWordChar {c : Char} (h : isWordChar c = true) : isBlank c = false := by
  simp (disch := decide) [isBlank, ne_of_isWordChar h]

theorem isBreak_of_isWordChar {c : Char} (h : isWordChar c = true) : isBreak c = false := by
  simp (disch := decide) [isBreak, ne_of_isWordChar h]

theorem not_mem_indicators_of_isWordChar {c : Char} (h : isWordChar c = true) :
    c ∉ Lexer.indicators := by
  simp (disch := decide) [Lexer.indicators, ne_of_isWordChar h]

/-- A text of one word. -/
structure IsWord (text : List Char) : Prop where
  nonempty : text ≠ []
  chars : ∀ c ∈ text, isWordChar c = true

theorem isWord_of_all {text : List Char}
    (h : (!text.isEmpty && text.all isWordChar) = true) : IsWord text := by
  rw [Bool.and_eq_true, Bool.not_eq_true', List.isEmpty_eq_false_iff, List.all_eq_true] at h
  exact ⟨h.1, h.2⟩

theorem IsWord.exists_cons {text : List Char} (h : IsWord text) :
    ∃ c more, text = c :: more ∧ isWordChar c = true := by
  obtain ⟨c, more, rfl⟩ := List.exists_cons_of_ne_nil h.nonempty
  exact ⟨c, more, rfl, h.chars c List.mem_cons_self⟩

theorem Cursor.size_word {text : List Char} (h : ∀ c ∈ text, isWordChar c = true) :
    Cursor.size text = text.length := by
  have hfrom (n : Nat) : text.foldl (fun n c => n + c.utf8Size) n = n + text.length := by
    induction text generalizing n with
    | nil => rfl
    | cons c more ih =>
      obtain ⟨hc, hmore⟩ := List.forall_mem_cons.1 h
      rw [List.foldl_cons, ih hmore, utf8Size_of_isWordChar hc, List.length_cons]
      omega
  exact (hfrom 0).trans (Nat.zero_add _)

theorem Cursor.goTo_word {word : List Char} (h : ∀ c ∈ word, isWordChar c = true)
    (rest : List Char) (index line column : Nat) :
    (Cursor.mk (word ++ rest) index line column).goTo rest =
      ⟨rest, index + word.length, line, column + word.length⟩ := by
  have hlength : (word ++ rest).length - rest.length = word.length := by
    rw [List.length_append, Nat.add_sub_cancel]
  rw [goTo, hlength, skip, List.drop_left, List.take_left, size_word h]

theorem Cursor.atMarker_word {word : List Char} (h : IsWord word) (rest : List Char)
    (index line column : Nat) {mark : Char} (hmark : isWordChar mark = false) :
    (Cursor.mk (word ++ rest) index line column).atMarker mark = false := by
  obtain ⟨c, more, rfl, hc⟩ := h.exists_cons
  simp [atMarker, ne_of_isWordChar hc hmark]

theorem plainWord_word {word rest : List Char} (h : ∀ c ∈ word, isWordChar c = true)
    (hrest : plainWord false rest = some ([], rest)) :
    plainWord false (word ++ rest) = some (word, rest) := by
  induction word with
  | nil => exact hrest
  | cons c more ih =>
    obtain ⟨hc, hmore⟩ := List.forall_mem_cons.1 h
    have hcolon : c ≠ ':' := ne_of_isWordChar hc rfl
    simp [plainWord, isBlank_of_isWordChar hc, isBreak_of_isWordChar hc, hcolon, ih hmore]

/-- A text goes on at once, if it goes on. -/
def Starts (text : List Char) : Prop := ∀ c ∈ text.head?, isBlank c = false ∧ isBreak c = false

theorem IsWord.starts {word : List Char} (h : IsWord word) (rest : List Char) :
    Starts (word ++ rest) := by
  obtain ⟨c, more, rfl, hc⟩ := h.exists_cons
  simp [Starts, isBlank_of_isWordChar hc, isBreak_of_isWordChar hc]

theorem not_marker_of_word {word : List Char} (h : IsWord word) (rest : List Char)
    (index line column : Nat) :
    let c : Cursor := ⟨word ++ rest, index, line, column⟩
    (c.atDocumentMarker || startsWith '#' c.rest) = false := by
  intro c
  have hdash : c.atMarker '-' = false := Cursor.atMarker_word h rest index line column rfl
  have hdot : c.atMarker '.' = false := Cursor.atMarker_word h rest index line column rfl
  have hcomment : startsWith '#' c.rest = false := by
    obtain ⟨first, more, rfl, hc⟩ := h.exists_cons
    have hne : first ≠ '#' := ne_of_isWordChar hc rfl
    simp [c, startsWith, hne]
  rw [Cursor.atDocumentMarker, hdash, hdot, hcomment]
  rfl

theorem readPlain_key {key : List Char} (h : IsWord key) (rest : List Char)
    (fuel indent index line column : Nat) :
    readPlain false indent (fuel + 1) ⟨key ++ ':' :: ' ' :: rest, index, line, column⟩ {} [] =
      some (key, ⟨':' :: ' ' :: rest, index + key.length, line, column + key.length⟩, false) := by
  have hmarker := not_marker_of_word h (':' :: ' ' :: rest) index line column
  have hword : plainWord false (key ++ ':' :: ' ' :: rest) = some (key, ':' :: ' ' :: rest) :=
    plainWord_word h.chars rfl
  have hcolon : atSpace (':' :: ' ' :: rest) = false := rfl
  simp [readPlain, hmarker, hword, h.nonempty, Cursor.goTo_word h.chars, hcolon, Gap.text]

theorem gap_read_break {rest : List Char} (h : Starts rest) (index line column : Nat) :
    Gap.read 1 {} index line column ('\n' :: rest) =
      some ({ broken := true, first := ['\n'] }, ⟨rest, index + 1, line + 1, 0⟩) := by
  have hbreak : Gap.read 1 {} index line column ('\n' :: rest) =
      Gap.read 1 { broken := true, first := ['\n'] } (index + 1) (line + 1) 0 rest := rfl
  rw [hbreak]
  cases rest with
  | nil => rfl
  | cons c more =>
    obtain ⟨hblank, hbreak⟩ := h c rfl
    have hreturn : c ≠ '\r' := by
      rintro rfl
      cases hbreak
    simp [Gap.read, hblank, hbreak, hreturn]

/-- A value ends with its line, if the next line does not begin with a space. -/
theorem readPlain_value {value rest : List Char} (h : IsWord value) (hrest : Starts rest)
    (fuel index line column : Nat) :
    readPlain false 1 (fuel + 1) ⟨value ++ '\n' :: rest, index, line, column⟩ {} [] =
      some (value, ⟨rest, index + value.length + 1, line + 1, 0⟩, true) := by
  have hmarker := not_marker_of_word h ('\n' :: rest) index line column
  have hword : plainWord false (value ++ '\n' :: rest) = some (value, '\n' :: rest) :=
    plainWord_word h.chars rfl
  have hbreak : atSpace ('\n' :: rest) = true := rfl
  simp [readPlain, hmarker, hword, h.nonempty, Cursor.goTo_word h.chars, hbreak, Gap.text,
    Cursor.readGap, gap_read_break hrest]

namespace Lexer

/-- A lexer at the beginning of a line, outside of all brackets and with no key in view; a mapping is
open at the margin, or nothing is. -/
def atMargin (isOpen : Bool) (rest : List Char) (index line : Nat) (tokens : List Token) : Lexer where
  cursor := ⟨rest, index, line, 0⟩
  keyAllowed := true
  indents := if isOpen then [0] else []
  mark := none
  outer := []
  tokens := tokens
  count := tokens.length

theorem run_succ {l l' l'' : Lexer} {c : Char} {rest : List Char} (happroach : l.approach = some l')
    (hrest : l'.cursor.rest = c :: rest) (hread : l'.readToken c rest = some l'') (fuel : Nat) :
    run (fuel + 1) l = run fuel l'' := by
  simp [run, happroach, hrest, hread]

theorem readToken_word {l : Lexer} {c : Char} {more rest : List Char} (h : IsWord (c :: more))
    {index line column : Nat} (hcursor : l.cursor = ⟨c :: more ++ rest, index, line, column⟩) :
    l.readToken c (more ++ rest) = l.readPlainScalar := by
  have hdash : l.cursor.atMarker '-' = false :=
    hcursor ▸ Cursor.atMarker_word h rest index line column rfl
  have hdot : l.cursor.atMarker '.' = false :=
    hcursor ▸ Cursor.atMarker_word h rest index line column rfl
  have hc := h.chars c List.mem_cons_self
  have hplain : startsPlain l.inFlow c (more ++ rest) = true := by
    simp [startsPlain, isBlank_of_isWordChar hc, not_mem_indicators_of_isWordChar hc]
  simp (disch := decide) [readToken, hdash, hdot, ne_of_isWordChar hc, hplain]

theorem skipSpace_cons {c : Char} (hbreak : isBreak c = false)
    (hspace : c ∉ ['#', '\ufeff', ' ', '\t']) (keyAllowed : Bool) (rest : List Char)
    (index line column : Nat) :
    skipSpace false false keyAllowed index line column (c :: rest) =
      (⟨c :: rest, index, line, column⟩, keyAllowed) := by
  have hreturn : c ≠ '\r' := by
    rintro rfl
    cases hbreak
  simp only [List.mem_cons, List.not_mem_nil, or_false, not_or] at hspace
  simp [skipSpace, hbreak, hspace, hreturn]

theorem skipSpace_word {c : Char} (h : isWordChar c = true) (keyAllowed : Bool) (rest : List Char)
    (index line column : Nat) :
    skipSpace false false keyAllowed index line column (c :: rest) =
      (⟨c :: rest, index, line, column⟩, keyAllowed) := by
  refine skipSpace_cons (isBreak_of_isWordChar h) ?_ keyAllowed rest index line column
  simp (disch := decide) [ne_of_isWordChar h]

def atColon (isOpen : Bool) (key rest : List Char) (index line : Nat) (tokens : List Token) :
    Lexer where
  cursor := ⟨':' :: ' ' :: rest, index + key.length, line, key.length⟩
  keyAllowed := false
  indents := if isOpen then [0] else []
  mark := some ⟨tokens.length, index, line, 0, isOpen⟩
  outer := []
  tokens := .scalar ⟨key, true⟩ :: tokens
  count := tokens.length + 1

theorem approach_atMargin {word : List Char} (h : IsWord word) (isOpen : Bool) (rest : List Char)
    (index line : Nat) (tokens : List Token) :
    (atMargin isOpen (word ++ rest) index line tokens).approach =
      some (atMargin isOpen (word ++ rest) index line tokens) := by
  obtain ⟨c, more, rfl, hc⟩ := h.exists_cons
  cases isOpen <;>
    simp [approach, atMargin, skipSpace_word hc, dropStale, closeTo, inFlow, closeBlocks]

theorem readPlainScalar_atMargin {key : List Char} (h : IsWord key) (isOpen : Bool)
    (rest : List Char) (index line : Nat) (tokens : List Token) :
    (atMargin isOpen (key ++ ':' :: ' ' :: rest) index line tokens).readPlainScalar =
      some (atColon isOpen key rest index line tokens) := by
  cases isOpen <;>
    simp [readPlainScalar, atMargin, atColon, setMark, dropMark, inFlow, emit, readPlain_key h]

theorem approach_atColon {key : List Char} (hsize : key.length ≤ 1024)
    (isOpen : Bool) (rest : List Char) (index line : Nat) (tokens : List Token) :
    (atColon isOpen key rest index line tokens).approach =
      some (atColon isOpen key rest index line tokens) := by
  have hskip : skipSpace false false false (index + key.length) line key.length
      (':' :: ' ' :: rest) = (⟨':' :: ' ' :: rest, index + key.length, line, key.length⟩, false) :=
    skipSpace_cons rfl (by decide) false _ _ _ _
  have hnear : ¬1024 < key.length := Nat.not_lt.2 hsize
  cases isOpen <;>
    simp [approach, atColon, hskip, dropStale, isStale, closeTo, inFlow, closeBlocks, hnear]

/-- The tokens of a line that has been read, the newest first. The first line opens the mapping. -/
def lineTokens (isOpen : Bool) (key value : List Char) : List Token :=
  .scalar ⟨value, true⟩ :: .value :: .scalar ⟨key, true⟩ :: .key ::
    if isOpen then [] else [.mappingStart]

def atValue (isOpen : Bool) (key rest : List Char) (index line : Nat) (tokens : List Token) :
    Lexer where
  cursor := ⟨' ' :: rest, index + key.length + 1, line, key.length + 1⟩
  keyAllowed := false
  indents := [0]
  mark := none
  outer := []
  tokens := .value :: .scalar ⟨key, true⟩ :: .key ::
    ((if isOpen then [] else [.mappingStart]) ++ tokens)
  count := tokens.length + if isOpen then 3 else 4

theorem readToken_atColon (isOpen : Bool) (key rest : List Char) (index line : Nat)
    (tokens : List Token) :
    (atColon isOpen key rest index line tokens).readToken ':' (' ' :: rest) =
      some (atValue isOpen key rest index line tokens) := by
  have hvalue : (atColon isOpen key rest index line tokens).readToken ':' (' ' :: rest) =
      (atColon isOpen key rest index line tokens).readValue := by
    have hdash : (atColon isOpen key rest index line tokens).cursor.atMarker '-' = false := by
      simp [Cursor.atMarker, atColon]
    have hdot : (atColon isOpen key rest index line tokens).cursor.atMarker '.' = false := by
      simp [Cursor.atMarker, atColon]
    have hspace : atSpace (' ' :: rest) = true := rfl
    simp [readToken, hdash, hdot, hspace]
  have hsize : ':'.utf8Size = 1 := rfl
  rw [hvalue]
  cases isOpen <;>
    simp [readValue, atColon, atValue, opensAt, inFlow, insert, skip, emit, Cursor.skip,
      Cursor.size, Nat.add_assoc, hsize]

theorem approach_atValue {value : List Char} (h : IsWord value) (isOpen : Bool)
    (key rest : List Char) (index line : Nat) (tokens : List Token) :
    (atValue isOpen key (value ++ rest) index line tokens).approach =
      some { atValue isOpen key (value ++ rest) index line tokens with
        cursor := ⟨value ++ rest, index + key.length + 2, line, key.length + 2⟩ } := by
  obtain ⟨c, more, rfl, hc⟩ := h.exists_cons
  have hspace : isBreak ' ' = false := rfl
  have hskip : skipSpace false false false (index + key.length + 1) line (key.length + 1)
      (' ' :: c :: (more ++ rest)) =
        (⟨c :: (more ++ rest), index + key.length + 2, line, key.length + 2⟩, false) := by
    rw [← skipSpace_word hc false]
    simp [skipSpace, hspace]
  simp [approach, atValue, hskip, dropStale, closeTo, inFlow, closeBlocks]

theorem readPlainScalar_atValue {value rest : List Char} (h : IsWord value) (hrest : Starts rest)
    (isOpen : Bool) (key : List Char) (index line : Nat) (tokens : List Token) :
    let l := { atValue isOpen key (value ++ '\n' :: rest) index line tokens with
      cursor := ⟨value ++ '\n' :: rest, index + key.length + 2, line, key.length + 2⟩ }
    l.readPlainScalar =
      some (atMargin true rest (index + key.length + 2 + value.length + 1) (line + 1)
        (lineTokens isOpen key value ++ tokens)) := by
  cases isOpen <;>
    simp [readPlainScalar, atValue, atMargin, setMark, inFlow, emit, readPlain_value h hrest,
      lineTokens]

/-- A line is read in three steps. -/
theorem run_line {key value rest : List Char} (hkey : IsWord key) (hsize : key.length ≤ 1024)
    (hvalue : IsWord value) (hrest : Starts rest) (isOpen : Bool) (index line : Nat)
    (tokens : List Token) (fuel : Nat) :
    run (fuel + 3)
        (atMargin isOpen (key ++ ':' :: ' ' :: (value ++ '\n' :: rest)) index line tokens) =
      run fuel (atMargin true rest (index + key.length + 2 + value.length + 1) (line + 1)
        (lineTokens isOpen key value ++ tokens)) := by
  obtain ⟨c, more, rfl, -⟩ := hkey.exists_cons
  obtain ⟨d, others, rfl, -⟩ := hvalue.exists_cons
  have hkeyRead := (readToken_word hkey rfl).trans
    (readPlainScalar_atMargin hkey isOpen (d :: others ++ '\n' :: rest) index line tokens)
  have hvalueRead := (readToken_word hvalue rfl).trans
    (readPlainScalar_atValue hvalue hrest isOpen (c :: more) index line tokens)
  rw [run_succ (approach_atMargin hkey isOpen _ index line tokens) rfl hkeyRead,
    run_succ (approach_atColon hsize isOpen _ index line tokens) rfl
      (readToken_atColon isOpen (c :: more) _ index line tokens),
    run_succ (approach_atValue hvalue isOpen _ _ index line tokens) rfl hvalueRead]

end Lexer

/-- A key and a value that are words, the key short enough to be found again from its colon. -/
structure IsField (field : List Char × List Char) : Prop where
  key : IsWord field.1
  size : field.1.length ≤ 1024
  value : IsWord field.2

def fieldText (field : List Char × List Char) : List Char :=
  field.1 ++ ':' :: ' ' :: (field.2 ++ ['\n'])

def fieldTokens (field : List Char × List Char) : List Token :=
  [.key, .scalar ⟨field.1, true⟩, .value, .scalar ⟨field.2, true⟩]

theorem starts_flatMap_fieldText {fields : List (List Char × List Char)}
    (h : ∀ field ∈ fields, IsField field) : Starts (fields.flatMap fieldText) := by
  cases fields with
  | nil => simp [Starts]
  | cons field rest =>
    rw [List.flatMap_cons, fieldText, List.append_assoc]
    exact (h field List.mem_cons_self).key.starts _

theorem length_flatMap_fieldText_ge (fields : List (List Char × List Char)) :
    3 * fields.length ≤ (fields.flatMap fieldText).length := by
  induction fields with
  | nil => exact Nat.le_refl 0
  | cons field rest ih =>
    simp only [List.flatMap_cons, List.length_append, List.length_cons, fieldText]
    omega

theorem isAllowed_of_mem_fieldText {field : List Char × List Char} (h : IsField field) :
    ∀ c ∈ fieldText field, isAllowed c = true := by
  intro c hc
  simp only [fieldText, List.mem_append, List.mem_cons, List.not_mem_nil, or_false] at hc
  rcases hc with hc | rfl | rfl | hc | rfl
  · exact isAllowed_of_isWordChar (h.key.chars c hc)
  · rfl
  · rfl
  · exact isAllowed_of_isWordChar (h.value.chars c hc)
  · rfl

theorem Lexer.run_end (index line : Nat) (tokens : List Token) (fuel : Nat) :
    run (fuel + 1) (atMargin true [] index line tokens) =
      some (tokens.reverse ++ [.blockEnd]) := by
  have happroach : (atMargin true [] index line tokens).approach =
      some (atMargin true [] index line tokens) := by
    simp [approach, atMargin, skipSpace, dropStale, closeTo, inFlow, closeBlocks]
  rw [run, happroach]
  simp [atMargin, finish, closeTo, inFlow, closeBlocks, emit, dropMark]

theorem Lexer.run_fields {fields : List (List Char × List Char)}
    (h : ∀ field ∈ fields, IsField field) (index line : Nat) (tokens : List Token) (fuel : Nat) :
    run (fuel + 1 + 3 * fields.length)
        (atMargin true (fields.flatMap fieldText) index line tokens) =
      some (tokens.reverse ++ (fields.flatMap fieldTokens ++ [.blockEnd])) := by
  induction fields generalizing index line tokens with
  | nil => exact run_end index line tokens fuel
  | cons field rest ih =>
    obtain ⟨hfield, hrest⟩ := List.forall_mem_cons.1 h
    have hfuel : fuel + 1 + 3 * (field :: rest).length = fuel + 1 + 3 * rest.length + 3 := rfl
    have htext : (field :: rest).flatMap fieldText =
        field.1 ++ ':' :: ' ' :: (field.2 ++ '\n' :: rest.flatMap fieldText) := by
      simp [fieldText]
    rw [hfuel, htext, run_line hfield.key hfield.size hfield.value (starts_flatMap_fieldText hrest),
      ih hrest]
    simp [lineTokens, fieldTokens]

theorem tokens?_fields {first : List Char × List Char} {rest : List (List Char × List Char)}
    (h : ∀ field ∈ first :: rest, IsField field) :
    tokens? ((first :: rest).flatMap fieldText) =
      some (.mappingStart :: ((first :: rest).flatMap fieldTokens ++ [.blockEnd])) := by
  obtain ⟨hfirst, hrest⟩ := List.forall_mem_cons.1 h
  have hallowed : ((first :: rest).flatMap fieldText).all isAllowed = true := by
    rw [List.all_eq_true]
    intro c hc
    obtain ⟨field, hfield, hc⟩ := List.mem_flatMap.1 hc
    exact isAllowed_of_mem_fieldText (h field hfield) c hc
  obtain ⟨extra, hextra⟩ := Nat.exists_eq_add_of_le
    (length_flatMap_fieldText_ge (first :: rest))
  have hfuel : ((first :: rest).flatMap fieldText).length + 1 = extra + 1 + 3 * rest.length + 3 := by
    rw [hextra, List.length_cons]
    omega
  have htext : (first :: rest).flatMap fieldText =
      first.1 ++ ':' :: ' ' :: (first.2 ++ '\n' :: rest.flatMap fieldText) := by
    simp [fieldText]
  have hstart (text : List Char) : Lexer.ofText text = Lexer.atMargin false text 0 0 [] := rfl
  rw [tokens?, if_pos hallowed, hfuel, hstart, htext,
    Lexer.run_line hfirst.key hfirst.size hfirst.value (starts_flatMap_fieldText hrest),
    Lexer.run_fields hrest]
  simp [Lexer.lineTokens, fieldTokens]

namespace Node

def ofField (field : List Char × List Char) : Node × Node :=
  (.scalar ⟨field.1, true⟩, .scalar ⟨field.2, true⟩)

theorem readBlock_scalar (s : Scalar) (rest : List Token) (bare : Bool) (fuel : Nat) :
    readBlock (fuel + 2) bare (.scalar s :: rest) = some (.scalar s, rest) := by
  simp [readBlock, readFlow]

theorem readPairs_field (field : List Char × List Char) (rest : List Token) (fuel : Nat) :
    readPairs (fuel + 3) (fieldTokens field ++ rest) =
      (readPairs (fuel + 2) rest).map fun pairs => (ofField field :: pairs.1, pairs.2) := by
  have hkey := readBlock_scalar ⟨field.1, true⟩ (.value :: .scalar ⟨field.2, true⟩ :: rest) true
    fuel
  have hvalue := readBlock_scalar ⟨field.2, true⟩ rest true fuel
  rw [fieldTokens, List.cons_append, List.cons_append, List.cons_append, List.cons_append,
    List.nil_append, readPairs]
  cases hrest : readPairs (fuel + 2) rest <;> simp [unlessAt, hkey, hvalue, hrest, ofField]

theorem readPairs_fields (fields : List (List Char × List Char)) (fuel : Nat) :
    readPairs (fuel + 2 + fields.length) (fields.flatMap fieldTokens ++ [.blockEnd]) =
      some (fields.map ofField, []) := by
  induction fields generalizing fuel with
  | nil => simp [readPairs]
  | cons field rest ih =>
    have hfuel : fuel + 2 + (field :: rest).length = fuel + rest.length + 3 := by
      rw [List.length_cons]
      omega
    have hrest : fuel + rest.length + 2 = fuel + 2 + rest.length := by omega
    rw [hfuel, List.flatMap_cons, List.append_assoc, readPairs_field, hrest, ih]
    rfl

theorem ofTokens?_mapping {ts : List Token} {node : Node}
    (h : readBlock (2 * (ts.length + 1) + 2) false (.mappingStart :: ts) = some (node, [])) :
    ofTokens? (.mappingStart :: ts) = some node := by
  simp [ofTokens?, h]

theorem length_flatMap_fieldTokens (fields : List (List Char × List Char)) :
    (fields.flatMap fieldTokens).length = 4 * fields.length := by
  induction fields with
  | nil => rfl
  | cons field rest ih =>
    rw [List.flatMap_cons, List.length_append, ih, List.length_cons, Nat.mul_succ, Nat.add_comm]
    rfl

theorem ofTokens?_fields (fields : List (List Char × List Char)) :
    ofTokens? (.mappingStart :: (fields.flatMap fieldTokens ++ [.blockEnd])) =
      some (.mapping (fields.map ofField)) := by
  apply ofTokens?_mapping
  have hfuel : 2 * ((fields.flatMap fieldTokens ++ [Token.blockEnd]).length + 1) + 2 =
      7 * fields.length + 3 + 2 + fields.length + 1 := by
    rw [List.length_append, length_flatMap_fieldTokens, List.length_singleton]
    omega
  rw [hfuel, readBlock, readPairs_fields]
  rfl

/-- A text of lines is a mapping of its fields. -/
theorem ofText?_fields {text : String} {first : List Char × List Char}
    {rest : List (List Char × List Char)} (h : ∀ field ∈ first :: rest, IsField field)
    (htext : text.toList = (first :: rest).flatMap fieldText) :
    ofText? text = some (.mapping ((first :: rest).map ofField)) := by
  rw [ofText?, htext, tokens?_fields h, Option.bind_some, ofTokens?_fields]

theorem fields?_mapping (fields : List (List Char × List Char)) :
    fields? (.mapping (fields.map ofField)) =
      some (fields.map fun field => (String.ofList field.1, .scalar ⟨field.2, true⟩)) := by
  induction fields with
  | nil => rfl
  | cons field rest ih =>
    rw [fields?] at ih ⊢
    simp [ofField, ih]

end Node
end Chip8.Yaml
