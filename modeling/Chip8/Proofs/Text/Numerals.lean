import Chip8.Text.Digits
import Chip8.Text.Hex
import Mathlib.Tactic.Common

/-! # Numbers that are read back

The digits that a number is written with are read as that number again, also with zeros before them
and in upper case; nothing but digits stands among them. A text of decimal digits, with a plus sign
before them or not, is read as the number that it writes, and no other text is. A field of
hexadecimal digits is the field of all but its last digit, and that digit.
-/
namespace Chip8.Text

theorem hexValue?_toUpper_digitChar {d : Nat} (h : d < 16) :
    hexValue? d.digitChar.toUpper = some d := by
  revert d
  decide

/-- The number that digits make of a number before them. -/
def readOn? (base : Nat) (n : Nat) (digits : List Char) : Option Nat :=
  digits.foldlM (fun n c => (digitIn? base c).map fun v => n * base + v) n

theorem natOfDigits?_eq {base : Nat} {digits : List Char} (h : digits ≠ []) :
    natOfDigits? base digits = readOn? base 0 digits := by
  rw [natOfDigits?, if_neg (by simpa using h)]
  rfl

theorem readOn?_cons (base n : Nat) (c : Char) (rest : List Char) :
    readOn? base n (c :: rest) =
      ((digitIn? base c).map fun v => n * base + v).bind (readOn? base · rest) :=
  List.foldlM_cons

theorem readOn?_append (base n : Nat) (first second : List Char) :
    readOn? base n (first ++ second) = (readOn? base n first).bind (readOn? base · second) :=
  List.foldlM_append

theorem readOn?_singleton {base v : Nat} {c : Char} (hc : hexValue? c = some v) (hv : v < base)
    (n : Nat) : readOn? base n [c] = some (n * base + v) := by
  simp [readOn?, digitIn?, hc, hv]

/-- Digits are read as they were written, in whatever shape that keeps their values. -/
theorem readOn?_toDigits {base : Nat} (hlow : 1 < base) (hhigh : base ≤ 16) {shape : Char → Char}
    (hshape : ∀ d < 16, hexValue? (shape d.digitChar) = some d) (n : Nat) :
    readOn? base 0 ((Nat.toDigits base n).map shape) = some n := by
  induction n using Nat.base_induction base hlow with
  | single d hd =>
    rw [Nat.toDigits_of_lt_base hd, List.map_singleton,
      readOn?_singleton (hshape d (by omega)) hd]
    simp
  | digit n d hd hn ih =>
    rw [← Nat.toDigits_append_toDigits hlow hn hd, List.map_append, readOn?_append, ih,
      Nat.toDigits_of_lt_base hd, Option.bind_some, List.map_singleton,
      readOn?_singleton (hshape d (by omega)) hd, Nat.mul_comm]

theorem readOn?_zeros {base : Nat} (h : 0 < base) (count : Nat) :
    readOn? base 0 (List.replicate count '0') = some 0 := by
  induction count with
  | zero => rfl
  | succ count ih =>
    rw [List.replicate_succ', readOn?_append, ih, Option.bind_some,
      readOn?_singleton (v := 0) rfl h, Nat.zero_mul]

theorem isDigit_of_mem_toDigits {n : Nat} : ∀ c ∈ Nat.toDigits 10 n, c.isDigit = true :=
  fun _ hc => Nat.isDigit_of_mem_toDigits (by decide) (by decide) hc

theorem head?_toDigits {n : Nat} (h : 0 < n) : (Nat.toDigits 10 n).head? ≠ some '0' := by
  induction n using Nat.base_induction 10 (by decide) with
  | single d hd =>
    rw [Nat.toDigits_of_lt_base hd]
    have hdigits : ∀ d < 10, 0 < d → [d.digitChar].head? ≠ some '0' := by decide
    exact hdigits d hd h
  | digit n d hd hn ih =>
    obtain ⟨c, more, hdigits⟩ := List.exists_cons_of_ne_nil (Nat.toDigits_ne_nil (n := n) (b := 10))
    rw [← Nat.toDigits_append_toDigits (by decide) hn hd, hdigits]
    rw [hdigits] at ih
    exact ih hn

theorem isSome_hexValue?_of_mem {base n k : Nat} {digits : List Char}
    (h : readOn? base n digits = some k) {c : Char} (hc : c ∈ digits) :
    (hexValue? c).isSome = true := by
  induction digits generalizing n with
  | nil => cases hc
  | cons first rest ih =>
    rw [readOn?_cons, Option.bind_eq_some_iff] at h
    obtain ⟨next, hfirst, hrest⟩ := h
    rcases List.mem_cons.1 hc with rfl | hc
    · obtain ⟨v, hv, -⟩ := Option.map_eq_some_iff.1 hfirst
      rw [(Option.filter_eq_some_iff.1 hv).1]
      rfl
    · exact ih hrest hc

theorem digitIn?_ten (c : Char) :
    digitIn? 10 c = if c.isDigit then some (c.toNat - '0'.toNat) else none := by
  have hdigit : c.isDigit = true ↔ '0' ≤ c ∧ c ≤ '9' := by
    simp [Char.isDigit, Char.le_def]
  by_cases h : '0' ≤ c ∧ c ≤ '9'
  · have hlow : c.toNat - '0'.toNat < 10 := by
      have hle : c.toNat ≤ '9'.toNat := h.2
      have hten : '9'.toNat - '0'.toNat = 9 := rfl
      omega
    rw [digitIn?, hexValue?, if_pos h, if_pos (hdigit.2 h), Option.filter_some, if_pos]
    exact decide_eq_true hlow
  · rw [digitIn?, hexValue?, if_neg h, if_neg (mt hdigit.1 h)]
    rw [Option.filter_eq_none_iff]
    intro v hv
    split at hv
    · cases hv
      simp
    · split at hv
      · cases hv
        simp
      · cases hv

/-- Decimal digits are read one after the other, and nothing else is. -/
theorem readOn?_ten_eq_some_iff {digits : List Char} {n k : Nat} :
    readOn? 10 n digits = some k ↔
      (∀ c ∈ digits, c.isDigit = true) ∧ Nat.ofDigitChars 10 digits n = k := by
  induction digits generalizing n with
  | nil => simp [readOn?]
  | cons c rest ih =>
    rw [readOn?_cons, digitIn?_ten, List.forall_mem_cons, Nat.ofDigitChars_cons]
    by_cases hc : c.isDigit = true
    · rw [if_pos hc, Option.map_some, Option.bind_some, Nat.mul_comm n 10]
      simpa only [hc, true_and] using ih
    · simp [hc]

theorem natOfDigits?_ten_eq_some_iff {digits : List Char} {n : Nat} :
    natOfDigits? 10 digits = some n ↔
      digits ≠ [] ∧ (∀ c ∈ digits, c.isDigit = true) ∧ Nat.ofDigitChars 10 digits 0 = n := by
  by_cases h : digits = []
  · subst h
    simp [natOfDigits?]
  · rw [natOfDigits?_eq h, readOn?_ten_eq_some_iff]
    simp [h]

theorem natOfDigits?_toDigits (n : Nat) : natOfDigits? 10 (Nat.toDigits 10 n) = some n :=
  natOfDigits?_ten_eq_some_iff.2
    ⟨Nat.toDigits_ne_nil, isDigit_of_mem_toDigits, Nat.ofDigitChars_ten_toDigits⟩

/-- A text writes a number: in decimal digits, with a plus sign before them or not. -/
def Writes (text : List Char) (n : Nat) : Prop :=
  ∃ digits, (text = digits ∨ text = '+' :: digits) ∧ digits ≠ [] ∧
    (∀ c ∈ digits, c.isDigit = true) ∧ Nat.ofDigitChars 10 digits 0 = n

theorem natBelow?_eq_some_iff {bound n : Nat} {text : List Char} :
    natBelow? bound text = some n ↔ Writes text n ∧ n < bound := by
  unfold natBelow?
  rw [Option.filter_eq_some_iff, natOfDigits?_ten_eq_some_iff, decide_eq_true_iff,
    and_congr_left_iff]
  intro _
  split
  case h_1 rest =>
    constructor
    · exact fun h => ⟨rest, .inr rfl, h⟩
    · rintro ⟨digits, rfl | h, hdigits⟩
      · cases hdigits.2.1 '+' List.mem_cons_self
      · cases h
        exact hdigits
  case h_2 hplus =>
    constructor
    · exact fun h => ⟨text, .inl rfl, h⟩
    · rintro ⟨digits, rfl | h, hdigits⟩
      · exact hdigits
      · cases hplus digits h

end Chip8.Text

namespace Chip8.Hex
open Text

def digit (d : Nat) : Char := d.digitChar.toUpper

theorem toList_upper (width n : Nat) :
    (upper width n).toList = (upperDigits n).leftpad width '0' := String.toList_ofList

theorem readOn?_upper (width n : Nat) : readOn? 16 0 (upper width n).toList = some n := by
  rw [toList_upper, List.leftpad, readOn?_append, readOn?_zeros (by decide), Option.bind_some]
  exact readOn?_toDigits (by decide) (by decide) (fun _ hd => hexValue?_toUpper_digitChar hd) n

theorem upper_ne_nil (width n : Nat) : (upper width n).toList ≠ [] := by
  simp [toList_upper, List.leftpad, upperDigits, Nat.toDigits_ne_nil]

theorem natOfDigits?_upper (width n : Nat) :
    natOfDigits? 16 (upper width n).toList = some n := by
  rw [natOfDigits?_eq (upper_ne_nil width n), readOn?_upper]

theorem not_mem_upper {c : Char} (hc : hexValue? c = none) (width n : Nat) :
    c ∉ (upper width n).toList := by
  intro h
  have hdigit := isSome_hexValue?_of_mem (readOn?_upper width n) h
  rw [hc] at hdigit
  cases hdigit

theorem leftpad_concat (width : Nat) (fill c : Char) (text : List Char) :
    (text ++ [c]).leftpad (width + 1) fill = text.leftpad width fill ++ [c] := by
  simp [List.leftpad]

theorem toList_upper_one {n : Nat} (h : n < 16) : (upper 1 n).toList = [digit n] := by
  rw [toList_upper, upperDigits, Nat.toDigits_of_lt_base h]
  rfl

theorem toList_upper_succ (width n : Nat) :
    (upper (width + 2) n).toList = (upper (width + 1) (n / 16)).toList ++ [digit (n % 16)] := by
  rw [toList_upper, toList_upper]
  rcases Nat.lt_or_ge n 16 with h | h
  · have hzero : upperDigits 0 = ['0'] := rfl
    have hn : upperDigits n = [] ++ [digit n] := by
      rw [upperDigits, Nat.toDigits_of_lt_base h]
      rfl
    rw [hn, leftpad_concat, Nat.div_eq_of_lt h, Nat.mod_eq_of_lt h, hzero]
    simp [List.leftpad, List.replicate_succ']
  · have hn : upperDigits n = upperDigits (n / 16) ++ [digit (n % 16)] := by
      rw [upperDigits, Nat.toDigits_of_base_le (by decide) h, List.map_append]
      rfl
    rw [hn, leftpad_concat]

theorem toList_upper_byte {n : Nat} (h : n < 256) :
    (upper 2 n).toList = [digit (n / 16), digit (n % 16)] := by
  rw [toList_upper_succ, toList_upper_one (by omega)]
  rfl

theorem toList_upper_word (high : Nat) {low : Nat} (h : low < 256) :
    (upper 4 (high * 256 + low)).toList = (upper 2 high).toList ++ (upper 2 low).toList := by
  have hhigh : (high * 256 + low) / 16 / 16 = high := by omega
  have htens : (high * 256 + low) / 16 % 16 = low / 16 := by omega
  have hones : (high * 256 + low) % 16 = low % 16 := by omega
  rw [toList_upper_succ, toList_upper_succ, toList_upper_byte h, hhigh, htens, hones,
    List.append_assoc]
  rfl

end Chip8.Hex
