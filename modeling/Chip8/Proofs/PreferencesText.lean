import Chip8.Preferences.Read
import Chip8.Proofs.Text.Numerals
import Chip8.Proofs.Yaml.Fields

/-! # Preferences as text

Different preferences have different texts in their written form, which the format of the program
reads back. In every format that writes them so and reads them back, reading moves the rate to one
that the clock supports, and that is all that reading and writing change: a text that was tidied once
is in its normal form.
-/
namespace Chip8

namespace Yaml

theorem radixDigits?_eq_none {digits : List Char} (h : ∀ c ∈ digits, c.isDigit = true) :
    radixDigits? digits = none := by
  unfold radixDigits?
  split
  · cases h 'x' (by simp)
  · cases h 'o' (by simp)
  · cases h 'b' (by simp)
  · rfl

theorem hasLeadingZero_toDigits (n : Nat) : hasLeadingZero (Nat.toDigits 10 n) = false := by
  rcases Nat.eq_zero_or_pos n with rfl | hn
  · rfl
  · have hstart : startsWith '0' (Nat.toDigits 10 n) = false :=
      beq_eq_false_iff_ne.2 (Text.head?_toDigits hn)
    rw [hasLeadingZero, hstart, Bool.and_false, Bool.false_and]

theorem magnitude?_toDigits (n : Nat) : magnitude? (Nat.toDigits 10 n) = some n := by
  rw [magnitude?, radixDigits?_eq_none Text.isDigit_of_mem_toDigits]
  simp only [hasLeadingZero_toDigits]
  exact Text.natOfDigits?_toDigits n

theorem Scalar.unsigned?_toDigits (n : UInt64) :
    Scalar.unsigned? ⟨Nat.toDigits 10 n.toNat, true⟩ = some n := by
  have hplus : startsWith '+' (Nat.toDigits 10 n.toNat) = false := by
    refine beq_eq_false_iff_ne.2 fun h => ?_
    cases Text.isDigit_of_mem_toDigits '+' (List.mem_of_head? h)
  simp [unsigned?, hplus, magnitude?_toDigits, n.toNat_lt]

theorem Scalar.bool?_boolText (b : Bool) :
    Scalar.bool? ⟨(Preferences.boolText b).toList, true⟩ = some b := by
  cases b <;> rfl

end Yaml

theorem Timing.ofScalar?_name (timing : Timing) :
    Timing.ofScalar? ⟨timing.name.toList, true⟩ = some timing := by
  rw [Timing.ofScalar?, String.ofList_toList, Timing.ofName?_name]

namespace Preferences

def fields (p : Preferences) : List (List Char × List Char) :=
  [("cycles".toList, Nat.toDigits 10 p.cycles.toNat),
   ("timing".toList, p.timing.name.toList),
   ("legacy_shift".toList, (boolText p.legacyShift).toList),
   ("legacy_memops".toList, (boolText p.legacyMemory).toList),
   ("sound".toList, (boolText p.sound).toList)]

theorem toList_text (p : Preferences) : p.text.toList = p.fields.flatMap Yaml.fieldText := by
  delta text
  simp [fields, Yaml.fieldText, ToString.toString]

theorem isWord_toDigits (n : Nat) : Yaml.IsWord (Nat.toDigits 10 n) where
  nonempty := Nat.toDigits_ne_nil
  chars c hc := by
    simp [Yaml.isWordChar, Char.isAlphanum, Text.isDigit_of_mem_toDigits c hc]

theorem isWord_boolText (b : Bool) : Yaml.IsWord (boolText b).toList := by
  cases b <;> exact Yaml.isWord_of_all rfl

theorem isWord_name (timing : Timing) : Yaml.IsWord timing.name.toList := by
  cases timing <;> exact Yaml.isWord_of_all rfl

theorem isField_of_mem_fields (p : Preferences) : ∀ field ∈ p.fields, Yaml.IsField field := by
  simp only [fields, List.forall_mem_cons]
  exact ⟨⟨Yaml.isWord_of_all rfl, by simp, isWord_toDigits _⟩,
    ⟨Yaml.isWord_of_all rfl, by simp, isWord_name _⟩,
    ⟨Yaml.isWord_of_all rfl, by simp, isWord_boolText _⟩,
    ⟨Yaml.isWord_of_all rfl, by simp, isWord_boolText _⟩,
    ⟨Yaml.isWord_of_all rfl, by simp, isWord_boolText _⟩, List.forall_mem_nil _⟩

theorem ofFields?_fields (p : Preferences) :
    ofFields? (p.fields.map fun field => (String.ofList field.1, .scalar ⟨field.2, true⟩)) =
      some p := by
  simp [ofFields?, fields, Yaml.field?, Yaml.Node.scalar?, Yaml.Scalar.unsigned?_toDigits,
    Yaml.Scalar.bool?_boolText, Timing.ofScalar?_name]

/-- A text holds the preferences that it was written from. -/
theorem parse?_text (p : Preferences) : parse? p.text = some p := by
  have hnode : Yaml.Node.ofText? p.text = some (.mapping (p.fields.map Yaml.Node.ofField)) :=
    Yaml.Node.ofText?_fields p.isField_of_mem_fields p.toList_text
  rw [parse?, hnode, Option.bind_some, ofNode?, Yaml.Node.fields?_mapping, Option.bind_some,
    ofFields?_fields]

theorem isAllBlank_text (p : Preferences) : Text.isAllBlank p.text = false := by
  rw [Text.isAllBlank, toList_text]
  rfl

theorem text_injective : Function.Injective text := by
  intro p q h
  have hsame : some p = some q := by rw [← parse?_text p, h, parse?_text]
  exact Option.some.inj hsame

theorem normalized_normalized (p : Preferences) : p.normalized.normalized = p.normalized := by
  simp only [normalized, Rate.clamp_clamp]

theorem normalized_eq_iff {p : Preferences} :
    p.normalized = p ↔ 1 ≤ p.cycles.toNat ∧ p.cycles.toNat ≤ 1000000 := by
  have hcycles : p.normalized = p ↔ Rate.clamp p.cycles = p.cycles := by
    constructor
    · exact fun h => congrArg cycles h
    · intro h
      rw [normalized, h]
  rw [hcycles, ← UInt64.toNat_inj, Rate.toNat_clamp]
  omega

/-- All preferences can be written, as a text that is not blank and is read as what they are. -/
structure Format.ReadsBack (format : Format) : Prop where
  exists_text (p : Preferences) : ∃ text, format.write? p = some text ∧
    Text.isAllBlank text = false ∧ format.read? text = some p

/-- Preferences are written as a block mapping of five plain scalars, and such a mapping is read as
the preferences that it was written from. -/
structure Format.WritesFields (format : Format) : Prop where
  write?_eq (p : Preferences) : format.write? p = some p.text
  read?_text (p : Preferences) : format.read? p.text = some p

theorem Format.WritesFields.readsBack {format : Format} (h : format.WritesFields) :
    format.ReadsBack :=
  ⟨fun p => ⟨p.text, h.write?_eq p, p.isAllBlank_text, h.read?_text p⟩⟩

theorem Format.writesFields_yaml : Format.yaml.WritesFields where
  write?_eq p := by rw [Format.yaml]
  read?_text p := by simp only [Format.yaml, parse?_text]

variable {format : Format} {text written : String} {p : Preferences}

theorem ofText?_of_blank (h : Text.isAllBlank text = true) : ofText? text format = some {} :=
  if_pos h

theorem ofText?_of_not_blank (h : Text.isAllBlank text = false) :
    ofText? text format = (format.read? text).map normalized := by
  rw [ofText?, h, if_neg Bool.false_ne_true]

theorem normalized_of_ofText? (h : ofText? text format = some p) : p.normalized = p := by
  cases hblank : Text.isAllBlank text with
  | true =>
    rw [ofText?_of_blank hblank] at h
    cases h
    rfl
  | false =>
    rw [ofText?_of_not_blank hblank] at h
    obtain ⟨parsed, -, rfl⟩ := Option.map_eq_some_iff.1 h
    exact normalized_normalized parsed

/-- Preferences are read as they were written, with a rate that the clock supports. -/
theorem Format.ReadsBack.ofText?_of_write? (hf : format.ReadsBack)
    (h : format.write? p = some written) : ofText? written format = some p.normalized := by
  obtain ⟨text, hwrite, hblank, hread⟩ := hf.exists_text p
  cases hwrite.symm.trans h
  rw [ofText?_of_not_blank hblank, hread, Option.map_some]

/-- What becomes of a text that is tidied, which is to read it and to write what it held, a number
of times. -/
def tidied? (format : Format) (text : String) : Nat → Option String
  | 0 => some text
  | n + 1 => (tidied? format text n).bind fun t => (ofText? t format).bind format.write?

/-- A text that can be read is in its normal form once it was tidied. -/
theorem Format.ReadsBack.tidied?_succ (hf : format.ReadsBack) (h : ofText? text format = some p)
    (hwrite : format.write? p = some written) (n : Nat) :
    tidied? format text (n + 1) = some written := by
  induction n with
  | zero => rw [tidied?, tidied?, Option.bind_some, h, Option.bind_some, hwrite]
  | succ n ih =>
    rw [tidied?, ih, Option.bind_some, hf.ofText?_of_write? hwrite, normalized_of_ofText? h,
      Option.bind_some, hwrite]

/-- Preferences of every rate are read back from their text with a rate that the clock supports,
and as they were exactly if they had one. What a text is read as is read back as it is, and to tidy
the text more than once changes nothing; and different preferences have different texts. -/
theorem text_round_trip {format : Format} (hf : format.WritesFields) :
    (∀ p, ∃ written, format.write? p = some written ∧
      ofText? written format = some p.normalized ∧
      (ofText? written format = some p ↔ 1 ≤ p.cycles.toNat ∧ p.cycles.toNat ≤ 1000000)) ∧
    (∀ text p, ofText? text format = some p → ∃ written, format.write? p = some written ∧
      ofText? written format = some p ∧ ∀ n, tidied? format text (n + 1) = some written) ∧
    ∀ p q, format.write? p = format.write? q → p = q := by
  refine ⟨?_, ?_, ?_⟩
  · intro p
    have hread := hf.readsBack.ofText?_of_write? (hf.write?_eq p)
    refine ⟨p.text, hf.write?_eq p, hread, ?_⟩
    rw [hread, Option.some_inj]
    exact normalized_eq_iff
  · intro text p h
    have hwrite := hf.write?_eq p
    have hread := hf.readsBack.ofText?_of_write? hwrite
    rw [normalized_of_ofText? h] at hread
    exact ⟨p.text, hwrite, hread, hf.readsBack.tidied?_succ h hwrite⟩
  · intro p q h
    rw [hf.write?_eq, hf.write?_eq, Option.some_inj] at h
    exact text_injective h

/-- A rate that is too high is lowered once. -/
theorem text_round_trip_of_rate :
    let text := "timing: cosmac\ncycles: 9000000\n"
    let p : Preferences := { cycles := 1000000, timing := .cosmac }
    Format.yaml.WritesFields ∧ ofText? text = some p ∧ ofText? p.text = some p ∧
      tidied? .yaml text 3 = some p.text := by
  intro text p
  have h : ofText? text = some p := by decide +kernel
  obtain ⟨-, hagain, -⟩ := text_round_trip Format.writesFields_yaml
  obtain ⟨written, hwrite, hback, htidied⟩ := hagain text p h
  rw [Format.writesFields_yaml.write?_eq, Option.some_inj] at hwrite
  subst hwrite
  exact ⟨Format.writesFields_yaml, h, hback, htidied 2⟩

end Preferences
end Chip8
