import Chip8.Instruction.Encode
import Chip8.Proofs.Decoding

/-! # The words of instructions

A word is put together again from its fields, and so from the instruction that it reads as. Families
5 and 9 alone do not look at all of their fields: they hold only skips, of which no other
instruction is one. So every other instruction has one word. The other way round, the fields are
found in the word that was put together, and an instruction is read from its word, as long as its
address has no more than the twelve bits that a word has for it.
-/
namespace Chip8

namespace Word

theorem ofByte_fields (w : Word) : ofByte w.family w.x w.nn.toNat = w := by
  have hw := w.toNat_lt
  have hnn : w.nn.toNat = w.toNat % 256 := by simp [nn]
  rw [← UInt16.toNat_inj, ofByte, UInt16.toNat_ofNat', hnn]
  simp only [family, x, Nibble.ofNat]
  omega

theorem ofNibbles_fields (w : Word) : ofNibbles w.family w.x w.y w.n = w := by
  have hw := w.toNat_lt
  rw [← UInt16.toNat_inj, ofNibbles, UInt16.toNat_ofNat']
  simp only [family, x, y, n, Nibble.ofNat]
  omega

theorem ofAddress_fields (w : Word) : ofAddress w.family w.nnn = w := by
  have hw := w.toNat_lt
  have hnnn : w.nnn.toNat = w.toNat % 4096 := by simp [nnn]
  rw [← UInt16.toNat_inj, ofAddress, UInt16.toNat_ofNat', hnnn]
  simp only [family]
  omega

theorem toNat_and_mask (w : Word) : (w &&& 0xFFF0).toNat = w.toNat / 16 * 16 := by
  have hlow : (w.toNat &&& 0xFFF0) % 16 = 0 := by
    rw [Nat.and_mod_two_pow (n := 4)]
    exact Nat.and_zero _
  have hhigh : (w.toNat &&& 0xFFF0) / 16 = w.toNat / 16 := by
    have h := w.toNat_lt
    rw [← Nat.shiftRight_eq_div_pow _ 4, Nat.shiftRight_and_distrib, Nat.shiftRight_eq_div_pow]
    refine (Nat.and_two_pow_sub_one_eq_mod _ 12).trans (Nat.mod_eq_of_lt ?_)
    omega
  rw [UInt16.toNat_and]
  change w.toNat &&& 0xFFF0 = _
  omega

theorem ofNibbles_fields_zero (w : Word) : ofNibbles w.family w.x w.y 0 = w &&& 0xFFF0 := by
  have hw := w.toNat_lt
  rw [← UInt16.toNat_inj, ofNibbles, UInt16.toNat_ofNat', toNat_and_mask]
  simp only [family, x, y, Nibble.ofNat]
  omega

section Fields
variable {family byte n : Nat} {address : UInt16}

theorem toNat_ofByte (hfamily : family < 16) (x : Register) (hbyte : byte < 256) :
    (ofByte family x byte).toNat = family * 4096 + x * 256 + byte := by
  rw [ofByte, UInt16.toNat_ofNat']
  omega

theorem family_ofByte (hfamily : family < 16) (x : Register) (hbyte : byte < 256) :
    (ofByte family x byte).family.val = family := by
  change (ofByte family x byte).toNat / 4096 = family
  rw [toNat_ofByte hfamily x hbyte]
  omega

theorem x_ofByte (hfamily : family < 16) (x : Register) (hbyte : byte < 256) :
    (ofByte family x byte).x = x := by
  apply Fin.ext
  change (ofByte family x byte).toNat / 256 % 16 = x
  rw [toNat_ofByte hfamily x hbyte]
  omega

theorem toNat_nn_ofByte (hfamily : family < 16) (x : Register) (hbyte : byte < 256) :
    (ofByte family x byte).nn.toNat = byte := by
  rw [nn, UInt16.toNat_toUInt8, toNat_ofByte hfamily x hbyte]
  omega

theorem nn_ofByte (hfamily : family < 16) (x : Register) (b : UInt8) :
    (ofByte family x b.toNat).nn = b :=
  UInt8.toNat_inj.1 (toNat_nn_ofByte hfamily x b.toNat_lt)

theorem ofNibbles_eq_ofByte (family x y n : Nat) :
    ofNibbles family x y n = ofByte family x (y * 16 + n) := by
  rw [ofNibbles, ofByte, Nat.add_assoc]

theorem y_ofByte (hfamily : family < 16) (x y : Register) (hn : n < 16) :
    (ofByte family x (y * 16 + n)).y = y := by
  apply Fin.ext
  change (ofByte family x (y * 16 + n)).toNat / 16 % 16 = y
  rw [toNat_ofByte hfamily x (by omega)]
  omega

theorem n_ofByte (hfamily : family < 16) (x y : Register) (hn : n < 16) :
    (ofByte family x (y * 16 + n)).n.val = n := by
  change (ofByte family x (y * 16 + n)).toNat % 16 = n
  rw [toNat_ofByte hfamily x (by omega)]
  omega

theorem toNat_ofAddress (hfamily : family < 16) (haddress : address.toNat < 4096) :
    (ofAddress family address).toNat = family * 4096 + address.toNat := by
  rw [ofAddress, UInt16.toNat_ofNat']
  omega

theorem family_ofAddress (hfamily : family < 16) (haddress : address.toNat < 4096) :
    (ofAddress family address).family.val = family := by
  change (ofAddress family address).toNat / 4096 = family
  rw [toNat_ofAddress hfamily haddress]
  omega

theorem nnn_ofAddress (hfamily : family < 16) (haddress : address.toNat < 4096) :
    (ofAddress family address).nnn = address := by
  rw [← UInt16.toNat_inj, nnn, UInt16.toNat_mod, toNat_ofAddress hfamily haddress]
  change (family * 4096 + address.toNat) % 4096 = address.toNat
  omega

end Fields
end Word

namespace Instruction
variable {w : Word}

theorem encode_decodeSystem (w : Word) : (decodeSystem w).encode = w := by
  unfold decodeSystem
  split_ifs with hclear hret hright hleft hexit hlow hhigh hdown
  · exact hclear.symm
  · exact hret.symm
  · exact hright.symm
  · exact hleft.symm
  · exact hexit.symm
  · exact hlow.symm
  · exact hhigh.symm
  · have hn : w.n.val = w.toNat % 16 := rfl
    have hword : (scrollDown w.n).encode = UInt16.ofNat (0xC0 + w.n.val) := by
      simp [encode, Word.ofByte]
    rw [hword, ← UInt16.toNat_inj, UInt16.toNat_ofNat', hn]
    omega
  · rfl

theorem encode_decodeArithmetic (hw : w.family = 0x8) : (decodeArithmetic w).encode = w := by
  have hfields := w.ofNibbles_fields
  rw [hw] at hfields
  unfold decodeArithmetic
  split
  case h_10 => rfl
  all_goals
    rename_i hn
    rw [hn] at hfields
    exact hfields

theorem encode_decodeKey (hw : w.family = 0xE) : (decodeKey w).encode = w := by
  have hfields := w.ofByte_fields
  rw [hw] at hfields
  unfold decodeKey
  split
  case h_3 => rfl
  all_goals
    rename_i hn
    rw [hn] at hfields
    exact hfields

theorem encode_decodeMisc (hw : w.family = 0xF) : (decodeMisc w).encode = w := by
  have hfields := w.ofByte_fields
  rw [hw] at hfields
  unfold decodeMisc
  split
  case h_10 => rfl
  all_goals
    rename_i hn
    rw [hn] at hfields
    exact hfields

/-- All families but two keep all fields of their words. -/
theorem encode_decode (h5 : w.family ≠ 0x5) (h9 : w.family ≠ 0x9) : (decode w).encode = w := by
  have hbyte := w.ofByte_fields
  have hnibbles := w.ofNibbles_fields
  have haddress := w.ofAddress_fields
  unfold decode
  split
  case h_1 => exact encode_decodeSystem w
  case h_6 hw => exact absurd (Fin.ext hw) h5
  case h_9 hw => exact encode_decodeArithmetic (Fin.ext hw)
  case h_10 hw => exact absurd (Fin.ext hw) h9
  case h_14 hw =>
    rw [hw] at hnibbles
    exact hnibbles
  case h_15 hw => exact encode_decodeKey (Fin.ext hw)
  case h_16 =>
    have hw : w.family = 0xF := by
      have hlt := w.family.isLt
      exact Fin.ext (by grind)
    exact encode_decodeMisc hw
  case h_2 hw | h_3 hw | h_11 hw | h_12 hw =>
    rw [hw] at haddress
    exact haddress
  all_goals
    rename_i hw
    rw [hw] at hbyte
    exact hbyte

/-- No two words read as the same instruction, unless it is a skip. -/
theorem eq_encode_of_decode {i : Instruction} (h : decode w = i) (hi : ∀ c, i ≠ .skip c) :
    w = i.encode := by
  have h5 : w.family ≠ 0x5 := fun hw => hi _ (h.symm.trans (Control.equals hw).decode_eq)
  have h9 : w.family ≠ 0x9 := fun hw => hi _ (h.symm.trans (Control.differs hw).decode_eq)
  rw [← h, encode_decode h5 h9]

/-- The lowest nibble of a skip that compares two registers is lost. -/
theorem encode_decode_of_registers (h : w.family = 0x5 ∨ w.family = 0x9) :
    (decode w).encode = w &&& 0xFFF0 := by
  rw [← w.ofNibbles_fields_zero]
  rcases h with hw | hw
  · rw [(Control.equals hw).decode_eq, hw]
    rfl
  · rw [(Control.differs hw).decode_eq, hw]
    rfl

theorem eq_unknown_or (i : Instruction) : (∃ w, i = .unknown w) ∨ ∀ w, i ≠ .unknown w := by
  cases i with
  | unknown w => exact .inl ⟨w, rfl⟩
  | _ => exact .inr nofun

def address? : Instruction → Option UInt16
  | .jump a | .call a | .jumpOffset a | .loadIndex a => some a
  | _ => none

theorem address?_decodeSystem (w : Word) : (decodeSystem w).address? = none := by
  unfold decodeSystem
  split_ifs <;> rfl

theorem address?_decodeArithmetic (w : Word) : (decodeArithmetic w).address? = none := by
  unfold decodeArithmetic
  split <;> rfl

theorem address?_decodeKey (w : Word) : (decodeKey w).address? = none := by
  unfold decodeKey
  split <;> rfl

theorem address?_decodeMisc (w : Word) : (decodeMisc w).address? = none := by
  unfold decodeMisc
  split <;> rfl

theorem lt_of_address?_decode {a : UInt16} (h : (decode w).address? = some a) :
    a.toNat < 4096 := by
  have hnnn : w.nnn.toNat < 4096 := by
    rw [Word.nnn, UInt16.toNat_mod]
    exact Nat.mod_lt _ (by decide)
  unfold decode at h
  split at h
  case h_1 => cases h.symm.trans (address?_decodeSystem w)
  case h_9 => cases h.symm.trans (address?_decodeArithmetic w)
  case h_15 => cases h.symm.trans (address?_decodeKey w)
  case h_16 => cases h.symm.trans (address?_decodeMisc w)
  case h_2 | h_3 | h_11 | h_12 =>
    cases h
    exact hnnn
  all_goals cases h

theorem decode_encode_skip (c : Condition) : decode c.encode = skip c := by
  cases c with
  | equalsByte x b | differsFromByte x b =>
    have hb := b.toNat_lt
    simp (disch := omega) only [Condition.encode, decode, Word.family_ofByte, Word.x_ofByte,
      Word.nn_ofByte]
  | equals x y | differs x y =>
    simp (disch := omega) only [Condition.encode, decode, Word.ofNibbles_eq_ofByte,
      Word.family_ofByte, Word.x_ofByte, Word.y_ofByte]
  | keyDown x | keyUp x =>
    simp (disch := omega) only [Condition.encode, decode, decodeKey, Word.family_ofByte,
      Word.x_ofByte, Word.toNat_nn_ofByte]

theorem decode_encode_arithmetic (op : Arithmetic) (x y : Register) :
    decode (arithmetic op x y).encode = arithmetic op x y := by
  cases op <;>
    simp (disch := omega) only [encode, Arithmetic.code, decode, decodeArithmetic,
      Word.ofNibbles_eq_ofByte, Word.family_ofByte, Word.x_ofByte, Word.y_ofByte, Word.n_ofByte]

/-- An instruction of the set has a word that reads as it. -/
theorem decode_encode {i : Instruction} (hknown : ∀ w, i ≠ .unknown w)
    (haddress : ∀ a, i.address? = some a → a.toNat < 4096) : decode i.encode = i := by
  cases i with
  | unknown w => exact absurd rfl (hknown w)
  | clearScreen | ret | exit | lowResolution | highResolution | scrollRight | scrollLeft => rfl
  | scrollDown n =>
    have hall : ∀ n : Nibble, decode (scrollDown n).encode = scrollDown n := by decide
    exact hall n
  | jump a | call a | loadIndex a | jumpOffset a =>
    have ha : a.toNat < 4096 := haddress a rfl
    simp (disch := omega) only [encode, decode, Word.family_ofAddress, Word.nnn_ofAddress]
  | skip c => exact decode_encode_skip c
  | arithmetic op x y => exact decode_encode_arithmetic op x y
  | loadByte x b | addByte x b | random x b =>
    have hb := b.toNat_lt
    simp (disch := omega) only [encode, decode, Word.family_ofByte, Word.x_ofByte, Word.nn_ofByte]
  | draw x y n =>
    have hn : (Word.ofByte 0xD x (y * 16 + n)).n = n :=
      Fin.ext (Word.n_ofByte (by decide) x y n.isLt)
    simp (disch := omega) only [encode, decode, Word.ofNibbles_eq_ofByte, Word.family_ofByte,
      Word.x_ofByte, Word.y_ofByte, hn]
  | _ =>
    simp (disch := omega) only [encode, decode, decodeMisc, Word.family_ofByte, Word.x_ofByte,
      Word.toNat_nn_ofByte]

theorem decode_encode_decode (w : Word) : decode (decode w).encode = decode w := by
  rcases (decode w).eq_unknown_or with ⟨v, hv⟩ | hknown
  · rw [hv, ← eq_encode_of_decode hv nofun, hv]
  · exact decode_encode hknown fun _ ha => lt_of_address?_decode ha

end Instruction
end Chip8
