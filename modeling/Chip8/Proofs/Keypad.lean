import Chip8.Keypad
import Mathlib.Data.List.FinRange

/-! # The keypad as a set of keys

Whether a key is down is told by the last thing that was done to it. The keys that are down may as
well be kept in a word, where each key has a bit that masks set, take away and test. The text of a
keypad tells which keys are down.
-/
namespace Chip8

/-- What is done to a keypad. -/
inductive KeyChange
  | set (key : Key) (pressed : Bool)
  | clear

namespace KeyChange

/-- Whether a change is one of the key that a number stands for, or of all keys. -/
def concerns (id : UInt8) : KeyChange → Bool
  | set key _ => key.val == id.toNat
  | clear => true

/-- Whether the keys that a change concerns are down after it. -/
def presses : KeyChange → Bool
  | set _ pressed => pressed
  | clear => false

theorem exists_set_of_presses {change : KeyChange} {id : UInt8} (hconcerns : change.concerns id)
    (hpresses : change.presses = true) :
    ∃ h : id.toNat < 16, change = .set ⟨id.toNat, h⟩ true := by
  cases change with
  | set key pressed =>
    obtain rfl : pressed = true := hpresses
    have hkey : key.val = id.toNat := beq_iff_eq.1 hconcerns
    exact ⟨hkey ▸ key.isLt, congrArg (set · true) (Fin.ext hkey)⟩
  | clear => cases hpresses

end KeyChange

theorem Key.toNat_ofNat (key : Key) : (UInt8.ofNat key.val).toNat = key.val :=
  UInt8.toNat_ofNat_of_lt' (Nat.lt_trans key.isLt (by decide))

namespace Keypad

def apply (p : Keypad) : KeyChange → Keypad
  | .set key pressed => p.set key pressed
  | .clear => released

theorem eq_of_isDown {p q : Keypad} (h : ∀ key, p.isDown key = q.isDown key) : p = q := by
  obtain ⟨down⟩ := p
  obtain ⟨down'⟩ := q
  congr 1
  apply Vector.ext
  intro i hi
  exact h ⟨i, hi⟩

theorem isPressed_of_lt (p : Keypad) {id : UInt8} (h : id.toNat < 16) :
    p.isPressed id = p.isDown ⟨id.toNat, h⟩ := dif_pos h

theorem isPressed_of_not_lt (p : Keypad) {id : UInt8} (h : ¬id.toNat < 16) :
    p.isPressed id = false := dif_neg h

theorem isPressed_set (p : Keypad) (key : Key) (pressed : Bool) (id : UInt8) :
    (p.set key pressed).isPressed id =
      if key.val = id.toNat then pressed else p.isPressed id := by
  by_cases h : id.toNat < 16
  · simp only [isPressed_of_lt _ h, isDown_set, Fin.ext_iff]
  · have hne : key.val ≠ id.toNat := by omega
    rw [if_neg hne, isPressed_of_not_lt _ h, isPressed_of_not_lt _ h]

theorem isPressed_released (id : UInt8) : released.isPressed id = false := by
  simp [isPressed, isDown_released]

theorem isPressed_apply (p : Keypad) (change : KeyChange) (id : UInt8) :
    (p.apply change).isPressed id =
      if change.concerns id then change.presses else p.isPressed id := by
  cases change with
  | set key pressed => simp [apply, isPressed_set, KeyChange.concerns, KeyChange.presses]
  | clear => exact isPressed_released id

/-- The last change that concerns a key tells whether it is down. -/
theorem isPressed_foldl (p : Keypad) (changes : List KeyChange) (id : UInt8) :
    (changes.foldl apply p).isPressed id =
      ((changes.filter (·.concerns id)).getLast?.map KeyChange.presses).getD (p.isPressed id) := by
  induction changes generalizing p with
  | nil => rfl
  | cons change changes ih =>
    rw [List.foldl_cons, ih, isPressed_apply]
    by_cases hconcerns : change.concerns id = true
    · rw [List.filter_cons_of_pos hconcerns, List.getLast?_cons, if_pos hconcerns]
      cases (changes.filter (·.concerns id)).getLast? <;> rfl
    · rw [List.filter_cons_of_neg hconcerns, if_neg hconcerns]

theorem isPressed_foldl_released (changes : List KeyChange) (id : UInt8) :
    (changes.foldl apply released).isPressed id = true ↔ ∃ h : id.toNat < 16,
      (changes.filter (·.concerns id)).getLast? = some (.set ⟨id.toNat, h⟩ true) := by
  rw [isPressed_foldl, isPressed_released]
  cases hlast : (changes.filter (·.concerns id)).getLast? with
  | none => simp
  | some change =>
    have hconcerns := (List.mem_filter.1 (List.mem_of_getLast? hlast)).2
    constructor
    · intro hpresses
      obtain ⟨h, rfl⟩ := KeyChange.exists_set_of_presses hconcerns hpresses
      exact ⟨h, rfl⟩
    · rintro ⟨h, hset⟩
      rw [hset]
      rfl

theorem anyPressed_iff {p : Keypad} : p.anyPressed = true ↔ ∃ key, p.isDown key = true := by
  simp [anyPressed, Key.all]

theorem mem_pressed {p : Keypad} {key : Key} : key ∈ p.pressed ↔ p.isDown key = true := by
  simp [pressed, Key.all]

theorem pairwise_pressed (p : Keypad) : p.pressed.Pairwise (· < ·) :=
  (List.pairwise_lt_finRange 16).filter p.isDown

theorem isPressed_ofNat (p : Keypad) (key : Key) :
    p.isPressed (UInt8.ofNat key.val) = p.isDown key := by
  rw [isPressed_of_lt p (key.toNat_ofNat.symm ▸ key.isLt)]
  exact congrArg p.isDown (Fin.ext key.toNat_ofNat)

theorem anyPressed_iff_isPressed {p : Keypad} :
    p.anyPressed = true ↔ ∃ id, p.isPressed id = true := by
  rw [anyPressed_iff]
  constructor
  · rintro ⟨key, hdown⟩
    exact ⟨UInt8.ofNat key.val, (p.isPressed_ofNat key).trans hdown⟩
  · rintro ⟨id, hpressed⟩
    obtain ⟨h, hdown⟩ := isPressed_iff.1 hpressed
    exact ⟨⟨id.toNat, h⟩, hdown⟩

theorem isPressed_iff_mem_pressed {p : Keypad} {id : UInt8} :
    p.isPressed id = true ↔ id.toNat ∈ p.pressed.map Fin.val := by
  rw [isPressed_iff, List.mem_map]
  constructor
  · rintro ⟨h, hdown⟩
    exact ⟨⟨id.toNat, h⟩, mem_pressed.2 hdown, rfl⟩
  · rintro ⟨key, hmem, hkey⟩
    have h : id.toNat < 16 := hkey ▸ key.isLt
    obtain rfl : key = ⟨id.toNat, h⟩ := Fin.ext hkey
    exact ⟨h, mem_pressed.1 hmem⟩

end Keypad

namespace KeyWord

def mask (id : UInt8) : UInt16 := 1 <<< id.toUInt16

def set (w : UInt16) (key : Key) (pressed : Bool) : UInt16 :=
  if pressed then w ||| mask (UInt8.ofNat key.val) else w &&& ~~~mask (UInt8.ofNat key.val)

def isPressed (w : UInt16) (id : UInt8) : Bool := decide (id.toNat < keyCount) && w &&& mask id != 0

def apply (w : UInt16) : KeyChange → UInt16
  | .set key pressed => set w key pressed
  | .clear => 0

theorem toBitVec_mask {id : UInt8} (h : id.toNat < 16) :
    (mask id).toBitVec = BitVec.twoPow 16 id.toNat := by
  have hshift : (id.toUInt16.toBitVec % 16).toNat = id.toNat := by
    simp [Nat.mod_eq_of_lt h]
  rw [mask, UInt16.toBitVec_shiftLeft, BitVec.shiftLeft_eq', hshift, BitVec.twoPow_eq]
  rfl

theorem testBit_toNat (w : UInt16) (i : Nat) : w.toNat.testBit i = w.toBitVec.getLsbD i :=
  BitVec.testBit_toNat w.toBitVec

theorem and_mask_bne_zero (w : UInt16) {id : UInt8} (h : id.toNat < 16) :
    (w &&& mask id != 0) = w.toNat.testBit id.toNat := by
  have hand : (w &&& mask id).toBitVec =
      if w.toNat.testBit id.toNat then BitVec.twoPow 16 id.toNat else 0 := by
    rw [UInt16.toBitVec_and, toBitVec_mask h, BitVec.and_twoPow, testBit_toNat]
    rfl
  rw [Bool.eq_iff_iff, bne_iff_ne, ne_eq, ← UInt16.toBitVec_inj, hand]
  cases hbit : w.toNat.testBit id.toNat with
  | false => simp
  | true =>
    have hne : BitVec.twoPow 16 id.toNat ≠ 0 := by
      intro hzero
      have hself := congrArg (·.getLsbD id.toNat) hzero
      simp [h] at hself
    simpa using hne

theorem testBit_set (w : UInt16) (key : Key) (pressed : Bool) (key' : Key) :
    (set w key pressed).toNat.testBit key' =
      if key = key' then pressed else w.toNat.testBit key' := by
  have hmask : (mask (UInt8.ofNat key.val)).toBitVec.getLsbD key' = decide (key = key') := by
    rw [toBitVec_mask (key.toNat_ofNat.symm ▸ key.isLt), BitVec.getLsbD_twoPow, key.toNat_ofNat]
    simp [key.isLt, Fin.ext_iff]
  rw [testBit_toNat, testBit_toNat, set]
  cases pressed with
  | true =>
    rw [if_pos rfl, UInt16.toBitVec_or, BitVec.getLsbD_or, hmask]
    by_cases h : key = key' <;> simp [h]
  | false =>
    rw [if_neg Bool.false_ne_true, UInt16.toBitVec_and, UInt16.toBitVec_not, BitVec.getLsbD_and,
      BitVec.getLsbD_not, hmask]
    by_cases h : key = key' <;> simp [h]

/-- A word has the bits of the keys that are down on a keypad. -/
def Holds (w : UInt16) (p : Keypad) : Prop := ∀ key : Key, w.toNat.testBit key = p.isDown key

namespace Holds
variable {w : UInt16} {p : Keypad}

theorem released : Holds 0 .released := by
  intro key
  simp [Keypad.isDown_released]

theorem apply (h : Holds w p) (change : KeyChange) :
    Holds (KeyWord.apply w change) (p.apply change) := by
  cases change with
  | set key pressed =>
    intro key'
    rw [KeyWord.apply, Keypad.apply, testBit_set, Keypad.isDown_set, h key']
  | clear => exact released

theorem foldl (h : Holds w p) (changes : List KeyChange) :
    Holds (changes.foldl KeyWord.apply w) (changes.foldl Keypad.apply p) := by
  induction changes generalizing w p with
  | nil => exact h
  | cons change changes ih => exact ih (h.apply change)

theorem isPressed_eq (h : Holds w p) (id : UInt8) : KeyWord.isPressed w id = p.isPressed id := by
  by_cases hid : id.toNat < 16
  · rw [KeyWord.isPressed, and_mask_bne_zero w hid, p.isPressed_of_lt hid, ← h ⟨id.toNat, hid⟩]
    simp [keyCount, hid]
  · rw [KeyWord.isPressed, p.isPressed_of_not_lt hid]
    simp [keyCount, hid]

theorem unique {v : UInt16} (h : Holds w p) (h' : Holds v p) : w = v := by
  rw [← UInt16.toBitVec_inj]
  apply BitVec.eq_of_getLsbD_eq
  intro i hi
  rw [← testBit_toNat, ← testBit_toNat]
  exact (h ⟨i, hi⟩).trans (h' ⟨i, hi⟩).symm

theorem eq_zero_iff (h : Holds w p) : w = 0 ↔ p.anyPressed = false := by
  rw [← Bool.not_eq_true, Keypad.anyPressed_iff, not_exists]
  constructor
  · rintro rfl key
    simp [← h key]
  · intro hnone
    have hzero : Holds 0 p := by
      intro key
      simp [hnone key]
    exact h.unique hzero

end Holds
end KeyWord

def Key.entry (key : Key) : List Char := [' ', 'k', Nat.digitChar key.val]

theorem Key.digitChar_mem_entry :
    ∀ key key' : Key, Nat.digitChar key.val ∈ key'.entry ↔ key = key' := by
  decide

namespace Keypad

/-- The keypad on which the keys are down whose digits stand behind the word `keys:`. -/
def ofText (text : String) : Keypad :=
  ⟨Vector.ofFn fun key => decide (Nat.digitChar key.val ∈ text.toList.drop 5)⟩

theorem toList_text_of_anyPressed {p : Keypad} (h : p.anyPressed = true) :
    p.text.toList = "keys:".toList ++ p.pressed.flatMap Key.entry := by
  have hentry : (fun key : Key => (" " ++ key.text).toList) = Key.entry := by
    funext key
    simp [Key.text, Key.entry, Nat.toDigits_of_lt_base key.isLt]
  rw [text, if_pos h, String.toList_append, String.toList_join, List.flatMap_map, hentry]

theorem text_eq_empty_iff {p : Keypad} : p.text = "" ↔ p.anyPressed = false := by
  cases h : p.anyPressed with
  | true =>
    have hne : p.text.toList ≠ [] := by
      rw [toList_text_of_anyPressed h]
      exact nofun
    simpa [String.toList_eq_nil_iff] using hne
  | false => simp [text, h]

theorem digitChar_mem_text {p : Keypad} {key : Key} :
    Nat.digitChar key.val ∈ p.text.toList.drop 5 ↔ p.isDown key = true := by
  by_cases h : p.anyPressed = true
  · have hdrop : p.text.toList.drop 5 = p.pressed.flatMap Key.entry := by
      rw [toList_text_of_anyPressed h]
      rfl
    rw [hdrop, List.mem_flatMap]
    simp only [Key.digitChar_mem_entry, exists_eq_right', mem_pressed]
  · have hdown : p.isDown key ≠ true := fun hdown => h (anyPressed_iff.2 ⟨key, hdown⟩)
    rw [text, if_neg h]
    simp [hdown]

theorem ofText_text (p : Keypad) : ofText p.text = p := by
  apply eq_of_isDown
  intro key
  have hread : (ofText p.text).isDown key =
      decide (Nat.digitChar key.val ∈ p.text.toList.drop 5) := by
    simp only [ofText, isDown, Fin.getElem_fin, Vector.getElem_ofFn]
  rw [hread, Bool.eq_iff_iff, decide_eq_true_iff, digitChar_mem_text]

theorem text_injective : Function.Injective text :=
  Function.LeftInverse.injective ofText_text

/-- A keypad is a set of keys. After any changes those keys are down of which the last change, among
those that concern them, was to press them; so to set a key leaves all other keys as they are. A
word whose bits are set and taken away by masks answers the same. The keys that are down are listed
in order, and the text is empty if there are none and tells which they are. -/
theorem keys_are_set :
    (∀ changes : List KeyChange,
      let p := changes.foldl apply released
      let w := changes.foldl KeyWord.apply 0
      (∀ id, (p.isPressed id = true ↔ ∃ h : id.toNat < 16,
          (changes.filter (·.concerns id)).getLast? = some (.set ⟨id.toNat, h⟩ true)) ∧
        KeyWord.isPressed w id = p.isPressed id) ∧
      (w = 0 ↔ p.anyPressed = false)) ∧
    (∀ p : Keypad,
      (∀ key pressed id, key.val ≠ id.toNat →
        (p.set key pressed).isPressed id = p.isPressed id) ∧
      (p.anyPressed = true ↔ ∃ id, p.isPressed id = true) ∧
      p.pressed.Pairwise (· < ·) ∧
      (∀ id, p.isPressed id = true ↔ id.toNat ∈ p.pressed.map Fin.val) ∧
      (p.text = "" ↔ ∀ id, p.isPressed id = false) ∧
      ofText p.text = p) ∧
    ∀ p q : Keypad, p.text = q.text →
      p = q ∧ ∀ w v, KeyWord.Holds w p → KeyWord.Holds v q → w = v := by
  refine ⟨fun changes => ?_, fun p => ?_, fun p q h => ?_⟩
  · have hword := KeyWord.Holds.released.foldl changes
    exact ⟨fun id => ⟨isPressed_foldl_released changes id, hword.isPressed_eq id⟩,
      hword.eq_zero_iff⟩
  · refine ⟨fun key pressed id hne => ?_, anyPressed_iff_isPressed, p.pairwise_pressed,
      fun id => isPressed_iff_mem_pressed, ?_, ofText_text p⟩
    · rw [isPressed_set, if_neg hne]
    · rw [text_eq_empty_iff, ← Bool.not_eq_true, anyPressed_iff_isPressed, not_exists]
      simp only [Bool.not_eq_true]
  · obtain rfl := text_injective h
    exact ⟨rfl, fun w v hw hv => hw.unique hv⟩

/-- The last key is pressed again after all were released, and it alone stays down. -/
theorem keys_are_set_of_last :
    let changes := [.set 15 true, .set 3 true, .clear, .set 7 true, .set 15 true, .set 7 false]
    let p := changes.foldl apply released
    p.isPressed 15 = true ∧ KeyWord.isPressed (changes.foldl KeyWord.apply 0) 15 = true ∧
      p.isPressed 16 = false ∧ (p.set 7 true).isPressed 15 = true ∧ p.text = "keys: kf" ∧
      ∀ q : Keypad, q.text = "keys: kf" → q = p := by
  intro changes p
  obtain ⟨hchanges, hkeypads, htexts⟩ := keys_are_set
  obtain ⟨hids, -⟩ := hchanges changes
  obtain ⟨hothers, -⟩ := hkeypads p
  have hlast : p.isPressed 15 = true := (hids 15).1.2 ⟨by decide, rfl⟩
  have hbeyond : p.isPressed 16 = false := by
    rw [← Bool.not_eq_true]
    intro hpressed
    obtain ⟨hlt, -⟩ := (hids 16).1.1 hpressed
    exact absurd hlt (by decide)
  have htext : p.text = "keys: kf" := by decide
  exact ⟨hlast, (hids 15).2.trans hlast, hbeyond, (hothers 7 true 15 (by decide)).trans hlast,
    htext, fun q hq => (htexts q p (hq.trans htext.symm)).1⟩

end Keypad
end Chip8
