import Chip8.Storage
import Mathlib.Tactic.Common

/-! # Files that are written

What is written at the end of a path is found there, the way there stays open, and to write the same
again changes nothing.
-/
namespace Chip8

namespace Entry

theorem textOf_toUTF8 (text : String) : textOf text.toUTF8 = .ok text := by
  have hread : String.fromUTF8? text.toUTF8 = some text := by
    rw [String.toUTF8_eq_toByteArray, String.fromUTF8?, dif_pos text.isValidUTF8]
    rfl
  rw [textOf, hread]

theorem text_ofText (text : String) : Entry.text (some (.ofText text)) = .ok text :=
  textOf_toUTF8 text

theorem text_of_not_valid {bytes : ByteArray} (h : ¬bytes.IsValidUTF8) :
    text (some (.file bytes)) = .error .notText := by
  have hread : String.fromUTF8? bytes = none := by rw [String.fromUTF8?, dif_neg h]
  have htext : text (some (.file bytes)) = textOf bytes := rfl
  rw [htext, textOf, hread]

end Entry

namespace Storage
variable {s s' : Storage} {p q : Place} {path : String} {bytes : ByteArray}

/-- An entry, or the new one if it is at the given place. -/
def replace (p : Place) (entry : Entry) : Place × Entry → Place × Entry :=
  fun (q, e) => if q == p then (q, entry) else (q, e)

theorem replace_of_eq {e : Place × Entry} (h : e.1 = p) (entry : Entry) :
    replace p entry e = (p, entry) := by
  rw [replace, if_pos (by simpa using h), h]

theorem replace_of_ne {e : Place × Entry} (h : e.1 ≠ p) (entry : Entry) :
    replace p entry e = e := by
  rw [replace, if_neg (by simpa using h)]

theorem fst_replace (p : Place) (entry : Entry) (e : Place × Entry) :
    (replace p entry e).1 = e.1 := by
  rw [replace]
  split <;> rfl

theorem set_of_mem (h : s.entries.any (·.1 == p) = true) (entry : Entry) :
    s.set p entry = ⟨s.entries.map (replace p entry)⟩ := by
  rw [set, if_pos h]
  rfl

theorem set_of_not_mem (h : s.entries.any (·.1 == p) = false) (entry : Entry) :
    s.set p entry = ⟨s.entries ++ [(p, entry)]⟩ := by
  rw [set, if_neg (by rw [h]; exact Bool.false_ne_true)]

theorem find?_map_replace (entries : List (Place × Entry)) (p q : Place) (entry : Entry) :
    (entries.map (replace p entry)).find? (·.1 == q) =
      (entries.find? (·.1 == q)).map (replace p entry) := by
  have hsame : ((fun e : Place × Entry => e.1 == q) ∘ replace p entry) = (·.1 == q) := by
    funext e
    rw [Function.comp_apply, fst_replace]
  rw [List.find?_map, hsame]

theorem find?_set_self (s : Storage) (p : Place) (entry : Entry) :
    (s.set p entry).entries.find? (·.1 == p) = some (p, entry) := by
  cases hfind : s.entries.find? (·.1 == p) with
  | some e =>
    have hmem : s.entries.any (·.1 == p) = true := by
      rw [← List.isSome_find?, hfind]
      rfl
    have he : e.1 = p := by simpa using List.find?_some hfind
    rw [set_of_mem hmem, find?_map_replace, hfind, Option.map_some, replace_of_eq he]
  | none =>
    have hmem : s.entries.any (·.1 == p) = false := by
      rw [← List.isSome_find?, hfind]
      rfl
    simp [set_of_not_mem hmem, List.find?_append, hfind]

theorem at?_set_self (s : Storage) (p : Place) (entry : Entry) :
    (s.set p entry).at? p = some entry := by
  rw [at?, find?_set_self]

theorem find?_set_of_ne (s : Storage) (h : p ≠ q) (entry : Entry) :
    (s.set p entry).entries.find? (·.1 == q) = s.entries.find? (·.1 == q) := by
  cases hmem : s.entries.any (·.1 == p) with
  | true =>
    rw [set_of_mem hmem, find?_map_replace]
    cases hfind : s.entries.find? (·.1 == q) with
    | none => rfl
    | some e =>
      have he : e.1 = q := by simpa using List.find?_some hfind
      rw [Option.map_some, replace_of_ne fun heq => h (heq.symm.trans he)]
  | false => simp [set_of_not_mem hmem, List.find?_append, h]

theorem any_set (s : Storage) (p : Place) (entry : Entry) {holds : Place → Bool}
    (h : s.entries.any (holds ·.1) = true) : (s.set p entry).entries.any (holds ·.1) = true := by
  cases hmem : s.entries.any (·.1 == p) with
  | true =>
    have hsame : ((fun e : Place × Entry => holds e.1) ∘ replace p entry) = (holds ·.1) := by
      funext e
      rw [Function.comp_apply, fst_replace]
    rw [set_of_mem hmem, List.any_map, hsame, h]
  | false => rw [set_of_not_mem hmem, List.any_append, h, Bool.true_or]

theorem at?_set_of_folder (h : p ≠ q) (hq : s.at? q = some .folder) (entry : Entry) :
    (s.set p entry).at? q = some .folder := by
  rw [at?, find?_set_of_ne s h]
  rw [at?] at hq
  cases hfind : s.entries.find? (·.1 == q) with
  | some e =>
    rw [hfind] at hq
    exact hq
  | none =>
    rw [hfind] at hq
    have hfolder : (q.isFixed || s.entries.any (q.isSuffixOf ·.1)) = true := by
      by_contra hnot
      rw [if_neg hnot] at hq
      cases hq
    refine if_pos ?_
    rw [Bool.or_eq_true] at hfolder ⊢
    exact hfolder.imp_right (any_set s p entry)

theorem eq_of_mem_set {entry : Entry} {e : Place × Entry} (he : e ∈ (s.set p entry).entries)
    (hp : e.1 = p) : e = (p, entry) := by
  cases hmem : s.entries.any (·.1 == p) with
  | true =>
    rw [set_of_mem hmem] at he
    obtain ⟨old, -, rfl⟩ := List.mem_map.1 he
    exact replace_of_eq ((fst_replace p entry old).symm.trans hp) entry
  | false =>
    rw [set_of_not_mem hmem, List.mem_append, List.mem_singleton] at he
    refine he.resolve_left fun hold => ?_
    simpa [hp] using List.any_eq_false.1 hmem e hold

theorem set_set (s : Storage) (p : Place) (entry : Entry) :
    (s.set p entry).set p entry = s.set p entry := by
  have hmem : (s.set p entry).entries.any (·.1 == p) = true := by
    rw [← List.isSome_find?, find?_set_self]
    rfl
  have hsame : ∀ e ∈ (s.set p entry).entries, replace p entry e = e := by
    intro e he
    by_cases hp : e.1 = p
    · rw [replace_of_eq hp, eq_of_mem_set he hp]
    · exact replace_of_ne hp entry
  rw [set_of_mem hmem, List.map_congr_left hsame, List.map_id']

theorem put?_eq_some_iff :
    s.put? path bytes = some s' ↔
      ∃ p, s.place path = .ok p ∧ s.at? p ≠ some .folder ∧ s.set p (.file bytes) = s' := by
  cases hp : s.place path with
  | error e => simp [put?, hp]
  | ok p =>
    rcases hat : s.at? p with _ | _ | _ <;> simp [put?, hp, hat]

theorem isSome_put? (hp : s.place path = .ok p) (hfolder : s.at? p ≠ some .folder)
    (bytes : ByteArray) : (s.put? path bytes).isSome = true := by
  rw [put?_eq_some_iff.2 ⟨p, hp, hfolder, rfl⟩]
  rfl

theorem at?_of_enter {name : String} (h : s.enter q name = .ok p) : s.at? q = some .folder := by
  rcases hat : s.at? q with _ | _ | _
  · simp [enter, hat] at h
  · simp [enter, hat] at h
  · rfl

theorem enter_of_folder (h : s.at? q = some .folder) (name : String) :
    s.enter q name =
      if maxNameSize < name.utf8ByteSize then .error .longName else .ok (q.enter name) := by
  rw [enter, h]

/-- A file that is written where no folder is leaves every way open. -/
theorem foldlM_enter_set {names : List String} (h : names.foldlM s.enter q = .ok p)
    {target : Place} (htarget : s.at? target ≠ some .folder) (entry : Entry) :
    names.foldlM (s.set target entry).enter q = .ok p := by
  induction names generalizing q with
  | nil => exact h
  | cons name rest ih =>
    cases hr : s.enter q name with
    | error e =>
      rw [List.foldlM_cons, hr] at h
      cases h
    | ok r =>
      have hq := at?_of_enter hr
      have hne : target ≠ q := by
        rintro rfl
        exact htarget hq
      have hr' : (s.set target entry).enter q name = .ok r := by
        rw [enter_of_folder (at?_set_of_folder hne hq entry), ← enter_of_folder hq, hr]
      rw [List.foldlM_cons, hr] at h
      rw [List.foldlM_cons, hr']
      exact ih h

theorem place_set (h : s.place path = .ok p) {target : Place}
    (htarget : s.at? target ≠ some .folder) (entry : Entry) :
    (s.set target entry).place path = .ok p := by
  rw [place] at h ⊢
  split at h
  · cases h
  · rename_i hempty
    rw [if_neg hempty]
    split at h
    · cases h
    · rename_i hsize
      rw [if_neg hsize]
      exact foldlM_enter_set h htarget entry

theorem find_of_put? (h : s.put? path bytes = some s') :
    s'.find path = .ok (some (.file bytes)) := by
  obtain ⟨p, hp, hfolder, rfl⟩ := put?_eq_some_iff.1 h
  simp only [find, place_set hp hfolder, at?_set_self]

theorem put?_of_put? (h : s.put? path bytes = some s') : s'.put? path bytes = some s' := by
  obtain ⟨p, hp, hfolder, rfl⟩ := put?_eq_some_iff.1 h
  refine put?_eq_some_iff.2 ⟨p, place_set hp hfolder _, ?_, set_set s p (.file bytes)⟩
  rw [at?_set_self]
  simp

end Storage
end Chip8
