import Chip8.Preferences.Load
import Chip8.Proofs.PreferencesText
import Chip8.Proofs.Storage

/-! # Preferences kept in a file

A file that was loaded once is in its normal form, and to load it again changes nothing; a file that
could not be read is never written.
-/
namespace Chip8.Preferences

variable {format : Format} {text written : String} {p : Preferences}

theorem load_ofText_of_some (h : ofText? text format = some p) (path : String) :
    load path (some (.ofText text)) format = ⟨p, some (.ofText text), true, none⟩ := by
  simp only [load, Entry.text_ofText, h]

theorem load_ofText_of_none (h : ofText? text format = none) (path : String) :
    load path (some (.ofText text)) format =
      ⟨{}, some (.ofText text), false, some (.preferencesMalformed path)⟩ := by
  simp only [load, Entry.text_ofText, h]

theorem load_of_not_valid {bytes : ByteArray} (h : ¬bytes.IsValidUTF8) (path : String) :
    load path (some (.file bytes)) format =
      ⟨{}, some (.file bytes), false, some (.preferencesUnreadable path)⟩ := by
  simp only [load, Entry.text_of_not_valid h]

theorem normalized_load (path : String) (place : Option Entry) :
    (load path place format).preferences.normalized = (load path place format).preferences := by
  unfold load
  split
  · split
    · exact normalized_of_ofText? ‹_›
    · rfl
  · rfl
  · rfl

variable {storage after : Storage} {path : String} {place : Option Entry}

theorem loadFrom_of_kept (hfind : storage.find path = .ok place)
    (h : (load path place format).saved = false) :
    loadFrom storage path format =
      ((load path place format).preferences, storage,
        (load path place format).notice?.toList) := by
  simp [loadFrom, hfind, h]

theorem loadFrom_of_saved (hfind : storage.find path = .ok place)
    (h : (load path place format).saved = true)
    (hwrite : format.write? (load path place format).preferences = some written)
    (hput : storage.put? path written.toUTF8 = some after) :
    loadFrom storage path format =
      ((load path place format).preferences, after,
        (load path place format).notice?.toList) := by
  simp only [loadFrom, hfind, h, if_true, hwrite, Option.bind_some, hput]

theorem Format.ReadsBack.loadFrom_of_put? (hf : format.ReadsBack) (hp : p.normalized = p)
    (hwrite : format.write? p = some written)
    (hput : storage.put? path written.toUTF8 = some after) :
    loadFrom after path format = (p, after, []) := by
  have hfind : after.find path = .ok (some (.ofText written)) := Storage.find_of_put? hput
  have hread : ofText? written format = some p := by rw [hf.ofText?_of_write? hwrite, hp]
  have hload := load_ofText_of_some hread path
  have hagain : after.put? path written.toUTF8 = some after := Storage.put?_of_put? hput
  rw [loadFrom_of_saved hfind (by rw [hload]) (by rw [hload]; exact hwrite) hagain, hload]
  rfl

/-- To load again gives the same, and leaves the storage as it is. -/
theorem Format.ReadsBack.loadFrom_again (hf : format.ReadsBack) (storage : Storage)
    (path : String) :
    let first := loadFrom storage path format
    let second := loadFrom first.2.1 path format
    second.1 = first.1 ∧ second.2.1 = first.2.1 := by
  cases hfind : storage.find path with
  | error e => simp [loadFrom, hfind]
  | ok place =>
    cases hsaved : (load path place format).saved with
    | false => simp only [loadFrom_of_kept hfind hsaved, and_self]
    | true =>
      obtain ⟨written, hwrite, -, -⟩ := hf.exists_text (load path place format).preferences
      cases hput : storage.put? path written.toUTF8 with
      | some after =>
        simp only [loadFrom_of_saved hfind hsaved hwrite hput,
          hf.loadFrom_of_put? (normalized_load path place) hwrite hput, and_self]
      | none =>
        have hstays : (loadFrom storage path format).2.1 = storage := by
          simp only [loadFrom, hfind, hsaved, if_true, hwrite, Option.bind_some, hput]
        intro first second
        have hsame : second = first := congrArg (loadFrom · path format) hstays
        rw [hsame]
        exact ⟨rfl, rfl⟩

/-- To load gives these preferences, and leaves what is written for them at the path. -/
def LoadSaves (format : Format) (storage : Storage) (path : String) (p : Preferences) : Prop :=
  (loadFrom storage path format).1 = p ∧ ∃ written, format.write? p = some written ∧
    (loadFrom storage path format).2.1.find path = .ok (some (.file written.toUTF8))

/-- To load gives the defaults, and leaves everything as it is. -/
def LoadKeeps (format : Format) (storage : Storage) (path : String) : Prop :=
  (loadFrom storage path format).1 = {} ∧ (loadFrom storage path format).2.1 = storage

theorem Format.ReadsBack.loadSaves_of_load {notice? : Option Notice} (hf : format.ReadsBack)
    (hfind : storage.find path = .ok place)
    (hload : load path place format = ⟨p, place, true, notice?⟩)
    (hstored : ∀ bytes, (storage.put? path bytes).isSome = true) :
    LoadSaves format storage path p := by
  obtain ⟨written, hwrite, -, -⟩ := hf.exists_text p
  obtain ⟨after, hput⟩ := Option.isSome_iff_exists.1 (hstored written.toUTF8)
  have hfirst := loadFrom_of_saved hfind (congrArg Loaded.saved hload)
    (by rw [hload]; exact hwrite) hput
  rw [LoadSaves, hfirst, hload]
  exact ⟨rfl, written, hwrite, Storage.find_of_put? hput⟩

theorem loadKeeps_of_load {notice : Notice} (hfind : storage.find path = .ok place)
    (hload : load path place format = ⟨{}, place, false, some notice⟩) :
    LoadKeeps format storage path := by
  rw [LoadKeeps, loadFrom_of_kept hfind (congrArg Loaded.saved hload), hload]
  exact ⟨rfl, rfl⟩

/-- Preferences that could be read, or are not there, are saved as they are used, with a rate that
the clock supports; what could not be read stays as it is, and the defaults are used. To load them
again gives the same preferences and changes nothing. -/
theorem load_settles {format : Format} (hf : format.ReadsBack) {storage : Storage} {path : String}
    {place : Option Entry} (hfind : storage.find path = .ok place)
    (hstored : place ≠ some .folder → ∀ bytes, (storage.put? path bytes).isSome = true) :
    let first := loadFrom storage path format
    let second := loadFrom first.2.1 path format
    (place = none → LoadSaves format storage path {}) ∧
    (place = some .folder → LoadKeeps format storage path) ∧
    (∀ bytes, place = some (.file bytes) → ¬bytes.IsValidUTF8 → LoadKeeps format storage path) ∧
    (∀ text, place = some (.file text.toUTF8) →
      (Text.isAllBlank text = true → LoadSaves format storage path {}) ∧
      (Text.isAllBlank text = false → format.read? text = none → LoadKeeps format storage path) ∧
      (∀ p, Text.isAllBlank text = false → format.read? text = some p →
        LoadSaves format storage path p.normalized)) ∧
    second.1 = first.1 ∧ second.2.1 = first.2.1 := by
  intro first second
  refine ⟨?_, ?_, ?_, ?_, hf.loadFrom_again storage path⟩
  · rintro rfl
    exact hf.loadSaves_of_load hfind rfl (hstored (by simp))
  · rintro rfl
    exact loadKeeps_of_load hfind rfl
  · rintro bytes rfl hbytes
    exact loadKeeps_of_load hfind (load_of_not_valid hbytes path)
  · rintro text rfl
    have hstored := hstored (by simp)
    refine ⟨fun hblank => ?_, fun hblank hread => ?_, fun p hblank hread => ?_⟩
    · exact hf.loadSaves_of_load hfind (load_ofText_of_some (ofText?_of_blank hblank) path) hstored
    · have hnone : ofText? text format = none := by
        rw [ofText?_of_not_blank hblank, hread, Option.map_none]
      exact loadKeeps_of_load hfind (load_ofText_of_none hnone path)
    · have hsome : ofText? text format = some p.normalized := by
        rw [ofText?_of_not_blank hblank, hread, Option.map_some]
      exact hf.loadSaves_of_load hfind (load_ofText_of_some hsome path) hstored

/-- A rate that is too high is lowered, in the file too. -/
theorem load_settles_of_rate :
    let text := "cycles: 5000000\nsound: false\n"
    let storage : Storage := ⟨[(["settings"], .ofText text)]⟩
    let first := loadFrom storage "settings"
    let p : Preferences := { cycles := 1000000, sound := false }
    Format.yaml.ReadsBack ∧ first.1 = p ∧
      first.2.1.find "settings" = .ok (some (.file p.text.toUTF8)) ∧
      (loadFrom first.2.1 "settings").1 = p := by
  intro text storage first p
  have hf : Format.yaml.ReadsBack := Format.writesFields_yaml.readsBack
  have hplace : storage.place "settings" = .ok ["settings"] := by
    have hsize : "settings".utf8ByteSize = 8 := rfl
    have hstart : storage.at? [] = some .folder := by simp [Storage.at?, storage, Place.isFixed]
    simp [Storage.place, Place.route, Place.split, Place.start, Place.enter,
      Storage.enter_of_folder hstart, hsize, Storage.maxPathSize, Storage.maxNameSize]
  have hat : storage.at? ["settings"] = some (.ofText text) := by simp [Storage.at?, storage]
  have hfind : storage.find "settings" = .ok (some (.ofText text)) := by
    simp only [Storage.find, hplace, hat]
  have hstored := Storage.isSome_put? hplace (by simp [hat, Entry.ofText])
  have hblank : Text.isAllBlank text = false := by decide +kernel
  have hread : Format.yaml.read? text = some { cycles := 5000000, sound := false } := by
    decide +kernel
  obtain ⟨-, -, -, htext, hsecond, -⟩ := load_settles hf hfind fun _ => hstored
  obtain ⟨-, -, hsaves⟩ := htext text rfl
  obtain ⟨hp, written, hwrite, hsaved⟩ := hsaves _ hblank hread
  rw [Format.writesFields_yaml.write?_eq, Option.some_inj] at hwrite
  subst hwrite
  exact ⟨hf, hp, hsaved, hsecond.trans hp⟩

end Chip8.Preferences
