import Chip8.Log
import Chip8.Preferences.Read
import Chip8.Storage

/-! # Preferences in a file

Loading preferences also tidies their file: a missing one is made, and one that could be read is
written again in its normal form. What cannot be read is left as it is, and the defaults are used.
-/
namespace Chip8.Preferences

/-- Preferences that were loaded, and whether they are saved where something else was before. -/
structure Loaded where
  preferences : Preferences
  before : Option Entry
  saved : Bool
  notice? : Option Notice

def Loaded.place (l : Loaded) (format : Format := .yaml) : Option Entry :=
  match l.saved, format.write? l.preferences with
  | true, some text => some (.ofText text)
  | _, _ => l.before

def load (path : String) (place : Option Entry) (format : Format := .yaml) : Loaded :=
  match Entry.text place with
  | .ok text =>
    match ofText? text format with
    | some preferences => ⟨preferences, place, true, none⟩
    | none => ⟨{}, place, false, some (.preferencesMalformed path)⟩
  | .error .missing => ⟨{}, place, true, some (.preferencesCreated path)⟩
  | .error _ => ⟨{}, place, false, some (.preferencesUnreadable path)⟩

/-- Load preferences from a storage. A file that cannot be made is not made. -/
def loadFrom (storage : Storage) (path : String) (format : Format := .yaml) :
    Preferences × Storage × List Notice :=
  match storage.find path with
  | .error _ => ({}, storage, [.preferencesUnreadable path])
  | .ok place =>
    let loaded := load path place format
    let notices := loaded.notice?.toList
    if loaded.saved then
      match (format.write? loaded.preferences).bind fun text => storage.put? path text.toUTF8 with
      | some storage => (loaded.preferences, storage, notices)
      | none => (loaded.preferences, storage, notices ++ [.preferencesUnwritable path])
    else (loaded.preferences, storage, notices)

end Chip8.Preferences
