import Chip8.Storage.Place

/-! # Files

What is at a place: nothing, a file of bytes, or a folder. A storage holds files and folders by
their places, in no fixed order. A path leads on from a place only if there is a folder.
-/
namespace Chip8

inductive Entry
  | file (bytes : ByteArray)
  | folder

/-- Why a path could not be read. -/
inductive ReadError
  | missing
  | notFolder
  | folder
  | longName
  | notText
deriving DecidableEq, Repr

namespace ReadError

def message : ReadError → String
  | .missing => "No such file or directory (os error 2)"
  | .notFolder => "Not a directory (os error 20)"
  | .folder => "Is a directory (os error 21)"
  | .longName => "File name too long (os error 36)"
  | .notText => "stream did not contain valid UTF-8"

end ReadError

namespace Entry

def ofText (text : String) : Entry := .file text.toUTF8

def bytes : Option Entry → Except ReadError ByteArray
  | none => .error .missing
  | some .folder => .error .folder
  | some (.file bytes) => .ok bytes

def textOf (bytes : ByteArray) : Except ReadError String :=
  match String.fromUTF8? bytes with
  | some text => .ok text
  | none => .error .notText

def text (place : Option Entry) : Except ReadError String := (bytes place).bind textOf

end Entry

structure Storage where
  entries : List (Place × Entry)

namespace Storage

def maxNameSize : Nat := 255

def maxPathSize : Nat := 4095

/-- What is at a place. A place with something below it is a folder. -/
def at? (s : Storage) (p : Place) : Option Entry :=
  match s.entries.find? (·.1 == p) with
  | some (_, entry) => some entry
  | none => if p.isFixed || s.entries.any (p.isSuffixOf ·.1) then some .folder else none

/-- Go on by one name, from a folder. -/
def enter (s : Storage) (p : Place) (name : String) : Except ReadError Place :=
  match s.at? p with
  | none => .error .missing
  | some (.file _) => .error .notFolder
  | some .folder => if maxNameSize < name.utf8ByteSize then .error .longName else .ok (p.enter name)

/-- The place that a path leads to, whether something is there or not. -/
def place (s : Storage) (path : String) : Except ReadError Place :=
  if path = "" then .error .missing
  else if maxPathSize < path.utf8ByteSize then .error .longName
  else (Place.route path).2.foldlM s.enter (Place.route path).1

/-- What is at the end of a path. A path that breaks off leads to nothing. -/
def find (s : Storage) (path : String) : Except ReadError (Option Entry) :=
  match s.place path with
  | .ok p => .ok (s.at? p)
  | .error .missing => .ok none
  | .error error => .error error

def bytes (s : Storage) (path : String) : Except ReadError ByteArray :=
  (s.find path).bind Entry.bytes

def text (s : Storage) (path : String) : Except ReadError String :=
  (s.bytes path).bind Entry.textOf

def set (s : Storage) (p : Place) (entry : Entry) : Storage :=
  if s.entries.any (·.1 == p) then
    ⟨s.entries.map fun (q, e) => if q == p then (q, entry) else (q, e)⟩
  else ⟨s.entries ++ [(p, entry)]⟩

/-- Write a file at the end of a path. Nothing if the path breaks off, or ends at a folder. -/
def put? (s : Storage) (path : String) (bytes : ByteArray) : Option Storage :=
  match s.place path with
  | .error _ => none
  | .ok p =>
    match s.at? p with
    | some .folder => none
    | _ => some (s.set p (.file bytes))

end Storage
end Chip8
