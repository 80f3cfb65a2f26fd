/-! # Places and paths

A path is a row of names with slashes between them. It leads, name by name, from the folder where
the program was started to a place; a path that begins with a slash starts at the root. An empty
name and `.` stay where they are, and `..` leads to the folder above.
-/
namespace Chip8

/-- The names on the way to a place, the last one first. A place above the start has `..` for its
first names, and a place below the root has an empty first name. -/
abbrev Place := List String

namespace Place

def start : Place := []

def up : Place → Place
  | [] => [".."]
  | [""] => [""]
  | ".." :: above => ".." :: ".." :: above
  | _ :: above => above

def enter (p : Place) (name : String) : Place :=
  if name = "" ∨ name = "." then p else if name = ".." then p.up else name :: p

/-- Whether a place is a folder whatever is stored: the start, a folder above it, or the root. -/
def isFixed (p : Place) : Bool := p.all (· == "..") || p == [""]

def split : List Char → List (List Char)
  | [] => [[]]
  | c :: rest =>
    if c = '/' then [] :: split rest
    else match split rest with
      | [] => [[c]]
      | name :: names => (c :: name) :: names

/-- Where a path starts, and the names in it. -/
def route (path : String) : Place × List String :=
  match path.toList with
  | '/' :: rest => ([""], (split rest).map String.ofList)
  | names => (start, (split names).map String.ofList)

def ofPath (path : String) : Place := (route path).2.foldl enter (route path).1

def path (p : Place) : String := String.intercalate "/" p.reverse

end Place
end Chip8
