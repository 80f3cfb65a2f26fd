import Chip8.Text.Digits

/-! # Commands

The grammar of the command line: a command, its first argument, and for a run any number of
options. An option that takes a value takes the argument behind it, whatever it looks like; of two
options of one kind the later counts. Arguments that no command needs are passed over, save behind
`run`.
-/
namespace Chip8

structure RunOptions where
  rom : String
  preferences : String := "schip.yaml"
  script : Option String := none
  timing : Option String := none
  seconds : UInt64 := 10
  realtime : Bool := false
deriving DecidableEq, Repr

inductive Command
  | run (options : RunOptions)
  | list (path : String)
  | preferences (path : String)
deriving DecidableEq, Repr

namespace Command

def readSeconds? (text : String) : Option UInt64 :=
  (Text.natBelow? UInt64.size text.toList).map UInt64.ofNat

/-- Read options into those that were read before. -/
def readOptions? (o : RunOptions) : List String → Option RunOptions
  | [] => some o
  | "--config" :: value :: rest => readOptions? { o with preferences := value } rest
  | "--script" :: value :: rest => readOptions? { o with script := some value } rest
  | "--timing" :: value :: rest => readOptions? { o with timing := some value } rest
  | "--seconds" :: value :: rest =>
    match readSeconds? value with
    | some seconds => readOptions? { o with seconds } rest
    | none => none
  | "--realtime" :: rest => readOptions? { o with realtime := true } rest
  | _ => none

def read? : List String → Option Command
  | "run" :: rom :: rest => (readOptions? { rom } rest).map .run
  | "dis" :: path :: _ => some (.list path)
  | ["config"] => some (.preferences "schip.yaml")
  | "config" :: path :: _ => some (.preferences path)
  | _ => none

def paths : Command → List String
  | .run o => [o.preferences, o.rom] ++ o.script.toList
  | .list path => [path]
  | .preferences path => [path]

end Command
end Chip8
