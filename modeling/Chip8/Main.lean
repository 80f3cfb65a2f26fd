import Chip8.CommandLine.Answer

/-! # The program

The command line on real files and a real clock. Before a command is carried out the paths that it
reads are looked at, and what they pass through; afterwards the files that changed are written.
Notices go to the standard error stream.
-/
namespace Chip8

/-- The paths that a path passes through, itself included. -/
def waypoints (path : String) : List String :=
  let chars := path.toList
  let stops := (List.range chars.length).filter fun i => chars[i]? == some '/' && 0 < i
  (stops.map fun i => String.ofList (chars.take i)) ++ [path]

def lookAt (path : String) : IO (List (Place × Entry)) := do
  try
    return [(Place.ofPath path, .file (← IO.FS.readBinFile path))]
  catch
    | .noFileOrDirectory .. => return []
    | _ => return [(Place.ofPath path, .folder)]

def writeBack (before after : Storage) : IO Unit := do
  for (place, entry) in after.entries do
    if let .file bytes := entry then
      let unchanged := match before.at? place with
        | some (.file old) => old == bytes
        | _ => false
      unless unchanged do
        try IO.FS.writeBinFile place.path bytes catch _ => pure ()

/-- Wait until emulated time that is counted from `start` has passed on the wall as well. -/
def waitUntil (start elapsed : Nat) : IO Unit := do
  let due := start + elapsed
  let now ← IO.monoNanosNow
  if now < due then IO.sleep (UInt32.ofNat ((due - now) / 1000000))

/-- A key that nobody knows. -/
def drawKey : IO Random.Key := do
  let bytes ← IO.getRandomBytes 32
  return .ofFn fun i =>
    (bytes.extract (4 * i) (4 * i + 4)).foldl (fun word b => word * 256 + b.toUInt32) 0

def execute (storage : Storage) (entropy : Random.Key) (args : List String) : IO Answer := do
  if let some (.run o) := Command.read? args then
    if o.realtime then
      let prepared := o.prepare storage entropy
      if let .ok player := prepared.player then
        let start ← IO.monoNanosNow
        let wait := fun elapsed => waitUntil start (elapsed - player.elapsed)
        return prepared.finish (← player.runWith wait .debug o.limit [])
  return answer storage entropy .debug args

end Chip8

open Chip8 in
def main (args : List String) : IO UInt32 := do
  let paths := ((Command.read? args).map Command.paths).getD []
  let found ← (paths.flatMap waypoints).mapM lookAt
  let storage : Storage := ⟨found.flatten⟩
  let entropy ← drawKey
  let answered ← execute storage entropy args
  for notice in answered.notices do
    IO.eprintln (notice.level.name ++ " " ++ notice.text)
  writeBack storage answered.storage
  IO.print answered.output
  return UInt32.ofNat answered.status
