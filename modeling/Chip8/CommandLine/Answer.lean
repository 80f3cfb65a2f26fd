import Chip8.CommandLine.Command
import Chip8.Listing
import Chip8.Player
import Chip8.Preferences.Load
import Chip8.Screen.Text

/-! # Carrying out commands

What a command prints, its exit status, and the storage it leaves behind. A run loads preferences,
program and script in this order and stops at the first that fails; the screen is printed whenever
the program was started, also when it faulted.
-/
namespace Chip8

def usageLines : List String :=
  ["SCHIP v0.1.0",
   "",
   "usage: schip CMD [ARGS]",
   "",
   "commands:",
   "    run ROM     Run the target ROM file headless, and print the final screen",
   "        --config FILE   Settings file, created when missing (default: schip.yaml)",
   "        --script FILE   Scripted key events",
   "        --seconds N     Stop after N seconds of emulated time (default: 10)",
   "        --timing MODE   Override the timing mode, fixed or cosmac",
   "        --realtime      Pace the frames against the wall clock",
   "    dis ROM     Disassemble the target ROM into a listing",
   "    config [FILE]",
   "                Print the settings, creating the file when missing",
   "",
   "examples:",
   "    schip run breakout.rom --script keys.yaml",
   "    schip run breakout.rom --timing cosmac",
   "    schip dis breakout.rom",
   "    schip config schip.yaml",
   ""]

def usage : String := String.join (usageLines.map (· ++ "\n"))

/-- The exit status for arguments that are no command. -/
def usageStatus : Nat := 64

structure Answer where
  status : Nat
  output : String
  storage : Storage
  /-- In the order in which they were given. -/
  notices : List Notice

/-- A player that is ready to run, or why there is none. -/
structure Prepared where
  storage : Storage
  notices : List Notice
  player : Except String Player

namespace RunOptions

def readScript (o : RunOptions) (storage : Storage) (player : Player) :
    Except Failure (Player × List Notice) :=
  match o.script with
  | none => .ok (player, [])
  | some path =>
    match storage.text path with
    | .error error => .error (.reading error)
    | .ok text =>
      match Script.ofText? text with
      | none => .error .malformed
      | some script => .ok (player.setScript script, [Player.scriptNotice script])

def choose (o : RunOptions) (preferences : Preferences) : Except Timing.Unknown Preferences :=
  match o.timing with
  | none => .ok preferences
  | some name => preferences.setTiming name

def prepare (o : RunOptions) (storage : Storage) (entropy : Random.Key) : Prepared :=
  let (preferences, storage, notices) := Preferences.loadFrom storage o.preferences
  match o.choose preferences with
  | .error unknown => ⟨storage, notices, .error unknown.message⟩
  | .ok preferences =>
    let notices := notices ++ [.playing preferences.cycles preferences.timing.name
      preferences.legacyShift preferences.legacyMemory]
    let contents := storage.bytes o.rom
    let notices := notices ++ Player.romNotices o.rom contents
    match (Player.new preferences entropy).loadRom contents with
    | .error error => ⟨storage, notices, .error (Failure.reading error).message⟩
    | .ok player =>
      match o.readScript storage player with
      | .error failure => ⟨storage, notices, .error failure.message⟩
      | .ok (player, more) => ⟨storage, notices ++ more, .ok player⟩

/-- The time limit of a run, in nanoseconds. -/
def limit (o : RunOptions) : Nat := o.seconds.toNat * nanosPerSecond

end RunOptions

namespace Prepared

def refuse (p : Prepared) (message : String) : Answer :=
  ⟨1, "", p.storage, p.notices ++ [.failed message]⟩

def finish (p : Prepared) (o : Outcome Player Stop) : Answer :=
  let output := o.state.machine.screen.dump ++ "\n"
  let notices := p.notices ++ o.log
  match o.result with
  | .ok stop => ⟨0, output, p.storage, notices ++ [.stopped stop.name]⟩
  | .error fault =>
    ⟨1, output, p.storage, notices ++ [.failed (Failure.fault fault).message]⟩

end Prepared

namespace Command

def answerList (storage : Storage) (path : String) : Answer :=
  match storage.bytes path with
  | .ok bytes => ⟨0, listing bytes.toList, storage, []⟩
  | .error error => ⟨1, "", storage, [.failed error.message]⟩

def answerPreferences (storage : Storage) (path : String) : Answer :=
  let (loaded, storage, notices) := Preferences.loadFrom storage path
  ⟨0, loaded.text, storage, notices⟩

/-- Carry out a command as fast as possible. -/
def answer (storage : Storage) (entropy : Random.Key) (shown : Level) : Command → Answer
  | .run o =>
    let prepared := o.prepare storage entropy
    match prepared.player with
    | .error message => prepared.refuse message
    | .ok player => prepared.finish (player.run (some o.limit) shown)
  | .list path => answerList storage path
  | .preferences path => answerPreferences storage path

end Command

/-- Carry out the command that the arguments of the program give. -/
def answer (storage : Storage) (entropy : Random.Key) (shown : Level) (args : List String) :
    Answer :=
  match Command.read? args with
  | some command => command.answer storage entropy shown
  | none => ⟨usageStatus, usage, storage, []⟩

end Chip8
