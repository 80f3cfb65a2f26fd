import Chip8.Fault
import Chip8.Instruction.Mnemonic
import Chip8.Keypad

/-! # Notices

What the machine and its player report while they work. A notice is the fact; its severity and its
text are functions of it.
-/
namespace Chip8

/-- Severities, the most severe first. -/
inductive Level
  | error | warn | info | debug | trace
deriving DecidableEq, Repr

namespace Level

def rank : Level → Nat
  | .error => 0
  | .warn => 1
  | .info => 2
  | .debug => 3
  | .trace => 4

def name : Level → String
  | .error => "ERROR"
  | .warn => "WARN"
  | .info => "INFO"
  | .debug => "DEBUG"
  | .trace => "TRACE"

/-- Whether notices of the other level are shown when this one is the least severe shown. -/
def shows (threshold level : Level) : Bool := level.rank ≤ threshold.rank

end Level

inductive Notice
  /-- An instruction is about to be executed. -/
  | executing (pc : UInt16) (instruction : Instruction)
  | exitRequested (pc : UInt16)
  | resolution (hires : Bool)
  | faulted (fault : Fault)
  | programLoaded (count : Nat)
  | programTruncated (count lost : Nat)
  | scriptLoaded (count : Nat)
  /-- The keys that are down after scripted events, at a time in milliseconds. -/
  | keysChanged (millis : Nat) (keypad : Keypad)
  | tone (on : Bool)
  | timeLimitReached (frames : Nat)
  | exited (frames : Nat)
  | romRequested (path : String)
  | preferencesCreated (path : String)
  | preferencesMalformed (path : String)
  | preferencesUnreadable (path : String)
  | preferencesUnwritable (path : String)
  | playing (cycles : UInt64) (timing : String) (legacyShift legacyMemory : Bool)
  | stopped (reason : String)
  | failed (message : String)

namespace Notice

def level : Notice → Level
  | .executing .. => .trace
  | .exitRequested .. => .info
  | .resolution .. => .info
  | .faulted .. => .error
  | .programLoaded .. => .debug
  | .programTruncated .. => .warn
  | .scriptLoaded .. => .debug
  | .keysChanged .. => .debug
  | .tone .. => .info
  | .timeLimitReached .. => .info
  | .exited .. => .info
  | .romRequested .. => .info
  | .preferencesCreated .. => .info
  | .preferencesMalformed .. => .warn
  | .preferencesUnreadable .. => .warn
  | .preferencesUnwritable .. => .warn
  | .playing .. => .info
  | .stopped .. => .info
  | .failed .. => .error

def millisField (n : Nat) : String := String.ofList ((Nat.toDigits 10 n).leftpad 6 ' ')

def text : Notice → String
  | .executing pc op => Hex.upper 4 pc.toNat ++ ": " ++ op.mnemonic
  | .exitRequested pc => "exit requested at " ++ Hex.upper 4 pc.toNat
  | .resolution hires => (if hires then "high" else "low") ++ " resolution mode"
  | .faulted fault => fault.message
  | .programLoaded count => s!"loaded program of {count} bytes"
  | .programTruncated count lost =>
    s!"program truncated to {count} bytes, {lost} bytes did not fit in memory"
  | .scriptLoaded count => s!"loaded {count} scripted key events"
  | .keysChanged millis keypad => millisField millis ++ "ms " ++ keypad.text
  | .tone on => "tone " ++ if on then "on" else "off"
  | .timeLimitReached frames => s!"time limit reached after {frames} frames"
  | .exited frames => s!"exit after {frames} frames"
  | .romRequested path => "load rom: " ++ path
  | .preferencesCreated path => "creating config " ++ path
  | .preferencesMalformed path => "malformed config " ++ path ++ ", using defaults"
  | .preferencesUnreadable path => "failed to read config " ++ path ++ ", using defaults"
  | .preferencesUnwritable path => "failed to write config " ++ path
  | .playing cycles timing shift memory =>
    s!"cycles={cycles.toNat} timing={timing} legacy_shift={shift} legacy_memops={memory}"
  | .stopped reason => "stopped: " ++ reason
  | .failed message => message

end Notice
end Chip8
