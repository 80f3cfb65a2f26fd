import Chip8.Machine.Host
import Chip8.Machine.Update
import Chip8.Preferences
import Chip8.Script
import Chip8.Storage

/-! # Playing a program

A player runs a machine frame by frame, sixty frames to a second of emulated time, with the keys of
a script. A frame delivers the events that are due, lets the machine run for the length of a frame,
and tells when the buzzer went on or off. A frame that faults takes no time.
-/
namespace Chip8

structure Player where
  machine : Machine
  preferences : Preferences
  script : Script
  /-- Emulated time since the start, in nanoseconds. -/
  elapsed : Nat
  /-- Whether the buzzer sounded at the end of the last frame. -/
  tone : Bool

/-- Why a run ended. -/
inductive Stop
  | exit
  | timeLimit
deriving DecidableEq, Repr

def Stop.name : Stop → String
  | .exit => "Exit"
  | .timeLimit => "TimeLimit"

/-- What can go wrong around the machine. -/
inductive Failure
  | fault (fault : Fault)
  | reading (error : ReadError)
  | malformed

def Failure.message : Failure → String
  | .fault f => "application error: " ++ f.message
  | .reading e => "application error: " ++ e.message
  | .malformed => "application error: malformed document"

namespace Player

def framePeriod : Nat := timerPeriod

/-- The longest time that a run can last. -/
def maxElapsed : Nat := UInt64.size * nanosPerSecond - 1

def ofSettings (preferences : Preferences) (settings : Settings) (entropy : Random.Key)
    (generator : Random.Generator := .chaCha) : Player where
  machine := .new settings entropy generator
  preferences := preferences
  script := .empty
  elapsed := 0
  tone := false

def new (preferences : Preferences) (entropy : Random.Key)
    (generator : Random.Generator := .chaCha) : Player :=
  ofSettings preferences (preferences.toSettings none) entropy generator

def loadProgram (p : Player) (program : List UInt8) : Player :=
  { p with machine := p.machine.loadProgram program }

def loadRom (p : Player) (contents : Except ReadError ByteArray) : Except ReadError Player :=
  contents.map fun bytes => p.loadProgram bytes.toList

def romNotices (path : String) (contents : Except ReadError ByteArray) : List Notice :=
  .romRequested path :: match contents with
    | .ok bytes => [Machine.loadNotice bytes.toList]
    | .error _ => []

def setScript (p : Player) (script : Script) : Player := { p with script }

def scriptNotice (script : Script) : Notice := .scriptLoaded script.events.length

def frameCount (p : Player) : Nat := p.elapsed / framePeriod

def deliver (p : Player) : Player :=
  let events := p.script.due p.elapsed
  { p with
    machine := events.foldl (fun m e => m.setKey e.key e.pressed) p.machine
    script := p.script.rest p.elapsed }

def deliveryNotices (p : Player) : List Notice :=
  if (p.script.due p.elapsed).isEmpty then []
  else [.keysChanged (p.elapsed / 1000000) p.deliver.machine.keypad]

/-- Take note of the buzzer at the end of a frame. -/
def noteTone (p : Player) : Player × List Notice :=
  let sounding := p.machine.buzzer
  if p.preferences.sound && sounding != p.tone then ({ p with tone := sounding }, [.tone sounding])
  else (p, [])

def frame (p : Player) : Outcome Player Unit :=
  let notices := p.deliveryNotices
  let p := p.deliver
  let ⟨machine, result, more⟩ := p.machine.update framePeriod
  match result with
  | .error fault => ⟨{ p with machine }, .error fault, more ++ notices⟩
  | .ok _ =>
    let (p, tones) := { p with machine, elapsed := p.elapsed + framePeriod }.noteTone
    ⟨p, .ok (), tones ++ (more ++ notices)⟩

theorem elapsed_noteTone (p : Player) : p.noteTone.1.elapsed = p.elapsed := by
  simp only [noteTone]
  split <;> rfl

theorem elapsed_frame {p : Player} (h : p.frame.result = .ok ()) :
    p.frame.state.elapsed = p.elapsed + framePeriod := by
  revert h
  simp only [frame]
  split
  · intro h; cases h
  · intro _; simp only [elapsed_noteTone]; rfl

/-- Run frames until the program asks to stop or the time limit is reached, keeping the notices
that `shown` shows. The limit is looked at before each frame. After each frame that does not end
the run, `wait` is given the emulated time. -/
@[specialize] def runWith {M : Type → Type} [Monad M] (wait : Nat → M Unit) (shown : Level)
    (limit : Nat) (p : Player) (notices : List Notice) : M (Outcome Player Stop) :=
  if p.elapsed < limit then
    match _h : p.frame with
    | ⟨q, .error fault, more⟩ =>
      pure ⟨q, .error fault, more.filter (shown.shows ·.level) ++ notices⟩
    | ⟨q, .ok (), more⟩ =>
      let notices := more.filter (shown.shows ·.level) ++ notices
      if q.machine.exitRequested then pure ⟨q, .ok .exit, .exited q.frameCount :: notices⟩
      else wait q.elapsed >>= fun _ => runWith wait shown limit q notices
  else pure ⟨p, .ok .timeLimit, .timeLimitReached p.frameCount :: notices⟩
termination_by limit - p.elapsed
decreasing_by
  have hq : q.elapsed = p.elapsed + framePeriod := by
    have := @elapsed_frame p (by rw [_h])
    rwa [_h] at this
  have : 0 < framePeriod := by decide
  omega

/-- Run a program as fast as possible. Without a limit the run lasts as long as time can be told. -/
def run (p : Player) (limit : Option Nat) (shown : Level) : Outcome Player Stop :=
  Id.run (p.runWith (fun _ => pure ()) shown (limit.getD maxElapsed) [])

end Player
end Chip8
