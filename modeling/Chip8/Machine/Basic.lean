import Chip8.Cpu
import Chip8.Keypad
import Chip8.Random.ChaCha
import Chip8.Screen.Basic
import Chip8.Settings
import Chip8.Timers

/-! # The machine

The whole state of the machine: registers and memory, screen, keypad, timers, clock and random
bytes, the settings, and how the interpreter stands: which register waits for a key, how many
cycles the last instruction still owes, whether the program asked to stop, and the fault that
stopped it for good.
-/
namespace Chip8

/-- What an instruction did, as far as the host wants to know. -/
inductive Flow
  | normal
  /-- The program counter was set to a new address. -/
  | jump
  | draw
  | sound
  /-- The machine waits for a key. -/
  | keyWait
  /-- The program asked to stop. -/
  | exit
deriving DecidableEq, Repr

structure Machine where
  cpu : Cpu
  screen : Screen
  keypad : Keypad
  timers : Timers
  clock : Clock
  random : Random
  settings : Settings
  /-- The register that waits for a key. -/
  awaiting : Option Register
  /-- Cycles that the last instruction still owes. -/
  owed : Nat
  lastCost : Nat
  exitRequested : Bool
  fault : Option Fault

namespace Machine

/-- A machine that was just switched on. Without a seed in the settings, the random bytes are those
of the given key. -/
def new (settings : Settings) (entropy : Random.Key) (generator : Random.Generator := .chaCha) :
    Machine :=
  let settings := settings.withRate settings.rate
  { cpu := .initial
    screen := .blank
    keypad := .released
    timers := .stopped
    clock := .ofRate settings.clockRate
    random := ⟨generator.stream settings.seed entropy, 0⟩
    settings
    awaiting := none
    owed := 0
    lastCost := 0
    exitRequested := false
    fault := none }

def buzzer (m : Machine) : Bool := m.timers.sound != 0

def isAwaiting (m : Machine) : Bool := m.awaiting.isSome

def withClock (m : Machine) (clock : Clock) : Machine := { m with clock }

end Machine
end Chip8
