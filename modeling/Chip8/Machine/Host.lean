import Chip8.Log
import Chip8.Machine.Basic

/-! # What the host does to a machine

Pressing and releasing keys, loading programs, and changing rate and timing. A key that is pressed
while a register waits for one goes into that register, and the machine runs on.
-/
namespace Chip8.Machine

def pressKey (m : Machine) (k : Key) : Machine :=
  let m := { m with keypad := m.keypad.set k true }
  match m.awaiting with
  | some x => { m with cpu := m.cpu.setRegister x (UInt8.ofNat k), awaiting := none }
  | none => m

theorem pressKey_of_running {m : Machine} (hx : m.awaiting = none) (k : Key) :
    m.pressKey k = { m with keypad := m.keypad.set k true } := by
  simp only [pressKey, hx]

theorem pressKey_of_awaiting {m : Machine} {x : Register} (hx : m.awaiting = some x) (k : Key) :
    m.pressKey k =
      { m with
        keypad := m.keypad.set k true
        cpu := m.cpu.setRegister x (UInt8.ofNat k)
        awaiting := none } := by
  simp only [pressKey, hx]

/-- A key that is pressed changes the keypad, and at most a register and the wait for a key. -/
theorem pressKey_frame (m : Machine) (k : Key) :
    m.pressKey k =
      { m with
        keypad := m.keypad.set k true
        cpu := (m.pressKey k).cpu
        awaiting := (m.pressKey k).awaiting } := by
  cases hx : m.awaiting with
  | none => rw [pressKey_of_running hx, hx]
  | some x => rw [pressKey_of_awaiting hx]

theorem clock_pressKey (m : Machine) (k : Key) : (m.pressKey k).clock = m.clock := by
  rw [pressKey_frame]

def releaseKey (m : Machine) (k : Key) : Machine := { m with keypad := m.keypad.set k false }

def setKey (m : Machine) (k : Key) (pressed : Bool) : Machine :=
  if pressed then m.pressKey k else m.releaseKey k

def clearKeys (m : Machine) : Machine := { m with keypad := .released }

def loadProgram (m : Machine) (program : List UInt8) : Machine :=
  { m with cpu := m.cpu.load program }

def loadNotice (program : List UInt8) : Notice :=
  let count := Cpu.loadCount program
  if count < program.length then .programTruncated count (program.length - count)
  else .programLoaded count

/-- Change the timing mode. The clock follows, and owed cycles are dropped. -/
def setTiming (m : Machine) (timing : Timing) : Machine :=
  let settings := { m.settings with timing }
  { m with settings, owed := 0, clock := m.clock.setRate settings.clockRate }

def setRate (m : Machine) (hz : UInt64) : Machine :=
  let settings := m.settings.withRate hz
  { m with
    settings
    clock := match settings.timing with
      | .fixed => m.clock.setRate settings.rate
      | .cosmac => m.clock }

theorem pending_setRate (m : Machine) (hz : UInt64) :
    (m.setRate hz).clock.pending = m.clock.pending := by
  simp only [setRate]
  split <;> rfl

end Chip8.Machine
