import Chip8.Machine.Host
import Chip8.Machine.Update

/-! # Operations

Everything a host can do to a machine, as data, and the answer that each operation gives. A session
is a list of operations, carried out one after the other whatever they answer.
-/
namespace Chip8

inductive Operation
  | step
  | runSteps (count : Nat)
  | update (elapsed : Nat)
  | pressKey (key : Key)
  | releaseKey (key : Key)
  | setKey (key : Key) (pressed : Bool)
  | clearKeys
  | loadProgram (program : List UInt8)
  | setTiming (timing : Timing)
  | setRate (hz : UInt64)
deriving DecidableEq, Repr

/-- What an operation answers when it succeeds. -/
inductive Response
  | flow (flow : Flow)
  | cycles (count : Nat)
  | loaded (count : Nat)
  | nothing
deriving DecidableEq, Repr

namespace Machine

def perform (m : Machine) : Operation → Outcome Machine Response
  | .step => m.step.map .flow
  | .runSteps count => (m.runSteps count).map .flow
  | .update elapsed => (m.update elapsed).map .cycles
  | .pressKey key => ⟨m.pressKey key, .ok .nothing, []⟩
  | .releaseKey key => ⟨m.releaseKey key, .ok .nothing, []⟩
  | .setKey key pressed => ⟨m.setKey key pressed, .ok .nothing, []⟩
  | .clearKeys => ⟨m.clearKeys, .ok .nothing, []⟩
  | .loadProgram program =>
    ⟨m.loadProgram program, .ok (.loaded (Cpu.loadCount program)), [loadNotice program]⟩
  | .setTiming timing => ⟨m.setTiming timing, .ok .nothing, []⟩
  | .setRate hz => ⟨m.setRate hz, .ok .nothing, []⟩

def performAll (m : Machine) (session : List Operation) : Machine :=
  session.foldl (fun m operation => (m.perform operation).state) m

/-- The machines that a host can bring about. -/
def Reachable (m : Machine) : Prop :=
  ∃ settings entropy generator session,
    m = (new settings entropy generator).performAll session

end Machine
end Chip8
