import Chip8.Instruction.Decode
import Chip8.Machine.Execute
import Chip8.Outcome

/-! # Single steps

A step executes the instruction at the program counter. A machine that waits for a key does not
step, and one that faulted gives the same fault again. An instruction that fails leaves the program
counter where it was. After an instruction its cost is noted; all of it but the cycle that executed
it is owed.
-/
namespace Chip8

def Instruction.notices (pc : UInt16) : Instruction → List Notice
  | .exit => [.exitRequested pc]
  | .lowResolution => [.resolution false]
  | .highResolution => [.resolution true]
  | _ => []

def Timing.cyclesOf : Timing → Nat → Nat
  | .fixed, _ => 1
  | .cosmac, cost => max 1 cost

theorem Timing.cyclesOf_pos (timing : Timing) (cost : Nat) : 0 < timing.cyclesOf cost := by
  cases timing with
  | fixed => exact Nat.zero_lt_one
  | cosmac => exact Nat.lt_of_lt_of_le Nat.zero_lt_one (Nat.le_max_left 1 cost)

namespace Machine

def nextInstruction (m : Machine) : Instruction := .decode m.cpu.fetch

def nextEffect (m : Machine) : Effect :=
  (m.mapCpu Cpu.advance).execute m.cpu.pc m.nextInstruction

end Machine

/-- What becomes of the effect of an instruction at `pc`: its cost is noted, or its fault is. -/
def Effect.settle (pc : UInt16) (notices : List Notice) : Effect → Outcome Machine Flow
  | ⟨m, .ok (flow, cost)⟩ =>
    let cycles := m.settings.timing.cyclesOf cost
    ⟨{ m with lastCost := cycles, owed := cycles - 1 }, .ok flow, notices⟩
  | ⟨m, .error fault⟩ =>
    ⟨{ m with cpu := { m.cpu with pc }, fault := some fault }, .error fault,
      .faulted fault :: notices⟩

namespace Machine

/-- Execute the next instruction, whatever state the machine is in. -/
def executeNext (m : Machine) : Outcome Machine Flow :=
  m.nextEffect.settle m.cpu.pc
    (m.nextInstruction.notices m.cpu.pc ++ [.executing m.cpu.pc m.nextInstruction])

def step (m : Machine) : Outcome Machine Flow :=
  match m.fault, m.awaiting with
  | some fault, _ => ⟨m, .error fault, []⟩
  | none, some _ => ⟨m, .ok .keyWait, []⟩
  | none, none => m.executeNext

theorem step_of_fault {m : Machine} {e : Fault} (h : m.fault = some e) :
    m.step = ⟨m, .error e, []⟩ := by
  simp only [step, h]

theorem step_of_awaiting {m : Machine} {x : Register} (hf : m.fault = none)
    (hx : m.awaiting = some x) : m.step = ⟨m, .ok .keyWait, []⟩ := by
  simp only [step, hf, hx]

theorem step_of_running {m : Machine} (hf : m.fault = none) (hx : m.awaiting = none) :
    m.step = m.executeNext := by
  simp only [step, hf, hx]

theorem executeNext_withClock (m : Machine) (clock : Clock) :
    (m.withClock clock).executeNext = m.executeNext.mapState (·.withClock clock) := by
  have h : (m.withClock clock).nextEffect =
      ⟨m.nextEffect.machine.withClock clock, m.nextEffect.result⟩ :=
    execute_withClock (m.mapCpu Cpu.advance) clock m.cpu.pc m.nextInstruction
  simp only [executeNext, h]
  rcases m.nextEffect with ⟨n, _ | ⟨flow, cost⟩⟩ <;> rfl

theorem step_withClock (m : Machine) (clock : Clock) :
    (m.withClock clock).step = m.step.mapState (·.withClock clock) := by
  cases hf : m.fault with
  | some e => rw [step_of_fault hf, step_of_fault (m := m.withClock clock) hf]; rfl
  | none =>
    cases hx : m.awaiting with
    | some x =>
      rw [step_of_awaiting hf hx, step_of_awaiting (m := m.withClock clock) hf hx]
      rfl
    | none =>
      rw [step_of_running hf hx, step_of_running (m := m.withClock clock) hf hx,
        executeNext_withClock]

/-- Go on from an outcome for a number of steps, until a fault or a wait for a key. -/
def stepsFrom : Nat → Outcome Machine Flow → Outcome Machine Flow
  | 0, o => o
  | n + 1, ⟨m, _, notices⟩ =>
    let ⟨m, result, more⟩ := m.step
    let notices := more ++ notices
    match result with
    | .error fault => ⟨m, .error fault, notices⟩
    | .ok .keyWait => ⟨m, .ok .keyWait, notices⟩
    | .ok flow => stepsFrom n ⟨m, .ok flow, notices⟩

theorem stepsFrom_of_error {m : Machine} {e : Fault} (h : m.step.result = .error e) (n : Nat)
    (result : Except Fault Flow) (notices : List Notice) :
    stepsFrom (n + 1) ⟨m, result, notices⟩ =
      ⟨m.step.state, .error e, m.step.notices ++ notices⟩ := by
  simp only [stepsFrom, h]

theorem stepsFrom_of_keyWait {m : Machine} (h : m.step.result = .ok .keyWait) (n : Nat)
    (result : Except Fault Flow) (notices : List Notice) :
    stepsFrom (n + 1) ⟨m, result, notices⟩ =
      ⟨m.step.state, .ok .keyWait, m.step.notices ++ notices⟩ := by
  simp only [stepsFrom, h]

theorem stepsFrom_of_ok {m : Machine} {flow : Flow} (h : m.step.result = .ok flow)
    (hk : flow ≠ .keyWait) (n : Nat) (result : Except Fault Flow) (notices : List Notice) :
    stepsFrom (n + 1) ⟨m, result, notices⟩ =
      stepsFrom n ⟨m.step.state, .ok flow, m.step.notices ++ notices⟩ := by
  simp only [stepsFrom, h]

/-- Take a number of steps without regard to the clock. The flow is that of the last step. -/
def runSteps (m : Machine) (count : Nat) : Outcome Machine Flow :=
  stepsFrom count ⟨m, .ok .normal, []⟩

end Machine
end Chip8
