import Chip8.Machine.Operation

/-! # Traces

The instructions that were executed, in order, each with the address that it was read at. A trace
is what the notices of an outcome tell about execution, and a session has the traces of its
operations one after the other.
-/
namespace Chip8

abbrev Execution := UInt16 × Instruction

namespace Notice

def execution? : Notice → Option Execution
  | .executing pc instruction => some (pc, instruction)
  | _ => none

/-- The executions that notices tell of, the newest of which comes first. -/
def trace (notices : List Notice) : List Execution := notices.reverse.filterMap execution?

@[simp] theorem trace_append (later earlier : List Notice) :
    trace (later ++ earlier) = trace earlier ++ trace later := by
  simp [trace]

end Notice

def Outcome.trace {σ α : Type} (o : Outcome σ α) : List Execution := Notice.trace o.notices

/-- A fault adds no execution to the trace. -/
theorem Effect.trace_settle (e : Effect) (pc : UInt16) (notices : List Notice) :
    (e.settle pc notices).trace = Notice.trace notices := by
  rcases e with ⟨m, fault | ⟨flow, cost⟩⟩
  · exact (Notice.trace_append [.faulted fault] notices).trans (List.append_nil _)
  · rfl

namespace Machine

/-- The instructions that a session executes. -/
def trace (m : Machine) : List Operation → List Execution
  | [] => []
  | operation :: rest => (m.perform operation).trace ++ (m.perform operation).state.trace rest

theorem performAll_cons (m : Machine) (operation : Operation) (rest : List Operation) :
    m.performAll (operation :: rest) = (m.perform operation).state.performAll rest := rfl

theorem trace_perform_loadProgram (m : Machine) (program : List UInt8) :
    (m.perform (.loadProgram program)).trace = [] := by
  simp only [Outcome.trace, Machine.perform, loadNotice]
  split <;> rfl

theorem trace_executeNext (m : Machine) :
    m.executeNext.trace = [(m.cpu.pc, m.nextInstruction)] := by
  have h : Notice.trace (m.nextInstruction.notices m.cpu.pc) = [] := by
    cases m.nextInstruction <;> rfl
  rw [executeNext, Effect.trace_settle, Notice.trace_append, h]
  rfl

end Machine
end Chip8
