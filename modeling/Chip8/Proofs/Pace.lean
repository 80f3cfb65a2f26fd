import Chip8.Proofs.Idle
import Chip8.Proofs.Lockstep

/-! # The pace of a machine

How fast a machine runs is kept in its timing mode, its rate, its clock, and the cycles of its last
instruction. Only updates look at these: an instruction leaves its cost behind, and does the same
whatever it finds there, and so do keys and programs that a host brings in. So without updates a
machine computes the same at every pace, wherever a host changes it.
-/
namespace Chip8

/-- What a machine keeps about its speed. -/
structure Pace where
  timing : Timing
  rate : UInt64
  clock : Clock
  owed : Nat
  lastCost : Nat

def Operation.isUpdate : Operation → Bool
  | .update _ => true
  | _ => false

namespace Machine

/-- Two machines agree on all but their pace. -/
structure AgreeButPace (m n : Machine) : Prop where
  cpu : n.cpu = m.cpu
  screen : n.screen = m.screen
  keypad : n.keypad = m.keypad
  timers : n.timers = m.timers
  random : n.random = m.random
  legacyShift : n.settings.legacyShift = m.settings.legacyShift
  legacyMemory : n.settings.legacyMemory = m.settings.legacyMemory
  seed : n.settings.seed = m.settings.seed
  awaiting : n.awaiting = m.awaiting
  exitRequested : n.exitRequested = m.exitRequested
  fault : n.fault = m.fault

/-- What a host is told by the operations of a session that do not set how time is kept: their
results, and the notices that they give. -/
def answers (m : Machine) : List Operation → List (Except Fault Response × List Notice)
  | [] => []
  | operation :: rest =>
    let o := m.perform operation
    if operation.isTiming then o.state.answers rest
    else (o.result, o.log) :: o.state.answers rest

def pace (m : Machine) : Pace := ⟨m.settings.timing, m.settings.rate, m.clock, m.owed, m.lastCost⟩

def withPace (m : Machine) (p : Pace) : Machine :=
  { m with
    settings := { m.settings with timing := p.timing, rate := p.rate }
    clock := p.clock
    owed := p.owed
    lastCost := p.lastCost }

namespace AgreeButPace
variable {m n o : Machine}

theorem refl (m : Machine) : m.AgreeButPace m :=
  ⟨rfl, rfl, rfl, rfl, rfl, rfl, rfl, rfl, rfl, rfl, rfl⟩

theorem withPace (m : Machine) (p : Pace) : m.AgreeButPace (m.withPace p) :=
  ⟨rfl, rfl, rfl, rfl, rfl, rfl, rfl, rfl, rfl, rfl, rfl⟩

theorem eq_withPace (h : m.AgreeButPace n) : n = m.withPace n.pace := by
  obtain ⟨cpu, screen, keypad, timers, clock, random, settings, awaiting, owed, lastCost,
    exitRequested, fault⟩ := n
  obtain ⟨rate, timing, legacyShift, legacyMemory, seed⟩ := settings
  obtain ⟨rfl, rfl, rfl, rfl, rfl, rfl, rfl, rfl, rfl, rfl, rfl⟩ := h
  rfl

theorem symm (h : m.AgreeButPace n) : n.AgreeButPace m := by
  rw [h.eq_withPace]
  exact withPace (m.withPace n.pace) m.pace

theorem trans (h : m.AgreeButPace n) (h' : n.AgreeButPace o) : m.AgreeButPace o := by
  rw [h'.eq_withPace, h.eq_withPace]
  exact withPace m o.pace

end AgreeButPace

theorem draw_withPace (m : Machine) (p : Pace) (screen : Screen) (cost : Nat) :
    effect { m.withPace p with screen } .draw cost =
      ⟨(effect { m with screen } .draw cost).machine.withPace p, .ok (.draw, cost)⟩ := rfl

/-- No instruction reads the pace of the machine, or sets it but for the cost noted after it. -/
theorem execute_withPace (m : Machine) (p : Pace) (pc : UInt16) (i : Instruction) :
    (m.withPace p).execute pc i =
      ⟨(m.execute pc i).machine.withPace p, (m.execute pc i).result⟩ := by
  cases i with
  | ret =>
    simp only [execute, withPace]
    split <;> rfl
  | call address =>
    simp only [execute, withPace]
    split <;> rfl
  | skip condition => cases condition <;> rfl
  | scrollDown rows => exact draw_withPace m p (m.screen.scrollDown rows) Cost.extended
  | scrollRight => exact draw_withPace m p m.screen.scrollRight Cost.extended
  | scrollLeft => exact draw_withPace m p m.screen.scrollLeft Cost.extended
  | _ => rfl

end Machine

/-- Two outcomes tell the host the same and leave machines that agree on all but their pace. -/
structure Outcome.AgreeButPace {α : Type} (o p : Outcome Machine α) : Prop where
  state : o.state.AgreeButPace p.state
  result : p.result = o.result
  notices : p.notices = o.notices

namespace Machine.AgreeButPace
variable {m n : Machine}

theorem executeNext (h : m.AgreeButPace n) : m.executeNext.AgreeButPace n.executeNext := by
  have heffect : n.nextEffect =
      ⟨m.nextEffect.machine.withPace n.pace, m.nextEffect.result⟩ := by
    rw [h.eq_withPace]
    exact execute_withPace (m.mapCpu Cpu.advance) n.pace m.cpu.pc m.nextInstruction
  have hnext : n.nextInstruction = m.nextInstruction := by
    rw [nextInstruction, nextInstruction, h.cpu]
  rw [Machine.executeNext, Machine.executeNext, heffect, hnext, h.cpu]
  rcases m.nextEffect with ⟨k, e | ⟨flow, cost⟩⟩
  · exact ⟨⟨rfl, rfl, rfl, rfl, rfl, rfl, rfl, rfl, rfl, rfl, rfl⟩, rfl, rfl⟩
  · exact ⟨⟨rfl, rfl, rfl, rfl, rfl, rfl, rfl, rfl, rfl, rfl, rfl⟩, rfl, rfl⟩

theorem stepsAlike : StepsAlike (fun _ => True) AgreeButPace where
  fault h := h.fault
  awaiting h := h.awaiting
  executeNext h _ := ⟨h.executeNext.state, h.executeNext.result, h.executeNext.notices⟩

theorem pressKey (h : m.AgreeButPace n) (key : Key) :
    (m.pressKey key).AgreeButPace (n.pressKey key) := by
  cases hx : m.awaiting with
  | none =>
    rw [pressKey_of_running hx, pressKey_of_running (h.awaiting.trans hx)]
    exact { h with keypad := congrArg (·.set key true) h.keypad }
  | some x =>
    rw [pressKey_of_awaiting hx, pressKey_of_awaiting (h.awaiting.trans hx)]
    exact { h with
      keypad := congrArg (·.set key true) h.keypad
      cpu := congrArg (·.setRegister x (UInt8.ofNat key)) h.cpu
      awaiting := rfl }

theorem releaseKey (h : m.AgreeButPace n) (key : Key) :
    (m.releaseKey key).AgreeButPace (n.releaseKey key) :=
  { h with keypad := congrArg (·.set key false) h.keypad }

theorem loadProgram (h : m.AgreeButPace n) (program : List UInt8) :
    (m.loadProgram program).AgreeButPace (n.loadProgram program) :=
  { h with cpu := congrArg (·.load program) h.cpu }

/-- An operation that does not change the pace does the same at every pace. -/
theorem perform (h : m.AgreeButPace n) {operation : Operation}
    (hu : operation.isUpdate = false) (ht : operation.isTiming = false) :
    (m.perform operation).AgreeButPace (n.perform operation) := by
  cases operation with
  | update elapsed => cases hu
  | setTiming timing => cases ht
  | setRate hz => cases ht
  | step =>
    obtain ⟨hstate, hresult, hnotices⟩ :=
      (stepsAlike.step h fun _ _ => trivial).map Response.flow
    exact ⟨hstate, hresult, hnotices⟩
  | runSteps count =>
    obtain ⟨hstate, hresult, hnotices⟩ :=
      (stepsAlike.stepsFrom h (fun _ _ => trivial) (.ok .normal) []).map Response.flow
    exact ⟨hstate, hresult, hnotices⟩
  | pressKey key => exact ⟨h.pressKey key, rfl, rfl⟩
  | releaseKey key => exact ⟨h.releaseKey key, rfl, rfl⟩
  | setKey key pressed =>
    cases pressed with
    | true => exact ⟨h.pressKey key, rfl, rfl⟩
    | false => exact ⟨h.releaseKey key, rfl, rfl⟩
  | clearKeys => exact ⟨{ h with keypad := rfl }, rfl, rfl⟩
  | loadProgram program => exact ⟨h.loadProgram program, rfl, rfl⟩

theorem perform_timing (m : Machine) {operation : Operation} (ht : operation.isTiming = true) :
    m.AgreeButPace (m.perform operation).state := by
  cases operation with
  | setTiming timing => exact { refl m with }
  | setRate hz => exact { refl m with }
  | _ => cases ht

theorem performAll (h : m.AgreeButPace n) {session : List Operation}
    (hu : ∀ o ∈ session, o.isUpdate = false) :
    n.answers (session.filter (!·.isTiming)) = m.answers session ∧
      (m.performAll session).AgreeButPace (n.performAll (session.filter (!·.isTiming))) := by
  induction session generalizing m n with
  | nil => exact ⟨rfl, h⟩
  | cons operation rest ih =>
    obtain ⟨hhead, htail⟩ := List.forall_mem_cons.1 hu
    cases ht : operation.isTiming with
    | true =>
      have hkept : (operation :: rest).filter (!·.isTiming) = rest.filter (!·.isTiming) := by
        simp [ht]
      have hm : m.answers (operation :: rest) = (m.perform operation).state.answers rest := by
        simp [answers, ht]
      rw [hkept, hm, Machine.performAll_cons]
      exact ih ((perform_timing m ht).symm.trans h) htail
    | false =>
      have hkept : (operation :: rest).filter (!·.isTiming) =
          operation :: rest.filter (!·.isTiming) := by
        simp [ht]
      obtain ⟨hstate, hresult, hnotices⟩ := h.perform hhead ht
      obtain ⟨hanswers, hall⟩ := ih hstate htail
      rw [hkept, Machine.performAll_cons, Machine.performAll_cons]
      refine ⟨?_, hall⟩
      simp only [answers, ht, hresult, hanswers, Outcome.log, hnotices]

end Machine.AgreeButPace

namespace Machine

/-- Two machines that agree on all but their pace tell a host the same and go on to agree on it,
through any two sessions without updates that differ only in where timing mode and rate are set. -/
theorem answers_at_any_pace {m n : Machine} (h : m.AgreeButPace n) {session other : List Operation}
    (hu : ∀ o ∈ session, o.isUpdate = false)
    (hsame : session.filter (!·.isTiming) = other.filter (!·.isTiming)) :
    m.answers session = n.answers other ∧
      (m.performAll session).AgreeButPace (n.performAll other) := by
  have hu' : ∀ o ∈ other, o.isUpdate = false := by
    intro o ho
    cases ht : o.isTiming with
    | true =>
      cases o with
      | setTiming timing => rfl
      | setRate hz => rfl
      | _ => cases ht
    | false =>
      have hkept : o ∈ session.filter (!·.isTiming) := by
        rw [hsame]
        exact List.mem_filter.2 ⟨ho, by rw [ht]; rfl⟩
      exact hu o (List.mem_filter.1 hkept).1
  obtain ⟨hanswers, hall⟩ := h.performAll hu
  obtain ⟨hanswers', hall'⟩ := (AgreeButPace.refl n).performAll hu'
  rw [hsame] at hanswers hall
  exact ⟨hanswers.symm.trans hanswers', hall.trans hall'.symm⟩

/-- A machine in fixed timing and one in COSMAC timing, whose hosts change the pace at different
moments, run into the same key wait with different costs. -/
theorem answers_at_any_pace_of_wait :
    let m := new {} 0
    let n := new { timing := .cosmac, rate := 7 } 0
    let program := [0x61, 0x7B, 0xF1, 0x33, 0xC2, 0xFF, 0xF0, 0x0A]
    let session : List Operation :=
      [.loadProgram program, .step, .setTiming .cosmac, .runSteps 3, .setTiming .fixed, .pressKey 5]
    let other : List Operation :=
      [.setRate 20, .loadProgram program, .step, .runSteps 3, .setRate 1000, .pressKey 5]
    m.AgreeButPace n ∧ (∀ o ∈ session, o.isUpdate = false) ∧
      session.filter (!·.isTiming) = other.filter (!·.isTiming) ∧
      m.answers session = n.answers other ∧
      (n.performAll other).cpu = (m.performAll session).cpu ∧
      (m.performAll session).owed ≠ (n.performAll other).owed := by
  intro m n program session other
  have h : m.AgreeButPace n := ⟨rfl, rfl, rfl, rfl, rfl, rfl, rfl, rfl, rfl, rfl, rfl⟩
  have hu : ∀ o ∈ session, o.isUpdate = false := by decide
  have hsame : session.filter (!·.isTiming) = other.filter (!·.isTiming) := by decide
  have howed : (m.performAll session).owed ≠ (n.performAll other).owed := by decide +kernel
  obtain ⟨hanswers, hall⟩ := answers_at_any_pace h hu hsame
  exact ⟨h, hu, hsame, hanswers, hall.cpu, howed⟩

end Machine
end Chip8
