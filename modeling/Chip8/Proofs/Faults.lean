import Chip8.Proofs.Events
import Chip8.Proofs.Idle

/-! # Faults are atomic and final

The instruction that faults leaves nothing behind but its fault. From then on every attempt to go
on gives that fault again, and nothing that the program can see or has brought about changes, time
included: the host only reaches keys, memory and the settings of time.
-/
namespace Chip8.Machine

/-- What operations do to a machine that faulted: not even time goes on. -/
structure Stopped (operations : List Operation) (m n : Machine) : Prop extends
    Untouched operations m n where
  timers : n.timers = m.timers
  pending : n.clock.pending = m.clock.pending

namespace Stopped

theorem cons {operation : Operation} {rest : List Operation} {m n o : Machine}
    (h : Stopped [operation] m n) (h' : Stopped rest n o) : Stopped (operation :: rest) m o where
  toUntouched := h.toUntouched.cons h'.toUntouched
  timers := h'.timers.trans h.timers
  pending := h'.pending.trans h.pending

theorem of_eq {operations : List Operation} {m n : Machine} (h : n = m) :
    Stopped operations m n := by
  subst h
  exact ⟨.refl operations n, rfl, rfl⟩

/-- A machine that faulted does not wait for a key, so that pressing one is no more than that. -/
theorem perform {m : Machine} {e : Fault} (hf : m.fault = some e) (hx : m.awaiting = none)
    (operation : Operation) : Stopped [operation] m (m.perform operation).state := by
  have press (key : Key) {operation : Operation} (hk : operation.isKey = true) :
      Stopped [operation] m (m.pressKey key) := by
    rw [pressKey_of_running hx]
    exact ⟨.of_keypad hk m _, rfl, rfl⟩
  cases operation with
  | step => exact of_eq (congrArg Outcome.state (step_of_fault hf))
  | runSteps count => exact of_eq ((m.state_runSteps count).trans (afterSteps_of_fault hf count))
  | update elapsed => exact of_eq (congrArg Outcome.state (update_of_fault hf elapsed))
  | pressKey key => exact press key rfl
  | releaseKey key => exact ⟨.of_keypad rfl m _, rfl, rfl⟩
  | setKey key pressed =>
    cases pressed with
    | true => exact press key rfl
    | false => exact ⟨.of_keypad rfl m _, rfl, rfl⟩
  | clearKeys => exact ⟨.of_keypad rfl m _, rfl, rfl⟩
  | loadProgram program => exact ⟨.loadProgram m program, rfl, rfl⟩
  | setTiming timing => exact ⟨.setTiming m timing, rfl, rfl⟩
  | setRate hz => exact ⟨.setRate m hz, rfl, pending_setRate m hz⟩

theorem performAll {m : Machine} {e : Fault} (hf : m.fault = some e) (hx : m.awaiting = none)
    (session : List Operation) : Stopped session m (m.performAll session) := by
  induction session generalizing m with
  | nil => exact of_eq rfl
  | cons operation rest ih =>
    have hhead := perform hf hx operation
    have htail := ih (hhead.fault.trans hf) (hhead.awaiting.trans hx)
    exact hhead.cons htail

end Stopped

theorem results_of_fault {m : Machine} {e : Fault} (h : m.fault = some e) :
    m.step.result = .error e ∧ (∀ n, (m.runSteps (n + 1)).result = .error e) ∧
      ∀ elapsed, (m.update elapsed).result = .error e := by
  have hstep : m.step.result = .error e := congrArg Outcome.result (step_of_fault h)
  refine ⟨hstep, ?_, ?_⟩
  · intro n
    exact congrArg Outcome.result (stepsFrom_of_error hstep n (.ok .normal) [])
  · intro elapsed
    exact congrArg Outcome.result (update_of_fault h elapsed)

/-- An operation executes instructions at the moments of its course, which are those that it
traces. It fails exactly where one of them does, which is a return without a call or a call nested
too deep. That instruction leaves its fault and changes nothing else, and whatever the host does
from then on, the fault is all that a step, a run or an update gives, and only keys, memory and the
settings of time change. -/
theorem fault_atomic_and_final {m : Machine} (hm : m.Reachable) (hf : m.fault = none) :
    (∀ operation, Course m (m.eventsOf operation) (m.perform operation).state ∧
      (m.perform operation).trace = Event.executions (m.eventsOf operation) ∧
      ∀ b, m.Executes operation b ↔ .executes b ∈ m.eventsOf operation) ∧
    (∀ operation e, (m.perform operation).result = .error e ↔
      ∃ b, m.Executes operation b ∧ b.executeNext.result = .error e) ∧
    (∀ operation b e, m.Executes operation b →
      (b.executeNext.result = .error e ↔
        e = .stackUnderflow b.cpu.pc ∧ b.cpu.fetch = 0x00EE ∧ b.cpu.sp = 0 ∨
        e = .stackOverflow b.cpu.pc ∧ b.cpu.fetch.family = 2 ∧ b.cpu.sp = 16)) ∧
    (∀ (b : Machine) e, b.executeNext.result = .error e →
      b.cpu.fetch = 0x00EE ∨ b.cpu.fetch.family = 2) ∧
    ∀ operation b e, m.Executes operation b → b.executeNext.result = .error e →
      b.executeNext.state = { b with fault := some e } ∧
      (m.perform operation).state = { b with fault := some e } ∧
      ∀ session,
        let n := (m.perform operation).state.performAll session
        Stopped session { b with fault := some e } n ∧
        n.step.result = .error e ∧
        (∀ count, 1 ≤ count → (n.runSteps count).result = .error e) ∧
        ∀ elapsed, (n.update elapsed).result = .error e := by
  refine ⟨?_, ?_, ?_, ?_, ?_⟩
  · intro operation
    obtain ⟨hcourse, htrace⟩ := m.course_perform operation
    exact ⟨hcourse, htrace, fun b => executes_mem_eventsOf_iff.symm⟩
  · intro operation e
    constructor
    · exact exists_executes_of_error hf
    · rintro ⟨b, hb, he⟩
      exact (hb.perform_of_error hf he).1
  · intro operation b e hb
    rw [executeNext_error_iff_faulting (hb.sound hm.sound).bounds.sp_le]
    constructor
    · rintro (⟨hw, hsp⟩ | ⟨hw, hsp⟩)
      · exact Or.inl ⟨rfl, hw, hsp⟩
      · exact Or.inr ⟨rfl, hw, hsp⟩
    · rintro (⟨rfl, hw, hsp⟩ | ⟨rfl, hw, hsp⟩)
      · exact .underflow hw hsp
      · exact .overflow hw hsp
  · intro b e he
    exact usesStack_of_executeNext_error he
  · intro operation b e hb he
    have hstate := (hb.perform_of_error hf he).2
    refine ⟨state_of_executeNext_error he, hstate, ?_⟩
    intro session n
    have hstopped : Stopped session { b with fault := some e } n := by
      change Stopped session _ ((m.perform operation).state.performAll session)
      rw [hstate]
      exact .performAll (m := { b with fault := some e }) rfl hb.running.awaiting session
    obtain ⟨hstep, hruns, hupdate⟩ := results_of_fault hstopped.fault
    refine ⟨hstopped, hstep, ?_, hupdate⟩
    intro count hcount
    obtain ⟨k, rfl⟩ := Nat.exists_eq_add_of_le' hcount
    exact hruns k

/-- A program that is one return has faulted for good after its first step. -/
theorem fault_of_bare_return :
    let m := (new {} 0).loadProgram [0x00, 0xEE]
    m.Reachable ∧ m.fault = none ∧ m.Executes .step m ∧
      m.executeNext.result = .error (.stackUnderflow 0x200) ∧
      ∀ session, ((m.perform .step).state.performAll session).step.result =
        .error (.stackUnderflow 0x200) := by
  intro m
  have hm : m.Reachable := ⟨{}, 0, .chaCha, [.loadProgram [0x00, 0xEE]], rfl⟩
  have hword : m.cpu.fetch = 0x00EE := by decide +kernel
  obtain ⟨-, -, hwhen, -, hfinal⟩ := fault_atomic_and_final hm rfl
  have hb : m.Executes .step m := .step ⟨rfl, rfl⟩
  have he : m.executeNext.result = .error (.stackUnderflow 0x200) :=
    (hwhen .step m _ hb).2 (Or.inl ⟨rfl, hword, rfl⟩)
  refine ⟨hm, rfl, hb, he, ?_⟩
  intro session
  obtain ⟨-, -, hsticky⟩ := hfinal .step m _ hb he
  exact (hsticky session).2.1

end Chip8.Machine
