import Chip8.Proofs.Events

/-! # Two machines in lockstep

Two machines that differ in nothing that matters stay so. A relation between machines that fixes
when they execute, and is kept by the instructions that are allowed, is kept by steps whose
executions are allowed, and the two machines answer alike. If it is also kept by all that happens
between instructions, then the same goes for whole sessions.
-/
namespace Chip8

/-- Two outcomes tell the host the same, and leave machines that a relation holds of. -/
structure Outcome.Alike {α : Type} (S : Machine → Machine → Prop) (o p : Outcome Machine α) :
    Prop where
  state : S o.state p.state
  result : p.result = o.result
  notices : p.notices = o.notices

theorem Outcome.Alike.map {α β : Type} {S : Machine → Machine → Prop} {o p : Outcome Machine α}
    (h : o.Alike S p) (f : α → β) : (o.map f).Alike S (p.map f) :=
  ⟨h.state, congrArg (Except.map f) h.result, h.notices⟩

/-- All executions among some events are allowed. -/
def Event.Allow (allowed : Execution → Prop) (events : List Event) : Prop :=
  ∀ execution ∈ executions events, allowed execution

theorem Event.allow_append {allowed : Execution → Prop} {before after : List Event} :
    Allow allowed (before ++ after) ↔ Allow allowed before ∧ Allow allowed after := by
  rw [Allow, executions_append]
  exact List.forall_mem_append

namespace Machine

/-- Relations that fix whether there is a step, and are kept by the instructions allowed. -/
structure StepsAlike (allowed : Execution → Prop) (S : Machine → Machine → Prop) : Prop where
  fault {m n : Machine} : S m n → n.fault = m.fault
  awaiting {m n : Machine} : S m n → n.awaiting = m.awaiting
  executeNext {m n : Machine} : S m n → allowed (m.cpu.pc, m.nextInstruction) →
    m.executeNext.Alike S n.executeNext

/-- Relations that fix whether there is a cycle, too, and are kept by all that happens in between. -/
structure Lockstep (allowed : Execution → Prop) (S : Machine → Machine → Prop) : Prop extends
    StepsAlike allowed S where
  owed {m n : Machine} : S m n → n.owed = m.owed
  clock {m n : Machine} : S m n → n.clock = m.clock
  pay {m n : Machine} (owed : Nat) : S m n → S { m with owed } { n with owed }
  withClock {m n : Machine} (clock : Clock) : S m n → S (m.withClock clock) (n.withClock clock)
  timers {m n : Machine} (elapsed : Nat) : S m n →
    S { m with timers := m.timers.advance elapsed } { n with timers := n.timers.advance elapsed }
  pressKey {m n : Machine} (key : Key) : S m n → S (m.pressKey key) (n.pressKey key)
  releaseKey {m n : Machine} (key : Key) : S m n → S (m.releaseKey key) (n.releaseKey key)
  clearKeys {m n : Machine} : S m n → S m.clearKeys n.clearKeys
  loadProgram {m n : Machine} (program : List UInt8) : S m n →
    S (m.loadProgram program) (n.loadProgram program)
  setTiming {m n : Machine} (timing : Timing) : S m n → S (m.setTiming timing) (n.setTiming timing)
  setRate {m n : Machine} (hz : UInt64) : S m n → S (m.setRate hz) (n.setRate hz)

variable {allowed : Execution → Prop} {S : Machine → Machine → Prop} {m n : Machine}

namespace StepsAlike

theorem step (h : StepsAlike allowed S) (hS : S m n) (ha : Event.Allow allowed m.stepEvents) :
    m.step.Alike S n.step := by
  cases hf : m.fault with
  | some e =>
    rw [step_of_fault hf, step_of_fault ((h.fault hS).trans hf)]
    exact ⟨hS, rfl, rfl⟩
  | none =>
    have hf' := (h.fault hS).trans hf
    cases hx : m.awaiting with
    | some x =>
      rw [step_of_awaiting hf hx, step_of_awaiting hf' ((h.awaiting hS).trans hx)]
      exact ⟨hS, rfl, rfl⟩
    | none =>
      rw [step_of_running hf hx, step_of_running hf' ((h.awaiting hS).trans hx)]
      rw [stepEvents_of_running ⟨hf, hx⟩] at ha
      exact h.executeNext hS (ha _ (List.mem_singleton_self _))

theorem stepsFrom (h : StepsAlike allowed S) (hS : S m n) {count : Nat}
    (ha : Event.Allow allowed (m.stepsEvents count)) (result : Except Fault Flow)
    (notices : List Notice) :
    (stepsFrom count ⟨m, result, notices⟩).Alike S (stepsFrom count ⟨n, result, notices⟩) := by
  induction count generalizing m n result notices with
  | zero => exact ⟨hS, rfl, rfl⟩
  | succ count ih =>
    obtain ⟨hfirst, hrest⟩ := Event.allow_append.1 ha
    obtain ⟨hstate, hresult, hnotices⟩ := h.step hS hfirst
    cases hr : m.step.result with
    | error e =>
      rw [stepsFrom_of_error hr, stepsFrom_of_error (hresult.trans hr), hnotices]
      exact ⟨hstate, rfl, rfl⟩
    | ok flow =>
      by_cases hk : flow = .keyWait
      · subst hk
        rw [stepsFrom_of_keyWait hr, stepsFrom_of_keyWait (hresult.trans hr), hnotices]
        exact ⟨hstate, rfl, rfl⟩
      · rw [stepsFrom_of_ok hr hk, stepsFrom_of_ok (hresult.trans hr) hk, hnotices]
        exact ih hstate hrest _ _

end StepsAlike

namespace Lockstep

theorem cycle (h : Lockstep allowed S) (hS : S m n) (ha : Event.Allow allowed m.cycleEvents) :
    m.cycle.Alike S n.cycle := by
  cases hx : m.awaiting with
  | some x =>
    rw [cycle_of_awaiting hx, cycle_of_awaiting ((h.awaiting hS).trans hx)]
    exact ⟨hS, rfl, rfl⟩
  | none =>
    have hx' := (h.awaiting hS).trans hx
    have howed := h.owed hS
    by_cases ho : 0 < m.owed
    · rw [cycle_of_owed hx ho, cycle_of_owed hx' (howed ▸ ho), howed]
      exact ⟨h.pay _ hS, rfl, rfl⟩
    · rw [cycle_of_paid hx ho, cycle_of_paid hx' (howed ▸ ho)]
      rw [cycleEvents, if_neg ho] at ha
      exact (h.step hS ha).map _

theorem spend (h : Lockstep allowed S) (hS : S m n) {count : Nat}
    (hcount : m.clock.available = count) (ha : Event.Allow allowed (m.spendEvents count))
    (spent : Nat) (notices : List Notice) :
    (m.spend spent notices).Alike S (n.spend spent notices) := by
  induction count generalizing m n spent notices with
  | zero =>
    have htake := Clock.take?_of_available_zero hcount
    rw [spend_of_take?_none htake, spend_of_take?_none ((h.clock hS).symm ▸ htake)]
    exact ⟨hS, rfl, rfl⟩
  | succ count ih =>
    have htake := Clock.take?_of_available hcount
    have htake' : n.clock.take? = some m.clock.take := (h.clock hS).symm ▸ htake
    have hcount' : m.clock.take.available = count := by
      rw [Clock.available_take, hcount, Nat.add_sub_cancel]
    obtain ⟨hfirst, hrest⟩ := Event.allow_append.1 ha
    obtain ⟨hstate, hresult, hnotices⟩ := h.cycle (h.withClock m.clock.take hS) hfirst
    rw [cycle_withClock] at hrest
    rw [cycle_withClock, cycle_withClock] at hstate hresult hnotices
    have hresult' : n.cycle.result = m.cycle.result := hresult
    have hnotices' : n.cycle.notices = m.cycle.notices := hnotices
    rw [spend_of_take?_some htake, spend_of_take?_some htake', hresult', hnotices']
    cases hr : m.cycle.result with
    | error e => exact ⟨hstate, rfl, rfl⟩
    | ok u => exact ih hstate hcount' hrest _ _

theorem update (h : Lockstep allowed S) (hS : S m n) {elapsed : Nat}
    (ha : Event.Allow allowed (m.updateEvents elapsed)) :
    (m.update elapsed).Alike S (n.update elapsed) := by
  cases hf : m.fault with
  | some e =>
    rw [update_of_fault hf, update_of_fault ((h.fault hS).trans hf)]
    exact ⟨hS, rfl, rfl⟩
  | none =>
    have hf' := (h.fault hS).trans hf
    have hadvance : S (m.withClock (m.clock.advance elapsed))
        (n.withClock (n.clock.advance elapsed)) := by
      rw [h.clock hS]
      exact h.withClock _ hS
    obtain ⟨hstate, hresult, hnotices⟩ := h.spend hadvance rfl ha 0 []
    cases hr : ((m.withClock (m.clock.advance elapsed)).spend 0 []).result with
    | error e =>
      rw [update_of_spend_error hf hr, update_of_spend_error hf' (hresult.trans hr)]
      exact ⟨hstate, rfl, hnotices⟩
    | ok cycles =>
      rw [update_of_spend_ok hf hr, update_of_spend_ok hf' (hresult.trans hr)]
      exact ⟨h.timers elapsed hstate, rfl, hnotices⟩

theorem perform (h : Lockstep allowed S) (hS : S m n) {operation : Operation}
    (ha : Event.Allow allowed (m.eventsOf operation)) :
    (m.perform operation).Alike S (n.perform operation) := by
  cases operation with
  | step => exact (h.step hS ha).map _
  | runSteps count => exact (h.stepsFrom hS ha (.ok .normal) []).map _
  | update elapsed => exact (h.update hS ha).map _
  | pressKey key => exact ⟨h.pressKey key hS, rfl, rfl⟩
  | releaseKey key => exact ⟨h.releaseKey key hS, rfl, rfl⟩
  | setKey key pressed =>
    cases pressed with
    | true => exact ⟨h.pressKey key hS, rfl, rfl⟩
    | false => exact ⟨h.releaseKey key hS, rfl, rfl⟩
  | clearKeys => exact ⟨h.clearKeys hS, rfl, rfl⟩
  | loadProgram program => exact ⟨h.loadProgram program hS, rfl, rfl⟩
  | setTiming timing => exact ⟨h.setTiming timing hS, rfl, rfl⟩
  | setRate hz => exact ⟨h.setRate hz hS, rfl, rfl⟩

theorem performAll (h : Lockstep allowed S) (hS : S m n) {session : List Operation}
    (ha : Event.Allow allowed (m.events session)) :
    S (m.performAll session) (n.performAll session) := by
  induction session generalizing m n with
  | nil => exact hS
  | cons operation rest ih =>
    obtain ⟨hhead, hrest⟩ := Event.allow_append.1 ha
    exact ih (h.perform hS hhead).state hrest

/-- As long as all that is executed is allowed, every operation of a session tells the same. -/
theorem alike (h : Lockstep allowed S) (hS : S m n) {session : List Operation}
    {operation : Operation} (ha : ∀ e ∈ m.trace (session ++ [operation]), allowed e) :
    ((m.performAll session).perform operation).Alike S
      ((n.performAll session).perform operation) := by
  rw [(m.course_performAll _).2, events_append] at ha
  obtain ⟨hbefore, hlast⟩ := Event.allow_append.1 ha
  rw [events, events, List.append_nil] at hlast
  exact h.perform (h.performAll hS hbefore) hlast

end Lockstep
end Machine
end Chip8
