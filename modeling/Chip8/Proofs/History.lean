import Chip8.Machine.Trace
import Chip8.Proofs.Cycles

/-! # Histories

A relation between a machine, the instructions that were executed since, and the machine now holds
along every session when it holds of the few things that happen to a machine: an instruction is
executed, an owed cycle is paid, the clock or the timers move, or the host steps in. The loops over
steps and over cycles are treated here once and for all.
-/
namespace Chip8.Machine

/-- Relations that hold along all that a machine does by itself. -/
structure Internal (R : Machine → List Execution → Machine → Prop) : Prop where
  refl (m : Machine) : R m [] m
  trans {m n o : Machine} {before after : List Execution} :
    R m before n → R n after o → R m (before ++ after) o
  execute (m : Machine) : m.fault = none → m.awaiting = none →
    R m [(m.cpu.pc, m.nextInstruction)] m.executeNext.state
  pay (m : Machine) : m.awaiting = none → 0 < m.owed → R m [] { m with owed := m.owed - 1 }
  clock (m : Machine) (clock : Clock) : clock.period = m.clock.period → R m [] (m.withClock clock)
  timers (m : Machine) (elapsed : Nat) : R m [] { m with timers := m.timers.advance elapsed }

/-- Relations that hold along every history, with all that a host does. -/
structure Historical (R : Machine → List Execution → Machine → Prop) : Prop extends
    Internal R where
  press (m : Machine) (key : Key) : R m [] (m.pressKey key)
  release (m : Machine) (key : Key) : R m [] (m.releaseKey key)
  clear (m : Machine) : R m [] m.clearKeys
  load (m : Machine) (program : List UInt8) : R m [] (m.loadProgram program)
  timing (m : Machine) (timing : Timing) : R m [] (m.setTiming timing)
  rate (m : Machine) (hz : UInt64) : R m [] (m.setRate hz)

/-- What holds of every single step holds of any number of them. -/
theorem stepsFrom_rel {R : Machine → List Execution → Machine → Prop} (refl : ∀ m, R m [] m)
    (trans : ∀ {m n o before after}, R m before n → R n after o → R m (before ++ after) o)
    (step : ∀ m, R m m.step.trace m.step.state) (n : Nat) (m : Machine)
    (result : Except Fault Flow) (notices : List Notice) :
    ∃ later, (stepsFrom n ⟨m, result, notices⟩).notices = later ++ notices ∧
      R m (Notice.trace later) (stepsFrom n ⟨m, result, notices⟩).state := by
  induction n generalizing m result notices with
  | zero => exact ⟨[], rfl, refl m⟩
  | succ n ih =>
    cases hr : m.step.result with
    | error e =>
      rw [stepsFrom_of_error hr]
      exact ⟨m.step.notices, rfl, step m⟩
    | ok flow =>
      by_cases hk : flow = .keyWait
      · subst hk
        rw [stepsFrom_of_keyWait hr]
        exact ⟨m.step.notices, rfl, step m⟩
      · rw [stepsFrom_of_ok hr hk]
        obtain ⟨later, hn, hrel⟩ := ih m.step.state (.ok flow) (m.step.notices ++ notices)
        refine ⟨later ++ m.step.notices, by rw [hn, List.append_assoc], ?_⟩
        rw [Notice.trace_append]
        exact trans (step m) hrel

theorem runSteps_rel {R : Machine → List Execution → Machine → Prop} (refl : ∀ m, R m [] m)
    (trans : ∀ {m n o before after}, R m before n → R n after o → R m (before ++ after) o)
    (step : ∀ m, R m m.step.trace m.step.state) (m : Machine) (count : Nat) :
    R m (m.runSteps count).trace (m.runSteps count).state := by
  obtain ⟨later, hn, hrel⟩ := stepsFrom_rel refl trans step count m (.ok .normal) []
  rw [List.append_nil] at hn
  rw [Outcome.trace, runSteps, hn]
  exact hrel

/-- What holds of taking a cycle from the clock and spending it holds of the whole loop. -/
theorem spend_rel {R : Machine → List Execution → Machine → Prop} (refl : ∀ m, R m [] m)
    (trans : ∀ {m n o before after}, R m before n → R n after o → R m (before ++ after) o)
    (clock : ∀ m clock, clock.period = m.clock.period → R m [] (m.withClock clock))
    (cycle : ∀ m, R m m.cycle.trace m.cycle.state) (m : Machine) (spent : Nat)
    (notices : List Notice) :
    ∃ later, (m.spend spent notices).notices = later ++ notices ∧
      R m (Notice.trace later) (m.spend spent notices).state := by
  fun_induction spend m spent notices with
  | case1 m spent notices ht => exact ⟨[], rfl, refl m⟩
  | case2 m spent notices c ht o e he =>
    exact ⟨o.notices, rfl, trans (clock m c (Clock.period_of_take? ht)) (cycle (m.withClock c))⟩
  | case3 m spent notices c ht o he ih =>
    obtain ⟨later, hn, hrel⟩ := ih
    have hcycle : R m o.trace o.state :=
      trans (clock m c (Clock.period_of_take? ht)) (cycle (m.withClock c))
    refine ⟨later ++ o.notices, hn.trans (List.append_assoc ..).symm, ?_⟩
    rw [Notice.trace_append]
    exact trans hcycle hrel

namespace Internal
variable {R : Machine → List Execution → Machine → Prop}

theorem step (h : Internal R) (m : Machine) : R m m.step.trace m.step.state := by
  cases hf : m.fault with
  | some e =>
    rw [step_of_fault hf]
    exact h.refl m
  | none =>
    cases hx : m.awaiting with
    | some x =>
      rw [step_of_awaiting hf hx]
      exact h.refl m
    | none =>
      rw [step_of_running hf hx, trace_executeNext]
      exact h.execute m hf hx

theorem cycle (h : Internal R) (m : Machine) : R m m.cycle.trace m.cycle.state := by
  cases hx : m.awaiting with
  | some x =>
    rw [cycle_of_awaiting hx]
    exact h.refl m
  | none =>
    by_cases ho : 0 < m.owed
    · rw [cycle_of_owed hx ho]
      exact h.pay m hx ho
    · rw [cycle_of_paid hx ho]
      exact h.step m

theorem runSteps (h : Internal R) (m : Machine) (count : Nat) :
    R m (m.runSteps count).trace (m.runSteps count).state :=
  runSteps_rel h.refl h.trans h.step m count

theorem update (h : Internal R) (m : Machine) (elapsed : Nat) :
    R m (m.update elapsed).trace (m.update elapsed).state := by
  cases hf : m.fault with
  | some e =>
    rw [update_of_fault hf]
    exact h.refl m
  | none =>
    obtain ⟨later, hn, hrel⟩ := spend_rel h.refl h.trans h.clock h.cycle
      (m.withClock (m.clock.advance elapsed)) 0 []
    rw [List.append_nil] at hn
    have hspend := h.trans (h.clock m (m.clock.advance elapsed) rfl) hrel
    cases hr : ((m.withClock (m.clock.advance elapsed)).spend 0 []).result with
    | error e =>
      rw [update_of_spend_error hf hr, Outcome.trace, hn]
      exact hspend
    | ok n =>
      rw [update_of_spend_ok hf hr, Outcome.trace, hn]
      have htimers := h.trans hspend
        (h.timers ((m.withClock (m.clock.advance elapsed)).spend 0 []).state elapsed)
      rwa [List.append_nil] at htimers

end Internal

namespace Historical
variable {R : Machine → List Execution → Machine → Prop}

theorem perform (h : Historical R) (m : Machine) (operation : Operation) :
    R m (m.perform operation).trace (m.perform operation).state := by
  cases operation with
  | step => exact h.step m
  | runSteps count => exact h.runSteps m count
  | update elapsed => exact h.update m elapsed
  | pressKey key => exact h.press m key
  | releaseKey key => exact h.release m key
  | setKey key pressed =>
    cases pressed with
    | true => exact h.press m key
    | false => exact h.release m key
  | clearKeys => exact h.clear m
  | loadProgram program =>
    rw [trace_perform_loadProgram]
    exact h.load m program
  | setTiming timing => exact h.timing m timing
  | setRate hz => exact h.rate m hz

theorem performAll (h : Historical R) (m : Machine) (session : List Operation) :
    R m (m.trace session) (m.performAll session) := by
  induction session generalizing m with
  | nil => exact h.refl m
  | cons operation rest ih => exact h.trans (h.perform m operation) (ih _)

end Historical

/-- A property that each of these events keeps holds of the machine after every session. -/
theorem Historical.of_invariant {P : Machine → Prop}
    (h : Historical fun m _ n => P m → P n) {m : Machine} (hm : P m) (session : List Operation) :
    P (m.performAll session) := h.performAll m session hm

end Chip8.Machine
