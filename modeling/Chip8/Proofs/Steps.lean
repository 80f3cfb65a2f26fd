import Chip8.Machine.Host
import Chip8.Proofs.Execution
import Mathlib.Logic.Function.Iterate

/-! # Steps without the clock

A number of steps in a row leads to the machine that so many single steps lead to: a machine that
faulted or that waits for a key steps to itself, so it does not matter that the run ends there.
-/
namespace Chip8.Machine

/-- The machine after a number of steps, whatever they give. -/
def afterSteps (m : Machine) (n : Nat) : Machine := (fun m => m.step.state)^[n] m

theorem afterSteps_succ (m : Machine) (n : Nat) :
    m.afterSteps (n + 1) = m.step.state.afterSteps n :=
  Function.iterate_succ_apply _ n m

theorem afterSteps_succ' (m : Machine) (n : Nat) :
    m.afterSteps (n + 1) = (m.afterSteps n).step.state :=
  Function.iterate_succ_apply' _ n m

theorem afterSteps_add (m : Machine) (j n : Nat) :
    m.afterSteps (j + n) = (m.afterSteps j).afterSteps n := by
  rw [Nat.add_comm]
  exact Function.iterate_add_apply _ n j m

theorem afterSteps_of_fault {m : Machine} {e : Fault} (h : m.fault = some e) (n : Nat) :
    m.afterSteps n = m :=
  Function.iterate_fixed (congrArg Outcome.state (step_of_fault h)) n

theorem afterSteps_of_awaiting {m : Machine} {x : Register} (hf : m.fault = none)
    (hx : m.awaiting = some x) (n : Nat) : m.afterSteps n = m :=
  Function.iterate_fixed (congrArg Outcome.state (step_of_awaiting hf hx)) n

theorem awaiting_of_step_keyWait {m : Machine} (h : m.step.result = .ok .keyWait) :
    ∃ x, m.step.state.awaiting = some x := by
  cases hf : m.fault with
  | some e =>
    rw [step_of_fault hf] at h
    cases h
  | none =>
    cases hx : m.awaiting with
    | some x =>
      rw [step_of_awaiting hf hx]
      exact ⟨x, hx⟩
    | none =>
      rw [step_of_running hf hx] at h ⊢
      cases hr : m.nextEffect.result with
      | error e =>
        rw [(executeNext_of_error hr).1] at h
        cases h
      | ok p =>
        obtain ⟨flow, cost⟩ := p
        obtain ⟨hflow, hstate⟩ := executeNext_of_ok hr
        cases hflow.symm.trans h
        obtain ⟨x, hi⟩ := execute_keyWait hr
        rw [hstate]
        refine ⟨x, (awaiting_execute (m.mapCpu Cpu.advance) m.cpu.pc m.nextInstruction).trans ?_⟩
        rw [hi]

theorem state_stepsFrom (n : Nat) (m : Machine) (result : Except Fault Flow)
    (notices : List Notice) : (stepsFrom n ⟨m, result, notices⟩).state = m.afterSteps n := by
  induction n generalizing m result notices with
  | zero => rfl
  | succ n ih =>
    rw [afterSteps_succ]
    cases hr : m.step.result with
    | error e =>
      rw [stepsFrom_of_error hr, afterSteps_of_fault (fault_step_iff.2 hr)]
    | ok flow =>
      by_cases hk : flow = .keyWait
      · subst hk
        obtain ⟨x, hx⟩ := awaiting_of_step_keyWait hr
        rw [stepsFrom_of_keyWait hr, afterSteps_of_awaiting (fault_of_step_ok hr) hx]
      · rw [stepsFrom_of_ok hr hk]
        exact ih m.step.state (.ok flow) _

theorem state_runSteps (m : Machine) (count : Nat) :
    (m.runSteps count).state = m.afterSteps count :=
  state_stepsFrom count m (.ok .normal) []

theorem fault_stepsFrom_iff {m : Machine} (hf : m.fault = none) (n : Nat) (flow : Flow)
    (notices : List Notice) {e : Fault} :
    (stepsFrom n ⟨m, .ok flow, notices⟩).state.fault = some e ↔
      (stepsFrom n ⟨m, .ok flow, notices⟩).result = .error e := by
  induction n generalizing m flow notices with
  | zero => simp [stepsFrom, hf]
  | succ n ih =>
    cases hr : m.step.result with
    | error e' => simp [stepsFrom_of_error hr, fault_step_iff.2 hr]
    | ok flow' =>
      by_cases hk : flow' = .keyWait
      · subst hk
        simp [stepsFrom_of_keyWait hr, fault_of_step_ok hr]
      · rw [stepsFrom_of_ok hr hk]
        exact ih (fault_of_step_ok hr) flow' _

theorem fault_runSteps_iff {m : Machine} (hf : m.fault = none) {count : Nat} {e : Fault} :
    (m.runSteps count).state.fault = some e ↔ (m.runSteps count).result = .error e :=
  fault_stepsFrom_iff hf count .normal []

/-- The result of some steps is that of the last of them. Where they end early, it is the step at
which they ended that gives its result again. -/
theorem result_stepsFrom_succ (n : Nat) (m : Machine) (result : Except Fault Flow)
    (notices : List Notice) :
    (stepsFrom (n + 1) ⟨m, result, notices⟩).result = (m.afterSteps n).step.result := by
  induction n generalizing m result notices with
  | zero =>
    cases hr : m.step.result with
    | error e => rw [stepsFrom_of_error hr, afterSteps, Function.iterate_zero_apply, hr]
    | ok flow =>
      by_cases hk : flow = .keyWait
      · subst hk
        rw [stepsFrom_of_keyWait hr, afterSteps, Function.iterate_zero_apply, hr]
      · rw [stepsFrom_of_ok hr hk, stepsFrom, afterSteps, Function.iterate_zero_apply, hr]
  | succ n ih =>
    rw [afterSteps_succ]
    cases hr : m.step.result with
    | error e =>
      have hf := fault_step_iff.2 hr
      rw [stepsFrom_of_error hr, afterSteps_of_fault hf, step_of_fault hf]
    | ok flow =>
      by_cases hk : flow = .keyWait
      · subst hk
        have hf := fault_of_step_ok hr
        obtain ⟨x, hx⟩ := awaiting_of_step_keyWait hr
        rw [stepsFrom_of_keyWait hr, afterSteps_of_awaiting hf hx, step_of_awaiting hf hx]
      · rw [stepsFrom_of_ok hr hk]
        exact ih m.step.state (.ok flow) _

theorem result_runSteps_succ (m : Machine) (n : Nat) :
    (m.runSteps (n + 1)).result = (m.afterSteps n).step.result :=
  result_stepsFrom_succ n m (.ok .normal) []

/-- A run that ends with a fault or with a wait for a key ends in a machine that stays, and that
gives the same answer to every step. -/
theorem step_of_ended {m : Machine} {a : Nat}
    (h : (m.runSteps a).result = .ok .keyWait ∨ ∃ e, (m.runSteps a).result = .error e) :
    (m.afterSteps a).step = ⟨m.afterSteps a, (m.runSteps a).result, []⟩ := by
  cases a with
  | zero => rcases h with h | ⟨e, h⟩ <;> cases h
  | succ a =>
    rw [result_runSteps_succ] at h ⊢
    rw [afterSteps_succ']
    rcases h with h | ⟨e, h⟩
    · obtain ⟨x, hx⟩ := awaiting_of_step_keyWait h
      rw [h]
      exact step_of_awaiting (fault_of_step_ok h) hx
    · rw [h]
      exact step_of_fault (fault_step_iff.2 h)

/-- Some steps and at least one more, taken in one run or in two, lead to the same machine, and the
one run gives the result that the second of the two gives. Where the first of the two ends with a
fault or with a wait for a key, all of them end with that, and in the same machine. -/
theorem runSteps_in_parts (m : Machine) (a : Nat) {b : Nat} (hb : 0 < b) :
    let first := m.runSteps a
    let second := first.state.runSteps b
    let whole := m.runSteps (a + b)
    whole.state = second.state ∧ whole.result = second.result ∧
    (first.result = .ok .keyWait ∨ (∃ e, first.result = .error e) →
      whole.state = first.state ∧ whole.result = first.result) := by
  intro first second whole
  obtain ⟨n, rfl⟩ := Nat.exists_eq_succ_of_ne_zero (Nat.ne_of_gt hb)
  have hfirst : first.state = m.afterSteps a := m.state_runSteps a
  have hresult : whole.result = ((m.afterSteps a).afterSteps n).step.result := by
    rw [← afterSteps_add]
    exact m.result_runSteps_succ (a + n)
  have hstate : whole.state = (m.afterSteps a).afterSteps (n + 1) := by
    rw [← afterSteps_add]
    exact m.state_runSteps (a + (n + 1))
  refine ⟨?_, ?_, ?_⟩
  · rw [hstate, ← hfirst]
    exact (first.state.state_runSteps (n + 1)).symm
  · rw [hresult, ← hfirst]
    exact (first.state.result_runSteps_succ n).symm
  · intro hended
    have hstep := step_of_ended hended
    have hstays (k : Nat) : (m.afterSteps a).afterSteps k = m.afterSteps a :=
      Function.iterate_fixed (congrArg Outcome.state hstep) k
    rw [hstate, hresult, hstays, hstays, hfirst, hstep]
    exact ⟨rfl, rfl⟩

/-- A wait for a key that begins with the second of seven steps, and a return without a call that
follows on it when a key is pressed. -/
theorem runSteps_in_parts_of_wait :
    let m := (new {} 0).loadProgram [0x60, 0x07, 0xF5, 0x0A, 0x00, 0xEE]
    let n := (m.runSteps 3).state.pressKey 9
    (m.runSteps 3).result = .ok .keyWait ∧ (m.runSteps 7).result = .ok .keyWait ∧
      (m.runSteps 7).state = (m.runSteps 3).state ∧
      (n.runSteps 1).result = .error (.stackUnderflow 0x204) ∧
      (n.runSteps 5).result = .error (.stackUnderflow 0x204) := by
  intro m n
  have hwait : (m.runSteps 3).result = .ok .keyWait := by decide +kernel
  have hfault : (n.runSteps 1).result = .error (.stackUnderflow 0x204) := by decide +kernel
  obtain ⟨-, -, hwaits⟩ := runSteps_in_parts m 3 (b := 4) (by decide)
  obtain ⟨-, -, hfaults⟩ := runSteps_in_parts n 1 (b := 4) (by decide)
  obtain ⟨hstate, hresult⟩ := hwaits (Or.inl hwait)
  obtain ⟨-, hresult'⟩ := hfaults (Or.inr ⟨_, hfault⟩)
  exact ⟨hwait, hresult.trans hwait, hstate, hfault, hresult'.trans hfault⟩

end Chip8.Machine
