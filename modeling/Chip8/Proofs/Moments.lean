import Chip8.Proofs.Coherence
import Chip8.Proofs.Steps

/-! # Where an operation fails

An operation executes instructions one after the other; before and between them time passes and
cycles are paid. So an operation fails exactly where one of its instructions does, and leaves the
machine as that instruction left it.
-/
namespace Chip8.Machine

/-- Instructions are being executed: there is no fault, and no register waits for a key. -/
structure Running (m : Machine) : Prop where
  fault : m.fault = none
  awaiting : m.awaiting = none

theorem exists_running_of_afterSteps {m : Machine} (hf : m.fault = none) {n : Nat} {e : Fault}
    (h : (m.afterSteps n).fault = some e) :
    ∃ j < n, (m.afterSteps j).Running ∧ (m.afterSteps j).executeNext.result = .error e := by
  induction n with
  | zero => exact absurd (h.symm.trans hf) (Option.some_ne_none e)
  | succ n ih =>
    rw [afterSteps_succ', fault_step_iff] at h
    rcases step_error_iff.1 h with hn | ⟨hn, hx, he⟩
    · obtain ⟨j, hj, hrun, he⟩ := ih hn
      exact ⟨j, Nat.lt_succ_of_lt hj, hrun, he⟩
    · exact ⟨n, Nat.lt_succ_self n, ⟨hn, hx⟩, he⟩

theorem afterSteps_of_error {m : Machine} {j n : Nat} (hj : j < n)
    (hrun : (m.afterSteps j).Running) {e : Fault}
    (he : (m.afterSteps j).executeNext.result = .error e) :
    m.afterSteps n = { m.afterSteps j with fault := some e } := by
  have hnext : m.afterSteps (j + 1) = { m.afterSteps j with fault := some e } := by
    rw [afterSteps_succ', step_of_running hrun.fault hrun.awaiting]
    exact state_of_executeNext_error he
  obtain ⟨rest, rfl⟩ := Nat.exists_eq_add_of_lt hj
  have hcount : j + rest + 1 = j + 1 + rest := by omega
  rw [hcount, afterSteps_add, hnext]
  exact afterSteps_of_fault rfl rest

theorem cycle_of_executeNext_error {m : Machine} (hrun : m.Running) (howed : m.owed = 0)
    {e : Fault} (he : m.executeNext.result = .error e) :
    m.cycle.result = .error e ∧ m.cycle.state = { m with fault := some e } := by
  have hstep := step_of_running hrun.fault hrun.awaiting
  refine ⟨cycle_error_iff.2 ⟨hrun.awaiting, howed, hstep ▸ he⟩, ?_⟩
  rw [cycle_of_paid hrun.awaiting (Nat.not_lt_of_le (Nat.le_of_eq howed)), hstep]
  exact state_of_executeNext_error he

theorem fault_afterCycles_le {m : Machine} {i j : Nat} (hij : i ≤ j) {e : Fault}
    (h : (m.afterCycles i).fault = some e) : (m.afterCycles j).fault = some e := by
  induction hij with
  | refl => exact h
  | @step j _ ih =>
    rw [afterCycles_succ']
    exact historical_fault.cycle (m.afterCycles j) e ih

theorem cyclesOk_of_unfaulted {m : Machine} {n : Nat} (h : (m.afterCycles n).fault = none) :
    m.CyclesOk n := by
  intro j hj
  cases hr : (m.afterCycles j).cycle.result with
  | ok u => rfl
  | error e =>
    have he : (m.afterCycles (j + 1)).fault = some e := by
      rw [afterCycles_succ']
      exact fault_of_cycle_error hr
    exact absurd ((fault_afterCycles_le hj he).symm.trans h) (Option.some_ne_none e)

theorem CyclesOk.unfaulted {m : Machine} (hf : m.fault = none) {n : Nat} (h : m.CyclesOk n) :
    (m.afterCycles n).fault = none := by
  induction n with
  | zero => exact hf
  | succ n ih =>
    have hn := ih fun j hj => h j (Nat.lt_succ_of_lt hj)
    rw [afterCycles_succ']
    exact fault_of_cycle_ok hn (h n (Nat.lt_succ_self n))

theorem cyclesOk_of_update_unfaulted {m : Machine} (hf : m.fault = none) {elapsed : Nat}
    (h : (m.update elapsed).state.fault = none) :
    m.CyclesOk (m.budget elapsed / m.clock.period) := by
  rcases cyclesOk_or_fault m (m.budget elapsed / m.clock.period) with hok | ⟨j, hj, e, hok, he⟩
  · exact hok
  · rw [(update_of_cycle_error hf hj hok he).2, afterCycles_succ'] at h
    have hsome := fault_of_cycle_error he
    exact absurd (hsome.symm.trans h) (Option.some_ne_none e)

theorem clock_afterCycles (m : Machine) (n : Nat) : (m.afterCycles n).clock = m.clock := by
  induction n with
  | zero => rfl
  | succ n ih =>
    rw [afterCycles_succ', clock_cycle]
    exact ih

theorem Sound.afterCycles {m : Machine} (h : m.Sound) (n : Nat) : (m.afterCycles n).Sound := by
  induction n with
  | zero => exact h
  | succ n ih =>
    rw [afterCycles_succ']
    exact historical_sound.cycle (m.afterCycles n) ih

/-- The machine at some cycle of an update, with the time of that cycle taken. -/
def atCycle (m : Machine) (elapsed j : Nat) : Machine :=
  (m.afterCycles j).withClock
    { m.clock with pending := m.budget elapsed - (j + 1) * m.clock.period }

/-- The machines that execute their next instruction in the course of an operation. -/
inductive Executes (m : Machine) : Operation → Machine → Prop
  | step : m.Running → Executes m .step m
  | runSteps {count j : Nat} : j < count → (m.afterSteps j).Running →
      Executes m (.runSteps count) (m.afterSteps j)
  | update {elapsed j : Nat} : j < m.budget elapsed / m.clock.period →
      (m.afterCycles j).Running → (m.afterCycles j).owed = 0 →
      Executes m (.update elapsed) (m.atCycle elapsed j)

namespace Executes

theorem running {m b : Machine} {operation : Operation} (h : m.Executes operation b) :
    b.Running := by
  cases h with
  | step hrun => exact hrun
  | runSteps _ hrun => exact hrun
  | update _ hrun _ => exact ⟨hrun.fault, hrun.awaiting⟩

theorem sound {m b : Machine} {operation : Operation} (h : m.Executes operation b)
    (hm : m.Sound) : b.Sound := by
  cases h with
  | step _ => exact hm
  | @runSteps count j _ _ =>
    rw [← state_runSteps]
    exact historical_sound.runSteps m j hm
  | @update elapsed j _ _ _ =>
    have hperiod := congrArg Clock.period (m.clock_afterCycles j).symm
    exact historical_sound.clock (m.afterCycles j) _ hperiod (hm.afterCycles j)

/-- An instruction that fails ends its operation, which changed nothing after it. -/
theorem perform_of_error {m b : Machine} {operation : Operation} (hf : m.fault = none)
    (h : m.Executes operation b) {e : Fault} (he : b.executeNext.result = .error e) :
    (m.perform operation).result = .error e ∧
    (m.perform operation).state = { b with fault := some e } := by
  cases h with
  | step hrun =>
    have hstep := step_of_running hrun.fault hrun.awaiting
    have hstate := (congrArg Outcome.state hstep).trans (state_of_executeNext_error he)
    exact ⟨Outcome.map_error_iff.2 (hstep ▸ he), hstate⟩
  | @runSteps count j hj hrun =>
    have hruns := (m.state_runSteps count).trans (afterSteps_of_error hj hrun he)
    have hresult : (m.runSteps count).result = .error e :=
      (fault_runSteps_iff hf).1 (congrArg Machine.fault hruns)
    exact ⟨Outcome.map_error_iff.2 hresult, hruns⟩
  | @update elapsed j hj hrun howed =>
    rw [atCycle, executeNext_withClock] at he
    obtain ⟨hcycle, hpaid⟩ := cycle_of_executeNext_error hrun howed he
    obtain ⟨hresult, hup⟩ := update_of_cycle_error hf hj (cyclesOk_of_unfaulted hrun.fault) hcycle
    refine ⟨Outcome.map_error_iff.2 hresult, hup.trans ?_⟩
    rw [afterCycles_succ', hpaid]
    rfl

end Executes

/-- An operation on a machine without a fault fails only where an instruction does. -/
theorem exists_executes_of_error {m : Machine} (hf : m.fault = none) {operation : Operation}
    {e : Fault} (h : (m.perform operation).result = .error e) :
    ∃ b, m.Executes operation b ∧ b.executeNext.result = .error e := by
  cases operation with
  | step =>
    rcases step_error_iff.1 (Outcome.map_error_iff.1 h) with hfault | ⟨_, hx, he⟩
    · exact absurd (hfault.symm.trans hf) (Option.some_ne_none e)
    · exact ⟨m, .step ⟨hf, hx⟩, he⟩
  | runSteps count =>
    have hfault := (fault_runSteps_iff hf).2 (Outcome.map_error_iff.1 h)
    rw [state_runSteps] at hfault
    obtain ⟨j, hj, hrun, he⟩ := exists_running_of_afterSteps hf hfault
    exact ⟨m.afterSteps j, .runSteps hj hrun, he⟩
  | update elapsed =>
    have hresult : (m.update elapsed).result = .error e := Outcome.map_error_iff.1 h
    rcases cyclesOk_or_fault m (m.budget elapsed / m.clock.period) with hok | ⟨j, hj, e', hok, he⟩
    · cases hresult.symm.trans (update_of_cyclesOk hf elapsed hok).1
    · cases hresult.symm.trans (update_of_cycle_error hf hj hok he).1
      obtain ⟨hx, howed, hstep⟩ := cycle_error_iff.1 he
      have hrun : (m.afterCycles j).Running := ⟨hok.unfaulted hf, hx⟩
      refine ⟨m.atCycle elapsed j, .update hj hrun howed, ?_⟩
      rw [step_of_running hrun.fault hrun.awaiting] at hstep
      rw [atCycle, executeNext_withClock]
      exact hstep
  | setKey key pressed => cases h
  | _ => cases h

end Chip8.Machine
