import Chip8.Proofs.Moments

/-! # With and without the clock

With fixed timing nothing is ever owed, so that a cycle does what a step does: it executes an
instruction, or it waits, or it gives the fault once more. An update is then as many steps as its
time holds cycles. That the steps end early at a wait for a key makes no difference, since the
cycles that are left are spent on waiting.
-/
namespace Chip8.Machine

theorem cycle_eq_step {m : Machine} (h : m.Sound) (howed : m.owed = 0) :
    m.cycle = m.step.map fun _ => () := by
  cases hx : m.awaiting with
  | none => exact cycle_of_paid hx (Nat.not_lt_of_le (Nat.le_of_eq howed))
  | some x =>
    have hf : m.fault = none := by
      cases hf : m.fault with
      | none => rfl
      | some e => cases (h.fault_fits e hf).1.symm.trans hx
    rw [cycle_of_awaiting hx, step_of_awaiting hf hx]
    rfl

theorem afterCycles_eq_afterSteps {m : Machine} (h : m.Sound) (ht : m.settings.timing = .fixed)
    (n : Nat) : m.afterCycles n = m.afterSteps n := by
  induction n generalizing m with
  | zero => rfl
  | succ n ih =>
    have hcycle : m.cycle.state = m.step.state :=
      congrArg Outcome.state (cycle_eq_step h (h.owed_fixed ht))
    have hsound : m.step.state.Sound := historical_sound.step m h
    have htiming : m.step.state.settings.timing = .fixed :=
      (congrArg Settings.timing (internal_settings.step m)).trans ht
    rw [afterCycles_succ, afterSteps_succ, hcycle]
    exact ih hsound htiming

theorem runSteps_of_cyclesOk {m : Machine} (h : m.Sound) (hf : m.fault = none)
    (ht : m.settings.timing = .fixed) {n : Nat} (hok : m.CyclesOk n) :
    (∀ e, (m.runSteps n).result ≠ .error e) ∧ (m.runSteps n).state = m.afterCycles n := by
  have hstate : (m.runSteps n).state = m.afterCycles n := by
    rw [afterCycles_eq_afterSteps h ht]
    exact m.state_runSteps n
  refine ⟨?_, hstate⟩
  intro e he
  have hfault := (fault_runSteps_iff hf).2 he
  rw [hstate, hok.unfaulted hf] at hfault
  cases hfault

/-- The cycle that faults is the last step that does anything. -/
theorem runSteps_of_cycle_error {m : Machine} (h : m.Sound) (hf : m.fault = none)
    (ht : m.settings.timing = .fixed) {j n : Nat} {e : Fault} (hj : j < n)
    (he : (m.afterCycles j).cycle.result = .error e) :
    (m.runSteps n).result = .error e ∧ (m.runSteps n).state = m.afterCycles (j + 1) := by
  have hfault : (m.afterCycles (j + 1)).fault = some e := by
    rw [afterCycles_succ']
    exact fault_of_cycle_error he
  have hstate : (m.runSteps n).state = m.afterCycles (j + 1) := by
    obtain ⟨rest, rfl⟩ := Nat.exists_eq_add_of_le (Nat.succ_le_of_lt hj)
    rw [state_runSteps, afterSteps_add, ← afterCycles_eq_afterSteps h ht]
    exact afterSteps_of_fault hfault rest
  exact ⟨(fault_runSteps_iff hf).1 (hstate ▸ hfault), hstate⟩

/-- An update in fixed timing is a run of as many steps as its time holds cycles. Where these
succeed it leads to the same machine but for the clock, with the timers advanced; where they fail
it fails with the same fault, and the machines are the same but for the clock. -/
theorem update_eq_runSteps {m : Machine} (hm : m.Reachable) (hf : m.fault = none)
    (ht : m.settings.timing = .fixed) (elapsed : Nat) :
    let p := m.clock.period
    let b := min (m.clock.pending + elapsed) (20000 * p)
    let n := b / p
    let o := m.runSteps n
    (∀ flow, o.result = .ok flow →
      (m.update elapsed).result = .ok n ∧
      (m.update elapsed).state =
        { o.state with
          clock := { m.clock with pending := b % p }
          timers := o.state.timers.advance elapsed }) ∧
    ∀ e, o.result = .error e →
      (m.update elapsed).result = .error e ∧
      ∃ j < n, (m.update elapsed).state =
        { o.state with clock := { m.clock with pending := b - (j + 1) * p } } := by
  intro p b n o
  rcases cyclesOk_or_fault m n with hok | ⟨j, hj, e, hok, he⟩
  · obtain ⟨hnone, hstate⟩ := runSteps_of_cyclesOk hm.sound hf ht hok
    obtain ⟨hresult, hupdate⟩ := update_of_cyclesOk hf elapsed hok
    refine ⟨?_, ?_⟩
    · intro flow _
      rw [hstate]
      exact ⟨hresult, hupdate⟩
    · intro e he
      exact absurd he (hnone e)
  · obtain ⟨herror, hstate⟩ := runSteps_of_cycle_error hm.sound hf ht hj he
    obtain ⟨hresult, hupdate⟩ := update_of_cycle_error hf hj hok he
    refine ⟨?_, ?_⟩
    · intro flow hflow
      cases herror.symm.trans hflow
    · intro e' he'
      cases herror.symm.trans he'
      refine ⟨hresult, j, hj, ?_⟩
      rw [hstate]
      exact hupdate

/-- A machine that came from COSMAC timing with a wait for a key spends the 500 cycles of a second
as 500 steps would. -/
theorem update_eq_runSteps_while_waiting :
    let m := (new { timing := .cosmac } 0).performAll
      [.loadProgram [0xF5, 0x0A], .step, .setTiming .fixed]
    m.Reachable ∧ m.fault = none ∧ m.settings.timing = .fixed ∧
      (m.runSteps 500).result = .ok .keyWait ∧ (m.update 1000000000).result = .ok 500 := by
  intro m
  have hm : m.Reachable := ⟨_, _, _, _, rfl⟩
  have hf : m.fault = none := by decide +kernel
  have ht : m.settings.timing = .fixed := by decide +kernel
  have hx : m.awaiting = some 5 := by decide +kernel
  have hn : min (m.clock.pending + 1000000000) (20000 * m.clock.period) / m.clock.period = 500 := by
    decide +kernel
  have hrun : (m.runSteps 500).result = .ok .keyWait :=
    congrArg Outcome.result (stepsFrom_of_keyWait
      (congrArg Outcome.result (step_of_awaiting hf hx)) 499 (.ok .normal) [])
  have hupdate := (update_eq_runSteps hm hf ht 1000000000).1 .keyWait
  rw [hn] at hupdate
  exact ⟨hm, hf, ht, hrun, (hupdate hrun).1⟩

end Chip8.Machine
