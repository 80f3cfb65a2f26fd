import Chip8.Machine.Step

/-! # Running with the clock

Elapsed time is turned into cycles, and each cycle is spent: on nothing while the machine waits for
a key, on what the last instruction owes, or on the next instruction. When all cycles of the
elapsed time are spent the timers count down by that time. A fault ends the update at once, with
the cycles that are left still pending in the clock.
-/
namespace Chip8.Machine

def cycle (m : Machine) : Outcome Machine Unit :=
  if m.isAwaiting then ⟨m, .ok (), []⟩
  else if 0 < m.owed then ⟨{ m with owed := m.owed - 1 }, .ok (), []⟩
  else m.step.map fun _ => ()

theorem cycle_of_awaiting {m : Machine} {x : Register} (hx : m.awaiting = some x) :
    m.cycle = ⟨m, .ok (), []⟩ := by
  simp [cycle, isAwaiting, hx]

theorem cycle_of_owed {m : Machine} (hx : m.awaiting = none) (ho : 0 < m.owed) :
    m.cycle = ⟨{ m with owed := m.owed - 1 }, .ok (), []⟩ := by
  simp [cycle, isAwaiting, hx, ho]

theorem cycle_of_paid {m : Machine} (hx : m.awaiting = none) (ho : ¬0 < m.owed) :
    m.cycle = m.step.map fun _ => () := by
  simp [cycle, isAwaiting, hx, ho]

theorem cycle_withClock (m : Machine) (clock : Clock) :
    (m.withClock clock).cycle = m.cycle.mapState (·.withClock clock) := by
  have hs := step_withClock m clock
  simp only [cycle]
  change (if m.isAwaiting then _ else if 0 < m.owed then _ else _) = _
  split
  · rfl
  · split
    · rfl
    · rw [hs]
      rfl

theorem clock_cycle (m : Machine) : m.cycle.state.clock = m.clock :=
  congrArg (·.state.clock) (cycle_withClock m m.clock)

/-- Take cycles from the clock as long as there is time for one, and spend each, until a fault.
The result is the number of cycles spent, counted on from `spent`. -/
def spend (m : Machine) (spent : Nat) (notices : List Notice) : Outcome Machine Nat :=
  match _ : m.clock.take? with
  | none => ⟨m, .ok spent, notices⟩
  | some clock =>
    let o := (m.withClock clock).cycle
    match o.result with
    | .error fault => ⟨o.state, .error fault, o.notices ++ notices⟩
    | .ok () => o.state.spend (spent + 1) (o.notices ++ notices)
termination_by m.clock.pending
decreasing_by
  rw [clock_cycle]
  exact Clock.pending_lt_of_take? ‹_›

/-- Let time pass. The result is the number of cycles spent. -/
def update (m : Machine) (elapsed : Nat) : Outcome Machine Nat :=
  match m.fault with
  | some fault => ⟨m, .error fault, []⟩
  | none =>
    let ⟨m, result, notices⟩ := (m.withClock (m.clock.advance elapsed)).spend 0 []
    match result with
    | .error fault => ⟨m, .error fault, notices⟩
    | .ok n => ⟨{ m with timers := m.timers.advance elapsed }, .ok n, notices⟩

end Chip8.Machine
