import Chip8.Machine.Trace
import Chip8.Proofs.Execution
import Mathlib.Logic.Function.Iterate

/-! # What an update does

An update draws its cycles from the clock one at a time. Its closed form: the pending time and the
elapsed time together, at most 20000 periods, hold a whole number of cycles. Either all of these
are spent, the remainder stays pending and the timers advance once, or the first that faults ends
the update, with the periods of the cycles after it still pending. Without a fault an update
executes the instructions that its cycles execute.
-/
namespace Chip8.Machine

/-- The machine after a number of cycles, whatever they give. -/
def afterCycles (m : Machine) (n : Nat) : Machine := (fun m => m.cycle.state)^[n] m

theorem afterCycles_succ (m : Machine) (n : Nat) :
    m.afterCycles (n + 1) = m.cycle.state.afterCycles n :=
  Function.iterate_succ_apply _ n m

theorem afterCycles_succ' (m : Machine) (n : Nat) :
    m.afterCycles (n + 1) = (m.afterCycles n).cycle.state :=
  Function.iterate_succ_apply' _ n m

theorem afterCycles_add (m : Machine) (j n : Nat) :
    m.afterCycles (j + n) = (m.afterCycles j).afterCycles n := by
  rw [Nat.add_comm]
  exact Function.iterate_add_apply _ n j m

theorem afterCycles_withClock (m : Machine) (clock : Clock) (n : Nat) :
    (m.withClock clock).afterCycles n = (m.afterCycles n).withClock clock := by
  induction n generalizing m with
  | zero => rfl
  | succ n ih =>
    rw [afterCycles_succ, afterCycles_succ, cycle_withClock]
    exact ih m.cycle.state

/-- The first cycles bring no fault. -/
def CyclesOk (m : Machine) (n : Nat) : Prop := ∀ j < n, (m.afterCycles j).cycle.result = .ok ()

theorem CyclesOk.tail {m : Machine} {n : Nat} (h : m.CyclesOk (n + 1)) :
    m.cycle.result = .ok () ∧ m.cycle.state.CyclesOk n := by
  refine ⟨h 0 (Nat.succ_pos n), ?_⟩
  intro j hj
  rw [← afterCycles_succ]
  exact h (j + 1) (Nat.succ_lt_succ hj)

theorem cyclesOk_withClock {m : Machine} {n : Nat} (h : m.CyclesOk n) (clock : Clock) :
    (m.withClock clock).CyclesOk n := by
  intro j hj
  rw [afterCycles_withClock, cycle_withClock]
  exact h j hj

theorem cyclesOk_or_fault (m : Machine) (n : Nat) :
    m.CyclesOk n ∨ ∃ j < n, ∃ e, m.CyclesOk j ∧ (m.afterCycles j).cycle.result = .error e := by
  induction n with
  | zero => exact Or.inl fun j hj => absurd hj (Nat.not_lt_zero j)
  | succ n ih =>
    rcases ih with hok | ⟨j, hj, e, hok, he⟩
    · cases hr : (m.afterCycles n).cycle.result with
      | error e => exact Or.inr ⟨n, Nat.lt_succ_self n, e, hok, hr⟩
      | ok u =>
        left
        intro j hj
        rcases Nat.lt_succ_iff_lt_or_eq.1 hj with hj | rfl
        · exact hok j hj
        · exact hr
    · exact Or.inr ⟨j, Nat.lt_succ_of_lt hj, e, hok, he⟩

theorem spend_of_take?_none {m : Machine} (h : m.clock.take? = none) (spent : Nat)
    (notices : List Notice) : m.spend spent notices = ⟨m, .ok spent, notices⟩ := by
  rw [spend]
  split
  · rfl
  · rename_i clock h'
    rw [h] at h'
    cases h'

theorem spend_of_take?_some {m : Machine} {clock : Clock} (h : m.clock.take? = some clock)
    (spent : Nat) (notices : List Notice) :
    m.spend spent notices =
      match m.cycle.result with
      | .error fault =>
        ⟨m.cycle.state.withClock clock, .error fault, m.cycle.notices ++ notices⟩
      | .ok () =>
        (m.cycle.state.withClock clock).spend (spent + 1) (m.cycle.notices ++ notices) := by
  rw [spend]
  split
  · rename_i h'
    rw [h] at h'
    cases h'
  · rename_i clock' h'
    cases h.symm.trans h'
    rw [cycle_withClock]
    rfl

/-- When no cycle faults, all that the clock has time for are spent. -/
theorem spend_of_cyclesOk {m : Machine} {n : Nat} (hn : m.clock.available = n)
    (hok : m.CyclesOk n) (spent : Nat) (notices : List Notice) :
    (m.spend spent notices).result = .ok (spent + n) ∧
    (m.spend spent notices).state = (m.afterCycles n).withClock (m.clock.takeMany n) := by
  induction n generalizing m spent notices with
  | zero =>
    rw [spend_of_take?_none (Clock.take?_of_available_zero hn)]
    exact ⟨rfl, congrArg m.withClock (Clock.takeMany_zero m.clock).symm⟩
  | succ n ih =>
    obtain ⟨hr, htail⟩ := hok.tail
    have hn' : m.clock.take.available = n := by
      rw [Clock.available_take, hn, Nat.add_sub_cancel]
    rw [spend_of_take?_some (Clock.take?_of_available hn), hr]
    obtain ⟨hres, hst⟩ := ih (m := m.cycle.state.withClock m.clock.take) hn'
      (cyclesOk_withClock htail _) (spent + 1) (m.cycle.notices ++ notices)
    refine ⟨hres.trans (congrArg Except.ok (by omega)), hst.trans ?_⟩
    rw [afterCycles_withClock, afterCycles_succ, ← Clock.takeMany_take]
    rfl

/-- The first cycle that faults ends the loop, its period taken and those after it not. -/
theorem spend_of_cycle_error {m : Machine} {j : Nat} {e : Fault} (hj : j < m.clock.available)
    (hok : m.CyclesOk j) (he : (m.afterCycles j).cycle.result = .error e) (spent : Nat)
    (notices : List Notice) :
    (m.spend spent notices).result = .error e ∧
    (m.spend spent notices).state =
      (m.afterCycles (j + 1)).withClock (m.clock.takeMany (j + 1)) := by
  induction j generalizing m spent notices with
  | zero =>
    have hr : m.cycle.result = .error e := he
    obtain ⟨n, hn⟩ := Nat.exists_eq_add_one_of_ne_zero (Nat.ne_of_gt hj)
    rw [spend_of_take?_some (Clock.take?_of_available hn), hr, ← Clock.takeMany_take,
      Clock.takeMany_zero]
    exact ⟨rfl, rfl⟩
  | succ j ih =>
    obtain ⟨hr, htail⟩ := hok.tail
    obtain ⟨n, hn⟩ := Nat.exists_eq_add_one_of_ne_zero (Nat.ne_of_gt (Nat.zero_lt_of_lt hj))
    have hj' : j < m.clock.take.available := by
      rw [Clock.available_take]
      omega
    have he' : ((m.cycle.state.withClock m.clock.take).afterCycles j).cycle.result = .error e := by
      rw [afterCycles_withClock, cycle_withClock]
      rwa [afterCycles_succ] at he
    rw [spend_of_take?_some (Clock.take?_of_available hn), hr]
    obtain ⟨hres, hst⟩ := ih (m := m.cycle.state.withClock m.clock.take) hj'
      (cyclesOk_withClock htail _) he' (spent + 1) (m.cycle.notices ++ notices)
    refine ⟨hres, hst.trans ?_⟩
    rw [afterCycles_withClock, afterCycles_succ m, ← Clock.takeMany_take m.clock]
    rfl

theorem update_of_fault {m : Machine} {e : Fault} (h : m.fault = some e) (elapsed : Nat) :
    m.update elapsed = ⟨m, .error e, []⟩ := by
  simp only [update, h]

theorem update_of_spend_ok {m : Machine} (hf : m.fault = none) {elapsed n : Nat}
    (h : ((m.withClock (m.clock.advance elapsed)).spend 0 []).result = .ok n) :
    let o := (m.withClock (m.clock.advance elapsed)).spend 0 []
    m.update elapsed =
      ⟨{ o.state with timers := o.state.timers.advance elapsed }, .ok n, o.notices⟩ := by
  simp only [update, hf, h]

theorem update_of_spend_error {m : Machine} (hf : m.fault = none) {elapsed : Nat} {e : Fault}
    (h : ((m.withClock (m.clock.advance elapsed)).spend 0 []).result = .error e) :
    let o := (m.withClock (m.clock.advance elapsed)).spend 0 []
    m.update elapsed = ⟨o.state, .error e, o.notices⟩ := by
  simp only [update, hf, h]

/-- The time that an update can turn into cycles. -/
def budget (m : Machine) (elapsed : Nat) : Nat :=
  min (m.clock.pending + elapsed) (maxCyclesPerUpdate * m.clock.period)

theorem pending_advance_eq_budget (m : Machine) (elapsed : Nat) :
    (m.clock.advance elapsed).pending = m.budget elapsed := by
  rw [Clock.pending_advance, Clock.cap_eq, Nat.mul_comm]
  rfl

theorem available_advance_eq (m : Machine) (elapsed : Nat) :
    (m.clock.advance elapsed).available = m.budget elapsed / m.clock.period := by
  rw [← pending_advance_eq_budget]
  rfl

theorem takeMany_advance_eq (m : Machine) (elapsed count : Nat) :
    (m.clock.advance elapsed).takeMany count =
      { m.clock with pending := m.budget elapsed - count * m.clock.period } := by
  rw [← pending_advance_eq_budget]
  rfl

theorem update_of_cyclesOk {m : Machine} (hf : m.fault = none) (elapsed : Nat)
    (hok : m.CyclesOk (m.budget elapsed / m.clock.period)) :
    let n := m.budget elapsed / m.clock.period
    (m.update elapsed).result = .ok n ∧
    (m.update elapsed).state =
      { m.afterCycles n with
        clock := { m.clock with pending := m.budget elapsed % m.clock.period }
        timers := (m.afterCycles n).timers.advance elapsed } := by
  intro n
  obtain ⟨hr, hs⟩ := spend_of_cyclesOk (m := m.withClock (m.clock.advance elapsed))
    (available_advance_eq m elapsed) (cyclesOk_withClock hok _) 0 []
  rw [Nat.zero_add] at hr
  rw [update_of_spend_ok hf hr, hs, afterCycles_withClock]
  refine ⟨rfl, ?_⟩
  have hc := takeMany_advance_eq m elapsed n
  rw [← Nat.mod_eq_sub_div_mul] at hc
  exact congrArg (fun clock => { m.afterCycles n with
    clock, timers := (m.afterCycles n).timers.advance elapsed }) hc

theorem update_of_cycle_error {m : Machine} (hf : m.fault = none) {elapsed j : Nat} {e : Fault}
    (hj : j < m.budget elapsed / m.clock.period) (hok : m.CyclesOk j)
    (he : (m.afterCycles j).cycle.result = .error e) :
    (m.update elapsed).result = .error e ∧
    (m.update elapsed).state = (m.afterCycles (j + 1)).withClock
      { m.clock with pending := m.budget elapsed - (j + 1) * m.clock.period } := by
  have hj' : j < (m.clock.advance elapsed).available := by rwa [available_advance_eq]
  have he' : ((m.withClock (m.clock.advance elapsed)).afterCycles j).cycle.result = .error e := by
    rw [afterCycles_withClock, cycle_withClock]
    exact he
  obtain ⟨hr, hs⟩ := spend_of_cycle_error (m := m.withClock (m.clock.advance elapsed))
    hj' (cyclesOk_withClock hok _) he' 0 []
  rw [update_of_spend_error hf hr, hs, afterCycles_withClock]
  refine ⟨rfl, ?_⟩
  exact congrArg (m.afterCycles (j + 1)).withClock (takeMany_advance_eq m elapsed (j + 1))

def cyclesTrace (m : Machine) : Nat → List Execution
  | 0 => []
  | n + 1 => m.cycle.trace ++ m.cycle.state.cyclesTrace n

theorem trace_cycle_withClock (m : Machine) (clock : Clock) :
    (m.withClock clock).cycle.trace = m.cycle.trace := by
  rw [cycle_withClock]
  rfl

theorem cyclesTrace_withClock (m : Machine) (clock : Clock) (n : Nat) :
    (m.withClock clock).cyclesTrace n = m.cyclesTrace n := by
  induction n generalizing m with
  | zero => rfl
  | succ n ih =>
    have hstate : (m.withClock clock).cycle.state = m.cycle.state.withClock clock := by
      rw [cycle_withClock]
      rfl
    simp only [cyclesTrace, trace_cycle_withClock, hstate, ih]

theorem trace_spend_of_cyclesOk {m : Machine} {n : Nat} (hn : m.clock.available = n)
    (hok : m.CyclesOk n) (spent : Nat) (notices : List Notice) :
    (m.spend spent notices).trace = Notice.trace notices ++ m.cyclesTrace n := by
  induction n generalizing m spent notices with
  | zero =>
    rw [spend_of_take?_none (Clock.take?_of_available_zero hn)]
    exact (List.append_nil _).symm
  | succ n ih =>
    obtain ⟨hr, htail⟩ := hok.tail
    have hn' : m.clock.take.available = n := by
      rw [Clock.available_take, hn, Nat.add_sub_cancel]
    have hrest := ih (m := m.cycle.state.withClock m.clock.take) hn'
      (cyclesOk_withClock htail _) (spent + 1) (m.cycle.notices ++ notices)
    rw [Notice.trace_append, cyclesTrace_withClock, List.append_assoc] at hrest
    rw [spend_of_take?_some (Clock.take?_of_available hn), hr]
    exact hrest

theorem trace_update_of_cyclesOk {m : Machine} (hf : m.fault = none) (elapsed : Nat)
    (hok : m.CyclesOk (m.budget elapsed / m.clock.period)) :
    (m.update elapsed).trace = m.cyclesTrace (m.budget elapsed / m.clock.period) := by
  have havailable := available_advance_eq m elapsed
  obtain ⟨hr, -⟩ := spend_of_cyclesOk (m := m.withClock (m.clock.advance elapsed)) havailable
    (cyclesOk_withClock hok _) 0 []
  have htrace := trace_spend_of_cyclesOk (m := m.withClock (m.clock.advance elapsed)) havailable
    (cyclesOk_withClock hok _) 0 []
  rw [cyclesTrace_withClock] at htrace
  rw [update_of_spend_ok hf hr]
  exact htrace

/-- An update spends all cycles that its time holds, with the remainder left pending and the
timers advanced once, or stops at the first cycle that faults. -/
theorem update_spends_budget (m : Machine) (hf : m.fault = none) (elapsed : Nat) :
    let p := m.clock.period
    let b := min (m.clock.pending + elapsed) (20000 * p)
    let n := b / p
    n ≤ 20000 ∧
    (((∀ j < n, (m.afterCycles j).cycle.result = .ok ()) ∧
        (m.update elapsed).result = .ok n ∧
        (m.update elapsed).state =
          { m.afterCycles n with
            clock := { m.clock with pending := b % p }
            timers := (m.afterCycles n).timers.advance elapsed }) ∨
      ∃ j < n, ∃ e,
        (∀ i < j, (m.afterCycles i).cycle.result = .ok ()) ∧
        (m.afterCycles j).cycle.result = .error e ∧
        (m.update elapsed).result = .error e ∧
        (m.update elapsed).state =
          { m.afterCycles (j + 1) with clock := { m.clock with pending := b - (j + 1) * p } }) := by
  intro p b n
  refine ⟨?_, ?_⟩
  · have hle : b ≤ p * 20000 := by
      rw [Nat.mul_comm]
      exact Nat.min_le_right _ _
    exact Nat.div_le_of_le_mul hle
  · rcases cyclesOk_or_fault m n with hok | ⟨j, hj, e, hok, he⟩
    · obtain ⟨hr, hs⟩ := update_of_cyclesOk hf elapsed hok
      exact Or.inl ⟨hok, hr, hs⟩
    · obtain ⟨hr, hs⟩ := update_of_cycle_error hf hj hok he
      exact Or.inr ⟨j, hj, e, hok, he, hr, hs⟩

/-- A program that is one return faults at the first of the 20000 cycles that a very long update
is cut to, and the time of all others stays pending. -/
theorem update_spends_budget_of_bare_return :
    let m := (new {} 0).loadProgram [0x00, 0xEE]
    let elapsed := 64 * UInt64.size
    m.fault = none ∧ (m.update elapsed).result = .error (.stackUnderflow 0x200) ∧
      (m.update elapsed).state.clock.pending = 39998000000 := by
  intro m elapsed
  have hf : m.fault = none := rfl
  have hword : m.cpu.fetch = 0x00EE := by decide +kernel
  have hnext : m.executeNext.result = .error (.stackUnderflow 0x200) :=
    (executeNext_error_iff_faulting (Nat.zero_le 16)).2 (.underflow hword rfl)
  have hcycle : m.cycle.result = .error (.stackUnderflow 0x200) :=
    cycle_error_iff.2 ⟨rfl, rfl, step_error_iff.2 (Or.inr ⟨rfl, rfl, hnext⟩)⟩
  have hn : 20000 = min (m.clock.pending + elapsed) (20000 * m.clock.period) / m.clock.period := by
    decide +kernel
  obtain ⟨-, ⟨hok, -⟩ | ⟨j, hj, e, hok, he, hresult, hstate⟩⟩ := update_spends_budget m hf elapsed
  · have hpos := Nat.lt_of_lt_of_eq (Nat.succ_pos 19999) hn
    cases hcycle.symm.trans (hok 0 hpos)
  · cases j with
    | zero =>
      cases hcycle.symm.trans he
      refine ⟨hf, hresult, ?_⟩
      rw [hstate]
      decide +kernel
    | succ j => cases hcycle.symm.trans (hok 0 (Nat.succ_pos j))

end Chip8.Machine
