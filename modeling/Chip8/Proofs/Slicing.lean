import Chip8.Proofs.Moments
import Mathlib.Algebra.Ring.Nat

/-! # Slices of time

A host may feed time to a machine in slices of any lengths. The clock and the timers keep what a
slice leaves over, and a cycle does not depend on the time except through the timers. So as long as
no instruction reads or sets a timer, and no backlog is dropped, time that is fed in slices does
what it does when it is fed at once.
-/
namespace Chip8

def Instruction.usesTimers : Instruction → Bool
  | .loadDelay _ | .setDelay _ | .setSound _ => true
  | _ => false

def Timeless (executions : List Execution) : Prop :=
  ∀ execution ∈ executions, execution.2.usesTimers = false

theorem timeless_append {before after : List Execution} :
    Timeless (before ++ after) ↔ Timeless before ∧ Timeless after := List.forall_mem_append

namespace Machine

def withTimers (m : Machine) (timers : Timers) : Machine := { m with timers }

theorem execute_withTimers (m : Machine) (timers : Timers) (pc : UInt16) {i : Instruction}
    (hi : i.usesTimers = false) :
    (m.withTimers timers).execute pc i =
      ⟨(m.execute pc i).machine.withTimers timers, (m.execute pc i).result⟩ := by
  cases i with
  | loadDelay x => cases hi
  | setDelay x => cases hi
  | setSound x => cases hi
  | ret =>
    simp only [execute, withTimers]
    split <;> rfl
  | call address =>
    simp only [execute, withTimers]
    split <;> rfl
  | skip condition => cases condition <;> rfl
  | _ => rfl

theorem executeNext_withTimers (m : Machine) (timers : Timers)
    (hi : m.nextInstruction.usesTimers = false) :
    (m.withTimers timers).executeNext = m.executeNext.mapState (·.withTimers timers) := by
  have h : (m.withTimers timers).nextEffect =
      ⟨m.nextEffect.machine.withTimers timers, m.nextEffect.result⟩ :=
    execute_withTimers (m.mapCpu Cpu.advance) timers m.cpu.pc hi
  simp only [executeNext, h]
  rcases m.nextEffect with ⟨n, _ | ⟨flow, cost⟩⟩ <;> rfl

theorem cycle_withTimers {m : Machine} (timers : Timers) (h : Timeless m.cycle.trace) :
    (m.withTimers timers).cycle = m.cycle.mapState (·.withTimers timers) := by
  cases hx : m.awaiting with
  | some x =>
    rw [cycle_of_awaiting hx, cycle_of_awaiting (m := m.withTimers timers) hx]
    rfl
  | none =>
    by_cases ho : 0 < m.owed
    · rw [cycle_of_owed hx ho, cycle_of_owed (m := m.withTimers timers) hx ho]
      rfl
    · rw [cycle_of_paid hx ho] at h ⊢
      rw [cycle_of_paid (m := m.withTimers timers) hx ho]
      cases hf : m.fault with
      | some e =>
        rw [step_of_fault hf, step_of_fault (m := m.withTimers timers) hf]
        rfl
      | none =>
        have htrace : m.executeNext.trace = [(m.cpu.pc, m.nextInstruction)] := m.trace_executeNext
        rw [step_of_running hf hx] at h ⊢
        have hi : m.nextInstruction.usesTimers = false := by
          apply h (m.cpu.pc, m.nextInstruction)
          change _ ∈ m.executeNext.trace
          rw [htrace]
          exact List.mem_singleton_self _
        rw [step_of_running (m := m.withTimers timers) hf hx, executeNext_withTimers m timers hi]
        rfl

/-- A number of cycles brings no fault and touches no timer. -/
structure Quiet (m : Machine) (n : Nat) : Prop where
  ok : m.CyclesOk n
  timeless : Timeless (m.cyclesTrace n)

theorem quiet_zero (m : Machine) : m.Quiet 0 :=
  ⟨fun _ hj => absurd hj (Nat.not_lt_zero _), fun _ hx => absurd hx List.not_mem_nil⟩

theorem quiet_succ {m : Machine} {n : Nat} :
    m.Quiet (n + 1) ↔
      m.cycle.result = .ok () ∧ Timeless m.cycle.trace ∧ m.cycle.state.Quiet n := by
  constructor
  · rintro ⟨hok, htimeless⟩
    obtain ⟨hfirst, hrest⟩ := timeless_append.1 htimeless
    exact ⟨hok.tail.1, hfirst, hok.tail.2, hrest⟩
  · rintro ⟨hr, hfirst, hok, hrest⟩
    refine ⟨?_, timeless_append.2 ⟨hfirst, hrest⟩⟩
    intro j hj
    cases j with
    | zero => exact hr
    | succ j =>
      rw [afterCycles_succ]
      exact hok j (Nat.lt_of_succ_lt_succ hj)

theorem quiet_add {m : Machine} {j n : Nat} :
    m.Quiet (j + n) ↔ m.Quiet j ∧ (m.afterCycles j).Quiet n := by
  induction j generalizing m with
  | zero => simp [quiet_zero, afterCycles]
  | succ j ih =>
    rw [Nat.succ_add, quiet_succ, ih, quiet_succ, afterCycles_succ]
    simp only [and_assoc]

def withTime (m : Machine) (clock : Clock) (timers : Timers) : Machine :=
  (m.withTimers timers).withClock clock

theorem cycle_withTime {m : Machine} (clock : Clock) (timers : Timers)
    (h : Timeless m.cycle.trace) :
    (m.withTime clock timers).cycle = m.cycle.mapState (·.withTime clock timers) := by
  rw [withTime, cycle_withClock, cycle_withTimers timers h]
  rfl

theorem quiet_withTime {m : Machine} {n : Nat} (h : m.Quiet n) (clock : Clock) (timers : Timers) :
    (m.withTime clock timers).Quiet n := by
  induction n generalizing m with
  | zero => exact quiet_zero _
  | succ n ih =>
    obtain ⟨hr, htrace, hrest⟩ := quiet_succ.1 h
    rw [quiet_succ, cycle_withTime clock timers htrace]
    exact ⟨hr, htrace, ih hrest⟩

theorem quiet_of_withTime {m : Machine} {n : Nat} {clock : Clock} {timers : Timers}
    (h : (m.withTime clock timers).Quiet n) : m.Quiet n :=
  quiet_withTime h m.clock m.timers

theorem afterCycles_withTime {m : Machine} {n : Nat} (h : m.Quiet n) (clock : Clock)
    (timers : Timers) :
    (m.withTime clock timers).afterCycles n = (m.afterCycles n).withTime clock timers := by
  induction n generalizing m with
  | zero => rfl
  | succ n ih =>
    obtain ⟨-, htrace, hrest⟩ := quiet_succ.1 h
    rw [afterCycles_succ, afterCycles_succ, cycle_withTime clock timers htrace]
    exact ih hrest

theorem Quiet.timers_afterCycles {m : Machine} {n : Nat} (h : m.Quiet n) :
    (m.afterCycles n).timers = m.timers := by
  have hsame : m.afterCycles n = (m.afterCycles n).withTime m.clock m.timers :=
    afterCycles_withTime h m.clock m.timers
  rw [hsame]
  rfl

/-- The cycles that some time makes, with the time that was left over before. -/
def cyclesIn (m : Machine) (time : Nat) : Nat := (m.clock.pending + time) / m.clock.period

/-- The machine after the cycles that some time makes, with its clock and timers moved on. -/
def fed (m : Machine) (time : Nat) : Machine :=
  (m.afterCycles (m.cyclesIn time)).withTime
    { m.clock with pending := (m.clock.pending + time) % m.clock.period }
    (m.timers.advance time)

/-- A machine is ready for some time: it runs, none of the time is dropped, and its timers have
less than a tick left over. -/
structure Ready (m : Machine) (time : Nat) : Prop where
  fault : m.fault = none
  fits : m.clock.pending + time ≤ 20000 * m.clock.period
  ticking : m.timers.pending < timerPeriod

namespace Ready
variable {m : Machine} {time first second : Nat}

theorem budget_eq (h : m.Ready time) : m.budget time = m.clock.pending + time :=
  Nat.min_eq_left h.fits

theorem le_maxNanos (h : m.Ready time) : m.timers.pending + time ≤ maxNanos := by
  have hfits := h.fits
  have hticking := h.ticking
  have hperiod := m.clock.period_le
  have htick : timerPeriod ≤ nanosPerSecond := Nat.div_le_self _ _
  have hmax : 20001 * nanosPerSecond ≤ maxNanos := by decide
  omega

theorem update (h : m.Ready time) (hq : m.Quiet (m.cyclesIn time)) :
    (m.update time).result = .ok (m.cyclesIn time) ∧ (m.update time).state = m.fed time := by
  have hcount : m.budget time / m.clock.period = m.cyclesIn time :=
    congrArg (· / m.clock.period) h.budget_eq
  have hok : m.CyclesOk (m.budget time / m.clock.period) := hcount ▸ hq.ok
  obtain ⟨hresult, hstate⟩ := update_of_cyclesOk h.fault time hok
  rw [hcount] at hresult hstate
  rw [h.budget_eq, hq.timers_afterCycles] at hstate
  exact ⟨hresult, hstate⟩

theorem quiet_of_update (h : m.Ready time) {cycles : Nat}
    (hr : (m.update time).result = .ok cycles) (htrace : Timeless (m.update time).trace) :
    m.Quiet (m.cyclesIn time) := by
  have hcount : m.budget time / m.clock.period = m.cyclesIn time :=
    congrArg (· / m.clock.period) h.budget_eq
  rw [← hcount]
  rcases cyclesOk_or_fault m (m.budget time / m.clock.period) with hok | ⟨j, hj, e, hok, he⟩
  · rw [trace_update_of_cyclesOk h.fault time hok] at htrace
    exact ⟨hok, htrace⟩
  · cases hr.symm.trans (update_of_cycle_error h.fault hj hok he).1

theorem of_add (h : m.Ready (first + second)) : m.Ready first :=
  ⟨h.fault, Nat.le_trans (by omega) h.fits, h.ticking⟩

theorem fed (h : m.Ready (first + second)) (hq : m.Quiet (m.cyclesIn first)) :
    (m.fed first).Ready second where
  fault := hq.ok.unfaulted h.fault
  fits := by
    have hmod := Nat.mod_le (m.clock.pending + first) m.clock.period
    have hfits := h.fits
    change (m.clock.pending + first) % m.clock.period + second ≤ 20000 * m.clock.period
    omega
  ticking := m.timers.pending_advance_lt first

end Ready

theorem cyclesIn_add (m : Machine) (first second : Nat) :
    m.cyclesIn (first + second) = m.cyclesIn first + (m.fed first).cyclesIn second := by
  have h := div_add_mod_div (m.clock.pending + first) second m.clock.period_pos
  rw [Nat.add_assoc] at h
  exact h.symm

theorem quiet_fed_iff {m : Machine} {first second : Nat} :
    m.Quiet (m.cyclesIn (first + second)) ↔
      m.Quiet (m.cyclesIn first) ∧ (m.fed first).Quiet ((m.fed first).cyclesIn second) := by
  rw [cyclesIn_add, quiet_add]
  constructor
  · rintro ⟨hfirst, hsecond⟩
    exact ⟨hfirst, quiet_withTime hsecond _ _⟩
  · rintro ⟨hfirst, hsecond⟩
    exact ⟨hfirst, quiet_of_withTime hsecond⟩

theorem fed_zero {m : Machine} (h : m.clock.pending < m.clock.period)
    (ht : m.timers.pending < timerPeriod) : m.cyclesIn 0 = 0 ∧ m.fed 0 = m := by
  have hcycles : m.cyclesIn 0 = 0 := Nat.div_eq_of_lt h
  refine ⟨hcycles, ?_⟩
  simp only [fed, hcycles, Nat.add_zero, Nat.mod_eq_of_lt h, Timers.advance_zero ht]
  rfl

theorem fed_fed {m : Machine} {first second : Nat} (h : m.Ready (first + second))
    (hq : m.Quiet (m.cyclesIn (first + second))) :
    (m.fed first).fed second = m.fed (first + second) := by
  have hclock : ((m.clock.pending + first) % m.clock.period + second) % m.clock.period =
      (m.clock.pending + (first + second)) % m.clock.period := by
    rw [Nat.mod_add_mod, Nat.add_assoc]
  have hcycles := m.cyclesIn_add first second
  have hquiet : (m.afterCycles (m.cyclesIn first)).Quiet ((m.fed first).cyclesIn second) := by
    rw [hcycles] at hq
    exact (quiet_add.1 hq).2
  have hafter : (m.fed first).afterCycles ((m.fed first).cyclesIn second) =
      (m.afterCycles (m.cyclesIn (first + second))).withTime (m.fed first).clock
        (m.fed first).timers := by
    rw [hcycles, afterCycles_add]
    exact afterCycles_withTime hquiet _ _
  have htimers : (m.fed first).timers.advance second = m.timers.advance (first + second) :=
    Timers.advance_advance h.le_maxNanos
  rw [fed, hafter, htimers]
  simp only [fed, withTime, withClock, withTimers, hclock]

/-- Updates by some times, one after the other, all succeed: the cycles that they spend all
together, and the machine after them. -/
inductive Feeds : Machine → List Nat → Nat → Machine → Prop
  | nil (m : Machine) : Feeds m [] 0 m
  | cons {m n : Machine} {time cycles more : Nat} {times : List Nat} :
      (m.update time).result = .ok cycles → Feeds (m.update time).state times more n →
      Feeds m (time :: times) (cycles + more) n

theorem Feeds.unique {m n n' : Machine} {times : List Nat} {cycles cycles' : Nat}
    (h : Feeds m times cycles n) (h' : Feeds m times cycles' n') : cycles = cycles' ∧ n = n' := by
  induction h generalizing cycles' with
  | nil m =>
    cases h'
    exact ⟨rfl, rfl⟩
  | cons hr _ ih =>
    cases h' with
    | cons hr' hrest =>
      cases hr.symm.trans hr'
      obtain ⟨rfl, rfl⟩ := ih hrest
      exact ⟨rfl, rfl⟩

/-- Slices of a time that is quiet are fed like all of it at once. Without a slice no cycle is
spent, so there must not be a whole one pending. -/
theorem Quiet.feeds {m : Machine} {times : List Nat}
    (hnil : times = [] → m.clock.pending < m.clock.period) (h : m.Ready times.sum)
    (hq : m.Quiet (m.cyclesIn times.sum)) :
    Feeds m times (m.cyclesIn times.sum) (m.fed times.sum) := by
  induction times generalizing m with
  | nil =>
    obtain ⟨hcycles, hfed⟩ := fed_zero (hnil rfl) h.ticking
    rw [List.sum_nil, hcycles, hfed]
    exact .nil m
  | cons time times ih =>
    rw [List.sum_cons] at h hq ⊢
    obtain ⟨hfirst, hrest⟩ := quiet_fed_iff.1 hq
    obtain ⟨hresult, hstate⟩ := h.of_add.update hfirst
    have hpending : (m.fed time).clock.pending < (m.fed time).clock.period :=
      Nat.mod_lt _ m.clock.period_pos
    have htail := ih (fun _ => hpending) (h.fed hfirst) hrest
    rw [cyclesIn_add, ← fed_fed h hq]
    exact .cons hresult (hstate ▸ htail)

theorem Feeds.quiet {m n : Machine} {times : List Nat} {cycles : Nat}
    (hfeeds : Feeds m times cycles n) (hnil : times = [] → m.clock.pending < m.clock.period)
    (h : m.Ready times.sum) (htrace : Timeless (m.trace (times.map .update))) :
    m.Quiet (m.cyclesIn times.sum) := by
  induction hfeeds with
  | nil m =>
    rw [List.sum_nil, (fed_zero (hnil rfl) h.ticking).1]
    exact quiet_zero m
  | @cons m n time cycles more times hr _ ih =>
    rw [List.sum_cons] at h ⊢
    obtain ⟨hfirst, hrest⟩ := timeless_append.1 htrace
    have hq := h.of_add.quiet_of_update hr hfirst
    obtain ⟨-, hstate⟩ := h.of_add.update hq
    have hpending : (m.fed time).clock.pending < (m.fed time).clock.period :=
      Nat.mod_lt _ m.clock.period_pos
    rw [hstate] at ih
    refine quiet_fed_iff.2 ⟨hq, ih (fun _ => hpending) (h.fed hq) ?_⟩
    rw [← hstate]
    exact hrest

/-- Time may be fed in other slices with the same sum: if the first slices succeed, none of their
instructions reads or sets a timer and no backlog is dropped, then the other slices succeed, with
as many cycles all together and the same machine in the end. -/
theorem feeds_of_sum_eq {m n : Machine} (hm : m.Reachable) {first second : List Nat}
    {cycles : Nat} (hfirst : first ≠ []) (hsecond : second ≠ []) (hsum : second.sum = first.sum)
    (hfits : m.clock.pending + first.sum ≤ 20000 * m.clock.period)
    (hfeeds : Feeds m first cycles n)
    (htimers : ∀ execution ∈ m.trace (first.map .update), execution.2.usesTimers = false) :
    Feeds m second cycles n := by
  have hf : m.fault = none := by
    cases hfeeds with
    | nil m => exact absurd rfl hfirst
    | cons hr _ =>
      cases hf : m.fault with
      | none => rfl
      | some e =>
        rw [update_of_fault hf] at hr
        cases hr
  have hready : m.Ready first.sum := ⟨hf, hfits, hm.sound.ticking_lt⟩
  have hq : m.Quiet (m.cyclesIn first.sum) :=
    hfeeds.quiet (fun h => absurd h hfirst) hready htimers
  have hall : Feeds m first (m.cyclesIn first.sum) (m.fed first.sum) :=
    hq.feeds (fun h => absurd h hfirst) hready
  obtain ⟨rfl, rfl⟩ := hfeeds.unique hall
  rw [← hsum] at hready hq ⊢
  exact hq.feeds (fun h => absurd h hsecond) hready

/-- A loop of two instructions runs for six milliseconds in halves, and in two other slices. -/
theorem feeds_of_sum_eq_of_loop :
    let m := (new {} 0).performAll [.loadProgram [0x70, 0x01, 0x12, 0x00]]
    let first := [3000000, 3000000]
    let second := [1, 5999999]
    m.Reachable ∧ second.sum = first.sum ∧
      m.clock.pending + first.sum ≤ 20000 * m.clock.period ∧
      (∀ execution ∈ m.trace (first.map .update), execution.2.usesTimers = false) ∧
      ∃ n, Feeds m first 3 n ∧ Feeds m second 3 n := by
  intro m first second
  have hm : m.Reachable := ⟨_, _, _, _, rfl⟩
  have hsum : second.sum = first.sum := by decide
  have hfits : m.clock.pending + first.sum ≤ 20000 * m.clock.period := by decide +kernel
  have htimers : ∀ execution ∈ m.trace (first.map .update), execution.2.usesTimers = false := by
    decide +kernel
  have hr : (m.update 3000000).result = .ok 1 := by decide +kernel
  have hr' : ((m.update 3000000).state.update 3000000).result = .ok 2 := by decide +kernel
  have hfeeds : Feeds m first 3 _ := .cons hr (.cons hr' (.nil _))
  have hother : Feeds m second 3 _ :=
    feeds_of_sum_eq hm (by decide) (by decide) hsum hfits hfeeds htimers
  exact ⟨hm, hsum, hfits, htimers, _, hfeeds, hother⟩

end Machine
end Chip8
