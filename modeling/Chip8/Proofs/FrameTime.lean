import Chip8.Proofs.Frames
import Chip8.Proofs.Moments
import Mathlib.Algebra.Ring.Nat
import Mathlib.Tactic.Common

/-! # The time of frames

Frames lose no time. Even at the highest rate a frame and what is left over before it are less than
the backlog that the clock keeps, so that in a run of frames the cycles are those of all its time.
A frame takes exactly one tick of the timers.
-/
namespace Chip8

theorem Timers.advance_tick {t : Timers} (h : t.pending = 0) :
    (t.advance timerPeriod).pending = 0 ∧
    (t.advance timerPeriod).delay.toNat = t.delay.toNat - 1 ∧
    (t.advance timerPeriod).sound.toNat = t.sound.toNat - 1 := by
  have htime : addTime t.pending timerPeriod = timerPeriod := by
    rw [h]
    decide
  have hticks : t.ticks timerPeriod = 1 := by
    rw [ticks, htime]
    decide
  refine ⟨?_, ?_, ?_⟩
  · rw [advance, htime]
    exact Nat.mod_self timerPeriod
  · rw [advance, hticks]
    exact toNat_countDown t.delay 1
  · rw [advance, hticks]
    exact toNat_countDown t.sound 1

namespace Machine

theorem ticking_executeNext (m : Machine) :
    m.executeNext.state.timers.pending = m.timers.pending := by
  cases hr : m.nextEffect.result with
  | error e => rw [(executeNext_of_error hr).2]
  | ok p =>
    rw [(executeNext_of_ok hr).2]
    exact m.nextEffect_sameAround.ticking

theorem ticking_cycle (m : Machine) : m.cycle.state.timers.pending = m.timers.pending := by
  cases hx : m.awaiting with
  | some x => rw [cycle_of_awaiting hx]
  | none =>
    by_cases ho : 0 < m.owed
    · rw [cycle_of_owed hx ho]
    · rw [cycle_of_paid hx ho]
      cases hf : m.fault with
      | some e => rw [step_of_fault hf]; rfl
      | none =>
        rw [step_of_running hf hx]
        exact m.ticking_executeNext

theorem ticking_afterCycles (m : Machine) (n : Nat) :
    (m.afterCycles n).timers.pending = m.timers.pending := by
  induction n with
  | zero => rfl
  | succ n ih =>
    rw [afterCycles_succ', ticking_cycle]
    exact ih

theorem time_of_update_ok {m : Machine} {elapsed n : Nat}
    (h : (m.update elapsed).result = .ok n) :
    n = m.budget elapsed / m.clock.period ∧
    (m.update elapsed).state.clock.period = m.clock.period ∧
    (m.update elapsed).state.clock.pending = m.budget elapsed % m.clock.period ∧
    (m.update elapsed).state.timers = (m.afterCycles n).timers.advance elapsed := by
  cases hf : m.fault with
  | some e =>
    rw [update_of_fault hf] at h
    cases h
  | none =>
    rcases cyclesOk_or_fault m (m.budget elapsed / m.clock.period) with hok | ⟨j, hj, e, hok, he⟩
    · obtain ⟨hr, hstate⟩ := update_of_cyclesOk hf elapsed hok
      cases h.symm.trans hr
      rw [hstate]
      exact ⟨rfl, rfl, rfl, rfl⟩
    · cases h.symm.trans (update_of_cycle_error hf hj hok he).1

end Machine

namespace Player

/-- The cycles that the next frame spends, if it succeeds. -/
def frameCycles (p : Player) : Nat :=
  match (p.deliver.machine.update framePeriod).result with
  | .ok cycles => cycles
  | .error _ => 0

/-- A machine after a number of frames: its clock has the remainder of their time pending, and its
timers have nothing left over. -/
structure OnTime (m : Machine) (period frames : Nat) : Prop where
  period_eq : m.clock.period = period
  pending_eq : m.clock.pending = frames * framePeriod % period
  ticking_eq : m.timers.pending = 0

variable {p : Player} {period k : Nat}

theorem result_update_of_frame_ok (h : p.frame.result = .ok ()) :
    (p.deliver.machine.update framePeriod).result = .ok p.frameCycles := by
  rw [result_frame] at h
  rw [frameCycles]
  cases hr : (p.deliver.machine.update framePeriod).result with
  | error e =>
    rw [hr] at h
    cases h
  | ok n => rfl

theorem OnTime.deliver (h : OnTime p.machine period k) : OnTime p.deliver.machine period k where
  period_eq := p.clock_deliver ▸ h.period_eq
  pending_eq := p.clock_deliver ▸ h.pending_eq
  ticking_eq := deliver_invariant (P := fun m => m.timers.pending = 0)
    (fun m key hm => by rw [Machine.pressKey_frame]; exact hm) (fun _ _ hm => hm) h.ticking_eq

/-- There is always room for a frame in the backlog. -/
theorem OnTime.fits {m : Machine} (h : OnTime m period k) (hlong : 1000 ≤ period) :
    m.clock.pending + framePeriod < 20000 * period := by
  have hmod : k * framePeriod % period < period := Nat.mod_lt _ (by omega)
  have hframe : framePeriod < 16666667 := by decide
  rw [h.pending_eq]
  omega

theorem OnTime.update {m : Machine} (h : OnTime m period k) (hlong : 1000 ≤ period) {n : Nat}
    (hr : (m.update framePeriod).result = .ok n) :
    n = (k * framePeriod % period + framePeriod) / period ∧
    OnTime (m.update framePeriod).state period (k + 1) ∧
    (m.update framePeriod).state.timers = (m.afterCycles n).timers.advance timerPeriod := by
  have hbudget : m.budget framePeriod = k * framePeriod % period + framePeriod := by
    have hfits : m.clock.pending + framePeriod ≤ maxCyclesPerUpdate * period :=
      Nat.le_of_lt (h.fits hlong)
    rw [Machine.budget, h.period_eq, Nat.min_eq_left hfits, h.pending_eq]
  obtain ⟨hn, hperiod, hpending, htimers⟩ := Machine.time_of_update_ok hr
  have hticking : (m.afterCycles n).timers.pending = 0 :=
    (m.ticking_afterCycles n).trans h.ticking_eq
  rw [hbudget, h.period_eq] at hn hpending
  refine ⟨hn, ⟨hperiod.trans h.period_eq, ?_, ?_⟩, htimers⟩
  · rw [hpending, Nat.mod_add_mod, Nat.add_one_mul]
  · rw [htimers]
    exact (Timers.advance_tick hticking).1

/-- A frame that succeeds keeps a player on time. -/
theorem OnTime.frame (h : OnTime p.machine period k) (hlong : 1000 ≤ period)
    (hok : p.frame.result = .ok ()) : OnTime p.frame.state.machine period (k + 1) := by
  rw [machine_frame]
  exact (h.deliver.update hlong (result_update_of_frame_ok hok)).2.1

theorem OnTime.afterFrames (h : OnTime p.machine period 0) (hlong : 1000 ≤ period)
    (hok : ∀ j < k, (p.afterFrames j).frame.result = .ok ()) :
    OnTime (p.afterFrames k).machine period k := by
  induction k with
  | zero => exact h
  | succ k ih =>
    rw [afterFrames_succ]
    exact (ih fun j hj => hok j (Nat.lt_succ_of_lt hj)).frame hlong (hok k (Nat.lt_succ_self k))

/-- The cycles of a number of frames are those of all their time together. -/
theorem sum_frameCycles (h : OnTime p.machine period 0) (hlong : 1000 ≤ period)
    (hok : ∀ j < k, (p.afterFrames j).frame.result = .ok ()) :
    ((List.range k).map fun j => (p.afterFrames j).frameCycles).sum = k * framePeriod / period := by
  induction k with
  | zero => simp
  | succ k ih =>
    have hbefore : ∀ j < k, (p.afterFrames j).frame.result = .ok () :=
      fun j hj => hok j (Nat.lt_succ_of_lt hj)
    have hlast := (h.afterFrames hlong hbefore).deliver.update hlong
      (result_update_of_frame_ok (hok k (Nat.lt_succ_self k)))
    rw [List.range_succ, List.map_append, List.sum_append, ih hbefore, List.map_singleton,
      List.sum_singleton, hlast.1, div_add_mod_div _ _ (by omega), Nat.add_one_mul]

theorem onTime_setUp (preferences : Preferences) (settings : Settings)
    (entropy : Random.Key) (generator : Random.Generator)
    (program : List UInt8) (script : Script) :
    let p := setUp preferences settings entropy generator program script
    OnTime p.machine p.machine.clock.period 0 ∧ 1000 ≤ p.machine.clock.period := by
  refine ⟨⟨rfl, ?_, rfl⟩, Rate.period_ge _⟩
  rw [Nat.zero_mul, Nat.zero_mod]
  rfl

/-- A player loses no time over frames that succeed: its cycles are all that the time of the frames
holds, with the remainder pending, and a frame never comes near the backlog that the clock keeps.
The timers have nothing left over after a frame, which takes one from each that is on after its
cycles. -/
theorem frames_lose_no_time (preferences : Preferences) (settings : Settings)
    (entropy : Random.Key) (generator : Random.Generator)
    (program : List UInt8) (script : Script) {k : Nat}
    (hok : ∀ j < k, ((setUp preferences settings entropy generator program script).afterFrames
      j).frame.result = .ok ()) :
    let p := setUp preferences settings entropy generator program script
    let period := p.machine.clock.period
    let n := p.afterFrames k
    ((List.range k).map fun j => (p.afterFrames j).frameCycles).sum = k * 16666666 / period ∧
    n.machine.clock.period = period ∧
    n.machine.clock.pending = k * 16666666 % period ∧
    n.elapsed = k * 16666666 ∧
    n.machine.timers.pending = 0 ∧
    ∀ j < k,
      let before := (p.afterFrames j).deliver.machine
      let cycles := (p.afterFrames j).frameCycles
      let after := (p.afterFrames (j + 1)).machine
      before.clock.pending + 16666666 < 20000 * period ∧
      (before.update 16666666).result = .ok cycles ∧
      after.timers.pending = 0 ∧
      after.timers.delay.toNat = (before.afterCycles cycles).timers.delay.toNat - 1 ∧
      after.timers.sound.toNat = (before.afterCycles cycles).timers.sound.toNat - 1 := by
  intro p period n
  have hframe : framePeriod = 16666666 := by decide
  obtain ⟨hstart, hlong⟩ := onTime_setUp preferences settings entropy generator program script
  have hn : OnTime n.machine period k := hstart.afterFrames hlong hok
  have hsum := sum_frameCycles hstart hlong hok
  have helapsed : n.elapsed = 0 + k * framePeriod := elapsed_afterFrames hok
  have hpending := hn.pending_eq
  rw [hframe] at hsum hpending helapsed
  refine ⟨hsum, hn.period_eq, hpending, helapsed.trans (Nat.zero_add _), hn.ticking_eq, ?_⟩
  intro j hj before cycles after
  have hfirst : ∀ i < j, (p.afterFrames i).frame.result = .ok () :=
    fun i hi => hok i (Nat.lt_trans hi hj)
  have hbefore : OnTime before period j := (hstart.afterFrames hlong hfirst).deliver
  have hresult : (before.update framePeriod).result = .ok cycles :=
    result_update_of_frame_ok (hok j hj)
  obtain ⟨-, hafter, htimers⟩ := hbefore.update hlong hresult
  have hmachine : after = (before.update framePeriod).state :=
    (congrArg Player.machine (afterFrames_succ p j)).trans (machine_frame _)
  have hticking : (before.afterCycles cycles).timers.pending = 0 :=
    (before.ticking_afterCycles cycles).trans hbefore.ticking_eq
  obtain ⟨hzero, hdelay, hsound⟩ := Timers.advance_tick hticking
  rw [← htimers, ← hmachine] at hzero hdelay hsound
  have hfits := hbefore.fits hlong
  rw [hframe] at hfits hresult
  exact ⟨hfits, hresult, hzero, hdelay, hsound⟩

/-- Three frames of a little more than two cycles each, of a program that sets the delay timer. -/
theorem frames_lose_no_time_of_three :
    let p := setUp {} { rate := 130 } 0 .chaCha [0x60, 0x09, 0xF0, 0x15, 0x12, 0x04] .empty
    (∀ j < 3, (p.afterFrames j).frame.result = .ok ()) ∧
      ((List.range 3).map fun j => (p.afterFrames j).frameCycles).sum = 6 ∧
      (p.afterFrames 3).machine.clock.pending = 3846156 := by
  intro p
  have hok : ∀ j < 3, (p.afterFrames j).frame.result = .ok () := by decide +kernel
  have hperiod : p.machine.clock.period = 7692307 := by decide +kernel
  obtain ⟨hsum, -, hpending, -⟩ := frames_lose_no_time {} { rate := 130 } 0 .chaCha
    [0x60, 0x09, 0xF0, 0x15, 0x12, 0x04] .empty hok
  rw [hperiod] at hsum hpending
  exact ⟨hok, hsum, hpending⟩

end Player
end Chip8
