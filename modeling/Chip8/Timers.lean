import Chip8.Clock

/-! # Delay and sound timers

Two bytes that count down to zero sixty times a second of elapsed time, whatever the speed of the
machine. Time that does not make a whole tick is kept for the next advance.
-/
namespace Chip8

def timerFrequency : Nat := 60

def timerPeriod : Nat := nanosPerSecond / timerFrequency

structure Timers where
  delay : UInt8
  sound : UInt8
  /-- Time that does not make a tick yet. -/
  pending : Nat
deriving DecidableEq, Repr

namespace Timers

def stopped : Timers := ⟨0, 0, 0⟩

/-- A timer after some ticks; it stays at zero. -/
def countDown (timer : UInt8) (ticks : Nat) : UInt8 := UInt8.ofNat (timer.toNat - min ticks 255)

/-- Whole ticks in the pending and the elapsed time together. -/
def ticks (t : Timers) (elapsed : Nat) : Nat := addTime t.pending elapsed / timerPeriod

def advance (t : Timers) (elapsed : Nat) : Timers where
  delay := countDown t.delay (t.ticks elapsed)
  sound := countDown t.sound (t.ticks elapsed)
  pending := addTime t.pending elapsed % timerPeriod

theorem toNat_countDown (timer : UInt8) (ticks : Nat) :
    (countDown timer ticks).toNat = timer.toNat - min ticks 255 := by
  have h := timer.toNat_lt
  rw [countDown, UInt8.toNat_ofNat']
  omega

/-- No tick is lost where a timer counts down twice, though each time by 255 ticks at most. -/
theorem countDown_countDown (timer : UInt8) (first second : Nat) :
    countDown (countDown timer first) second = countDown timer (first + second) := by
  have h := timer.toNat_lt
  apply UInt8.toNat_inj.1
  simp only [toNat_countDown]
  omega

theorem advance_zero {t : Timers} (h : t.pending < timerPeriod) : t.advance 0 = t := by
  have htime : addTime t.pending 0 = t.pending := by
    have hperiod : timerPeriod ≤ maxNanos := by decide
    rw [addTime_eq]
    omega
  have hticks : t.ticks 0 = 0 := by rw [ticks, htime, Nat.div_eq_of_lt h]
  have hdelay : countDown t.delay 0 = t.delay := UInt8.toNat_inj.1 (toNat_countDown t.delay 0)
  have hsound : countDown t.sound 0 = t.sound := UInt8.toNat_inj.1 (toNat_countDown t.sound 0)
  simp only [advance, htime, hticks, hdelay, hsound, Nat.mod_eq_of_lt h]

/-- Timers advance by parts of a time as by all of it, where the sum is not cut. -/
theorem advance_advance {t : Timers} {first second : Nat}
    (h : t.pending + (first + second) ≤ maxNanos) :
    (t.advance first).advance second = t.advance (first + second) := by
  have hperiod : 0 < timerPeriod := by decide
  have hmod := Nat.mod_le (t.pending + first) timerPeriod
  have hfirst : addTime t.pending first = t.pending + first := by rw [addTime_eq]; omega
  have hboth : addTime t.pending (first + second) = t.pending + first + second := by
    rw [addTime_eq]
    omega
  have hsecond : addTime ((t.pending + first) % timerPeriod) second =
      (t.pending + first) % timerPeriod + second := by
    rw [addTime_eq]
    omega
  simp only [advance, ticks, hfirst, hsecond, hboth, countDown_countDown,
    div_add_mod_div (t.pending + first) second hperiod, Nat.mod_add_mod]

theorem pending_advance_lt (t : Timers) (elapsed : Nat) :
    (t.advance elapsed).pending < timerPeriod :=
  Nat.mod_lt _ (by decide)

end Timers
end Chip8
