import Chip8.Clock
import Mathlib.Order.Bounds.Basic

/-! # Rates and periods

A rate has a period of whole nanoseconds, and a period has a rate of whole cycles; both are rounded
down. So the rate of a clock need not be the one that it was set to. It is the highest of all that
have the period of the clock, so that to set the clock to it changes nothing; and a rate so low that
none above it has its period is the rate of its clock.
-/
namespace Chip8

/-- Of all divisors with one quotient the greatest is the quotient by that quotient. -/
theorem isGreatest_div_div {total rate : Nat} (hrate : 0 < rate) (hle : rate ≤ total) :
    IsGreatest {f : Nat | total / f = total / rate} (total / (total / rate)) := by
  have hperiod : 0 < total / rate := Nat.div_pos hle hrate
  have hbound : ∀ f, total / f = total / rate → f ≤ total / (total / rate) := by
    intro f hf
    rw [Nat.le_div_iff_mul_le hperiod, ← hf]
    exact Nat.mul_div_le total f
  have hback : rate ≤ total / (total / rate) := hbound rate rfl
  refine ⟨Nat.le_antisymm (Nat.div_le_div_left hback hrate) ?_, hbound⟩
  rw [Nat.le_div_iff_mul_le (Nat.lt_of_lt_of_le hrate hback)]
  exact Nat.mul_div_le total (total / rate)

theorem div_div_eq_self {total rate : Nat} (hrate : 0 < rate) (hsquare : rate * rate ≤ total) :
    total / (total / rate) = rate := by
  have hle : rate ≤ total / rate := (Nat.le_div_iff_mul_le hrate).2 hsquare
  have hperiod : 0 < total / rate := Nat.lt_of_lt_of_le hrate hle
  apply Nat.le_antisymm
  · rw [← Nat.lt_succ_iff, Nat.div_lt_iff_lt_mul hperiod]
    calc total
        < rate * (total / rate + 1) := Nat.lt_mul_div_succ total hrate
      _ = rate * (total / rate) + rate := Nat.mul_succ _ _
      _ ≤ rate * (total / rate) + total / rate := Nat.add_le_add_left hle _
      _ = (rate + 1) * (total / rate) := (Nat.succ_mul _ _).symm
  · exact (Nat.le_div_iff_mul_le hperiod).2 (Nat.mul_div_le total rate)

namespace Rate

theorem period_mul_le (hz : UInt64) : period hz * (clamp hz).toNat ≤ nanosPerSecond :=
  Nat.div_mul_le_self _ _

theorem lt_succ_period_mul (hz : UInt64) : nanosPerSecond < (period hz + 1) * (clamp hz).toNat := by
  rw [Nat.mul_comm]
  exact Nat.lt_mul_div_succ _ (one_le_clamp hz)

theorem period_antitone {hz hz' : UInt64} (h : hz ≤ hz') : period hz' ≤ period hz := by
  have hclamp : (clamp hz).toNat ≤ (clamp hz').toNat := by
    rw [UInt64.le_iff_toNat_le] at h
    rw [toNat_clamp, toNat_clamp]
    omega
  exact Nat.div_le_div_left hclamp (one_le_clamp hz)

end Rate

namespace Clock

theorem eq_of_period {c d : Clock} (hperiod : c.period = d.period)
    (hpending : c.pending = d.pending) : c = d := by
  have hcap : c.cap = d.cap := by rw [c.cap_eq, d.cap_eq, hperiod]
  obtain ⟨⟩ := c
  obtain ⟨⟩ := d
  subst hperiod hpending hcap
  rfl

theorem toNat_rate (c : Clock) : c.rate.toNat = nanosPerSecond / c.period := by
  have hle : nanosPerSecond / c.period ≤ nanosPerSecond := Nat.div_le_self _ _
  rw [rate, UInt64.toNat_ofNat_of_lt']
  exact Nat.lt_of_le_of_lt hle (by decide)

theorem period_setRate (c : Clock) (hz : UInt64) : (c.setRate hz).period = Rate.period hz := rfl

/-- The rate of a clock is the greatest that has its period. -/
theorem isGreatest_rate (c : Clock) (hz : UInt64) :
    IsGreatest {f : Nat | nanosPerSecond / f = Rate.period hz} (c.setRate hz).rate.toNat := by
  rw [toNat_rate, period_setRate]
  exact isGreatest_div_div (Rate.one_le_clamp hz)
    (Nat.le_trans (Rate.clamp_le hz) (by decide))

theorem rate_setRate_le (c : Clock) (hz : UInt64) : (c.setRate hz).rate.toNat ≤ 1000000 := by
  rw [toNat_rate, period_setRate]
  exact Nat.div_le_div_left (Rate.period_ge hz) (by decide)

theorem clamp_le_rate_setRate (c : Clock) (hz : UInt64) :
    (Rate.clamp hz).toNat ≤ (c.setRate hz).rate.toNat :=
  (c.isGreatest_rate hz).2 rfl

theorem period_rate_setRate (c : Clock) (hz : UInt64) :
    Rate.period (c.setRate hz).rate = Rate.period hz := by
  have hlow := Nat.le_trans (Rate.one_le_clamp hz) (c.clamp_le_rate_setRate hz)
  have hhigh := c.rate_setRate_le hz
  have hclamp : (Rate.clamp (c.setRate hz).rate).toNat = (c.setRate hz).rate.toNat := by
    rw [Rate.toNat_clamp]
    omega
  rw [Rate.period, hclamp]
  exact (c.isGreatest_rate hz).1

theorem setRate_rate_setRate (c : Clock) (hz : UInt64) :
    (c.setRate hz).setRate (c.setRate hz).rate = c.setRate hz :=
  eq_of_period (c.period_rate_setRate hz) rfl

theorem rate_setRate_eq_clamp (c : Clock) {hz : UInt64} (h : (Rate.clamp hz).toNat ≤ 31622) :
    (c.setRate hz).rate.toNat = (Rate.clamp hz).toNat := by
  have hsquare : (Rate.clamp hz).toNat * (Rate.clamp hz).toNat ≤ nanosPerSecond :=
    Nat.le_trans (Nat.mul_le_mul h h) (by decide)
  rw [toNat_rate, period_setRate]
  exact div_div_eq_self (Rate.one_le_clamp hz) hsquare

/-- The period of a clock that is set to a rate is that of the nearest rate the clock supports, and
the higher the rate, the shorter. The rate of the clock is the greatest with its period; it lies
between the one that was set, as far as that is supported, and the highest. To set the clock to it
changes nothing, and up to a rate of 31622 it is the one that was set. A new clock is one that was
set to its rate. -/
theorem rates_have_periods :
    (∀ (start : Clock) (hz : UInt64),
      let supported := max 1 (min hz.toNat 1000000)
      let c := start.setRate hz
      c.period * supported ≤ nanosPerSecond ∧ nanosPerSecond < (c.period + 1) * supported ∧
      1000 ≤ c.period ∧ c.period ≤ nanosPerSecond ∧
      IsGreatest {f : Nat | nanosPerSecond / f = c.period} c.rate.toNat ∧
      (∀ hz', Rate.period hz' = c.period → (Rate.clamp hz').toNat ≤ c.rate.toNat) ∧
      supported ≤ c.rate.toNat ∧ c.rate.toNat ≤ 1000000 ∧
      c.setRate c.rate = c ∧
      (supported ≤ 31622 → c.rate.toNat = supported) ∧
      ∀ hz', hz ≤ hz' → (start.setRate hz').period ≤ c.period) ∧
    ∀ hz, (ofRate hz).setRate hz = ofRate hz := by
  refine ⟨fun start hz => ?_, fun hz => rfl⟩
  rw [← Rate.toNat_clamp]
  exact ⟨Rate.period_mul_le hz, Rate.lt_succ_period_mul hz, Rate.period_ge hz, Rate.period_le hz,
    start.isGreatest_rate hz, fun hz' h => (start.isGreatest_rate hz).2 h,
    start.clamp_le_rate_setRate hz, start.rate_setRate_le hz, start.setRate_rate_setRate hz,
    start.rate_setRate_eq_clamp, fun hz' h => Rate.period_antitone h⟩

/-- At the rate of the COSMAC VIP a clock has another rate than the one that was set, with the same
period; at 31622 cycles in a second it has that rate. -/
theorem rates_have_periods_of_cosmac :
    let c := (ofRate 500).setRate 220113
    let d := c.setRate 31622
    c.rate = 220118 ∧ Rate.period 220118 = c.period ∧ (Rate.clamp 220118).toNat ≤ c.rate.toNat ∧
      c.setRate c.rate = c ∧
      (220113 : UInt64) ≤ 220200 ∧ ((ofRate 500).setRate 220200).period ≤ c.period ∧
      max 1 (min (31622 : UInt64).toNat 1000000) ≤ 31622 ∧
      d.rate.toNat = max 1 (min (31622 : UInt64).toNat 1000000) := by
  intro c d
  obtain ⟨hclocks, -⟩ := rates_have_periods
  obtain ⟨-, -, -, -, -, hgreatest, -, -, hself, -, hantitone⟩ := hclocks (ofRate 500) 220113
  obtain ⟨-, -, -, -, -, -, -, -, -, hexact, -⟩ := hclocks c 31622
  have hperiod : Rate.period 220118 = c.period := by decide
  have hle : (220113 : UInt64) ≤ 220200 := by decide
  have hlow : max 1 (min (31622 : UInt64).toNat 1000000) ≤ 31622 := by decide
  exact ⟨by decide, hperiod, hgreatest 220118 hperiod, hself, hle, hantitone 220200 hle, hlow,
    hexact hlow⟩

end Clock
end Chip8
