/-! # Clocks

Time is counted in whole nanoseconds. The machine's clock turns elapsed time into cycles: time is
added up, and cycles are taken from it one period at a time. A backlog of more than 20000 cycles is
dropped, so that a machine that was held up goes on at its usual speed. A sum of times is cut at
the longest time that is told apart from longer ones; the cap on the backlog lies far below it.
-/
namespace Chip8

def nanosPerSecond : Nat := 1000000000

/-- The longest time that is told apart from longer ones, in nanoseconds. -/
def maxNanos : Nat := UInt64.size - 1

/-- A time and another one that passed, as far as that is told apart from longer times. -/
def addTime (pending elapsed : Nat) : Nat := min (pending + min elapsed maxNanos) maxNanos

theorem addTime_eq (pending elapsed : Nat) :
    addTime pending elapsed = min (pending + elapsed) maxNanos := by
  simp only [addTime]
  omega

/-- The whole periods in a time and a later one: what the first leaves over goes to the second. -/
theorem div_add_mod_div (first second : Nat) {period : Nat} (h : 0 < period) :
    first / period + (first % period + second) / period = (first + second) / period := by
  conv => rhs; rw [← Nat.div_add_mod first period, Nat.add_assoc]
  rw [Nat.mul_add_div h]

namespace Rate

def default : UInt64 := 500
def maximum : UInt64 := 1000000

/-- The nearest rate that the clock supports. -/
def clamp (hz : UInt64) : UInt64 := if hz < 1 then 1 else if maximum < hz then maximum else hz

theorem toNat_clamp (hz : UInt64) : (clamp hz).toNat = max 1 (min hz.toNat 1000000) := by
  simp only [clamp, maximum, UInt64.lt_iff_toNat_lt]
  split
  · rename_i h; simp at h ⊢; omega
  · split
    · rename_i h h'; simp at h h' ⊢; omega
    · rename_i h h'; simp at h h' ⊢; omega

theorem one_le_clamp (hz : UInt64) : 1 ≤ (clamp hz).toNat := by
  rw [toNat_clamp]
  omega

theorem clamp_le (hz : UInt64) : (clamp hz).toNat ≤ 1000000 := by
  rw [toNat_clamp]
  omega

theorem clamp_clamp (hz : UInt64) : clamp (clamp hz) = clamp hz := by
  rw [← UInt64.toNat_inj, toNat_clamp, toNat_clamp]
  omega

/-- The length of one cycle at the nearest supported rate. -/
def period (hz : UInt64) : Nat := nanosPerSecond / (clamp hz).toNat

theorem period_clamp (hz : UInt64) : period (clamp hz) = period hz := by
  rw [period, clamp_clamp, period]

theorem period_pos (hz : UInt64) : 0 < period hz :=
  Nat.div_pos (Nat.le_trans (clamp_le hz) (by decide)) (one_le_clamp hz)

theorem period_le (hz : UInt64) : period hz ≤ nanosPerSecond := Nat.div_le_self _ _

theorem period_ge (hz : UInt64) : 1000 ≤ period hz :=
  (Nat.le_div_iff_mul_le (one_le_clamp hz)).2 (Nat.mul_le_mul_left 1000 (clamp_le hz))

end Rate

/-- Cycles that may be caught up on at once. -/
def maxCyclesPerUpdate : Nat := 20000

structure Clock where
  period : Nat
  /-- The most time that can be pending after an advance. -/
  cap : Nat
  /-- Time that was not turned into cycles yet. -/
  pending : Nat
  period_pos : 0 < period
  period_le : period ≤ nanosPerSecond
  cap_eq : cap = period * maxCyclesPerUpdate
deriving DecidableEq

namespace Clock

def ofRate (hz : UInt64) : Clock where
  period := Rate.period hz
  cap := Rate.period hz * maxCyclesPerUpdate
  pending := 0
  period_pos := Rate.period_pos hz
  period_le := Rate.period_le hz
  cap_eq := rfl

/-- Go on at another rate. Pending time is kept and taken at the new rate. -/
def setRate (c : Clock) (hz : UInt64) : Clock := { ofRate hz with pending := c.pending }

def rate (c : Clock) : UInt64 := UInt64.ofNat (nanosPerSecond / c.period)

def advance (c : Clock) (elapsed : Nat) : Clock :=
  { c with pending := min (addTime c.pending elapsed) c.cap }

theorem cap_le_maxNanos (c : Clock) : c.cap ≤ maxNanos := by
  have h := c.period_le
  simp only [nanosPerSecond] at h
  rw [c.cap_eq]
  simp only [maxCyclesPerUpdate, maxNanos, UInt64.size]
  omega

/-- No time is lost but to the cap, however long it is. -/
theorem pending_advance (c : Clock) (elapsed : Nat) :
    (c.advance elapsed).pending = min (c.pending + elapsed) c.cap := by
  have h := c.cap_le_maxNanos
  simp only [advance, addTime_eq]
  omega

theorem pending_advance_le (c : Clock) (elapsed : Nat) : (c.advance elapsed).pending ≤ c.cap :=
  Nat.min_le_right _ _

/-- Whole cycles in the pending time. -/
def available (c : Clock) : Nat := c.pending / c.period

theorem available_advance_le (c : Clock) (elapsed : Nat) :
    (c.advance elapsed).available ≤ maxCyclesPerUpdate := by
  have h := c.pending_advance_le elapsed
  rw [c.cap_eq] at h
  exact Nat.div_le_of_le_mul h

def take (c : Clock) : Clock := { c with pending := c.pending - c.period }

def take? (c : Clock) : Option Clock := if c.period ≤ c.pending then some c.take else none

theorem take?_eq_some_iff {c d : Clock} : c.take? = some d ↔ c.period ≤ c.pending ∧ c.take = d := by
  simp [take?]

theorem take?_eq_none_iff {c : Clock} : c.take? = none ↔ c.pending < c.period := by
  simp [take?]

theorem period_of_take? {c d : Clock} (h : c.take? = some d) : d.period = c.period := by
  obtain ⟨-, rfl⟩ := take?_eq_some_iff.1 h
  rfl

theorem pending_lt_of_take? {c d : Clock} (h : c.take? = some d) : d.pending < c.pending := by
  obtain ⟨hle, rfl⟩ := take?_eq_some_iff.1 h
  have := c.period_pos
  simp only [take]
  omega

theorem available_take (c : Clock) : c.take.available = c.available - 1 := by
  have h := Nat.sub_mul_div c.pending c.period 1
  rwa [Nat.mul_one] at h

theorem take?_of_available {c : Clock} {n : Nat} (h : c.available = n + 1) :
    c.take? = some c.take := by
  refine take?_eq_some_iff.2 ⟨?_, rfl⟩
  have hpos : 0 < c.pending / c.period := by
    change 0 < c.available
    omega
  exact (Nat.div_pos_iff.1 hpos).2

theorem take?_of_available_zero {c : Clock} (h : c.available = 0) : c.take? = none :=
  take?_eq_none_iff.2 ((Nat.div_eq_zero_iff_lt c.period_pos).1 h)

def takeMany (c : Clock) (count : Nat) : Clock := { c with pending := c.pending - count * c.period }

@[simp] theorem takeMany_zero (c : Clock) : c.takeMany 0 = c := by
  simp [takeMany]

theorem takeMany_take (c : Clock) (count : Nat) :
    c.take.takeMany count = c.takeMany (count + 1) := by
  simp only [takeMany, take, Nat.sub_sub, Nat.succ_mul, Nat.add_comm]

/-- Take cycles until there are none, or `limit` were taken; the number taken. -/
def drain (c : Clock) (limit : Nat) : Clock × Nat :=
  let n := min limit c.available
  (c.takeMany n, n)

def reset (c : Clock) : Clock := { c with pending := 0 }

end Clock
end Chip8
