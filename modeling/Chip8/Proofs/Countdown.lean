import Chip8.Proofs.Coherence
import Mathlib.Algebra.Ring.Nat

/-! # Timers and elapsed time

The timers count whole ticks of all the time that updates were given, from the part of a tick that
was left over before. A sum of times may be cut and a timer counts down by 255 ticks at most, but
only where both timers reach zero anyway. What a program does, and how fast, makes no difference as
long as it does not set a timer.
-/
namespace Chip8

namespace Timers

/-- What becomes of timers in some time: they count its ticks, and the rest of it is kept unless
the timers have long run out. -/
structure After (t : Timers) (time : Nat) (u : Timers) : Prop where
  delay : u.delay.toNat = t.delay.toNat - (t.pending + time) / timerPeriod
  sound : u.sound.toNat = t.sound.toNat - (t.pending + time) / timerPeriod
  pending : u.pending = (t.pending + time) % timerPeriod ∨ 255 ≤ (t.pending + time) / timerPeriod

theorem after_zero {t : Timers} (h : t.pending < timerPeriod) : After t 0 t := by
  have hticks : (t.pending + 0) / timerPeriod = 0 := Nat.div_eq_of_lt h
  refine ⟨?_, ?_, Or.inl (Nat.mod_eq_of_lt h).symm⟩
  · rw [hticks, Nat.sub_zero]
  · rw [hticks, Nat.sub_zero]

/-- The ticks of an advance add up with those before it to those of the whole time. Where a time is
cut, both are more than a timer holds. -/
theorem After.ticks {t u : Timers} {time : Nat} (h : After t time u) (elapsed : Nat) :
    (t.pending + time) / timerPeriod + u.ticks elapsed =
          (t.pending + (time + elapsed)) / timerPeriod ∧
        (u.advance elapsed).pending = (t.pending + (time + elapsed)) % timerPeriod ∨
      255 ≤ (t.pending + time) / timerPeriod + u.ticks elapsed ∧
        255 ≤ (t.pending + (time + elapsed)) / timerPeriod := by
  have hperiod : 0 < timerPeriod := by decide
  have hlong : 255 ≤ maxNanos / timerPeriod := by decide
  have hmono : (t.pending + time) / timerPeriod ≤ (t.pending + (time + elapsed)) / timerPeriod :=
    Nat.div_le_div_right (by omega)
  rcases h.pending with hpending | hout
  · by_cases hcut : u.pending + elapsed ≤ maxNanos
    · have htime : addTime u.pending elapsed = (t.pending + time) % timerPeriod + elapsed := by
        rw [addTime_eq, Nat.min_eq_left hcut, hpending]
      left
      rw [Timers.ticks, Timers.advance, htime, div_add_mod_div _ _ hperiod, Nat.mod_add_mod,
        Nat.add_assoc]
      exact ⟨rfl, rfl⟩
    · have htime : addTime u.pending elapsed = maxNanos := by
        rw [addTime_eq]
        omega
      have hmod := Nat.mod_le (t.pending + time) timerPeriod
      have hall : maxNanos / timerPeriod ≤ (t.pending + (time + elapsed)) / timerPeriod :=
        Nat.div_le_div_right (by omega)
      right
      rw [Timers.ticks, htime]
      exact ⟨Nat.le_trans hlong (Nat.le_add_left _ _), Nat.le_trans hlong hall⟩
  · right
    exact ⟨Nat.le_trans hout (Nat.le_add_right _ _), Nat.le_trans hout hmono⟩

theorem toNat_countDown_of_ticks {timer start : UInt8} {before ticks after : Nat}
    (h : timer.toNat = start.toNat - before)
    (hticks : before + ticks = after ∨ 255 ≤ before + ticks ∧ 255 ≤ after) :
    (countDown timer ticks).toNat = start.toNat - after := by
  have hstart := start.toNat_lt
  rw [toNat_countDown]
  omega

theorem After.advance {t u : Timers} {time : Nat} (h : After t time u) (elapsed : Nat) :
    After t (time + elapsed) (u.advance elapsed) := by
  have hticks := (h.ticks elapsed).imp And.left id
  refine ⟨toNat_countDown_of_ticks h.delay hticks, toNat_countDown_of_ticks h.sound hticks, ?_⟩
  exact (h.ticks elapsed).imp And.right And.right

theorem on_iff {timer start : UInt8} {time : Nat}
    (h : timer.toNat = start.toNat - time / timerPeriod) :
    timer ≠ 0 ↔ time < start.toNat * timerPeriod := by
  have hperiod : 0 < timerPeriod := by decide
  rw [← Nat.div_lt_iff_lt_mul hperiod, Ne, ← UInt8.toNat_inj, h, UInt8.toNat_zero]
  omega

end Timers

def Instruction.setsTimer : Instruction → Bool
  | .setDelay _ | .setSound _ => true
  | _ => false

def SetsNoTimer (executions : List Execution) : Prop :=
  ∀ execution ∈ executions, execution.2.setsTimer = false

theorem setsNoTimer_append {before after : List Execution} :
    SetsNoTimer (before ++ after) ↔ SetsNoTimer before ∧ SetsNoTimer after := List.forall_mem_append

def Operation.elapsed : Operation → Nat
  | .update elapsed => elapsed
  | _ => 0

namespace Machine

/-- Every update of a session succeeds, at the moment that it is made. -/
def UpdatesSucceed (m : Machine) : List Operation → Prop
  | [] => True
  | .update elapsed :: rest =>
    (∃ cycles, (m.update elapsed).result = .ok cycles) ∧
      (m.update elapsed).state.UpdatesSucceed rest
  | operation :: rest => (m.perform operation).state.UpdatesSucceed rest

theorem timers_execute (m : Machine) (pc : UInt16) {i : Instruction} (hi : i.setsTimer = false) :
    (m.execute pc i).machine.timers = m.timers := by
  generalize hn : (m.execute pc i).machine = n
  cases i with
  | setDelay x => cases hi
  | setSound x => cases hi
  | ret | call =>
    simp only [execute] at hn
    split at hn <;> exact hn ▸ rfl
  | _ =>
    simp only [execute, draw, effect] at hn
    exact hn ▸ rfl

theorem timers_executeNext {m : Machine} (hi : m.nextInstruction.setsTimer = false) :
    m.executeNext.state.timers = m.timers := by
  have h : m.nextEffect.machine.timers = m.timers :=
    timers_execute (m.mapCpu Cpu.advance) m.cpu.pc hi
  cases hr : m.nextEffect.result with
  | error e => rw [(executeNext_of_error hr).2]
  | ok p => rw [(executeNext_of_ok hr).2, ← h]

/-- As long as no instruction sets them, the timers are what they were. -/
def KeepsTimers (m : Machine) (executions : List Execution) (n : Machine) : Prop :=
  SetsNoTimer executions → n.timers = m.timers

theorem KeepsTimers.trans {m n o : Machine} {before after : List Execution}
    (h : m.KeepsTimers before n) (h' : n.KeepsTimers after o) :
    m.KeepsTimers (before ++ after) o := by
  intro hnone
  obtain ⟨hbefore, hafter⟩ := setsNoTimer_append.1 hnone
  exact (h' hafter).trans (h hbefore)

theorem keepsTimers_step (m : Machine) : m.KeepsTimers m.step.trace m.step.state := by
  intro hnone
  cases hf : m.fault with
  | some e => rw [step_of_fault hf]
  | none =>
    cases hx : m.awaiting with
    | some x => rw [step_of_awaiting hf hx]
    | none =>
      rw [step_of_running hf hx] at hnone ⊢
      rw [trace_executeNext] at hnone
      exact timers_executeNext (hnone _ (List.mem_singleton_self _))

theorem keepsTimers_cycle (m : Machine) : m.KeepsTimers m.cycle.trace m.cycle.state := by
  cases hx : m.awaiting with
  | some x =>
    rw [cycle_of_awaiting hx]
    exact fun _ => rfl
  | none =>
    by_cases ho : 0 < m.owed
    · rw [cycle_of_owed hx ho]
      exact fun _ => rfl
    · rw [cycle_of_paid hx ho]
      exact m.keepsTimers_step

theorem timers_runSteps {m : Machine} {count : Nat} (h : SetsNoTimer (m.runSteps count).trace) :
    (m.runSteps count).state.timers = m.timers :=
  runSteps_rel (R := KeepsTimers) (fun _ _ => rfl) KeepsTimers.trans keepsTimers_step m count h

theorem timers_update {m : Machine} {elapsed cycles : Nat}
    (hr : (m.update elapsed).result = .ok cycles) (h : SetsNoTimer (m.update elapsed).trace) :
    (m.update elapsed).state.timers = m.timers.advance elapsed := by
  cases hf : m.fault with
  | some e =>
    rw [update_of_fault hf] at hr
    cases hr
  | none =>
    obtain ⟨later, hn, hrel⟩ := spend_rel (R := KeepsTimers) (fun _ _ => rfl) KeepsTimers.trans
      (fun _ _ _ _ => rfl) keepsTimers_cycle (m.withClock (m.clock.advance elapsed)) 0 []
    rw [List.append_nil] at hn
    cases hs : ((m.withClock (m.clock.advance elapsed)).spend 0 []).result with
    | error e =>
      rw [update_of_spend_error hf hs] at hr
      cases hr
    | ok n =>
      rw [update_of_spend_ok hf hs, Outcome.trace, hn] at h
      rw [update_of_spend_ok hf hs]
      exact congrArg (·.advance elapsed) (hrel h)

theorem timers_pressKey (m : Machine) (key : Key) : (m.pressKey key).timers = m.timers := by
  rw [pressKey_frame]

/-- The timers are what becomes of them in the time of the updates of a session. -/
theorem timers_performAll {m : Machine} {t : Timers} {time : Nat} (h : t.After time m.timers)
    {session : List Operation} (hok : m.UpdatesSucceed session)
    (hnone : SetsNoTimer (m.trace session)) :
    t.After (time + (session.map Operation.elapsed).sum) (m.performAll session).timers := by
  induction session generalizing m time with
  | nil => exact h
  | cons operation rest ih =>
    obtain ⟨hfirst, hrest⟩ := setsNoTimer_append.1 hnone
    rw [List.map_cons, List.sum_cons, ← Nat.add_assoc]
    have aside (hok : (m.perform operation).state.UpdatesSucceed rest)
        (hs : (m.perform operation).state.timers = m.timers) :
        t.After (time + 0 + (rest.map Operation.elapsed).sum)
          ((m.perform operation).state.performAll rest).timers := ih (hs.symm ▸ h) hok hrest
    cases operation with
    | update elapsed =>
      obtain ⟨⟨cycles, hr⟩, hok⟩ := hok
      have htimers : (m.update elapsed).state.timers = m.timers.advance elapsed :=
        timers_update hr hfirst
      exact ih (m := (m.update elapsed).state) (htimers.symm ▸ h.advance elapsed) hok hrest
    | step => exact aside hok (m.keepsTimers_step hfirst)
    | runSteps count => exact aside hok (timers_runSteps hfirst)
    | pressKey key => exact aside hok (m.timers_pressKey key)
    | setKey key pressed =>
      cases pressed with
      | true => exact aside hok (m.timers_pressKey key)
      | false => exact aside hok rfl
    | releaseKey key => exact aside hok rfl
    | clearKeys => exact aside hok rfl
    | loadProgram program => exact aside hok rfl
    | setTiming timing => exact aside hok rfl
    | setRate hz => exact aside hok rfl

/-- The timers count the time of all updates and nothing else: a session in which every update
succeeds and no instruction sets a timer takes from both timers the whole ticks of that time. If
it begins with a whole tick, a timer stays on for its value in ticks. -/
theorem timers_count_elapsed {m : Machine} (hm : m.Reachable) {session : List Operation}
    (hok : m.UpdatesSucceed session)
    (hnone : ∀ execution ∈ m.trace session, execution.2.setsTimer = false) :
    let n := m.performAll session
    let time := (session.map Operation.elapsed).sum
    let ticks := (m.timers.pending + time) / timerPeriod
    n.timers.delay.toNat = m.timers.delay.toNat - ticks ∧
    n.timers.sound.toNat = m.timers.sound.toNat - ticks ∧
    (m.timers.pending = 0 →
      (n.timers.delay ≠ 0 ↔ time < m.timers.delay.toNat * timerPeriod) ∧
      (n.timers.sound ≠ 0 ↔ time < m.timers.sound.toNat * timerPeriod)) := by
  intro n time ticks
  have hafter : m.timers.After (0 + time) n.timers :=
    timers_performAll (Timers.after_zero hm.sound.ticking_lt) hok hnone
  rw [Nat.zero_add] at hafter
  refine ⟨hafter.delay, hafter.sound, ?_⟩
  intro hpending
  have hdelay := hafter.delay
  have hsound := hafter.sound
  rw [hpending, Nat.zero_add] at hdelay hsound
  exact ⟨Timers.on_iff hdelay, Timers.on_iff hsound⟩

/-- Timers of two ticks over a wait for a key and a change of the rate: a nanosecond before their
time they are on. -/
theorem timers_count_elapsed_of_wait :
    let m := (new { rate := 7 } 0).performAll
      [.loadProgram [0x60, 0x02, 0xF0, 0x15, 0xF0, 0x18, 0xF1, 0x0A], .runSteps 4]
    let session : List Operation :=
      [.update 20000000, .pressKey 9, .step, .setRate 100, .update 13333331]
    m.Reachable ∧ m.UpdatesSucceed session ∧
      (∀ execution ∈ m.trace session, execution.2.setsTimer = false) ∧ m.timers.pending = 0 ∧
      (m.performAll session).timers.delay.toNat = 1 ∧
      (m.performAll session).timers.sound ≠ 0 := by
  intro m session
  have hm : m.Reachable := ⟨_, _, _, _, rfl⟩
  have hok : m.UpdatesSucceed session :=
    ⟨⟨0, by decide +kernel⟩, ⟨3, by decide +kernel⟩, trivial⟩
  have hnone : ∀ execution ∈ m.trace session, execution.2.setsTimer = false := by decide +kernel
  have htimers : m.timers = ⟨2, 2, 0⟩ := by decide +kernel
  have hpending : m.timers.pending = 0 := congrArg Timers.pending htimers
  have hticks : m.timers.delay.toNat - (m.timers.pending + (session.map Operation.elapsed).sum) /
      timerPeriod = 1 := by
    rw [htimers]
    decide
  have htime : (session.map Operation.elapsed).sum < m.timers.sound.toNat * timerPeriod := by
    rw [htimers]
    decide
  obtain ⟨hdelay, -, hon⟩ := timers_count_elapsed hm hok hnone
  exact ⟨hm, hok, hnone, hpending, hdelay.trans hticks, (hon hpending).2.2 htime⟩

end Machine
end Chip8
