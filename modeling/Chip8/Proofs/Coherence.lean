import Chip8.Proofs.Execution
import Chip8.Proofs.History

/-! # What holds of every machine

Whatever a host does and whatever a program does, the parts of a machine fit together: the program
counter stays in memory and the call stack within its slots, a fault is one of the call stack at
the instruction that the machine stopped at, and the clock runs at the rate that the timing mode
and the last configured rate prescribe, with nothing owed in fixed timing.
-/
namespace Chip8

/-- The program counter and all return addresses lie in memory, and the stack in its slots. -/
structure Cpu.InBounds (c : Cpu) : Prop where
  pc_lt : c.pc.toNat < 4096
  sp_le : c.sp ≤ 16
  slots_lt : ∀ i : Fin 16, c.slots[i].toNat < 4096

namespace Cpu

theorem inBounds_initial : initial.InBounds where
  pc_lt := by decide
  sp_le := by decide
  slots_lt i := by simp [initial]

theorem InBounds.of_sameControl {c d : Cpu} (h : c.InBounds) (hc : c.SameControl d) :
    d.InBounds where
  pc_lt := hc.pc ▸ h.pc_lt
  sp_le := hc.sp ▸ h.sp_le
  slots_lt := hc.slots ▸ h.slots_lt

theorem InBounds.withPc {c : Cpu} (h : c.InBounds) {pc : UInt16} (hpc : pc.toNat < 4096) :
    { c with pc }.InBounds := ⟨hpc, h.sp_le, h.slots_lt⟩

theorem InBounds.advance {c : Cpu} (h : c.InBounds) : c.advance.InBounds :=
  h.withPc (by rw [UInt16.toNat_mod]; exact Nat.mod_lt _ (by decide))

theorem InBounds.jump {c : Cpu} (h : c.InBounds) (address : Nat) : (c.jump address).InBounds :=
  h.withPc (by
    rw [UInt16.toNat_ofNat']
    omega)

theorem InBounds.skipIf {c : Cpu} (h : c.InBounds) (taken : Bool) : (c.skipIf taken).InBounds := by
  cases taken with
  | true => exact h.advance
  | false => exact h

theorem InBounds.pop {c : Cpu} (h : c.InBounds) : c.pop.InBounds :=
  ⟨h.pc_lt, Nat.le_trans (Nat.sub_le c.sp 1) h.sp_le, h.slots_lt⟩

theorem InBounds.push {c d : Cpu} {address : UInt16} (h : c.InBounds) (ha : address.toNat < 4096)
    (hd : c.push? address = some d) : d.InBounds := by
  simp only [push?] at hd
  split at hd
  · rename_i hsp
    cases hd
    refine ⟨h.pc_lt, hsp, ?_⟩
    intro i
    simp only [Fin.getElem_fin, Vector.getElem_set]
    split
    · exact ha
    · exact h.slots_lt i
  · cases hd

end Cpu

namespace Machine

theorem execute_inBounds {m : Machine} (h : m.cpu.InBounds) (pc : UInt16) (i : Instruction) :
    (m.execute pc i).machine.cpu.InBounds := by
  cases i with
  | ret =>
    simp only [execute]
    split
    · exact h
    · exact h.pop.jump _
  | call address =>
    simp only [execute]
    split
    · exact h
    · rename_i cpu hp
      exact (h.push h.pc_lt hp).jump _
  | jump address => exact h.jump _
  | jumpOffset address => exact h.jump _
  | skip condition => exact h.skipIf _
  | _ => exact h.of_sameControl (execute_sameControl m pc rfl)

/-- The parts of a machine fit together, at any moment of an operation. -/
structure Sound (m : Machine) : Prop where
  bounds : m.cpu.InBounds
  awaiting_le : ∀ x, m.awaiting = some x → x.val ≤ 15
  /-- A fault is one of the call stack, at the instruction that the machine stopped at. -/
  fault_fits : ∀ e, m.fault = some e → m.awaiting = none ∧
    (e = .stackUnderflow m.cpu.pc ∧ m.cpu.sp = 0 ∨ e = .stackOverflow m.cpu.pc ∧ m.cpu.sp = 16)
  rate_pos : 1 ≤ m.settings.rate.toNat
  rate_le : m.settings.rate.toNat ≤ 1000000
  period_eq : m.clock.period = Rate.period m.settings.clockRate
  owed_fixed : m.settings.timing = .fixed → m.owed = 0
  owed_lt : m.owed < max 1 m.lastCost
  ticking_lt : m.timers.pending < timerPeriod

theorem sound_new (settings : Settings) (entropy : Random.Key) (generator : Random.Generator) :
    (new settings entropy generator).Sound where
  bounds := Cpu.inBounds_initial
  awaiting_le x hx := by cases hx
  fault_fits e he := by cases he
  rate_pos := Rate.one_le_clamp settings.rate
  rate_le := Rate.clamp_le settings.rate
  period_eq := rfl
  owed_fixed _ := rfl
  owed_lt := Nat.lt_of_lt_of_le Nat.zero_lt_one (Nat.le_max_left 1 0)
  ticking_lt := Nat.div_pos (by decide) (by decide)

/-- In a sound machine an instruction faults on an empty or on a full call stack. -/
theorem Sound.fits_of_error {m : Machine} (h : m.Sound) {e : Fault}
    (he : m.executeNext.result = .error e) :
    e = .stackUnderflow m.cpu.pc ∧ m.cpu.sp = 0 ∨ e = .stackOverflow m.cpu.pc ∧ m.cpu.sp = 16 := by
  rcases (executeNext_error_iff_faulting h.bounds.sp_le).1 he with ⟨-, hsp⟩ | ⟨-, hsp⟩
  · exact Or.inl ⟨rfl, hsp⟩
  · exact Or.inr ⟨rfl, hsp⟩

theorem Sound.executeNext {m : Machine} (h : m.Sound) (hf : m.fault = none)
    (hx : m.awaiting = none) : m.executeNext.state.Sound := by
  have ha := m.nextEffect_sameAround
  cases hr : m.nextEffect.result with
  | error e =>
    obtain ⟨hresult, hstate⟩ := executeNext_of_error hr
    rw [hstate]
    refine { h with fault_fits := ?_ }
    intro e' he'
    cases he'
    exact ⟨hx, h.fits_of_error hresult⟩
  | ok p =>
    rw [(executeNext_of_ok hr).2]
    have hpos := m.settings.timing.cyclesOf_pos p.2
    refine ⟨execute_inBounds h.bounds.advance _ _, ?_, ?_, ha.settings ▸ h.rate_pos,
      ha.settings ▸ h.rate_le, ?_, ?_, ?_, ha.ticking ▸ h.ticking_lt⟩
    · intro x _
      omega
    · intro e he
      exact absurd (he.symm.trans (ha.fault.trans hf)) (Option.some_ne_none e)
    · exact (congrArg Clock.period ha.clock).trans (ha.settings ▸ h.period_eq)
    · intro ht
      have ht' : m.settings.timing = .fixed := ha.settings ▸ ht
      simp only [ht', Timing.cyclesOf]
    · dsimp only
      omega

theorem Sound.pressKey {m : Machine} (h : m.Sound) (key : Key) : (m.pressKey key).Sound := by
  cases hx : m.awaiting with
  | none =>
    rw [pressKey_of_running hx]
    exact { h with }
  | some x =>
    rw [pressKey_of_awaiting hx]
    have hbounds := h.bounds.of_sameControl (m.cpu.sameControl_setRegister x (UInt8.ofNat key))
    refine { h with bounds := hbounds, awaiting_le := ?_, fault_fits := ?_ }
    · intro y hy
      cases hy
    · intro e he
      exact ⟨rfl, (h.fault_fits e he).2⟩

theorem Sound.setTiming {m : Machine} (h : m.Sound) (timing : Timing) :
    (m.setTiming timing).Sound := by
  have hpos : 0 < max 1 m.lastCost := Nat.lt_of_lt_of_le Nat.zero_lt_one (Nat.le_max_left _ _)
  exact { h with period_eq := rfl, owed_fixed := fun _ => rfl, owed_lt := hpos }

theorem Sound.setRate {m : Machine} (h : m.Sound) (hz : UInt64) : (m.setRate hz).Sound := by
  have hperiod : (m.setRate hz).clock.period = Rate.period (m.setRate hz).settings.clockRate := by
    have hold := h.period_eq
    simp only [Settings.clockRate] at hold
    simp only [Machine.setRate, Settings.withRate, Settings.clockRate]
    cases ht : m.settings.timing with
    | fixed => rfl
    | cosmac =>
      rw [ht] at hold
      exact hold
  exact { h with
    rate_pos := Rate.one_le_clamp hz
    rate_le := Rate.clamp_le hz
    period_eq := hperiod }

theorem historical_sound : Historical fun m _ n => m.Sound → n.Sound where
  refl _ h := h
  trans h h' hm := h' (h hm)
  execute _ hf hx h := h.executeNext hf hx
  pay m _ _ h :=
    { h with
      owed_fixed := fun ht => by simp [h.owed_fixed ht]
      owed_lt := Nat.lt_of_le_of_lt (Nat.sub_le m.owed 1) h.owed_lt }
  clock _ _ hc h := { h with period_eq := hc.trans h.period_eq }
  timers m elapsed h := { h with ticking_lt := m.timers.pending_advance_lt elapsed }
  press _ key h := h.pressKey key
  release _ _ h := { h with }
  clear _ h := { h with }
  load _ _ h := { h with bounds := h.bounds.of_sameControl ⟨rfl, rfl, rfl⟩ }
  timing _ timing h := h.setTiming timing
  rate _ hz h := h.setRate hz

theorem Reachable.sound {m : Machine} (h : m.Reachable) : m.Sound := by
  obtain ⟨settings, entropy, generator, session, rfl⟩ := h
  exact historical_sound.of_invariant (sound_new settings entropy generator) session

theorem historical_fault :
    Historical fun m _ n => ∀ e, m.fault = some e → n.fault = some e where
  refl _ _ he := he
  trans h h' e he := h' e (h e he)
  execute m hf _ e he := absurd (he.symm.trans hf) (Option.some_ne_none e)
  pay _ _ _ _ he := he
  clock _ _ _ _ he := he
  timers _ _ _ he := he
  press m key e he := by rw [pressKey_frame]; exact he
  release _ _ _ he := he
  clear _ _ he := he
  load _ _ _ he := he
  timing _ _ _ he := he
  rate _ _ _ he := he

theorem unfaulted_of_perform {m : Machine} {operation : Operation}
    (h : (m.perform operation).state.fault = none) : m.fault = none := by
  cases hf : m.fault with
  | none => rfl
  | some e => cases (historical_fault.perform m operation e hf).symm.trans h

theorem unfaulted_of_performAll {m : Machine} (session : List Operation)
    (h : (m.performAll session).fault = none) : m.fault = none := by
  cases hf : m.fault with
  | none => rfl
  | some e => cases (historical_fault.performAll m session e hf).symm.trans h

theorem clock_step (m : Machine) : m.step.state.clock = m.clock :=
  congrArg (·.state.clock) (step_withClock m m.clock)

theorem clock_runSteps (m : Machine) (count : Nat) : (m.runSteps count).state.clock = m.clock :=
  runSteps_rel (R := fun m _ n => n.clock = m.clock) (fun _ => rfl) (fun h h' => h'.trans h)
    clock_step m count

/-- While there is no fault, less than a second of time is pending. -/
def PendingBounded (m : Machine) : Prop := m.fault = none → m.clock.pending < nanosPerSecond

theorem update_pendingBounded {m : Machine} (h : m.PendingBounded) (elapsed : Nat) :
    (m.update elapsed).state.PendingBounded := by
  cases hf : m.fault with
  | some e =>
    rw [update_of_fault hf]
    exact h
  | none =>
    rcases cyclesOk_or_fault m (m.budget elapsed / m.clock.period) with hok | ⟨j, hj, e, hok, he⟩
    · rw [(update_of_cyclesOk hf elapsed hok).2]
      intro _
      exact Nat.lt_of_lt_of_le (Nat.mod_lt _ m.clock.period_pos) m.clock.period_le
    · rw [(update_of_cycle_error hf hj hok he).2, afterCycles_succ']
      intro hnone
      have hsome := fault_of_cycle_error he
      exact absurd (hsome.symm.trans hnone) (Option.some_ne_none e)

theorem perform_pendingBounded {m : Machine} (h : m.PendingBounded) (operation : Operation) :
    (m.perform operation).state.PendingBounded := by
  intro hnone
  have hf : m.fault = none := unfaulted_of_perform hnone
  cases operation with
  | step => exact (clock_step m).symm ▸ h hf
  | runSteps count => exact (clock_runSteps m count).symm ▸ h hf
  | update elapsed => exact update_pendingBounded h elapsed hnone
  | pressKey key => exact (clock_pressKey m key).symm ▸ h hf
  | releaseKey key => exact h hf
  | setKey key pressed =>
    cases pressed with
    | true => exact (clock_pressKey m key).symm ▸ h hf
    | false => exact h hf
  | clearKeys => exact h hf
  | loadProgram program => exact h hf
  | setTiming timing => exact h hf
  | setRate hz => exact (pending_setRate m hz).symm ▸ h hf

theorem internal_settings : Internal fun m _ n => n.settings = m.settings where
  refl _ := rfl
  trans h h' := h'.trans h
  execute m _ _ := m.settings_executeNext
  pay _ _ _ := rfl
  clock _ _ _ := rfl
  timers _ _ := rfl

theorem settings_pressKey (m : Machine) (k : Key) : (m.pressKey k).settings = m.settings := by
  rw [pressKey_frame]

/-- The rate that a session configures last; without one, that from before it. -/
def lastRate (before : UInt64) : List Operation → UInt64
  | [] => before
  | .setRate hz :: rest => lastRate hz rest
  | _ :: rest => lastRate before rest

theorem rate_performAll {m : Machine} {before : UInt64}
    (h : m.settings.rate = Rate.clamp before) (session : List Operation) :
    (m.performAll session).settings.rate = Rate.clamp (lastRate before session) := by
  induction session generalizing m before with
  | nil => exact h
  | cons operation rest ih =>
    rw [performAll_cons]
    have keep (hs : (m.perform operation).state.settings.rate = m.settings.rate) :
        ((m.perform operation).state.performAll rest).settings.rate =
          Rate.clamp (lastRate before rest) := ih (hs.trans h)
    cases operation with
    | setRate hz => exact ih (m := m.setRate hz) rfl
    | step => exact keep (congrArg _ (internal_settings.step m))
    | runSteps count => exact keep (congrArg _ (internal_settings.runSteps m count))
    | update elapsed => exact keep (congrArg _ (internal_settings.update m elapsed))
    | pressKey key => exact keep (congrArg _ (settings_pressKey m key))
    | setKey key pressed =>
      cases pressed with
      | true => exact keep (congrArg _ (settings_pressKey m key))
      | false => exact keep rfl
    | releaseKey key => exact keep rfl
    | clearKeys => exact keep rfl
    | loadProgram program => exact keep rfl
    | setTiming timing => exact keep rfl

theorem pendingBounded_performAll {m : Machine} (h : m.PendingBounded)
    (session : List Operation) : (m.performAll session).PendingBounded := by
  induction session generalizing m with
  | nil => exact h
  | cons operation rest ih => exact ih (perform_pendingBounded h operation)

/-- Every machine that a host can bring about is sound, runs at the rate that its timing mode
prescribes, and has less than a second of time pending unless it faulted. -/
theorem performAll_new_sound (settings : Settings) (entropy : Random.Key)
    (generator : Random.Generator)
    (session : List Operation) :
    let m := (new settings entropy generator).performAll session
    m.Sound ∧
    m.settings.rate = Rate.clamp (lastRate settings.rate session) ∧
    m.clock.period = (match m.settings.timing with
      | .fixed => Rate.period (lastRate settings.rate session)
      | .cosmac => Rate.period Timing.cosmacRate) ∧
    m.clock.cap = 20000 * m.clock.period ∧
    (m.fault = none → m.clock.pending < 1000000000) := by
  intro m
  have hsound : m.Sound :=
    historical_sound.of_invariant (sound_new settings entropy generator) session
  have hrate : m.settings.rate = Rate.clamp (lastRate settings.rate session) :=
    rate_performAll rfl session
  have hcap : m.clock.cap = 20000 * m.clock.period := m.clock.cap_eq.trans (Nat.mul_comm _ _)
  refine ⟨hsound, hrate, ?_, hcap, ?_⟩
  · have hperiod := hsound.period_eq
    rw [Settings.clockRate, hrate] at hperiod
    cases ht : m.settings.timing with
    | fixed =>
      rw [ht] at hperiod
      exact hperiod.trans (Rate.period_clamp _)
    | cosmac =>
      rw [ht] at hperiod
      exact hperiod
  · apply pendingBounded_performAll (m := new settings entropy generator)
    intro _
    exact (by decide : 0 < nanosPerSecond)

end Machine
end Chip8
