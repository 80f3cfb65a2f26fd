import Chip8.Proofs.Idle
import Chip8.Proofs.Moments

/-! # Waiting for a key

A machine waits for a key since the instruction that asked for one, the last that was executed.
Until a key is pressed it stands still, however it is driven; only its timers count down. The
first key that is pressed goes into the register that waits, and the machine runs on behind that
instruction. Keys that are pressed before the next instruction reach no register any more.
-/
namespace Chip8

theorem Timers.countDown_le (timer : UInt8) (ticks : Nat) : countDown timer ticks ≤ timer := by
  rw [UInt8.le_iff_toNat_le, toNat_countDown]
  omega

namespace Machine

/-- What an execution leads to: a register waits either since before it, and nothing was executed,
or since its last instruction, which is the one before the program counter. -/
def WaitsSince (m : Machine) (executions : List Execution) (n : Machine) : Prop :=
  ∀ x, n.awaiting = some x →
    executions = [] ∧ m.awaiting = some x ∧ n.cpu.pc = m.cpu.pc ∨
    ∃ a, executions.getLast? = some (a, .waitKey x) ∧ n.cpu.pc = (a + 2) % 4096

theorem WaitsSince.trans {m n o : Machine} {before after : List Execution}
    (h : WaitsSince m before n) (h' : WaitsSince n after o) :
    WaitsSince m (before ++ after) o := by
  intro x hx
  rcases h' x hx with ⟨rfl, hn, hpc'⟩ | ⟨a, hlast, hpc⟩
  · rw [List.append_nil]
    rcases h x hn with ⟨hnil, hm, hpc⟩ | ⟨a, hlast, hpc⟩
    · exact Or.inl ⟨hnil, hm, hpc'.trans hpc⟩
    · exact Or.inr ⟨a, hlast, hpc'.trans hpc⟩
  · right
    refine ⟨a, ?_, hpc⟩
    rw [List.getLast?_append, hlast]
    rfl

theorem waitsSince_executeNext {m : Machine} (hx : m.awaiting = none) :
    WaitsSince m [(m.cpu.pc, m.nextInstruction)] m.executeNext.state := by
  intro x hn
  right
  cases hr : m.nextEffect.result with
  | error e =>
    rw [(executeNext_of_error hr).2] at hn
    cases hx.symm.trans hn
  | ok p =>
    rw [(executeNext_of_ok hr).2] at hn ⊢
    have hawait := awaiting_execute (m.mapCpu Cpu.advance) m.cpu.pc m.nextInstruction
    have hi : m.nextInstruction = .waitKey x := by
      have hsome := hawait.symm.trans hn
      split at hsome
      · rename_i y hy
        cases hsome
        exact hy
      · cases hx.symm.trans hsome
    refine ⟨m.cpu.pc, by rw [hi]; rfl, ?_⟩
    dsimp only [nextEffect]
    rw [hi]
    rfl

theorem waitsSince_of_eq {m n : Machine} (hx : n.awaiting = m.awaiting)
    (hpc : n.cpu.pc = m.cpu.pc) : WaitsSince m [] n := by
  intro x hn
  exact Or.inl ⟨rfl, hx.symm.trans hn, hpc⟩

theorem historical_waitsSince : Historical WaitsSince where
  refl _ := waitsSince_of_eq rfl rfl
  trans h h' := h.trans h'
  execute _ _ hx := waitsSince_executeNext hx
  pay _ _ _ := waitsSince_of_eq rfl rfl
  clock _ _ _ := waitsSince_of_eq rfl rfl
  timers _ _ := waitsSince_of_eq rfl rfl
  press m key := by
    intro x hn
    cases hx : m.awaiting with
    | none =>
      rw [pressKey_of_running hx] at hn
      cases hx.symm.trans hn
    | some y =>
      rw [pressKey_of_awaiting hx] at hn
      cases hn
  release _ _ := waitsSince_of_eq rfl rfl
  clear _ := waitsSince_of_eq rfl rfl
  load _ _ := waitsSince_of_eq rfl rfl
  timing _ _ := waitsSince_of_eq rfl rfl
  rate _ _ := waitsSince_of_eq rfl rfl

/-- What operations do to a machine that waits for a key: its timers count down. -/
structure Paused (operations : List Operation) (m n : Machine) : Prop extends
    Untouched operations m n where
  delay_le : n.timers.delay ≤ m.timers.delay
  sound_le : n.timers.sound ≤ m.timers.sound

namespace Paused

theorem cons {operation : Operation} {rest : List Operation} {m n o : Machine}
    (h : Paused [operation] m n) (h' : Paused rest n o) : Paused (operation :: rest) m o where
  toUntouched := h.toUntouched.cons h'.toUntouched
  delay_le := UInt8.le_trans h'.delay_le h.delay_le
  sound_le := UInt8.le_trans h'.sound_le h.sound_le

theorem of_untouched {operations : List Operation} {m n : Machine}
    (h : Untouched operations m n) (ht : n.timers = m.timers) : Paused operations m n where
  toUntouched := h
  delay_le := ht ▸ UInt8.le_refl _
  sound_le := ht ▸ UInt8.le_refl _

end Paused

theorem afterCycles_of_awaiting {m : Machine} {x : Register} (hx : m.awaiting = some x) (n : Nat) :
    m.afterCycles n = m :=
  Function.iterate_fixed (congrArg Outcome.state (cycle_of_awaiting hx)) n

theorem update_of_awaiting {m : Machine} {x : Register} (hf : m.fault = none)
    (hx : m.awaiting = some x) (elapsed : Nat) :
    (m.update elapsed).result = .ok (m.budget elapsed / m.clock.period) ∧
    (m.update elapsed).state =
      { m with
        clock := { m.clock with pending := m.budget elapsed % m.clock.period }
        timers := m.timers.advance elapsed } := by
  have hok : m.CyclesOk (m.budget elapsed / m.clock.period) := by
    intro j _
    rw [afterCycles_of_awaiting hx, cycle_of_awaiting hx]
  obtain ⟨hresult, hstate⟩ := update_of_cyclesOk hf elapsed hok
  rw [afterCycles_of_awaiting hx] at hstate
  exact ⟨hresult, hstate⟩

theorem Paused.perform {m : Machine} {x : Register} (hf : m.fault = none)
    (hx : m.awaiting = some x) {operation : Operation} (hp : operation.isPress = false) :
    Paused [operation] m (m.perform operation).state := by
  cases operation with
  | step =>
    have hstate : (m.perform .step).state = m := congrArg Outcome.state (step_of_awaiting hf hx)
    rw [hstate]
    exact of_untouched (.refl _ m) rfl
  | runSteps count =>
    have hstate : (m.perform (.runSteps count)).state = m :=
      (m.state_runSteps count).trans (afterSteps_of_awaiting hf hx count)
    rw [hstate]
    exact of_untouched (.refl _ m) rfl
  | update elapsed =>
    have hstate := (update_of_awaiting hf hx elapsed).2
    change Paused _ m (m.update elapsed).state
    rw [hstate]
    exact ⟨.of_time _ m _ _, Timers.countDown_le _ _, Timers.countDown_le _ _⟩
  | pressKey key => cases hp
  | releaseKey key => exact of_untouched (.of_keypad rfl m _) rfl
  | setKey key pressed =>
    cases pressed with
    | true => cases hp
    | false => exact of_untouched (.of_keypad rfl m _) rfl
  | clearKeys => exact of_untouched (.of_keypad rfl m _) rfl
  | loadProgram program => exact of_untouched (.loadProgram m program) rfl
  | setTiming timing => exact of_untouched (.setTiming m timing) rfl
  | setRate hz => exact of_untouched (.setRate m hz) rfl

theorem Paused.performAll {m : Machine} {x : Register} (hf : m.fault = none)
    (hx : m.awaiting = some x) (session : List Operation)
    (hp : ∀ o ∈ session, o.isPress = false) : Paused session m (m.performAll session) := by
  induction session generalizing m with
  | nil => exact of_untouched (.refl [] m) rfl
  | cons operation rest ih =>
    obtain ⟨hhead, htail⟩ := List.forall_mem_cons.1 hp
    have hpaused := perform hf hx hhead
    have hrest := ih (hpaused.fault.trans hf) (hpaused.awaiting.trans hx) htail
    exact hpaused.cons hrest

theorem results_of_awaiting {m : Machine} {x : Register} (hf : m.fault = none)
    (hx : m.awaiting = some x) :
    m.step.result = .ok .keyWait ∧ (∀ n, (m.runSteps (n + 1)).result = .ok .keyWait) ∧
      ∀ elapsed, ∃ n, (m.update elapsed).result = .ok n := by
  have hstep : m.step.result = .ok .keyWait := congrArg Outcome.result (step_of_awaiting hf hx)
  refine ⟨hstep, ?_, ?_⟩
  · intro n
    exact congrArg Outcome.result (stepsFrom_of_keyWait hstep n (.ok .normal) [])
  · intro elapsed
    exact ⟨_, (update_of_awaiting hf hx elapsed).1⟩

/-- A machine that does not wait for a key makes no progress but by executing instructions. -/
theorem historical_sameProgress : Historical fun m executions n =>
    executions = [] → m.awaiting = none → m.SameProgress n where
  refl m _ _ := .refl m
  trans h h' hnil hx := by
    obtain ⟨hbefore, hafter⟩ := List.append_eq_nil_iff.1 hnil
    have hfirst := h hbefore hx
    exact hfirst.trans (h' hafter (hfirst.awaiting.trans hx))
  execute _ _ _ hnil := by cases hnil
  pay m _ _ _ _ := { SameProgress.refl m with }
  clock m _ _ _ _ := { SameProgress.refl m with }
  timers m _ _ _ := { SameProgress.refl m with }
  press m key _ hx := by
    rw [pressKey_of_running hx]
    exact { SameProgress.refl m with }
  release m _ _ _ := { SameProgress.refl m with }
  clear m _ _ := { SameProgress.refl m with }
  load m _ _ _ := { SameProgress.refl m with control := ⟨rfl, rfl, rfl⟩ }
  timing m _ _ _ := { SameProgress.refl m with }
  rate m _ _ _ := { SameProgress.refl m with }

/-- A machine that waits for a key has last executed the instruction that asked for one, and its
program stands still until a key is pressed. That key goes into the register that waits, and no
other key reaches a register before the next instruction. -/
theorem key_wait_until_press {settings : Settings} {entropy : Random.Key}
    {generator : Random.Generator} {session : List Operation}
    {x : Register} (hx : ((new settings entropy generator).performAll session).awaiting = some x) :
    let m := (new settings entropy generator).performAll session
    (∃ a, ((new settings entropy generator).trace session).getLast? = some (a, .waitKey x) ∧
      m.cpu.pc = (a + 2) % 4096) ∧
    ∀ waiting : List Operation, (∀ o ∈ waiting, o.isPress = false) →
      let n := m.performAll waiting
      Paused waiting m n ∧ n.awaiting = some x ∧ n.fault = none ∧
      n.step.result = .ok .keyWait ∧
      (∀ count, 1 ≤ count → (n.runSteps count).result = .ok .keyWait) ∧
      (∀ elapsed, ∃ cycles, (n.update elapsed).result = .ok cycles) ∧
      ∀ key : Key,
        let o := (n.perform (.pressKey key)).state
        (n.perform (.setKey key true)).state = o ∧
        o = { n with
          keypad := n.keypad.set key true
          cpu := n.cpu.setRegister x (UInt8.ofNat key)
          awaiting := none } ∧
        o.cpu.pc = m.cpu.pc ∧
        ∀ later, o.trace later = [] → o.SameProgress (o.performAll later) := by
  intro m
  have hsound : m.Sound :=
    historical_sound.of_invariant (sound_new settings entropy generator) session
  have hf : m.fault = none := by
    cases hf : m.fault with
    | none => rfl
    | some e => cases (hsound.fault_fits e hf).1.symm.trans hx
  refine ⟨?_, ?_⟩
  · rcases historical_waitsSince.performAll (new settings entropy generator) session x hx with
      ⟨-, hnew, -⟩ | hlast
    · cases hnew
    · exact hlast
  · intro waiting hpress n
    have hpaused : Paused waiting m n := .performAll hf hx waiting hpress
    have hfn : n.fault = none := hpaused.fault.trans hf
    have hxn : n.awaiting = some x := hpaused.awaiting.trans hx
    obtain ⟨hstep, hruns, hupdate⟩ := results_of_awaiting hfn hxn
    refine ⟨hpaused, hxn, hfn, hstep, ?_, hupdate, ?_⟩
    · intro count hcount
      obtain ⟨k, rfl⟩ := Nat.exists_eq_add_of_le' hcount
      exact hruns k
    · intro key o
      have ho : o = { n with
          keypad := n.keypad.set key true
          cpu := n.cpu.setRegister x (UInt8.ofNat key)
          awaiting := none } := pressKey_of_awaiting hxn key
      refine ⟨rfl, ho, ?_, ?_⟩
      · rw [ho]
        exact hpaused.control.pc
      · intro later hlater
        have hxo : o.awaiting = none := by rw [ho]
        exact historical_sameProgress.performAll o later hlater hxo

/-- A program that is one wait for a key still waits a second later, and takes the key then. -/
theorem key_wait_for_second :
    let m := (new {} 0).performAll [.loadProgram [0xF5, 0x0A], .step]
    let n := m.performAll [.update 1000000000]
    m.awaiting = some 5 ∧ n.step.result = .ok .keyWait ∧
      (n.perform (.pressKey 9)).state.cpu.register 5 = 9 := by
  intro m n
  have hx : m.awaiting = some 5 := by decide +kernel
  obtain ⟨-, hwaiting⟩ := key_wait_until_press hx
  have hpress : ∀ o ∈ [Operation.update 1000000000], o.isPress = false := by decide
  obtain ⟨-, -, -, hstep, -, -, hkey⟩ := hwaiting [.update 1000000000] hpress
  obtain ⟨-, hstate, -⟩ := hkey 9
  refine ⟨hx, hstep, ?_⟩
  rw [hstate]
  simp only [Cpu.register_setRegister_self]
  decide

end Machine
end Chip8
