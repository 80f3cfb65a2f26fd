import Chip8.Machine.Update
import Chip8.Proofs.Decoding

/-! # What one instruction can do

Keypad, clock, settings, cycle bookkeeping and fault belong to the machine around the program: no
instruction touches them, nor the part of a tick that the timers keep. Only a return without a call
and a call nested too deep fail, and they fail before anything changed.
-/
namespace Chip8

namespace Machine

/-- Two machines agree on all that instructions have no access to. -/
structure SameAround (m n : Machine) : Prop where
  keypad : n.keypad = m.keypad
  clock : n.clock = m.clock
  settings : n.settings = m.settings
  owed : n.owed = m.owed
  lastCost : n.lastCost = m.lastCost
  fault : n.fault = m.fault
  ticking : n.timers.pending = m.timers.pending

theorem SameAround.trans {m n o : Machine} (h : m.SameAround n) (h' : n.SameAround o) :
    m.SameAround o where
  keypad := h'.keypad.trans h.keypad
  clock := h'.clock.trans h.clock
  settings := h'.settings.trans h.settings
  owed := h'.owed.trans h.owed
  lastCost := h'.lastCost.trans h.lastCost
  fault := h'.fault.trans h.fault
  ticking := h'.ticking.trans h.ticking

theorem sameAround_mapCpu (m : Machine) (f : Cpu → Cpu) : m.SameAround (m.mapCpu f) :=
  ⟨rfl, rfl, rfl, rfl, rfl, rfl, rfl⟩

theorem execute_sameAround (m : Machine) (pc : UInt16) (i : Instruction) :
    m.SameAround (m.execute pc i).machine := by
  generalize hn : (m.execute pc i).machine = n
  cases i with
  | ret =>
    simp only [execute] at hn
    split at hn <;> exact hn ▸ ⟨rfl, rfl, rfl, rfl, rfl, rfl, rfl⟩
  | call address =>
    simp only [execute] at hn
    split at hn <;> exact hn ▸ ⟨rfl, rfl, rfl, rfl, rfl, rfl, rfl⟩
  | _ =>
    simp only [execute, draw, effect] at hn
    exact hn ▸ ⟨rfl, rfl, rfl, rfl, rfl, rfl, rfl⟩

theorem awaiting_execute (m : Machine) (pc : UInt16) (i : Instruction) :
    (m.execute pc i).machine.awaiting =
      match i with
      | .waitKey x => some x
      | _ => m.awaiting := by
  generalize hn : (m.execute pc i).machine = n
  cases i with
  | ret =>
    simp only [execute] at hn
    split at hn <;> exact hn ▸ rfl
  | call address =>
    simp only [execute] at hn
    split at hn <;> exact hn ▸ rfl
  | _ =>
    simp only [execute, draw, effect] at hn
    exact hn ▸ rfl

theorem execute_keyWait {m : Machine} {pc : UInt16} {i : Instruction} {cost : Nat}
    (h : (m.execute pc i).result = .ok (.keyWait, cost)) : ∃ x, i = .waitKey x := by
  cases i with
  | waitKey x => exact ⟨x, rfl⟩
  | ret =>
    simp only [execute] at h
    split at h <;> cases h
  | call address =>
    simp only [execute] at h
    split at h <;> cases h
  | _ => cases h

end Machine

/-- Two states have the same program counter and call stack. -/
structure Cpu.SameControl (c d : Cpu) : Prop where
  pc : d.pc = c.pc
  sp : d.sp = c.sp
  slots : d.slots = c.slots

namespace Cpu

theorem sameControl_setRegister (c : Cpu) (x : Register) (byte : UInt8) :
    c.SameControl (c.setRegister x byte) := ⟨rfl, rfl, rfl⟩

theorem sameControl_setIndex (c : Cpu) (address : UInt16) : c.SameControl (c.setIndex address) :=
  ⟨rfl, rfl, rfl⟩

theorem sameControl_store (c : Cpu) (bytes : List UInt8) : c.SameControl (c.store bytes) :=
  ⟨rfl, rfl, rfl⟩

theorem sameControl_setBlock (c : Cpu) (bytes : List UInt8) : c.SameControl (c.setBlock bytes) := by
  unfold setBlock
  exact ⟨rfl, rfl, rfl⟩

theorem sameControl_arithmetic (c : Cpu) (legacy : Bool) (op : Arithmetic) (x y : Register) :
    c.SameControl (c.arithmetic legacy op x y) := by
  cases op <;> exact ⟨rfl, rfl, rfl⟩

theorem SameControl.pastBlock {c d : Cpu} (h : c.SameControl d) (legacy : Bool)
    (last : Register) : c.SameControl (d.pastBlock legacy last) := by
  cases legacy with
  | true => exact ⟨h.pc, h.sp, h.slots⟩
  | false => exact h

end Cpu

namespace Machine

theorem execute_sameControl (m : Machine) (pc : UInt16) {i : Instruction}
    (hi : i.isControl = false) : m.cpu.SameControl (m.execute pc i).machine.cpu := by
  generalize hn : (m.execute pc i).machine = n
  cases i with
  | ret => cases hi
  | call address => cases hi
  | jump address => cases hi
  | jumpOffset address => cases hi
  | skip condition => cases hi
  | loadByte x byte => exact hn ▸ m.cpu.sameControl_setRegister x _
  | addByte x byte => exact hn ▸ m.cpu.sameControl_setRegister x _
  | arithmetic op x y => exact hn ▸ m.cpu.sameControl_arithmetic m.settings.legacyShift op x y
  | random x mask => exact hn ▸ m.cpu.sameControl_setRegister x _
  | loadIndex address => exact hn ▸ m.cpu.sameControl_setIndex address
  | addIndex x => exact hn ▸ m.cpu.sameControl_setIndex _
  | loadGlyph x => exact hn ▸ m.cpu.sameControl_setIndex _
  | draw x y rows => exact hn ▸ m.cpu.sameControl_setRegister Cpu.flagRegister _
  | loadDelay x => exact hn ▸ m.cpu.sameControl_setRegister x _
  | storeDecimal x => exact hn ▸ m.cpu.sameControl_store _
  | storeRegisters last =>
    exact hn ▸ (m.cpu.sameControl_store _).pastBlock m.settings.legacyMemory last
  | loadRegisters last =>
    exact hn ▸ (m.cpu.sameControl_setBlock _).pastBlock m.settings.legacyMemory last
  | _ =>
    simp only [execute, effect] at hn
    exact hn ▸ ⟨rfl, rfl, rfl⟩

theorem slots_execute (m : Machine) (pc : UInt16) {i : Instruction} (hi : i.usesStack = false) :
    (m.execute pc i).machine.cpu.sp = m.cpu.sp ∧
      (m.execute pc i).machine.cpu.slots = m.cpu.slots := by
  cases hc : i.isControl with
  | false =>
    have h := execute_sameControl m pc hc
    exact ⟨h.sp, h.slots⟩
  | true =>
    cases i with
    | ret => cases hi
    | call address => cases hi
    | jump address => exact ⟨rfl, rfl⟩
    | jumpOffset address => exact ⟨rfl, rfl⟩
    | skip condition =>
      simp only [execute, effect, mapCpu, Cpu.skipIf]
      split <;> exact ⟨rfl, rfl⟩
    | _ => cases hc

/-- The ways in which an instruction at `pc` fails. -/
inductive Fails (m : Machine) (pc : UInt16) : Instruction → Fault → Prop
  | ret : m.cpu.top? = none → Fails m pc .ret (.stackUnderflow pc)
  | call {address : UInt16} : m.cpu.push? m.cpu.pc = none →
      Fails m pc (.call address) (.stackOverflow pc)

theorem execute_error_iff {m : Machine} {pc : UInt16} {i : Instruction} {e : Fault} :
    (m.execute pc i).result = .error e ↔ m.Fails pc i e := by
  constructor
  · intro h
    cases i with
    | ret =>
      cases ht : m.cpu.top? with
      | none =>
        simp only [execute, ht, Except.error.injEq] at h
        exact h ▸ Fails.ret ht
      | some address => simp [execute, ht, effect] at h
    | call address =>
      cases hp : m.cpu.push? m.cpu.pc with
      | none =>
        simp only [execute, hp, Except.error.injEq] at h
        exact h ▸ Fails.call hp
      | some cpu => simp [execute, hp, effect] at h
    | _ => cases h
  · rintro (ht | hp)
    · simp only [execute, ht]
    · simp only [execute, hp]

theorem execute_of_error {m : Machine} {pc : UInt16} {i : Instruction} {e : Fault}
    (h : (m.execute pc i).result = .error e) : (m.execute pc i).machine = m := by
  cases execute_error_iff.1 h with
  | ret ht => simp only [execute, ht]
  | call hp => simp only [execute, hp]

theorem nextEffect_sameAround (m : Machine) : m.SameAround m.nextEffect.machine :=
  (m.sameAround_mapCpu Cpu.advance).trans
    (execute_sameAround (m.mapCpu Cpu.advance) m.cpu.pc m.nextInstruction)

/-- The machine after an instruction that did not fail: its cost is noted, and all but one of its
cycles are owed. -/
theorem executeNext_of_ok {m : Machine} {p : Flow × Nat} (h : m.nextEffect.result = .ok p) :
    m.executeNext.result = .ok p.1 ∧
    m.executeNext.state =
      { m.nextEffect.machine with
        lastCost := m.settings.timing.cyclesOf p.2
        owed := m.settings.timing.cyclesOf p.2 - 1 } := by
  have hs := m.nextEffect_sameAround.settings
  rw [executeNext]
  rcases he : m.nextEffect with ⟨n, result⟩
  rw [he] at h hs
  dsimp only at h hs
  subst h
  rw [← hs]
  exact ⟨rfl, rfl⟩

theorem executeNext_of_effect {m n : Machine} {flow : Flow} {cost : Nat}
    (h : m.nextEffect = effect n flow cost) :
    m.executeNext.result = .ok flow ∧
    m.executeNext.state =
      { n with
        lastCost := m.settings.timing.cyclesOf cost
        owed := m.settings.timing.cyclesOf cost - 1 } := by
  have hr : m.nextEffect.result = .ok (flow, cost) := congrArg Effect.result h
  obtain ⟨hresult, hstate⟩ := executeNext_of_ok hr
  rw [h] at hstate
  exact ⟨hresult, hstate⟩

theorem executeNext_of_error {m : Machine} {e : Fault} (h : m.nextEffect.result = .error e) :
    m.executeNext.result = .error e ∧ m.executeNext.state = { m with fault := some e } := by
  have hm : m.nextEffect.machine = m.mapCpu Cpu.advance := execute_of_error h
  rw [executeNext]
  rcases he : m.nextEffect with ⟨n, result⟩
  rw [he] at h hm
  dsimp only at h hm
  subst h hm
  exact ⟨rfl, rfl⟩

theorem settings_executeNext (m : Machine) : m.executeNext.state.settings = m.settings := by
  cases hr : m.nextEffect.result with
  | error e => rw [(executeNext_of_error hr).2]
  | ok p =>
    rw [(executeNext_of_ok hr).2]
    exact m.nextEffect_sameAround.settings

theorem executeNext_error_iff {m : Machine} {e : Fault} :
    m.executeNext.result = .error e ↔
      (m.mapCpu Cpu.advance).Fails m.cpu.pc m.nextInstruction e := by
  rw [← execute_error_iff]
  change _ ↔ m.nextEffect.result = .error e
  cases hr : m.nextEffect.result with
  | error e' => simp [(executeNext_of_error hr).1]
  | ok p => simp [(executeNext_of_ok hr).1]

/-- The next instruction is a return without a call, or a call nested too deep. -/
inductive Faulting (m : Machine) : Fault → Prop
  | underflow : m.cpu.fetch = 0x00EE → m.cpu.sp = 0 → Faulting m (.stackUnderflow m.cpu.pc)
  | overflow : m.cpu.fetch.family = 2 → m.cpu.sp = 16 → Faulting m (.stackOverflow m.cpu.pc)

theorem executeNext_error_iff_faulting {m : Machine} (h : m.cpu.sp ≤ 16) {e : Fault} :
    m.executeNext.result = .error e ↔ m.Faulting e := by
  rw [executeNext_error_iff]
  constructor
  · intro hfails
    generalize hi : m.nextInstruction = i at hfails
    cases hfails with
    | ret ht =>
      exact .underflow (Instruction.decode_eq_ret_iff.1 hi)
        ((Cpu.top?_eq_none_iff (c := m.cpu.advance) h).1 ht)
    | call hp =>
      have hsp := (Cpu.push?_eq_none_iff m.cpu.advance _).1 hp
      exact .overflow (Instruction.family_of_decode_call hi) (Nat.le_antisymm h hsp)
  · rintro (⟨hw, hsp⟩ | ⟨hw, hsp⟩)
    · rw [nextInstruction, Instruction.decode_eq_ret_iff.2 hw]
      exact .ret ((Cpu.top?_eq_none_iff (c := m.cpu.advance) h).2 hsp)
    · rw [nextInstruction, Instruction.decode_of_family_two hw]
      exact .call ((Cpu.push?_eq_none_iff m.cpu.advance _).2 (Nat.le_of_eq hsp.symm))

theorem usesStack_of_executeNext_error {m : Machine} {e : Fault}
    (h : m.executeNext.result = .error e) : m.cpu.fetch = 0x00EE ∨ m.cpu.fetch.family = 2 := by
  have hfails := executeNext_error_iff.1 h
  generalize hi : m.nextInstruction = i at hfails
  have hstack : i.usesStack = true := by
    cases hfails <;> rfl
  exact Instruction.usesStack_decode ((congrArg Instruction.usesStack hi).trans hstack)

theorem state_of_executeNext_error {m : Machine} {e : Fault} (h : m.executeNext.result = .error e) :
    m.executeNext.state = { m with fault := some e } :=
  (executeNext_of_error (execute_error_iff.2 (executeNext_error_iff.1 h))).2

theorem fault_of_executeNext_ok {m : Machine} {flow : Flow} (h : m.executeNext.result = .ok flow) :
    m.executeNext.state.fault = m.fault := by
  cases hr : m.nextEffect.result with
  | error e =>
    rw [(executeNext_of_error hr).1] at h
    cases h
  | ok p =>
    rw [(executeNext_of_ok hr).2]
    exact m.nextEffect_sameAround.fault

theorem step_error_iff {m : Machine} {e : Fault} :
    m.step.result = .error e ↔
      m.fault = some e ∨
        m.fault = none ∧ m.awaiting = none ∧ m.executeNext.result = .error e := by
  cases hf : m.fault with
  | some e' => simp [step_of_fault hf]
  | none =>
    cases hx : m.awaiting with
    | some x => simp [step_of_awaiting hf hx]
    | none => simp [step_of_running hf hx]

theorem fault_step_iff {m : Machine} {e : Fault} :
    m.step.state.fault = some e ↔ m.step.result = .error e := by
  cases hf : m.fault with
  | some e' => simp [step_of_fault hf, hf]
  | none =>
    cases hx : m.awaiting with
    | some x => simp [step_of_awaiting hf hx, hf]
    | none =>
      rw [step_of_running hf hx]
      cases hr : m.executeNext.result with
      | error e' => simp [state_of_executeNext_error hr]
      | ok flow => simp [fault_of_executeNext_ok hr, hf]

theorem fault_of_step_ok {m : Machine} {flow : Flow} (h : m.step.result = .ok flow) :
    m.step.state.fault = none := by
  cases hf : m.step.state.fault with
  | none => rfl
  | some e => cases h.symm.trans (fault_step_iff.1 hf)

theorem cycle_error_iff {m : Machine} {e : Fault} :
    m.cycle.result = .error e ↔
      m.awaiting = none ∧ m.owed = 0 ∧ m.step.result = .error e := by
  cases hx : m.awaiting with
  | some x => simp [cycle_of_awaiting hx]
  | none =>
    by_cases ho : 0 < m.owed
    · simp [cycle_of_owed hx ho, Nat.ne_of_gt ho]
    · rw [cycle_of_paid hx ho, Outcome.map_error_iff]
      simp [Nat.eq_zero_of_not_pos ho]

theorem fault_of_cycle_error {m : Machine} {e : Fault} (h : m.cycle.result = .error e) :
    m.cycle.state.fault = some e := by
  obtain ⟨hx, ho, hs⟩ := cycle_error_iff.1 h
  rw [cycle_of_paid hx (Nat.not_lt_of_le (Nat.le_of_eq ho))]
  exact fault_step_iff.2 hs

theorem fault_cycle_iff {m : Machine} (hf : m.fault = none) {e : Fault} :
    m.cycle.state.fault = some e ↔ m.cycle.result = .error e := by
  refine ⟨?_, fault_of_cycle_error⟩
  intro h
  cases hx : m.awaiting with
  | some x =>
    rw [cycle_of_awaiting hx] at h
    exact absurd (h.symm.trans hf) (Option.some_ne_none e)
  | none =>
    by_cases ho : 0 < m.owed
    · rw [cycle_of_owed hx ho] at h
      exact absurd (h.symm.trans hf) (Option.some_ne_none e)
    · rw [cycle_of_paid hx ho] at h
      exact cycle_error_iff.2 ⟨hx, Nat.eq_zero_of_not_pos ho, fault_step_iff.1 h⟩

theorem fault_of_cycle_ok {m : Machine} (hf : m.fault = none) (h : m.cycle.result = .ok ()) :
    m.cycle.state.fault = none := by
  cases he : m.cycle.state.fault with
  | none => rfl
  | some e => cases h.symm.trans ((fault_cycle_iff hf).1 he)

/-- What a draw does to the screen of the machine. -/
def drawing (m : Machine) (x y : Register) (rows : Nibble) : Drawing :=
  let wide := m.screen.hires && rows.val == 0
  let sprite := m.cpu.bytesAtIndex (if wide then 32 else rows.val)
  if m.screen.hires then
    m.screen.drawHigh (m.cpu.register x).toNat (m.cpu.register y).toNat sprite wide
  else m.screen.drawLow (m.cpu.register x).toNat (m.cpu.register y).toNat sprite

theorem draw_eq (m : Machine) (x y : Register) (rows : Nibble) :
    m.draw x y rows =
      effect { m with
          screen := (m.drawing x y rows).screen
          cpu := m.cpu.setFlag (m.drawing x y rows).flag } .draw
        (Cost.draw (m.drawing x y rows).rows (m.drawing x y rows).collisions) := rfl

theorem step_draw {m : Machine} (hf : m.fault = none) (hx : m.awaiting = none) {x y : Register}
    {rows : Nibble} (hi : m.nextInstruction = .draw x y rows) :
    let d := m.drawing x y rows
    let cost := m.settings.timing.cyclesOf (Cost.draw d.rows d.collisions)
    m.step.result = .ok .draw ∧
    m.step.state = { m with
      screen := d.screen
      cpu := m.cpu.advance.setFlag d.flag
      lastCost := cost
      owed := cost - 1 } := by
  intro d cost
  have heffect : m.nextEffect = effect
      { m with screen := d.screen, cpu := m.cpu.advance.setFlag d.flag } .draw
      (Cost.draw d.rows d.collisions) := by
    rw [nextEffect, hi]
    exact draw_eq (m.mapCpu Cpu.advance) x y rows
  rw [step_of_running hf hx]
  exact executeNext_of_effect heffect

end Machine
end Chip8
