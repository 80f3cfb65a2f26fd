import Chip8.Proofs.HighIndex

/-! # Legacy habits

The settings ask for two habits of the COSMAC VIP: how a shift uses its second register, and where a
block of registers leaves `I`. A habit shows in its own instructions only, and in a shift only where
the two registers differ; nothing depends on either in what an instruction costs. Two machines that
differ in their habits are alike until they execute such an instruction.
-/
namespace Chip8

/-- The habits of the COSMAC VIP that the settings ask for. -/
structure Habits where
  shift : Bool
  memory : Bool
deriving DecidableEq

namespace Instruction

def shiftsAcross : Instruction → Bool
  | .arithmetic .shiftRight x y | .arithmetic .shiftLeft x y => x != y
  | _ => false

/-- The block of registers that an instruction moves to or from memory, by its last register. -/
def block? : Instruction → Option Register
  | .storeRegisters last | .loadRegisters last => some last
  | _ => none

/-- An instruction is none of those that tell two machines of these habits apart. -/
structure Indifferent (mine other : Habits) (i : Instruction) : Prop where
  shift : mine.shift ≠ other.shift → i.shiftsAcross = false
  block : mine.memory ≠ other.memory → i.block? = none

theorem Indifferent.legacyMemory_eq {mine other : Habits} {i : Instruction} {last : Register}
    (h : i.Indifferent mine other) (hi : i.block? = some last) : other.memory = mine.memory := by
  by_contra hne
  cases hi.symm.trans (h.block fun heq => hne heq.symm)

end Instruction

namespace Cpu

/-- Where source and destination are the same register, it does not matter which is shifted. -/
theorem arithmetic_of_not_across (c : Cpu) {legacy legacy' : Bool} {op : Arithmetic}
    {x y : Register}
    (h : legacy ≠ legacy' → (Instruction.arithmetic op x y).shiftsAcross = false) :
    c.arithmetic legacy' op x y = c.arithmetic legacy op x y := by
  by_cases hl : legacy = legacy'
  · rw [hl]
  · have hacross := h hl
    cases op with
    | shiftRight =>
      obtain rfl : x = y := by simpa [Instruction.shiftsAcross] using hacross
      simp only [arithmetic, ite_self]
    | shiftLeft =>
      obtain rfl : x = y := by simpa [Instruction.shiftsAcross] using hacross
      simp only [arithmetic, ite_self]
    | _ => rfl

end Cpu

namespace Machine

def habits (m : Machine) : Habits := ⟨m.settings.legacyShift, m.settings.legacyMemory⟩

def withHabits (m : Machine) (h : Habits) : Machine :=
  { m with settings := { m.settings with legacyShift := h.shift, legacyMemory := h.memory } }

/-- Two machines of some habits agree on all else. -/
structure AgreeButHabits (mine other : Habits) (m n : Machine) : Prop where
  habits : m.habits = mine
  rest : n = m.withHabits other

theorem screen_withHabits (m : Machine) (h : Habits) (screen : Screen) (cost : Nat) :
    effect { m.withHabits h with screen } .draw cost =
      ⟨(effect { m with screen } .draw cost).machine.withHabits h, .ok (.draw, cost)⟩ := rfl

theorem execute_withHabits (m : Machine) (other : Habits) (pc : UInt16) {i : Instruction}
    (hi : i.Indifferent m.habits other) :
    (m.withHabits other).execute pc i =
      ⟨(m.execute pc i).machine.withHabits other, (m.execute pc i).result⟩ := by
  cases i with
  | ret =>
    simp only [execute, withHabits]
    split <;> rfl
  | call address =>
    simp only [execute, withHabits]
    split <;> rfl
  | skip condition => cases condition <;> rfl
  | arithmetic op x y =>
    have hcpu := m.cpu.arithmetic_of_not_across hi.shift
    exact congrArg (fun cpu => effect { m.withHabits other with cpu } .normal
      (if op = .copy then Cost.loadRegister else Cost.arithmetic)) hcpu
  | storeRegisters last =>
    have hlegacy : other.memory = m.settings.legacyMemory := hi.legacyMemory_eq rfl
    exact congrArg (fun legacy => effect { m.withHabits other with
      cpu := (m.cpu.store (m.cpu.block last)).pastBlock legacy last } .normal (blockCost last))
      hlegacy
  | loadRegisters last =>
    have hlegacy : other.memory = m.settings.legacyMemory := hi.legacyMemory_eq rfl
    exact congrArg (fun legacy => effect { m.withHabits other with
      cpu := (m.cpu.setBlock (m.cpu.bytesAtIndex (last.val + 1))).pastBlock legacy last } .normal
      (blockCost last)) hlegacy
  | scrollDown rows => exact m.screen_withHabits other (m.screen.scrollDown rows) Cost.extended
  | scrollRight => exact m.screen_withHabits other m.screen.scrollRight Cost.extended
  | scrollLeft => exact m.screen_withHabits other m.screen.scrollLeft Cost.extended
  | _ => rfl

theorem pastBlock_withHabits (m : Machine) (h : Habits) (c : Cpu) (last : Register) (cost : Nat) :
    effect { m.withHabits h with cpu := c.pastBlock true last } .normal cost =
      ⟨({ m with cpu := c.pastBlock false last }.withHabits h).withIndex
          ((c.pastBlock false last).index + UInt16.ofNat (last.val + 1)), .ok (.normal, cost)⟩ := rfl

/-- A block of registers leaves `I` where it was, or with the habit behind its last byte. -/
theorem execute_block_withHabits (m : Machine) {other : Habits} (hmine : m.habits.memory = false)
    (hother : other.memory = true) (pc : UInt16) {i : Instruction} {last : Register}
    (hi : i.block? = some last) :
    (m.withHabits other).execute pc i =
      ⟨((m.execute pc i).machine.withHabits other).withIndex
          ((m.execute pc i).machine.cpu.index + UInt16.ofNat (last.val + 1)),
        (m.execute pc i).result⟩ := by
  have hlegacy : m.settings.legacyMemory = false := hmine
  have hlegacy' : (m.withHabits other).settings.legacyMemory = true := hother
  cases i with
  | storeRegisters _ =>
    cases hi
    simp only [execute, hlegacy, hlegacy']
    exact m.pastBlock_withHabits other (m.cpu.store (m.cpu.block last)) last (blockCost last)
  | loadRegisters _ =>
    cases hi
    simp only [execute, hlegacy, hlegacy']
    exact m.pastBlock_withHabits other (m.cpu.setBlock (m.cpu.bytesAtIndex (last.val + 1))) last
      (blockCost last)
  | _ => cases hi

theorem executeNext_withHabits (m : Machine) {other : Habits}
    (hi : m.nextInstruction.Indifferent m.habits other) :
    (m.withHabits other).executeNext = m.executeNext.mapState (·.withHabits other) := by
  have h : (m.withHabits other).nextEffect =
      ⟨m.nextEffect.machine.withHabits other, m.nextEffect.result⟩ :=
    execute_withHabits (m.mapCpu Cpu.advance) other m.cpu.pc hi
  simp only [executeNext, h]
  rcases m.nextEffect with ⟨n, _ | ⟨flow, cost⟩⟩ <;> rfl

theorem executeNext_block_withHabits (m : Machine) {other : Habits}
    (hmine : m.habits.memory = false) (hother : other.memory = true) {last : Register}
    (hi : m.nextInstruction.block? = some last) :
    (m.withHabits other).executeNext = m.executeNext.mapState fun n =>
      (n.withHabits other).withIndex (n.cpu.index + UInt16.ofNat (last.val + 1)) := by
  have h : (m.withHabits other).nextEffect =
      ⟨(m.nextEffect.machine.withHabits other).withIndex
          (m.nextEffect.machine.cpu.index + UInt16.ofNat (last.val + 1)),
        m.nextEffect.result⟩ :=
    execute_block_withHabits (m.mapCpu Cpu.advance) hmine hother m.cpu.pc hi
  simp only [executeNext, h]
  rcases m.nextEffect with ⟨n, _ | ⟨flow, cost⟩⟩ <;> rfl

theorem habits_executeNext (m : Machine) : m.executeNext.state.habits = m.habits := by
  rw [habits, m.settings_executeNext, habits]

namespace AgreeButHabits
variable {mine other : Habits} {m n : Machine}

theorem cpu (h : AgreeButHabits mine other m n) : n.cpu = m.cpu := by
  rw [h.rest]
  rfl

theorem symm (h : AgreeButHabits mine other m n) : AgreeButHabits other mine n m := by
  obtain ⟨rfl, rfl⟩ := h
  exact ⟨rfl, rfl⟩

theorem symm_withIndex (h : AgreeButHabits mine other m (n.withIndex m.cpu.index)) :
    AgreeButHabits other mine n (m.withIndex n.cpu.index) := by
  obtain ⟨rfl, hrest⟩ := h
  have hn : n = (m.withHabits other).withIndex n.cpu.index :=
    congrArg (·.withIndex n.cpu.index) hrest
  generalize n.cpu.index = index at hn ⊢
  subst hn
  exact ⟨rfl, rfl⟩

theorem executeNext (h : AgreeButHabits mine other m n)
    (hi : m.nextInstruction.Indifferent mine other) :
    m.executeNext.Alike (AgreeButHabits mine other) n.executeNext := by
  obtain ⟨rfl, rfl⟩ := h
  rw [executeNext_withHabits m hi]
  exact ⟨⟨m.habits_executeNext, rfl⟩, rfl, rfl⟩

theorem executeNext_block (h : AgreeButHabits mine other m n) (hmine : mine.memory = false)
    (hother : other.memory = true) {last : Register}
    (hi : m.nextInstruction.block? = some last) :
    m.executeNext.Alike (fun m' n' =>
      AgreeButHabits mine other m' (n'.withIndex m'.cpu.index) ∧
      n'.cpu.index = m'.cpu.index + UInt16.ofNat (last.val + 1)) n.executeNext := by
  obtain ⟨rfl, rfl⟩ := h
  rw [executeNext_block_withHabits m hmine hother hi]
  have hhabits := m.habits_executeNext
  generalize m.executeNext = o at hhabits ⊢
  exact ⟨⟨⟨hhabits, rfl⟩, rfl⟩, rfl, rfl⟩

theorem pressKey (h : AgreeButHabits mine other m n) (key : Key) :
    AgreeButHabits mine other (m.pressKey key) (n.pressKey key) := by
  obtain ⟨rfl, rfl⟩ := h
  cases hx : m.awaiting with
  | none =>
    rw [pressKey_of_running hx, pressKey_of_running (m := m.withHabits other) hx]
    exact ⟨rfl, rfl⟩
  | some x =>
    rw [pressKey_of_awaiting hx, pressKey_of_awaiting (m := m.withHabits other) hx]
    exact ⟨rfl, rfl⟩

end AgreeButHabits

theorem lockstep_agreeButHabits (mine other : Habits) :
    Lockstep (fun e => e.2.Indifferent mine other) (AgreeButHabits mine other) where
  fault h := (congrArg Machine.fault h.rest :)
  awaiting h := (congrArg Machine.awaiting h.rest :)
  owed h := (congrArg Machine.owed h.rest :)
  clock h := (congrArg Machine.clock h.rest :)
  executeNext h hi := h.executeNext hi
  pay owed h := ⟨h.habits, congrArg (fun m : Machine => { m with owed }) h.rest⟩
  withClock clock h := ⟨h.habits, congrArg (·.withClock clock) h.rest⟩
  timers elapsed h :=
    ⟨h.habits, congrArg (fun m : Machine => { m with timers := m.timers.advance elapsed }) h.rest⟩
  pressKey key h := h.pressKey key
  releaseKey key h := ⟨h.habits, congrArg (·.releaseKey key) h.rest⟩
  clearKeys h := ⟨h.habits, congrArg clearKeys h.rest⟩
  loadProgram program h := ⟨h.habits, congrArg (·.loadProgram program) h.rest⟩
  setTiming timing h := ⟨h.habits, congrArg (·.setTiming timing) h.rest⟩
  setRate hz h := ⟨h.habits, congrArg (·.setRate hz) h.rest⟩

/-- Two machines that differ in their habits only tell a host the same, and go on to differ in
nothing else, as long as they execute none of the instructions that a habit they differ in is about.
A block of registers that is moved with the habit and without it leaves `I` apart by its length, and
nothing else. -/
theorem habits_show_in_their_instructions {mine other : Habits} {m n : Machine}
    (h : AgreeButHabits mine other m n) :
    (∀ session operation,
      (∀ e ∈ m.trace (session ++ [operation]), e.2.Indifferent mine other) →
      ((m.performAll session).perform operation).Alike (AgreeButHabits mine other)
        ((n.performAll session).perform operation)) ∧
    (∀ last, mine.memory ≠ other.memory → m.Running → m.nextInstruction.block? = some last →
      m.step.Alike (fun m' n' =>
        AgreeButHabits mine other m' (n'.withIndex m'.cpu.index) ∧
        if other.memory then n'.cpu.index = m'.cpu.index + UInt16.ofNat (last.val + 1)
        else m'.cpu.index = n'.cpu.index + UInt16.ofNat (last.val + 1)) n.step) := by
  refine ⟨fun session operation hi => (lockstep_agreeButHabits mine other).alike h hi, ?_⟩
  intro last hne hrun hi
  have hstep := step_of_running hrun.fault hrun.awaiting
  have hstep' : n.step = n.executeNext := by
    rw [h.rest]
    exact step_of_running (m := m.withHabits other) hrun.fault hrun.awaiting
  have hi' : n.nextInstruction.block? = some last := by
    rw [h.rest]
    exact hi
  rw [hstep, hstep']
  cases hother : other.memory with
  | true =>
    have hmine : mine.memory = false := by simpa [hother] using hne
    obtain ⟨⟨hagree, hindex⟩, hresult, hnotices⟩ := h.executeNext_block hmine hother hi
    exact ⟨⟨hagree, hindex⟩, hresult, hnotices⟩
  | false =>
    have hmine : mine.memory = true := by simpa [hother] using hne
    obtain ⟨⟨hagree, hindex⟩, hresult, hnotices⟩ := h.symm.executeNext_block hother hmine hi'
    exact ⟨⟨hagree.symm_withIndex, hindex⟩, hresult.symm, hnotices.symm⟩

/-- Machines with both habits and with neither shift a register into itself alike, and store two
registers alike but for `I`. -/
theorem habits_show_in_their_instructions_of_store :
    let mine : Habits := ⟨false, false⟩
    let other : Habits := ⟨true, true⟩
    let m := (new {} 0).loadProgram [0x81, 0x16, 0xF1, 0x55]
    let n := (new { legacyShift := true, legacyMemory := true } 0).loadProgram
      [0x81, 0x16, 0xF1, 0x55]
    let m' := (m.perform .step).state
    let n' := (n.perform .step).state
    AgreeButHabits mine other m n ∧ m.trace [.step] = [(0x200, .arithmetic .shiftRight 1 1)] ∧
      AgreeButHabits mine other m' n' ∧ m'.nextInstruction = .storeRegisters 1 ∧
      n'.step.state.cpu.memory = m'.step.state.cpu.memory ∧
      n'.step.state.cpu.index = m'.step.state.cpu.index + 2 := by
  intro mine other m n m' n'
  have hnew : AgreeButHabits mine other (new {} 0)
      (new { legacyShift := true, legacyMemory := true } 0) := ⟨rfl, rfl⟩
  have h : AgreeButHabits mine other m n :=
    (lockstep_agreeButHabits mine other).loadProgram [0x81, 0x16, 0xF1, 0x55] hnew
  have htrace : m.trace [.step] = [(0x200, .arithmetic .shiftRight 1 1)] := by decide +kernel
  have hshift : ∀ e ∈ m.trace ([] ++ [.step]), e.2.Indifferent mine other := by
    rw [List.nil_append, htrace]
    intro e he
    cases List.mem_singleton.1 he
    exact ⟨fun _ => rfl, fun _ => rfl⟩
  have h' : AgreeButHabits mine other m' n' :=
    ((habits_show_in_their_instructions h).1 [] .step hshift).state
  have hnext : m'.nextInstruction = .storeRegisters 1 ∧ m'.fault = none ∧ m'.awaiting = none := by
    decide +kernel
  obtain ⟨hagree, hindex⟩ := ((habits_show_in_their_instructions h').2 1 (by decide)
    ⟨hnext.2.1, hnext.2.2⟩ (congrArg Instruction.block? hnext.1)).state
  have hmemory := congrArg Cpu.memory hagree.cpu
  rw [memory_withIndex] at hmemory
  exact ⟨h, htrace, h', hnext.1, hmemory, hindex⟩

end Machine
end Chip8
