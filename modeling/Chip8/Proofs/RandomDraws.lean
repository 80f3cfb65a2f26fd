import Chip8.Proofs.Lockstep

/-! # Random draws

The random bytes of a machine are a stream that its seed fixes. One instruction takes the next byte
of it, also where its mask keeps nothing of the byte, and nothing else does. So the bytes come in
order, one to each draw, and the seed of a machine shows only where a draw keeps something.
-/
namespace Chip8

namespace Instruction

def draws : Instruction → Bool
  | .random _ _ => true
  | _ => false

/-- The instruction takes a random byte, and keeps some of its bits. -/
def keepsDraw : Instruction → Bool
  | .random _ mask => mask != 0
  | _ => false

end Instruction

def drawCount (executions : List Execution) : Nat := executions.countP (·.2.draws)

theorem drawCount_append (before after : List Execution) :
    drawCount (before ++ after) = drawCount before + drawCount after := List.countP_append

namespace Random

def skipMany (r : Random) (count : Nat) : Random := { r with position := r.position + count }

theorem skipMany_zero (r : Random) : r.skipMany 0 = r := rfl

theorem skipMany_skipMany (r : Random) (first second : Nat) :
    (r.skipMany first).skipMany second = r.skipMany (first + second) := by
  simp only [skipMany, Nat.add_assoc]

end Random

namespace Machine

theorem random_execute (m : Machine) (pc : UInt16) (i : Instruction) :
    (m.execute pc i).machine.random = if i.draws then m.random.skip else m.random := by
  generalize hn : (m.execute pc i).machine = n
  cases i with
  | ret =>
    simp only [execute] at hn
    split at hn <;> exact hn ▸ rfl
  | call address =>
    simp only [execute] at hn
    split at hn <;> exact hn ▸ rfl
  | _ =>
    simp only [execute, draw, effect] at hn
    exact hn ▸ rfl

theorem random_executeNext (m : Machine) :
    m.executeNext.state.random = m.random.skipMany (drawCount [(m.cpu.pc, m.nextInstruction)]) := by
  have hexecute := (m.mapCpu Cpu.advance).random_execute m.cpu.pc m.nextInstruction
  have hcount : (if m.nextInstruction.draws then m.random.skip else m.random) =
      m.random.skipMany (drawCount [(m.cpu.pc, m.nextInstruction)]) := by
    cases hd : m.nextInstruction.draws <;> simp [drawCount, hd, Random.skipMany, Random.skip]
  rw [← hcount]
  cases hr : m.nextEffect.result with
  | error e =>
    have hsame : m.nextEffect.machine = m.mapCpu Cpu.advance := execute_of_error hr
    rw [(executeNext_of_error hr).2]
    exact (congrArg Machine.random hsame).symm.trans hexecute
  | ok p =>
    rw [(executeNext_of_ok hr).2]
    exact hexecute

theorem random_pressKey (m : Machine) (key : Key) : (m.pressKey key).random = m.random := by
  rw [pressKey_frame]

/-- A history takes as many random bytes as there are draws among its executions. -/
theorem historical_random :
    Historical fun m executions n => n.random = m.random.skipMany (drawCount executions) where
  refl m := m.random.skipMany_zero.symm
  trans h h' := by rw [h', h, Random.skipMany_skipMany, drawCount_append]
  execute m _ _ := m.random_executeNext
  pay _ _ _ := rfl
  clock _ _ _ := rfl
  timers _ _ := rfl
  press m key := m.random_pressKey key
  release _ _ := rfl
  clear _ := rfl
  load _ _ := rfl
  timing _ _ := rfl
  rate _ _ := rfl

theorem executeNext_random {b : Machine} {x : Register} {mask : UInt8}
    (hi : b.nextInstruction = .random x mask) :
    b.executeNext.result = .ok .normal ∧
      b.executeNext.state.cpu = b.cpu.advance.setRegister x (mask &&& b.random.peek) := by
  have heffect : b.nextEffect = effect { b with
      random := b.random.skip
      cpu := b.cpu.advance.setRegister x (mask &&& b.random.peek) } .normal Cost.random := by
    rw [nextEffect, hi]
    rfl
  obtain ⟨hresult, hstate⟩ := executeNext_of_effect heffect
  exact ⟨hresult, congrArg Machine.cpu hstate⟩

/-- The same machine with another stream of random bytes, and the seed that goes with it. -/
def withStream (m : Machine) (random : Random) (seed : Option UInt64) : Machine :=
  { m with random, settings := { m.settings with seed } }

/-- Two machines agree on all but their random bytes, and the seed of these. -/
def AgreeButStream (m n : Machine) : Prop := ∃ random seed, n = m.withStream random seed

theorem agreeButStream_new (settings : Settings) (entropy : Random.Key)
    (generator : Random.Generator) (seed : Option UInt64) (entropy' : Random.Key)
    (generator' : Random.Generator) :
    (new settings entropy generator).AgreeButStream
      (new { settings with seed } entropy' generator') :=
  ⟨⟨generator'.stream seed entropy', 0⟩, seed, rfl⟩

theorem screen_withStream (m : Machine) (random : Random) (seed : Option UInt64) (screen : Screen)
    (cost : Nat) :
    effect { m.withStream random seed with screen } .draw cost =
      ⟨(effect { m with screen } .draw cost).machine.withStream random seed,
        .ok (.draw, cost)⟩ := rfl

theorem execute_withStream (m : Machine) (random : Random) (seed : Option UInt64) (pc : UInt16)
    {i : Instruction} (hi : i.keepsDraw = false) :
    (m.withStream random seed).execute pc i =
      ⟨(m.execute pc i).machine.withStream (if i.draws then random.skip else random) seed,
        (m.execute pc i).result⟩ := by
  cases i with
  | random x mask =>
    obtain rfl : mask = 0 := by simpa [Instruction.keepsDraw] using hi
    simp only [execute, UInt8.zero_and]
    rfl
  | ret =>
    simp only [execute, withStream]
    split <;> rfl
  | call address =>
    simp only [execute, withStream]
    split <;> rfl
  | skip condition => cases condition <;> rfl
  | scrollDown rows =>
    exact m.screen_withStream random seed (m.screen.scrollDown rows) Cost.extended
  | scrollRight => exact m.screen_withStream random seed m.screen.scrollRight Cost.extended
  | scrollLeft => exact m.screen_withStream random seed m.screen.scrollLeft Cost.extended
  | _ => rfl

theorem executeNext_withStream (m : Machine) (random : Random) (seed : Option UInt64)
    (hi : m.nextInstruction.keepsDraw = false) :
    (m.withStream random seed).executeNext = m.executeNext.mapState
      (·.withStream (if m.nextInstruction.draws then random.skip else random) seed) := by
  generalize hr : (if m.nextInstruction.draws then random.skip else random) = random'
  have h : (m.withStream random seed).nextEffect =
      ⟨m.nextEffect.machine.withStream random' seed, m.nextEffect.result⟩ := by
    rw [← hr]
    exact execute_withStream (m.mapCpu Cpu.advance) random seed m.cpu.pc hi
  simp only [executeNext, h]
  rcases m.nextEffect with ⟨n, _ | ⟨flow, cost⟩⟩ <;> rfl

namespace AgreeButStream
variable {m n : Machine}

theorem executeNext (h : m.AgreeButStream n) (hi : m.nextInstruction.keepsDraw = false) :
    m.executeNext.Alike AgreeButStream n.executeNext := by
  obtain ⟨random, seed, rfl⟩ := h
  rw [executeNext_withStream m random seed hi]
  exact ⟨⟨_, seed, rfl⟩, rfl, rfl⟩

theorem pressKey (h : m.AgreeButStream n) (key : Key) :
    (m.pressKey key).AgreeButStream (n.pressKey key) := by
  obtain ⟨random, seed, rfl⟩ := h
  refine ⟨random, seed, ?_⟩
  cases hx : m.awaiting with
  | none =>
    rw [pressKey_of_running hx, pressKey_of_running (m := m.withStream random seed) hx]
    rfl
  | some x =>
    rw [pressKey_of_awaiting hx, pressKey_of_awaiting (m := m.withStream random seed) hx]
    rfl

end AgreeButStream

theorem lockstep_agreeButStream :
    Lockstep (fun e => e.2.keepsDraw = false) AgreeButStream where
  fault := fun ⟨_, _, h⟩ => h ▸ rfl
  awaiting := fun ⟨_, _, h⟩ => h ▸ rfl
  owed := fun ⟨_, _, h⟩ => h ▸ rfl
  clock := fun ⟨_, _, h⟩ => h ▸ rfl
  executeNext h hi := h.executeNext hi
  pay _ := fun ⟨random, seed, h⟩ => ⟨random, seed, h ▸ rfl⟩
  withClock _ := fun ⟨random, seed, h⟩ => ⟨random, seed, h ▸ rfl⟩
  timers _ := fun ⟨random, seed, h⟩ => ⟨random, seed, h ▸ rfl⟩
  pressKey key h := h.pressKey key
  releaseKey _ := fun ⟨random, seed, h⟩ => ⟨random, seed, h ▸ rfl⟩
  clearKeys := fun ⟨random, seed, h⟩ => ⟨random, seed, h ▸ rfl⟩
  loadProgram _ := fun ⟨random, seed, h⟩ => ⟨random, seed, h ▸ rfl⟩
  setTiming _ := fun ⟨random, seed, h⟩ => ⟨random, seed, h ▸ rfl⟩
  setRate _ := fun ⟨random, seed, h⟩ => ⟨random, seed, h ▸ rfl⟩

/-- Every draw takes the next byte of the stream that the seed fixes, and only draws take one: the
draw that comes after `k` others sets its register to the masked byte at position `k`. So machines
that differ in their stream only tell a host the same, and go on to differ in nothing else, as long
as no draw keeps anything of its byte. -/
theorem random_bytes_in_order :
    (∀ settings entropy generator session,
      let m := new settings entropy generator
      let stream := generator.stream settings.seed entropy
      m.trace session = Event.executions (m.events session) ∧
      (m.performAll session).random = ⟨stream, drawCount (m.trace session)⟩ ∧
      ∀ before b after, m.events session = before ++ .executes b :: after →
        let k := drawCount (Event.executions before)
        b.random = ⟨stream, k⟩ ∧
        ∀ x mask, b.nextInstruction = .random x mask →
          b.executeNext.result = .ok .normal ∧
          b.executeNext.state.cpu =
            b.cpu.advance.setRegister x (mask &&& stream k) ∧
          b.executeNext.state.random = ⟨stream, k + 1⟩) ∧
    (∀ settings entropy generator seed entropy' generator',
      (new settings entropy generator).AgreeButStream
        (new { settings with seed } entropy' generator')) ∧
    (∀ m n : Machine, m.AgreeButStream n → ∀ session operation,
      (∀ e ∈ m.trace (session ++ [operation]), e.2.keepsDraw = false) →
      ((m.performAll session).perform operation).Alike AgreeButStream
        ((n.performAll session).perform operation)) := by
  refine ⟨?_, agreeButStream_new, fun m n h session operation hi =>
    lockstep_agreeButStream.alike h hi⟩
  intro settings entropy generator session m stream
  obtain ⟨hcourse, htrace⟩ := m.course_performAll session
  have hposition {executions : List Execution} {n : Machine}
      (h : n.random = m.random.skipMany (drawCount executions)) :
      n.random = ⟨stream, drawCount executions⟩ := by
    rw [h, Random.skipMany]
    exact congrArg (Random.mk stream) (Nat.zero_add _)
  refine ⟨htrace, hposition (historical_random.performAll m session), ?_⟩
  intro before b after hevents k
  rw [hevents] at hcourse
  have hb : b.random = ⟨stream, k⟩ := hposition (hcourse.split.1.historical historical_random)
  refine ⟨hb, ?_⟩
  intro x mask hi
  obtain ⟨hresult, hcpu⟩ := executeNext_random hi
  have hrandom := b.random_executeNext
  rw [hi, hb] at hrandom
  rw [hb] at hcpu
  exact ⟨hresult, hcpu, hrandom⟩

/-- The first of two draws keeps nothing of its byte. It shows in no answer what the seed is, but
the second draw takes the second byte. -/
theorem random_bytes_in_order_of_two :
    let program := [0xC1, 0x00, 0xC2, 0xFF]
    let m := new { seed := some 7 } 0
    let n := new { seed := some 8 } 0
    let first := m.loadProgram program
    let second := first.afterSteps 1
    m.events [.loadProgram program, .runSteps 2] =
      [.loads program, .executes first] ++ [.executes second] ∧
    second.nextInstruction = .random 2 0xFF ∧
    second.executeNext.state.cpu.register 2 = 0xFF &&& Random.Generator.chaCha.ofSeed 7 1 ∧
    m.trace ([.loadProgram program] ++ [.step]) = [(0x200, .random 1 0)] ∧
    ((n.performAll [.loadProgram program]).perform .step).result =
      ((m.performAll [.loadProgram program]).perform .step).result := by
  intro program m n first second
  have hfirst : first.nextInstruction = .random 1 0 := by decide +kernel
  have hsecond : second.nextInstruction = .random 2 0xFF := by decide +kernel
  have hrunning : ∀ j < 2,
      (first.afterSteps j).fault = none ∧ (first.afterSteps j).awaiting = none := by
    decide +kernel
  have hevents : m.events [.loadProgram program, .runSteps 2] =
      [.loads program, .executes first] ++ [.executes second] := by
    have hsteps := stepsEvents_of_running fun j hj => ⟨(hrunning j hj).1, (hrunning j hj).2⟩
    change [Event.loads program] ++ (first.stepsEvents 2 ++ []) = _
    rw [List.append_nil, hsteps]
    rfl
  have htrace : m.trace ([.loadProgram program] ++ [.step]) = [(0x200, .random 1 0)] := by
    decide +kernel
  obtain ⟨horder, hnew, halike⟩ := random_bytes_in_order
  obtain ⟨-, -, hdraws⟩ := horder { seed := some 7 } 0 .chaCha [.loadProgram program, .runSteps 2]
  obtain ⟨-, hdraw⟩ := hdraws [.loads program, .executes first] second [] hevents
  obtain ⟨-, hcpu, -⟩ := hdraw 2 0xFF hsecond
  have hcount : drawCount (Event.executions [.loads program, .executes first]) = 1 := by
    change drawCount [(first.cpu.pc, first.nextInstruction)] = 1
    rw [hfirst]
    rfl
  refine ⟨hevents, hsecond, ?_, htrace, ?_⟩
  · rw [hcpu, hcount]
    exact Cpu.register_setRegister_self _ _ _
  · refine (halike m n (hnew { seed := some 7 } 0 .chaCha (some 8) 0 .chaCha) _ _ ?_).result
    rw [htrace]
    intro e he
    cases List.mem_singleton.1 he
    rfl

end Machine
end Chip8
