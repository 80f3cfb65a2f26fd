import Chip8.Machine.Dump
import Chip8.Proofs.Checked.Execution
import Chip8.Proofs.DrawOrder
import Chip8.Proofs.Coherence

/-! # Sessions within bounds

The machine from when it is switched on, and all that a host does to it, with each loop, copy,
division and count that this takes. An update takes its cycles in at most so many turns as a clock
catches up on. No session of any settings comes to a trap, and each leaves the machine that it
leaves without checks; nor does anything that a host reads from that machine, or draws on a screen
of its own.
-/
namespace Chip8

def Outcome.answer {σ α : Type} (o : Outcome σ α) : σ × Except Fault α := (o.state, o.result)

namespace Checked

/-- A clock of these parts, which a clock only is when they go together. -/
def clockOf (period cap pending : Nat) : Checked Clock :=
  if h : 0 < period ∧ period ≤ nanosPerSecond ∧ cap = period * maxCyclesPerUpdate then
    .ok ⟨period, cap, pending, h.1, h.2.1, h.2.2⟩
  else .error .unreachable

def clockAt (hz : UInt64) (pending : Nat) : Checked Clock := do
  let period ← div nanosPerSecond (Rate.clamp hz).toNat
  let cap ← mul (2 ^ 64) period maxCyclesPerUpdate
  clockOf period cap pending

def take? (c : Clock) : Checked (Option Clock) :=
  if c.period ≤ c.pending then do return some { c with pending := ← sub c.pending c.period }
  else return none

def rate (c : Clock) : Checked UInt64 := do
  return UInt64.ofNat (← div nanosPerSecond c.period)

def advanceTimers (t : Timers) (elapsed : Nat) : Checked Timers := do
  let time := addTime t.pending elapsed
  let period ← div nanosPerSecond timerFrequency
  let ticks ← div time period
  let pending ← mod time period
  return ⟨Timers.countDown t.delay ticks, Timers.countDown t.sound ticks, pending⟩

def setKey (p : Keypad) (key : Key) (pressed : Bool) : Checked Keypad := do
  return ⟨← set p.down key.val pressed⟩

theorem clockAt_eq (hz : UInt64) (pending : Nat) :
    clockAt hz pending = .ok { Clock.ofRate hz with pending } := by
  have hpos := Rate.period_pos hz
  have hle := Rate.period_le hz
  have hcap : Rate.period hz * maxCyclesPerUpdate < 2 ^ 64 := by
    simp only [nanosPerSecond, maxCyclesPerUpdate] at hle ⊢
    omega
  rw [clockAt, div_eq (Rate.one_le_clamp hz), ok_bind]
  change (mul (2 ^ 64) (Rate.period hz) maxCyclesPerUpdate >>= _) = _
  rw [mul_eq hcap, ok_bind]
  exact dif_pos ⟨hpos, hle, rfl⟩

theorem take?_eq (c : Clock) : take? c = .ok c.take? := by
  by_cases h : c.period ≤ c.pending
  · rw [take?, if_pos h, sub_eq h, Clock.take?, if_pos h]
    rfl
  · rw [take?, if_neg h, Clock.take?, if_neg h]
    rfl

theorem rate_eq (c : Clock) : rate c = .ok c.rate := by
  rw [rate, div_eq c.period_pos]
  rfl

theorem advanceTimers_eq (t : Timers) (elapsed : Nat) :
    advanceTimers t elapsed = .ok (t.advance elapsed) := by
  rw [advanceTimers, div_eq (show 0 < timerFrequency by decide), ok_bind,
    div_eq (show 0 < nanosPerSecond / timerFrequency by decide), ok_bind,
    mod_eq (show 0 < nanosPerSecond / timerFrequency by decide)]
  rfl

theorem setKey_eq (p : Keypad) (key : Key) (pressed : Bool) :
    setKey p key pressed = .ok (p.set key pressed) := by
  rw [setKey, set_eq p.down key.isLt]
  rfl

/-- Copy a program into memory, as far as it fits; the number of bytes copied, and dropped. -/
def load (size : Nat) (c : Cpu) (program : List UInt8) : Checked (Cpu × Nat × Nat) := do
  let count := min program.length (← sub memorySize programStart)
  let last ← add size programStart count
  let bytes ← copyFrom c.memory.bytes programStart last (← slice program 0 count)
  let dropped ← sub program.length count
  return ({ c with memory := ⟨bytes⟩ }, count, dropped)

def new (size : Nat) (settings : Settings) (entropy : Random.Key)
    (generator : Random.Generator := .chaCha) : Checked Machine := do
  let last ← add size fontStart font.length
  let bytes ← copyFrom Memory.zero.bytes fontStart last font
  let clock ← clockAt (settings.withRate settings.rate).clockRate 0
  return { Machine.new settings entropy generator with
    cpu := { Cpu.initial with memory := ⟨bytes⟩ }
    clock }

theorem copyFrom_memory (m : Memory) {start last : Nat} {bytes : List UInt8}
    (hlast : last = start + bytes.length) (h : last ≤ 4096) :
    copyFrom m.bytes start last bytes = .ok (m.writeAll start bytes).bytes := by
  rw [copyFrom_eq m.bytes (by omega) h (by omega)]
  refine congrArg Except.ok (Vector.ext fun i hi => ?_)
  have hread := m.read_writeAll (hlast ▸ h) hi
  simp only [Memory.read, Memory.cell, Nat.mod_eq_of_lt hi, Fin.getElem_fin] at hread
  rw [hread, Vector.getElem_ofFn]
  rfl

theorem load_eq {size : Nat} (h : 2 ^ 32 ≤ size) (c : Cpu) (program : List UInt8) :
    load size c program =
      .ok (c.load program, Cpu.loadCount program, program.length - Cpu.loadCount program) := by
  have hstart : programStart = 0x200 := rfl
  have hroom : memorySize - programStart = 0xE00 := rfl
  have hlength : (program.take (min program.length (memorySize - programStart))).length =
      min program.length (memorySize - programStart) := by
    rw [List.length_take]
    omega
  have htake : program.take (min program.length (memorySize - programStart)) =
      program.take (memorySize - programStart) := by
    rw [Nat.min_comm, ← List.take_eq_take_min]
  rw [load, sub_eq (show programStart ≤ memorySize by decide), ok_bind]
  dsimp only
  rw [add_eq (by omega), ok_bind,
    slice_eq program (Nat.zero_le _) (Nat.min_le_left _ _), ok_bind, List.drop_zero,
    copyFrom_memory c.memory (by rw [hlength]) (by omega), ok_bind,
    sub_eq (Nat.min_le_left _ _), htake]
  rfl

theorem new_eq {size : Nat} (h : 2 ^ 32 ≤ size) (settings : Settings) (entropy : Random.Key)
    (generator : Random.Generator) :
    new size settings entropy generator = .ok (Machine.new settings entropy generator) := by
  have hlast : fontStart + font.length = 0xA0 := rfl
  rw [new, add_eq (by rw [hlast]; omega), ok_bind, copyFrom_memory Memory.zero rfl (by decide),
    ok_bind, clockAt_eq]
  rfl

def settle (pc : UInt16) (e : Effect) : Checked (Machine × Except Fault Flow) :=
  let m := e.machine
  match e.result with
  | .ok (flow, cost) => do
    let cycles := m.settings.timing.cyclesOf cost
    return ({ m with lastCost := cycles, owed := ← sub cycles 1 }, .ok flow)
  | .error fault =>
    return ({ m with cpu := { m.cpu with pc }, fault := some fault }, .error fault)

def step (size : Nat) (m : Machine) : Checked (Machine × Except Fault Flow) :=
  match m.fault, m.awaiting with
  | some fault, _ => return (m, .error fault)
  | none, some _ => return (m, .ok .keyWait)
  | none, none => do
    let op ← decode (← fetch size m.cpu)
    let e ← execute size (m.mapCpu Cpu.advance) m.cpu.pc op
    settle m.cpu.pc e

def stepsFrom (size : Nat) : Nat → Machine → Except Fault Flow →
    Checked (Machine × Except Fault Flow)
  | 0, m, result => return (m, result)
  | n + 1, m, _ => do
    let (m, result) ← step size m
    match result with
    | .error fault => return (m, .error fault)
    | .ok .keyWait => return (m, .ok .keyWait)
    | .ok flow => stepsFrom size n m (.ok flow)

def cycle (size : Nat) (m : Machine) : Checked (Machine × Except Fault Unit) :=
  if m.isAwaiting then return (m, .ok ())
  else if 0 < m.owed then do return ({ m with owed := ← sub m.owed 1 }, .ok ())
  else do
    let (m, result) ← step size m
    return (m, result.map fun _ => ())

/-- Take cycles from the clock and spend them, in so many turns at most. -/
def spend (size : Nat) : Nat → Machine → Nat → Checked (Machine × Except Fault Nat)
  | 0, _, _ => .error .endless
  | turns + 1, m, spent => do
    match ← take? m.clock with
    | none => return (m, .ok spent)
    | some clock =>
      let (m, result) ← cycle size (m.withClock clock)
      match result with
      | .error fault => return (m, .error fault)
      | .ok () => spend size turns m (← add (2 ^ 64) spent 1)

/-- Let time pass. The last turn of the loop is the one that finds no cycle. -/
def update (size : Nat) (m : Machine) (elapsed : Nat) : Checked (Machine × Except Fault Nat) :=
  match m.fault with
  | some fault => return (m, .error fault)
  | none => do
    let (m, result) ←
      spend size (maxCyclesPerUpdate + 1) (m.withClock (m.clock.advance elapsed)) 0
    match result with
    | .error fault => return (m, .error fault)
    | .ok cycles =>
      return ({ m with timers := ← advanceTimers m.timers elapsed }, .ok cycles)

theorem settle_eq (pc : UInt16) (notices : List Notice) (e : Effect) :
    settle pc e = .ok (e.settle pc notices).answer := by
  rcases e with ⟨m, fault | ⟨flow, cost⟩⟩
  · rfl
  · have hpos := m.settings.timing.cyclesOf_pos cost
    simp only [settle, sub_eq hpos]
    rfl

theorem step_eq {size : Nat} (h : 2 ^ 32 ≤ size) {m : Machine} (hm : m.Sound) :
    step size m = .ok m.step.answer := by
  cases hf : m.fault with
  | some fault =>
    rw [Machine.step_of_fault hf]
    simp only [step, hf]
    rfl
  | none =>
    cases hx : m.awaiting with
    | some x =>
      rw [Machine.step_of_awaiting hf hx]
      simp only [step, hf, hx]
      rfl
    | none =>
      rw [Machine.step_of_running hf hx]
      simp only [step, hf, hx]
      rw [fetch_eq h, ok_bind, decode_eq, ok_bind,
        execute_eq h (m := m.mapCpu Cpu.advance) hm.bounds.advance.sp_le, ok_bind]
      exact settle_eq _ _ _

theorem cycle_eq {size : Nat} (h : 2 ^ 32 ≤ size) {m : Machine} (hm : m.Sound) :
    cycle size m = .ok m.cycle.answer := by
  simp only [cycle, Machine.cycle]
  split
  · rfl
  · split
    · rename_i howed
      rw [sub_eq howed]
      rfl
    · rw [step_eq h hm]
      rfl

theorem stepsFrom_eq {size : Nat} (h : 2 ^ 32 ≤ size) (n : Nat) {m : Machine} (hm : m.Sound)
    (result : Except Fault Flow) (notices : List Notice) :
    stepsFrom size n m result = .ok (Machine.stepsFrom n ⟨m, result, notices⟩).answer := by
  induction n generalizing m result notices with
  | zero => rfl
  | succ n ih =>
    rw [stepsFrom, step_eq h hm, ok_bind]
    cases hr : m.step.result with
    | error e =>
      rw [Machine.stepsFrom_of_error hr]
      simp only [Outcome.answer, hr]
      rfl
    | ok flow =>
      by_cases hk : flow = .keyWait
      · subst hk
        rw [Machine.stepsFrom_of_keyWait hr]
        simp only [Outcome.answer, hr]
        rfl
      · rw [Machine.stepsFrom_of_ok hr hk,
          ← ih (Machine.historical_sound.step m hm) (.ok flow) (m.step.notices ++ notices)]
        simp only [Outcome.answer, hr]

/-- A loop with more turns than there are cycles ends, and not for a lack of turns. -/
theorem spend_eq {size : Nat} (h : 2 ^ 32 ≤ size) {turns : Nat} {m : Machine} (hm : m.Sound)
    (hturns : m.clock.available < turns) {spent : Nat} (hspent : spent + turns < 2 ^ 64)
    (notices : List Notice) :
    spend size turns m spent = .ok (m.spend spent notices).answer := by
  induction turns generalizing m spent notices with
  | zero => exact absurd hturns (Nat.not_lt_zero _)
  | succ turns ih =>
    rw [spend, take?_eq, ok_bind]
    cases ht : m.clock.take? with
    | none =>
      rw [Machine.spend_of_take?_none ht]
      rfl
    | some clock =>
      have hsound := Machine.historical_sound.clock m clock (Clock.period_of_take? ht) hm
      have hcycle := cycle_eq h hsound
      rw [Machine.cycle_withClock] at hcycle
      rw [Machine.spend_of_take?_some ht]
      dsimp only
      rw [hcycle, ok_bind]
      cases hr : m.cycle.result with
      | error e =>
        simp only [Outcome.answer, Outcome.mapState, hr]
        rfl
      | ok u =>
        have hnext := Machine.historical_sound.clock m.cycle.state clock
          ((Clock.period_of_take? ht).trans (congrArg Clock.period m.clock_cycle).symm)
          (Machine.historical_sound.cycle m hm)
        have hclock : clock.available < turns := by
          obtain ⟨hle, rfl⟩ := Clock.take?_eq_some_iff.1 ht
          have hpos : 0 < m.clock.available := Nat.div_pos hle m.clock.period_pos
          rw [Clock.available_take]
          omega
        have hrest := ih (m := m.cycle.state.withClock clock) hnext hclock
          (show spent + 1 + turns < 2 ^ 64 by omega) (m.cycle.notices ++ notices)
        simp only [Outcome.answer, Outcome.mapState, hr]
        rw [add_eq (by omega), ok_bind, hrest]
        rfl

theorem update_eq {size : Nat} (h : 2 ^ 32 ≤ size) {m : Machine} (hm : m.Sound) (elapsed : Nat) :
    update size m elapsed = .ok (m.update elapsed).answer := by
  cases hf : m.fault with
  | some e =>
    rw [Machine.update_of_fault hf]
    simp only [update, hf]
    rfl
  | none =>
    have hsound := Machine.historical_sound.clock m (m.clock.advance elapsed) rfl hm
    have hturns : (m.clock.advance elapsed).available < maxCyclesPerUpdate + 1 :=
      Nat.lt_succ_of_le (m.clock.available_advance_le elapsed)
    have hspend := spend_eq h hsound hturns
      (show 0 + (maxCyclesPerUpdate + 1) < 2 ^ 64 by decide) []
    simp only [update, hf]
    rw [hspend, ok_bind]
    cases hr : ((m.withClock (m.clock.advance elapsed)).spend 0 []).result with
    | error e =>
      rw [Machine.update_of_spend_error hf hr]
      simp only [Outcome.answer, hr]
      rfl
    | ok n =>
      rw [Machine.update_of_spend_ok hf hr]
      simp only [Outcome.answer, hr, advanceTimers_eq]
      rfl

def pressKey (m : Machine) (key : Key) : Checked Machine := do
  let keypad ← setKey m.keypad key true
  match m.awaiting with
  | some x =>
    let v ← set m.cpu.v (x.val &&& 0xF) (UInt8.ofNat key)
    return { m with keypad, cpu := { m.cpu with v }, awaiting := none }
  | none => return { m with keypad }

def releaseKey (m : Machine) (key : Key) : Checked Machine := do
  return { m with keypad := ← setKey m.keypad key false }

def setTiming (m : Machine) (timing : Timing) : Checked Machine := do
  let settings := { m.settings with timing }
  return { m with settings, owed := 0, clock := ← clockAt settings.clockRate m.clock.pending }

def setRate (m : Machine) (hz : UInt64) : Checked Machine := do
  let settings := m.settings.withRate hz
  let clock ← match settings.timing with
    | .fixed => clockAt settings.rate m.clock.pending
    | .cosmac => pure m.clock
  return { m with settings, clock }

def perform (size : Nat) (m : Machine) : Operation → Checked (Machine × Except Fault Response)
  | .step => do
    let (m, result) ← step size m
    return (m, result.map .flow)
  | .runSteps count => do
    let (m, result) ← stepsFrom size count m (.ok .normal)
    return (m, result.map .flow)
  | .update elapsed => do
    let (m, result) ← update size m elapsed
    return (m, result.map .cycles)
  | .pressKey key => do return (← pressKey m key, .ok .nothing)
  | .releaseKey key => do return (← releaseKey m key, .ok .nothing)
  | .setKey key pressed => do
    return (← if pressed then pressKey m key else releaseKey m key, .ok .nothing)
  | .clearKeys => return (m.clearKeys, .ok .nothing)
  | .loadProgram program => do
    let (cpu, count, _) ← load size m.cpu program
    return ({ m with cpu }, .ok (.loaded count))
  | .setTiming timing => do return (← setTiming m timing, .ok .nothing)
  | .setRate hz => do return (← setRate m hz, .ok .nothing)

def performAll (size : Nat) (m : Machine) : List Operation → Checked Machine
  | [] => return m
  | operation :: rest => do
    let (m, _) ← perform size m operation
    performAll size m rest

theorem pressKey_eq (m : Machine) (key : Key) : pressKey m key = .ok (m.pressKey key) := by
  rw [pressKey, setKey_eq, ok_bind]
  cases hx : m.awaiting with
  | none =>
    rw [Machine.pressKey_of_running hx, hx]
    rfl
  | some x =>
    have hmask : x.val &&& 0xF = x.val := by rw [and_fifteen, Nat.mod_eq_of_lt x.isLt]
    rw [Machine.pressKey_of_awaiting hx]
    dsimp only
    rw [hmask, set_eq m.cpu.v x.isLt]
    rfl

theorem releaseKey_eq (m : Machine) (key : Key) : releaseKey m key = .ok (m.releaseKey key) := by
  rw [releaseKey, setKey_eq]
  rfl

theorem setTiming_eq (m : Machine) (timing : Timing) :
    setTiming m timing = .ok (m.setTiming timing) := by
  rw [setTiming, clockAt_eq]
  rfl

theorem setRate_eq (m : Machine) (hz : UInt64) : setRate m hz = .ok (m.setRate hz) := by
  simp only [setRate, Machine.setRate]
  cases (m.settings.withRate hz).timing with
  | fixed =>
    rw [clockAt_eq]
    rfl
  | cosmac => rfl

theorem perform_eq {size : Nat} (h : 2 ^ 32 ≤ size) {m : Machine} (hm : m.Sound)
    (operation : Operation) : perform size m operation = .ok (m.perform operation).answer := by
  cases operation with
  | step =>
    rw [perform, step_eq h hm]
    rfl
  | runSteps count =>
    rw [perform, stepsFrom_eq h count hm _ []]
    rfl
  | update elapsed =>
    rw [perform, update_eq h hm]
    rfl
  | pressKey key =>
    rw [perform, pressKey_eq]
    rfl
  | releaseKey key =>
    rw [perform, releaseKey_eq]
    rfl
  | setKey key pressed =>
    rw [perform, pressKey_eq, releaseKey_eq]
    cases pressed <;> rfl
  | clearKeys => rfl
  | loadProgram program =>
    rw [perform, load_eq h]
    rfl
  | setTiming timing =>
    rw [perform, setTiming_eq]
    rfl
  | setRate hz =>
    rw [perform, setRate_eq]
    rfl

theorem performAll_eq {size : Nat} (h : 2 ^ 32 ≤ size) (session : List Operation) {m : Machine}
    (hm : m.Sound) : performAll size m session = .ok (m.performAll session) := by
  induction session generalizing m with
  | nil => rfl
  | cons operation rest ih =>
    rw [performAll, perform_eq h hm, ok_bind]
    exact ih (Machine.historical_sound.perform m operation hm)

def stack (c : Cpu) : Checked (List UInt16) := slice c.slots.toList 0 c.sp

def pixel (s : Screen) (x y : Nat) : Checked Bool := do
  let x ← mod x s.width
  let y ← mod y s.height
  if s.hires then get s.pixels (x + y * 128) else get s.pixels (x * 2 + y * 2 * 128)

def dumpLine (size : Nat) (m : Machine) (address : Nat) : Checked String := do
  let high ← read m.cpu.memory address
  let low ← read m.cpu.memory (← add size address 1)
  return Hex.upper 4 address ++ ": " ++ (Word.ofBytes high low).text ++ "\n"

def dumpMemory (size : Nat) (m : Machine) (count : Nat) : Checked String := do
  let count := min count (memorySize - programStart)
  let lines ← (List.range ((count + 1) / 2)).mapM fun i => dumpLine size m (programStart + 2 * i)
  return String.join lines

theorem stack_eq {c : Cpu} (h : c.sp ≤ 16) : stack c = .ok c.stack := by
  rw [stack, slice_eq _ (Nat.zero_le _) (by rwa [Vector.length_toList]), List.drop_zero]
  rfl

theorem pixel_eq (s : Screen) (x y : Nat) : pixel s x y = .ok (s.pixel x y) := by
  simp only [pixel, Screen.pixel, Screen.width, Screen.height, Screen.physical, Screen.position]
  cases s.hires with
  | true =>
    have h : x % 128 + y % 64 * 128 < 8192 := by omega
    simp only [if_true]
    rw [mod_eq (by decide), ok_bind, mod_eq (by decide), ok_bind, get_eq s.pixels h]
    rfl
  | false =>
    have h : x % 64 * 2 + y % 32 * 2 * 128 < 8192 := by omega
    have hposition : x % 64 * 2 + y % 32 * 2 * 128 = 2 * x % 128 + 2 * y % 64 * 128 := by omega
    simp only [Bool.false_eq_true, if_false]
    rw [mod_eq (by decide), ok_bind, mod_eq (by decide), ok_bind, get_eq s.pixels h]
    simp only [hposition, Fin.getElem_fin]

theorem dumpLine_eq {size : Nat} (m : Machine) {address : Nat} (h : address + 1 < size) :
    dumpLine size m address = .ok (m.dumpLine address) := by
  rw [dumpLine, read_eq, ok_bind, add_eq h, ok_bind, read_eq]
  rfl

theorem dumpMemory_eq {size : Nat} (h : 2 ^ 32 ≤ size) (m : Machine) (count : Nat) :
    dumpMemory size m count = .ok (m.dumpMemory count) := by
  have hroom : memorySize - programStart = 0xE00 := rfl
  have hstart : programStart = 0x200 := rfl
  have hline : ∀ i ∈ List.range ((min count (memorySize - programStart) + 1) / 2),
      dumpLine size m (programStart + 2 * i) = .ok (m.dumpLine (programStart + 2 * i)) := by
    intro i hi
    have := List.mem_range.1 hi
    exact dumpLine_eq m (by omega)
  rw [dumpMemory, mapM_eq hline]
  rfl

/-- Whatever a host does with a machine of any settings, and whatever the program in it does, no
index leaves its array, no number outgrows its type, nothing is divided by zero and no place that
is taken for unreachable is reached: with a check on each of these the machine does just what it
does without. So do the scrolls of any screen, and its draws at any coordinates, with a sprite of any
length that half of the numbers can tell, as all arrays have; only in low resolution, where no row is
clipped and each may collide eight times, the numbers must be able to tell its collisions too. Those
that index and count need no more than 32 bits for this. -/
theorem nothing_out_of_range {size : Nat} (h : 2 ^ 32 ≤ size) :
    (∀ settings entropy generator session,
      let m := (Machine.new settings entropy generator).performAll session
      (new size settings entropy generator >>= fun m => performAll size m session) = .ok m ∧
      (∀ operation, perform size m operation = .ok (m.perform operation).answer) ∧
      stack m.cpu = .ok m.cpu.stack ∧
      rate m.clock = .ok m.clock.rate ∧
      (∀ id, isPressed m.keypad id = .ok (m.keypad.isPressed id)) ∧
      (∀ x, maskedRegister m.cpu x = .ok (m.cpu.registerAt x.toNat)) ∧
      (∀ address, read m.cpu.memory address = .ok (m.cpu.memory.read address)) ∧
      ∀ count, dumpMemory size m count = .ok (m.dumpMemory count)) ∧
    ∀ (s : Screen) (x y n : Nat),
      pixel s x y = .ok (s.pixel x y) ∧
      scrollDown size s n = .ok (s.scrollDown n) ∧
      scrollRight s = .ok s.scrollRight ∧
      scrollLeft s = .ok s.scrollLeft ∧
      ∀ sprite : List UInt8, 2 * sprite.length < size →
        (∀ wide, drawHigh size s x y sprite wide = .ok (s.drawHigh x y sprite wide)) ∧
        (s.drawLow x y sprite).collisions ≤ 8 * sprite.length ∧
        ((s.drawLow x y sprite).collisions < size →
          drawLow size s x y sprite = .ok (s.drawLow x y sprite)) := by
  constructor
  · intro settings entropy generator session m
    have hnew := Machine.sound_new settings entropy generator
    have hm : m.Sound := Machine.historical_sound.of_invariant hnew session
    refine ⟨?_, fun operation => perform_eq h hm operation, stack_eq hm.bounds.sp_le,
      rate_eq m.clock, isPressed_eq m.keypad, maskedRegister_eq m.cpu, read_eq m.cpu.memory,
      dumpMemory_eq h m⟩
    rw [new_eq h, ok_bind]
    exact performAll_eq h session hnew
  · intro s x y n
    refine ⟨pixel_eq s x y, scrollDown_eq (by omega) s n, scrollRight_eq s, scrollLeft_eq s, ?_⟩
    intro sprite hlength
    have hroom : sprite.length + 8192 ≤ size := by omega
    exact ⟨fun wide => drawHigh_eq s x y wide hroom, collisions_drawLow_le s x y sprite,
      drawLow_eq s x y hroom⟩

/-- A program that calls itself until the stack is full, and sprites over two edges of a screen. -/
theorem nothing_out_of_range_of_full_stack :
    let session := [.loadProgram [0x22, 0x00], .runSteps 16]
    let m := (Machine.new {} 0).performAll session
    let sprite : List UInt8 := List.replicate 32 0xFF
    2 ^ 32 ≤ 2 ^ 64 ∧
    (new (2 ^ 64) {} 0 >>= fun m => performAll (2 ^ 64) m session) = .ok m ∧
    m.cpu.sp = 16 ∧
    perform (2 ^ 64) m .step = .ok (m.perform .step).answer ∧
    2 * sprite.length < 2 ^ 64 ∧
    drawHigh (2 ^ 64) .blank 127 63 sprite true = .ok (Screen.blank.drawHigh 127 63 sprite true) ∧
    (Screen.blank.drawLow 127 63 sprite).collisions < 2 ^ 64 ∧
    drawLow (2 ^ 64) .blank 127 63 sprite = .ok (Screen.blank.drawLow 127 63 sprite) := by
  intro session m sprite
  have hsize : 2 ^ 32 ≤ 2 ^ 64 := by decide
  have hlength : 2 * sprite.length < 2 ^ 64 := by decide
  obtain ⟨hsessions, hscreens⟩ := nothing_out_of_range hsize
  obtain ⟨hall, hperform, -⟩ := hsessions {} 0 .chaCha session
  obtain ⟨-, -, -, -, hdraws⟩ := hscreens .blank 127 63 0
  obtain ⟨hhigh, hle, hlow⟩ := hdraws sprite hlength
  have hcount : (Screen.blank.drawLow 127 63 sprite).collisions < 2 ^ 64 :=
    Nat.lt_of_le_of_lt hle (by decide)
  exact ⟨hsize, hall, by decide +kernel, hperform .step, hlength, hhigh true, hcount,
    hlow hcount⟩

/-- The rows of a sprite of set bits come to the same 32 rows of the screen again and again, and
every second time they find all of their pixels set: so many of them collide more often than 32 bits
can tell. A sprite of 33 rows is drawn with its last row, too. -/
theorem collisions_outgrow_numbers :
    let long : List UInt8 := List.replicate (2 ^ 30) 0xFF
    let tall : List UInt8 := List.replicate 32 0 ++ [0x80]
    2 * long.length < 2 ^ 32 ∧ drawLow (2 ^ 32) .blank 0 0 long = .error .overflow ∧
    drawLow (2 ^ 32) .blank 0 0 tall = .ok (Screen.blank.drawLow 0 0 tall) ∧
    (Screen.blank.drawLow 0 0 tall).rows = 33 ∧
    (Screen.blank.drawLow 0 0 tall).screen.pixel 0 0 = true := by
  intro long tall
  have hlong : long = (List.replicate (2 * 2 ^ 24) (List.replicate 32 0xFF)).flatten := by
    have hrows : 2 * 2 ^ 24 * 32 = 2 ^ 30 := by decide
    rw [List.flatten_replicate_replicate, hrows]
  have hlength : long.length = 2 ^ 30 := List.length_replicate
  obtain ⟨-, hcollisions⟩ := Screen.drawLow_repeated .blank 0 0
    (show (List.replicate 32 (0xFF : UInt8)).length = 32 from rfl) (2 ^ 24)
  have hbits : ((List.replicate 32 (0xFF : UInt8)).map bitCount).sum = 256 := by decide
  rw [← hlong, hbits] at hcollisions
  refine ⟨by rw [hlength]; decide, ?_, ?_, rfl, by decide +kernel⟩
  · rw [drawLow_eq_ite _ _ _ (by rw [hlength]; decide), hcollisions]
    exact if_neg (by decide)
  · have hle := collisions_drawLow_le .blank 0 0 tall
    exact drawLow_eq _ _ _ (by decide) (Nat.lt_of_le_of_lt hle (by decide))

end Checked
end Chip8
