import Chip8.Cost
import Chip8.Instruction.Basic
import Chip8.Machine.Basic
import Chip8.Screen.Draw
import Chip8.Screen.Scroll

/-! # Executing one instruction

The effect of an instruction on a machine whose program counter already points behind it, together
with its flow and its COSMAC cost. Only a return or a call can fail. A flag is written after the
result, so that VF holds the flag even where it is the destination.
-/
namespace Chip8

/-- The machine after an instruction, and its flow and cost unless it failed. -/
structure Effect where
  machine : Machine
  result : Except Fault (Flow × Nat)

namespace Machine

def effect (m : Machine) (flow : Flow) (cost : Nat) : Effect := ⟨m, .ok (flow, cost)⟩

@[inline] def mapCpu (m : Machine) (f : Cpu → Cpu) : Machine := { m with cpu := f m.cpu }

def holds (m : Machine) : Condition → Bool
  | .equalsByte x b => m.cpu.register x == b
  | .differsFromByte x b => m.cpu.register x != b
  | .equals x y => m.cpu.register x == m.cpu.register y
  | .differs x y => m.cpu.register x != m.cpu.register y
  | .keyDown x => m.keypad.isPressed (m.cpu.register x)
  | .keyUp x => !m.keypad.isPressed (m.cpu.register x)

end Machine

def Condition.baseCost : Condition → Nat
  | .equalsByte .. => Cost.skipByte
  | .differsFromByte .. => Cost.skipByte
  | .equals .. => Cost.skipRegister
  | .differs .. => Cost.skipRegister
  | .keyDown .. => Cost.skipKey
  | .keyUp .. => Cost.skipKey

def boolByte (b : Bool) : UInt8 := if b then 1 else 0

namespace Cpu

def skipIf (c : Cpu) (taken : Bool) : Cpu := if taken then c.advance else c

/-- Shift a register into `x`, and into itself. The flag is the bit that falls out. -/
def shift (c : Cpu) (x source : Register) (result flag : UInt8 → UInt8) : Cpu :=
  let value := c.register source
  ((c.setRegister source (result value)).setRegister x (result value)).setFlag (flag value)

/-- Carry out a two-register operation. A legacy shift takes its value from `y`. -/
def arithmetic (c : Cpu) (legacyShift : Bool) (op : Arithmetic) (x y : Register) : Cpu :=
  let a := c.register x
  let b := c.register y
  match op with
  | .copy => c.setRegister x b
  | .or => c.setRegister x (a ||| b)
  | .and => c.setRegister x (a &&& b)
  | .xor => c.setRegister x (a ^^^ b)
  | .add => (c.setRegister x (a + b)).setFlag (boolByte (256 ≤ a.toNat + b.toNat))
  | .sub => (c.setRegister x (a - b)).setFlag (boolByte (b ≤ a))
  | .subReverse => (c.setRegister x (b - a)).setFlag (boolByte (a ≤ b))
  | .shiftRight => c.shift x (if legacyShift then y else x) (· >>> 1) (· &&& 1)
  | .shiftLeft => c.shift x (if legacyShift then y else x) (· <<< 1) (· >>> 7)

def decimalDigits (b : UInt8) : List UInt8 := [b / 100, b / 10 % 10, b % 10]

def digitSum (digits : List UInt8) : Nat := digits.foldl (fun n d => n + d.toNat) 0

def block (c : Cpu) (last : Register) : List UInt8 := c.v.toList.take (last.val + 1)

def setBlock (c : Cpu) (bytes : List UInt8) : Cpu :=
  { c with v := Vector.ofFn fun i => bytes[i.val]?.getD (c.register i) }

/-- Leave `I` behind a register block, where the settings ask for it. -/
def pastBlock (c : Cpu) (legacyMemory : Bool) (last : Register) : Cpu :=
  if legacyMemory then c.setIndex (c.index + UInt16.ofNat (last.val + 1)) else c

end Cpu

namespace Machine

def blockCost (last : Register) : Nat :=
  Cost.registerBlock + (last.val + 1) * Cost.registerBlockEach

/-- Draw the sprite that `I` points to at the position in two registers. In high resolution a
sprite of no rows stands for one of sixteen by sixteen pixels. -/
def draw (m : Machine) (x y : Register) (rows : Nibble) : Effect :=
  let wide := m.screen.hires && rows.val == 0
  let sprite := m.cpu.bytesAtIndex (if wide then 32 else rows.val)
  let px := (m.cpu.register x).toNat
  let py := (m.cpu.register y).toNat
  let d := if m.screen.hires then m.screen.drawHigh px py sprite wide
    else m.screen.drawLow px py sprite
  effect { m with screen := d.screen, cpu := m.cpu.setFlag d.flag } .draw
    (Cost.draw d.rows d.collisions)

/-- Execute an instruction that was read at `pc`. -/
def execute (m : Machine) (pc : UInt16) : Instruction → Effect
  | .clearScreen => effect { m with screen := m.screen.clear } .draw Cost.clearScreen
  | .ret =>
    match m.cpu.top? with
    | none => ⟨m, .error (.stackUnderflow pc)⟩
    | some address => effect (m.mapCpu fun c => c.pop.jump address.toNat) .jump Cost.ret
  | .exit => effect { m with exitRequested := true } .exit Cost.nothing
  | .lowResolution => effect { m with screen := m.screen.setHires false } .normal Cost.extended
  | .highResolution => effect { m with screen := m.screen.setHires true } .normal Cost.extended
  | .scrollDown rows =>
    effect { m with screen := m.screen.scrollDown rows } .draw Cost.extended
  | .scrollRight => effect { m with screen := m.screen.scrollRight } .draw Cost.extended
  | .scrollLeft => effect { m with screen := m.screen.scrollLeft } .draw Cost.extended
  | .jump address => effect (m.mapCpu (·.jump address.toNat)) .jump Cost.jump
  | .call address =>
    match m.cpu.push? m.cpu.pc with
    | none => ⟨m, .error (.stackOverflow pc)⟩
    | some cpu => effect { m with cpu := cpu.jump address.toNat } .jump Cost.call
  | .jumpOffset address =>
    let offset := m.cpu.register Cpu.offsetRegister
    effect (m.mapCpu (·.jump (address.toNat + offset.toNat))) .jump
      (if Cost.crossesPage address offset then Cost.jumpOffset + Cost.jumpOffsetPage
        else Cost.jumpOffset)
  | .skip condition =>
    let taken := m.holds condition
    effect (m.mapCpu (·.skipIf taken)) .normal (Cost.skip condition.baseCost taken)
  | .loadByte x byte => effect (m.mapCpu (·.setRegister x byte)) .normal Cost.loadByte
  | .addByte x byte =>
    effect (m.mapCpu fun c => c.setRegister x (c.register x + byte)) .normal Cost.addByte
  | .arithmetic op x y =>
    effect (m.mapCpu (·.arithmetic m.settings.legacyShift op x y)) .normal
      (if op = .copy then Cost.loadRegister else Cost.arithmetic)
  | .random x mask =>
    effect { m with random := m.random.skip, cpu := m.cpu.setRegister x (mask &&& m.random.peek) }
      .normal Cost.random
  | .loadIndex address =>
    effect (m.mapCpu (·.setIndex address)) .normal Cost.loadIndex
  | .addIndex x =>
    let offset := m.cpu.register x
    let index := m.cpu.index
    effect (m.mapCpu (·.setIndex (index + offset.toUInt16))) .normal
      (if Cost.crossesPage index offset then Cost.addIndex + Cost.addIndexPage
        else Cost.addIndex)
  | .loadGlyph x =>
    let digit := (m.cpu.register x).toNat % 16
    effect (m.mapCpu (·.setIndex (UInt16.ofNat (fontStart + digit * glyphHeight)))) .normal
      Cost.loadGlyph
  | .draw x y rows => m.draw x y rows
  | .loadDelay x => effect (m.mapCpu (·.setRegister x m.timers.delay)) .normal Cost.loadDelay
  | .setDelay x =>
    effect { m with timers := { m.timers with delay := m.cpu.register x } } .normal Cost.setTimer
  | .setSound x =>
    effect { m with timers := { m.timers with sound := m.cpu.register x } } .sound Cost.setTimer
  | .waitKey x => effect { m with awaiting := some x } .keyWait Cost.waitKey
  | .storeDecimal x =>
    let digits := Cpu.decimalDigits (m.cpu.register x)
    effect (m.mapCpu (·.store digits)) .normal
      (Cost.decimal + Cpu.digitSum digits * Cost.decimalDigit)
  | .storeRegisters last =>
    let legacy := m.settings.legacyMemory
    effect (m.mapCpu fun c => (c.store (c.block last)).pastBlock legacy last) .normal
      (blockCost last)
  | .loadRegisters last =>
    let legacy := m.settings.legacyMemory
    effect
      (m.mapCpu fun c => (c.setBlock (c.bytesAtIndex (last.val + 1))).pastBlock legacy last)
      .normal (blockCost last)
  | .unknown _ => effect m .normal Cost.nothing

/-- Instructions neither read nor set the clock. -/
theorem execute_withClock (m : Machine) (clock : Clock) (pc : UInt16) (i : Instruction) :
    (m.withClock clock).execute pc i =
      ⟨(m.execute pc i).machine.withClock clock, (m.execute pc i).result⟩ := by
  cases i with
  | ret =>
    simp only [execute, withClock]
    split <;> rfl
  | call address =>
    simp only [execute, withClock]
    split <;> rfl
  | skip condition => cases condition <;> rfl
  | _ => rfl

end Machine
end Chip8
