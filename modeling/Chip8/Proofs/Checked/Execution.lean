import Chip8.Machine.Execute
import Chip8.Proofs.Checked.Decoding
import Chip8.Proofs.Checked.Screen
import Chip8.Proofs.Writes

/-! # Instructions within bounds

An opcode carried out with the indices it computes: registers by its operands as they are, memory
by masked addresses, the call stack by its pointer. The opcodes of arithmetic and of keys, timers
and memory are handed on to functions of their own, which take any other to be unreachable. Costs
are numbers of 32 bits, page offsets of 16. The opcode of an instruction is carried out as the
instruction is, as long as the stack pointer is no more than the number of slots.
-/
namespace Chip8.Checked
open Machine (effect)

/-- A register by the low nibble of its number. -/
def maskedRegister (c : Cpu) (x : UInt8) : Checked UInt8 := get c.v (x.toNat &&& 0xF)

def register (c : Cpu) (x : UInt8) : Checked UInt8 := get c.v x.toNat

def setRegister (c : Cpu) (x byte : UInt8) : Checked Cpu := do
  return { c with v := ← set c.v x.toNat byte }

def setFlag (c : Cpu) (byte : UInt8) : Checked Cpu := do return { c with v := ← set c.v 15 byte }

def read (m : Memory) (address : Nat) : Checked UInt8 := get m.bytes (address &&& 0xFFF)

def write (m : Memory) (address : Nat) (byte : UInt8) : Checked Memory := do
  return ⟨← set m.bytes (address &&& 0xFFF) byte⟩

def fetch (size : Nat) (c : Cpu) : Checked Word := do
  let high ← read c.memory c.pc.toNat
  let low ← read c.memory (← add size c.pc.toNat 1)
  return Word.ofBytes high low

def push? (size : Nat) (c : Cpu) (address : UInt16) : Checked (Option Cpu) :=
  if stackSize ≤ c.sp then return none
  else do
    let slots ← set c.slots c.sp address
    return some { c with slots, sp := ← add size c.sp 1 }

def pop? (c : Cpu) : Checked (Option (UInt16 × Cpu)) :=
  if c.sp = 0 then return none
  else do
    let address ← get c.slots (c.sp - 1)
    return some (address, { c with sp := c.sp - 1 })

def isPressed (p : Keypad) (id : UInt8) : Checked Bool :=
  if id.toNat < keyCount then get p.down id.toNat else return false

def operand (x : UInt8) : Checked Register :=
  if h : x.toNat < 16 then .ok ⟨x.toNat, h⟩ else .error .outOfBounds

def byteAtIndex (size : Nat) (c : Cpu) (i : Nat) : Checked UInt8 := do
  read c.memory (← add size c.index.toNat i)

def store (size : Nat) (c : Cpu) (count : Nat) (byte : Nat → Checked UInt8) : Checked Cpu := do
  let memory ← (List.range count).foldlM
    (fun memory i => do write memory (← add size c.index.toNat i) (← byte i)) c.memory
  return { c with memory }

theorem and_fifteen (x : Nat) : x &&& 0xF = x % 16 := Nat.and_two_pow_sub_one_eq_mod x 4

theorem and_addressMask (address : Nat) : address &&& 0xFFF = address % 4096 :=
  Nat.and_two_pow_sub_one_eq_mod address 12

theorem maskedRegister_eq (c : Cpu) (x : UInt8) :
    maskedRegister c x = .ok (c.registerAt x.toNat) := by
  rw [maskedRegister, and_fifteen]
  exact get_eq c.v (Nat.mod_lt _ (by decide))

@[simp] theorem maskedRegister_byte (c : Cpu) (x : Register) :
    maskedRegister c (Nibble.byte x) = .ok (c.register x) := by
  have h : Nibble.ofNat x.val = x := Fin.ext (Nat.mod_eq_of_lt x.isLt)
  rw [maskedRegister_eq, Nibble.toNat_byte, Cpu.registerAt, h]

@[simp] theorem register_eq (c : Cpu) (x : Register) :
    register c (Nibble.byte x) = .ok (c.register x) := by
  rw [register, Nibble.toNat_byte]
  exact get_eq c.v x.isLt

@[simp] theorem setRegister_eq (c : Cpu) (x : Register) (byte : UInt8) :
    setRegister c (Nibble.byte x) byte = .ok (c.setRegister x byte) := by
  rw [setRegister, Nibble.toNat_byte, set_eq c.v x.isLt]
  rfl

@[simp] theorem setFlag_eq (c : Cpu) (byte : UInt8) : setFlag c byte = .ok (c.setFlag byte) := rfl

@[simp] theorem read_eq (m : Memory) (address : Nat) : read m address = .ok (m.read address) := by
  rw [read, and_addressMask]
  exact get_eq m.bytes (Nat.mod_lt address (by decide))

@[simp] theorem write_eq (m : Memory) (address : Nat) (byte : UInt8) :
    write m address byte = .ok (m.write address byte) := by
  rw [write, and_addressMask, set_eq m.bytes (Nat.mod_lt address (by decide))]
  rfl

@[simp] theorem operand_eq (x : Register) : operand (Nibble.byte x) = .ok x := by
  have h : (Nibble.byte x).toNat < 16 := by
    rw [Nibble.toNat_byte]
    exact x.isLt
  rw [operand, dif_pos h]
  exact congrArg Except.ok (Fin.ext (Nibble.toNat_byte x))

@[simp] theorem isPressed_eq (p : Keypad) (id : UInt8) :
    isPressed p id = .ok (p.isPressed id) := by
  by_cases h : id.toNat < 16
  · rw [isPressed, Keypad.isPressed, keyCount, if_pos h, dif_pos h]
    exact get_eq p.down h
  · rw [isPressed, Keypad.isPressed, keyCount, if_neg h, dif_neg h]
    rfl

theorem fetch_eq {size : Nat} (h : 2 ^ 32 ≤ size) (c : Cpu) : fetch size c = .ok c.fetch := by
  have hpc := c.pc.toNat_lt
  rw [fetch, read_eq, ok_bind, add_eq (by omega), ok_bind, read_eq]
  rfl

theorem byteAtIndex_eq {size : Nat} (h : 2 ^ 32 ≤ size) (c : Cpu) {i : Nat} (hi : i < 2 ^ 16) :
    byteAtIndex size c i = .ok (c.memory.read (c.index.toNat + i)) := by
  have hindex := c.index.toNat_lt
  rw [byteAtIndex, add_eq (by omega), ok_bind, read_eq]

theorem push?_eq {size : Nat} (h : 2 ^ 32 ≤ size) (c : Cpu) (address : UInt16) :
    push? size c address = .ok (c.push? address) := by
  by_cases hsp : stackSize ≤ c.sp
  · rw [push?, if_pos hsp, (c.push?_eq_none_iff address).2 hsp]
    rfl
  · have hlt : c.sp < 16 := Nat.lt_of_not_le hsp
    rw [push?, if_neg hsp, set_eq c.slots hlt, ok_bind, add_eq (by omega), Cpu.push?_of_lt hlt]
    rfl

theorem pop?_eq {c : Cpu} (h : c.sp ≤ 16) :
    pop? c = .ok (c.top?.map fun address => (address, c.pop)) := by
  by_cases hsp : c.sp = 0
  · rw [pop?, if_pos hsp, (Cpu.top?_eq_none_iff h).2 hsp]
    rfl
  · have hlt : c.sp - 1 < 16 := by omega
    rw [pop?, if_neg hsp, get_eq c.slots hlt, Cpu.top?, if_pos (Nat.pos_of_ne_zero hsp),
      Vector.getElem?_eq_getElem hlt]
    rfl

theorem store_eq {size : Nat} (h : 2 ^ 32 ≤ size) (c : Cpu) {bytes : List UInt8}
    (hlength : bytes.length ≤ 16) {byte : Nat → Checked UInt8}
    (hbyte : ∀ i (hi : i < bytes.length), byte i = .ok bytes[i]) :
    store size c bytes.length byte = .ok (c.store bytes) := by
  have hindex := c.index.toNat_lt
  have hloop (count : Nat) (hcount : count ≤ bytes.length) : (List.range count).foldlM
      (fun memory i => do write memory (← add size c.index.toNat i) (← byte i)) c.memory =
      .ok (c.memory.writeAll c.index.toNat (bytes.take count)) := by
    induction count with
    | zero => rfl
    | succ count ih =>
      rw [List.range_succ, List.foldlM_append, ih (Nat.le_of_succ_le hcount), ok_bind,
        List.foldlM_cons, add_eq (by omega), ok_bind, hbyte count hcount, ok_bind, write_eq,
        List.take_succ_eq_append_getElem hcount, Memory.writeAll_append, List.length_take,
        Nat.min_eq_left (Nat.le_of_succ_le hcount)]
      rfl
  rw [store, hloop bytes.length (Nat.le_refl _), List.take_length]
  rfl

def crossesPage (base : UInt16) (offset : UInt8) : Checked Bool := do
  let low ← add (2 ^ 16) (base.toNat &&& 0xFF) offset.toNat
  return 0x100 ≤ low

def skipCost (base : Nat) (taken : Bool) : Checked Nat :=
  if taken then add (2 ^ 32) base Cost.skipTaken else return base

/-- A cost with an addition where an offset leaves the page. -/
def pageCost (base : UInt16) (offset : UInt8) (cost crossing : Nat) : Checked Nat := do
  if ← crossesPage base offset then add (2 ^ 32) cost crossing else return cost

def executeArithmetic (c : Cpu) (legacyShift : Bool) : Opcode → Checked (Cpu × Nat)
  | .copy vx vy => do return (← setRegister c vx (← register c vy), Cost.loadRegister)
  | .or vx vy => do
    let c ← setRegister c vx ((← register c vx) ||| (← register c vy))
    return (c, Cost.arithmetic)
  | .and vx vy => do
    let c ← setRegister c vx ((← register c vx) &&& (← register c vy))
    return (c, Cost.arithmetic)
  | .xor vx vy => do
    let c ← setRegister c vx ((← register c vx) ^^^ (← register c vy))
    return (c, Cost.arithmetic)
  | .add vx vy => do
    let x ← register c vx
    let y ← register c vy
    let c ← setRegister c vx (x + y)
    return (← setFlag c (boolByte (256 ≤ x.toNat + y.toNat)), Cost.arithmetic)
  | .sub vx vy => do
    let x ← register c vx
    let y ← register c vy
    let c ← setRegister c vx (x - y)
    return (← setFlag c (boolByte (y ≤ x)), Cost.arithmetic)
  | .subReverse vx vy => do
    let x ← register c vx
    let y ← register c vy
    let c ← setRegister c vx (y - x)
    return (← setFlag c (boolByte (x ≤ y)), Cost.arithmetic)
  | .shiftRight vx vy => do
    let source := if legacyShift then vy else vx
    let value ← register c source
    let c ← setRegister (← setRegister c source (value >>> 1)) vx (value >>> 1)
    return (← setFlag c (value &&& 1), Cost.arithmetic)
  | .shiftLeft vx vy => do
    let source := if legacyShift then vy else vx
    let value ← register c source
    let c ← setRegister (← setRegister c source (value <<< 1)) vx (value <<< 1)
    return (← setFlag c (value >>> 7), Cost.arithmetic)
  | _ => .error .unreachable

theorem executeArithmetic_eq (c : Cpu) (legacyShift : Bool) (op : Arithmetic) (x y : Register) :
    executeArithmetic c legacyShift (op.opcode (Nibble.byte x) (Nibble.byte y)) =
      .ok (c.arithmetic legacyShift op x y,
        if op = .copy then Cost.loadRegister else Cost.arithmetic) := by
  have hsource : (if legacyShift then Nibble.byte y else Nibble.byte x) =
      Nibble.byte (if legacyShift then y else x) := (apply_ite Nibble.byte _ _ _).symm
  cases op <;>
    simp [executeArithmetic, Arithmetic.opcode, Cpu.arithmetic, Cpu.shift, hsource]

def skipIf (m : Machine) (taken : Bool) : Machine := m.mapCpu (·.skipIf taken)

/-- Leave `I` behind a register block where the settings ask for it, and charge the block. -/
def blockDone (m : Machine) (vx : UInt8) : Checked (Machine × Flow × Nat) := do
  let count ← add (2 ^ 32) vx.toNat 1
  let cpu :=
    if m.settings.legacyMemory then m.cpu.setIndex (m.cpu.index + UInt16.ofNat count) else m.cpu
  let cost ← add (2 ^ 32) Cost.registerBlock (← mul (2 ^ 32) count Cost.registerBlockEach)
  return ({ m with cpu }, .normal, cost)

def digits (x : UInt8) : Checked (List UInt8) := do
  let hundreds ← div x.toNat 100
  let tens ← mod (← div x.toNat 10) 10
  let ones ← mod x.toNat 10
  return [hundreds, tens, ones].map UInt8.ofNat

def executeMisc (size : Nat) (m : Machine) : Opcode → Checked (Machine × Flow × Nat)
  | .skipKeyDown vx => do
    let taken ← isPressed m.keypad (← maskedRegister m.cpu vx)
    return (skipIf m taken, .normal, ← skipCost Cost.skipKey taken)
  | .skipKeyUp vx => do
    let taken := !(← isPressed m.keypad (← maskedRegister m.cpu vx))
    return (skipIf m taken, .normal, ← skipCost Cost.skipKey taken)
  | .loadDelay vx => do
    return ({ m with cpu := ← setRegister m.cpu vx m.timers.delay }, .normal, Cost.loadDelay)
  | .waitKey vx => do
    return ({ m with awaiting := some (← operand vx) }, .keyWait, Cost.waitKey)
  | .setDelay vx => do
    let delay ← maskedRegister m.cpu vx
    return ({ m with timers := { m.timers with delay } }, .normal, Cost.setTimer)
  | .setSound vx => do
    let sound ← maskedRegister m.cpu vx
    return ({ m with timers := { m.timers with sound } }, .sound, Cost.setTimer)
  | .addIndex vx => do
    let x ← maskedRegister m.cpu vx
    let cpu := m.cpu.setIndex (m.cpu.index + x.toUInt16)
    return ({ m with cpu }, .normal, ← pageCost m.cpu.index x Cost.addIndex Cost.addIndexPage)
  | .loadGlyph vx => do
    let digit := (← maskedRegister m.cpu vx).toNat &&& 0xF
    let address ← add size fontStart (← mul size digit glyphHeight)
    return ({ m with cpu := m.cpu.setIndex (UInt16.ofNat address) }, .normal, Cost.loadGlyph)
  | .storeDecimal vx => do
    let digits ← digits (← maskedRegister m.cpu vx)
    let cpu ← store size m.cpu digits.length (getList digits)
    let sum ← digits.foldlM (fun sum digit => add (2 ^ 32) sum digit.toNat) 0
    let cost ← add (2 ^ 32) Cost.decimal (← mul (2 ^ 32) sum Cost.decimalDigit)
    return ({ m with cpu }, .normal, cost)
  | .storeRegisters vx => do
    let cpu ← store size m.cpu (vx.toNat + 1) (get m.cpu.v)
    blockDone { m with cpu } vx
  | .loadRegisters vx => do
    let v ← setFirst m.cpu.v (vx.toNat + 1) (byteAtIndex size m.cpu)
    blockDone { m with cpu := { m.cpu with v } } vx
  | _ => .error .unreachable

/-- Draw the sprite that `I` points to, by way of a buffer of 32 bytes. -/
def draw (size : Nat) (m : Machine) (vx vy n : UInt8) : Checked Effect := do
  let x := (← maskedRegister m.cpu vx).toNat
  let y := (← maskedRegister m.cpu vy).toNat
  let wide := m.screen.hires && n == 0
  let length := if wide then 32 else n.toNat
  let buffer ← setFirst (Vector.replicate 32 0) (min length 32) (byteAtIndex size m.cpu)
  let sprite ← slice buffer.toList 0 length
  let d ← if m.screen.hires then drawHigh size m.screen x y sprite wide
    else drawLow size m.screen x y sprite
  let cpu ← setFlag m.cpu d.flag
  return effect { m with screen := d.screen, cpu } .draw (Cost.draw d.rows d.collisions)

/-- Carry out an opcode that was read at `pc`. -/
def execute (size : Nat) (m : Machine) (pc : UInt16) (op : Opcode) : Checked Effect :=
  match op with
  | .clearScreen => return effect { m with screen := m.screen.clear } .draw Cost.clearScreen
  | .ret => do
    match ← pop? m.cpu with
    | none => return ⟨m, .error (.stackUnderflow pc)⟩
    | some (address, cpu) => return effect { m with cpu := cpu.jump address.toNat } .jump Cost.ret
  | .scrollDown n => do
    let screen ← scrollDown size m.screen n.toNat
    return effect { m with screen } .draw Cost.extended
  | .scrollRight => do
    return effect { m with screen := ← scrollRight m.screen } .draw Cost.extended
  | .scrollLeft => do
    return effect { m with screen := ← scrollLeft m.screen } .draw Cost.extended
  | .exit => return effect { m with exitRequested := true } .exit Cost.nothing
  | .lowResolution =>
    return effect { m with screen := m.screen.setHires false } .normal Cost.extended
  | .highResolution =>
    return effect { m with screen := m.screen.setHires true } .normal Cost.extended
  | .jump address => return effect (m.mapCpu (·.jump address.toNat)) .jump Cost.jump
  | .call address => do
    match ← push? size m.cpu m.cpu.pc with
    | none => return ⟨m, .error (.stackOverflow pc)⟩
    | some cpu => return effect { m with cpu := cpu.jump address.toNat } .jump Cost.call
  | .skipEqualsByte vx nn => do
    let taken := (← maskedRegister m.cpu vx) == nn
    return effect (skipIf m taken) .normal (← skipCost Cost.skipByte taken)
  | .skipDiffersFromByte vx nn => do
    let taken := (← maskedRegister m.cpu vx) != nn
    return effect (skipIf m taken) .normal (← skipCost Cost.skipByte taken)
  | .skipEquals vx vy => do
    let taken := (← maskedRegister m.cpu vx) == (← maskedRegister m.cpu vy)
    return effect (skipIf m taken) .normal (← skipCost Cost.skipRegister taken)
  | .skipDiffers vx vy => do
    let taken := (← maskedRegister m.cpu vx) != (← maskedRegister m.cpu vy)
    return effect (skipIf m taken) .normal (← skipCost Cost.skipRegister taken)
  | .loadByte vx nn => do
    return effect { m with cpu := ← setRegister m.cpu vx nn } .normal Cost.loadByte
  | .addByte vx nn => do
    let x ← maskedRegister m.cpu vx
    return effect { m with cpu := ← setRegister m.cpu vx (x + nn) } .normal Cost.addByte
  | .loadIndex address => return effect (m.mapCpu (·.setIndex address)) .normal Cost.loadIndex
  | .jumpOffset address => do
    let v0 ← maskedRegister m.cpu 0
    let target ← add size address.toNat v0.toNat
    let cost ← pageCost address v0 Cost.jumpOffset Cost.jumpOffsetPage
    return effect (m.mapCpu (·.jump target)) .jump cost
  | .random vx nn => do
    let cpu ← setRegister m.cpu vx (nn &&& m.random.peek)
    return effect { m with random := m.random.skip, cpu } .normal Cost.random
  | .draw vx vy n => draw size m vx vy n
  | .copy .. | .or .. | .and .. | .xor .. | .add .. | .sub .. | .shiftRight .. | .subReverse ..
  | .shiftLeft .. => do
    let (cpu, cost) ← executeArithmetic m.cpu m.settings.legacyShift op
    return effect { m with cpu } .normal cost
  | .skipKeyDown .. | .skipKeyUp .. | .loadDelay .. | .waitKey .. | .setDelay .. | .setSound ..
  | .addIndex .. | .loadGlyph .. | .storeDecimal .. | .storeRegisters .. | .loadRegisters .. => do
    let (m, flow, cost) ← executeMisc size m op
    return effect m flow cost
  | .unknown _ => return effect m .normal Cost.nothing

theorem skipCost_eq (condition : Condition) (taken : Bool) :
    skipCost condition.baseCost taken = .ok (Cost.skip condition.baseCost taken) := by
  have h : condition.baseCost + Cost.skipTaken < 2 ^ 32 := by
    cases condition <;>
      simp [Condition.baseCost, Cost.skipByte, Cost.skipRegister, Cost.skipKey, Cost.skipTaken]
  rw [skipCost, add_eq h]
  cases taken <;> rfl

theorem crossesPage_eq (base : UInt16) (offset : UInt8) :
    crossesPage base offset = .ok (Cost.crossesPage base offset) := by
  have hlow : base.toNat &&& 0xFF = base.toNat % 256 := Nat.and_two_pow_sub_one_eq_mod _ 8
  have hoffset := offset.toNat_lt
  rw [crossesPage, hlow, add_eq (by omega)]
  rfl

theorem pageCost_eq (base : UInt16) (offset : UInt8) {cost crossing : Nat}
    (h : cost + crossing < 2 ^ 32) :
    pageCost base offset cost crossing =
      .ok (if Cost.crossesPage base offset then cost + crossing else cost) := by
  rw [pageCost, crossesPage_eq, ok_bind, add_eq h]
  split <;> rfl

theorem blockDone_eq (m : Machine) (last : Register) :
    blockDone m (Nibble.byte last) =
      .ok (m.mapCpu (·.pastBlock m.settings.legacyMemory last), .normal,
        Machine.blockCost last) := by
  have hlast := last.isLt
  have heach : (last.val + 1) * Cost.registerBlockEach ≤ 16 * 14 :=
    Nat.mul_le_mul hlast (Nat.le_refl 14)
  have hcost : Cost.registerBlock + (last.val + 1) * Cost.registerBlockEach < 2 ^ 32 := by
    simp only [Cost.registerBlock]
    omega
  rw [blockDone, Nibble.toNat_byte, add_eq (by omega), ok_bind, mul_eq (by omega), ok_bind,
    add_eq hcost]
  rfl

theorem digits_eq (x : UInt8) : digits x = .ok (Cpu.decimalDigits x) := by
  have hundreds : UInt8.ofNat (x.toNat / 100) = x / 100 := by
    rw [← UInt8.ofNat_toNat (x := x / 100), UInt8.toNat_div]
    rfl
  have tens : UInt8.ofNat (x.toNat / 10 % 10) = x / 10 % 10 := by
    rw [← UInt8.ofNat_toNat (x := x / 10 % 10), UInt8.toNat_mod, UInt8.toNat_div]
    rfl
  have ones : UInt8.ofNat (x.toNat % 10) = x % 10 := by
    rw [← UInt8.ofNat_toNat (x := x % 10), UInt8.toNat_mod]
    rfl
  rw [digits, div_eq (by decide), ok_bind, div_eq (by decide), ok_bind, mod_eq (by decide), ok_bind,
    mod_eq (by decide), Cpu.decimalDigits, ← hundreds, ← tens, ← ones]
  rfl

theorem digitSum_eq (x : UInt8) :
    (Cpu.decimalDigits x).foldlM (fun sum digit => add (2 ^ 32) sum digit.toNat) 0 =
      .ok (Cpu.digitSum (Cpu.decimalDigits x)) := by
  have h1 := (x / 100).toNat_lt
  have h2 := (x / 10 % 10).toNat_lt
  have h3 := (x % 10).toNat_lt
  simp only [Cpu.decimalDigits, List.foldlM_cons, List.foldlM_nil]
  rw [add_eq (by omega), ok_bind, add_eq (by omega), ok_bind, add_eq (by omega)]
  rfl

theorem getElem_block (c : Cpu) (last : Register) {i : Nat} (hi : i < (c.block last).length) :
    get c.v i = .ok (c.block last)[i] := by
  have hlast := c.length_block last
  rw [get_eq c.v (show i < 16 by omega)]
  simp [Cpu.block]

theorem digitSum_le (x : UInt8) : Cpu.digitSum (Cpu.decimalDigits x) ≤ 765 := by
  have h1 := (x / 100).toNat_lt
  have h2 := (x / 10 % 10).toNat_lt
  have h3 := (x % 10).toNat_lt
  simp only [Cpu.digitSum, Cpu.decimalDigits, List.foldl_cons, List.foldl_nil]
  omega

theorem loadBlock_eq {size : Nat} (h : 2 ^ 32 ≤ size) (c : Cpu) (last : Register) :
    setFirst c.v (last.val + 1) (byteAtIndex size c) =
      .ok (c.setBlock (c.bytesAtIndex (last.val + 1))).v := by
  have hlength := c.length_bytesAtIndex (last.val + 1)
  rw [setFirst_eq c.v (show last.val + 1 ≤ 16 from last.isLt)
    fun i hi => byteAtIndex_eq h c (show i < 2 ^ 16 by omega)]
  refine congrArg (fun f => Except.ok (Vector.ofFn f)) (funext fun i => ?_)
  by_cases hi : i.val < last.val + 1
  · rw [if_pos hi, ← c.getElem?_bytesAtIndex hi, List.getElem?_eq_getElem (by omega)]
    rfl
  · rw [if_neg hi, List.getElem?_eq_none (by omega)]
    rfl

theorem slice_buffer (c : Cpu) {length : Nat} (h : length ≤ 32) :
    slice (Vector.ofFn fun i : Fin 32 => if i.val < length then
      c.memory.read (c.index.toNat + i.val) else (Vector.replicate 32 (0 : UInt8))[i]).toList 0
      length = .ok (c.bytesAtIndex length) := by
  rw [slice_eq _ (Nat.zero_le length) (by rwa [Vector.length_toList])]
  refine congrArg Except.ok (List.ext_getElem ?_ fun i hi hi' => ?_)
  · simp [c.length_bytesAtIndex length, h]
  · rw [c.length_bytesAtIndex length] at hi'
    simp [Cpu.bytesAtIndex, Memory.readAll, hi']

theorem byte_beq_zero (n : Nibble) : (Nibble.byte n == 0) = (n.val == 0) := by
  rw [Bool.eq_iff_iff, beq_iff_eq, beq_iff_eq, ← UInt8.toNat_inj, Nibble.toNat_byte]
  rfl

theorem draw_eq {size : Nat} (h : 2 ^ 32 ≤ size) (m : Machine) (x y : Register) (rows : Nibble) :
    draw size m (Nibble.byte x) (Nibble.byte y) (Nibble.byte rows) = .ok (m.draw x y rows) := by
  have hwide : (m.screen.hires && Nibble.byte rows == 0) = (m.screen.hires && rows.val == 0) := by
    rw [byte_beq_zero]
  have hlength : (if m.screen.hires && rows.val == 0 then 32 else rows.val) ≤ 32 := by
    split <;> omega
  simp only [draw, Machine.draw, maskedRegister_byte, ok_bind, hwide, Nibble.toNat_byte,
    Nat.min_eq_left hlength]
  generalize (m.screen.hires && rows.val == 0) = wide at hlength ⊢
  generalize (if wide then 32 else rows.val) = length at hlength ⊢
  have hbuffer := setFirst_eq (Vector.replicate 32 0) hlength
    fun i hi => byteAtIndex_eq h m.cpu (show i < 2 ^ 16 by omega)
  have hsprite := m.cpu.length_bytesAtIndex length
  have hcollisions := collisions_drawLow_le m.screen (m.cpu.register x).toNat
    (m.cpu.register y).toNat (m.cpu.bytesAtIndex length)
  rw [hbuffer, ok_bind, slice_buffer m.cpu hlength, ok_bind, drawHigh_eq _ _ _ _ (by omega),
    drawLow_eq _ _ _ (by omega) (by omega)]
  cases m.screen.hires <;> rfl

/-- An instruction goes nowhere out of range, and has the same effect. -/
theorem execute_eq {size : Nat} (h : 2 ^ 32 ≤ size) {m : Machine} (hsp : m.cpu.sp ≤ 16)
    (pc : UInt16) (i : Instruction) : execute size m pc i.opcode = .ok (m.execute pc i) := by
  cases i with
  | clearScreen => rfl
  | ret =>
    simp only [execute, Instruction.opcode, Machine.execute, pop?_eq hsp, ok_bind]
    cases m.cpu.top? <;> rfl
  | exit => rfl
  | lowResolution => rfl
  | highResolution => rfl
  | scrollDown rows =>
    simp only [execute, Instruction.opcode, Machine.execute, Nibble.toNat_byte,
      scrollDown_eq (show 8192 < size by omega), ok_bind, pure_eq_ok]
  | scrollRight =>
    simp only [execute, Instruction.opcode, Machine.execute, scrollRight_eq, ok_bind, pure_eq_ok]
  | scrollLeft =>
    simp only [execute, Instruction.opcode, Machine.execute, scrollLeft_eq, ok_bind, pure_eq_ok]
  | jump address => rfl
  | call address =>
    simp only [execute, Instruction.opcode, Machine.execute, push?_eq h, ok_bind]
    cases m.cpu.push? m.cpu.pc <;> rfl
  | jumpOffset address =>
    have haddress := address.toNat_lt
    have hv0 := (m.cpu.register Cpu.offsetRegister).toNat_lt
    have hregister : maskedRegister m.cpu 0 = .ok (m.cpu.register Cpu.offsetRegister) :=
      maskedRegister_byte m.cpu Cpu.offsetRegister
    rw [Instruction.opcode, execute, hregister, ok_bind, add_eq (by omega), ok_bind,
      pageCost_eq _ _ (by decide)]
    rfl
  | skip condition =>
    have hcost := skipCost_eq condition (m.holds condition)
    cases condition <;>
      simp only [Machine.holds, Condition.baseCost] at hcost <;>
      simp [execute, executeMisc, Instruction.opcode, Condition.opcode, Machine.execute,
        Machine.holds, Condition.baseCost, skipIf, hcost]
  | loadByte x byte => simp [execute, Instruction.opcode, Machine.execute, Machine.mapCpu]
  | addByte x byte => simp [execute, Instruction.opcode, Machine.execute, Machine.mapCpu]
  | arithmetic op x y =>
    have hdone := executeArithmetic_eq m.cpu m.settings.legacyShift op x y
    have hexecute : execute size m pc (op.opcode (Nibble.byte x) (Nibble.byte y)) =
        (executeArithmetic m.cpu m.settings.legacyShift
          (op.opcode (Nibble.byte x) (Nibble.byte y)) >>= fun p =>
            .ok (effect { m with cpu := p.1 } .normal p.2)) := by cases op <;> rfl
    rw [Instruction.opcode, hexecute, hdone]
    rfl
  | random x mask => simp [execute, Instruction.opcode, Machine.execute]
  | loadIndex address => rfl
  | addIndex x =>
    simp only [execute, executeMisc, Instruction.opcode, maskedRegister_byte, ok_bind, pure_eq_ok,
      pageCost_eq m.cpu.index (m.cpu.register x) (show Cost.addIndex + Cost.addIndexPage < 2 ^ 32 by
        decide)]
    rfl
  | loadGlyph x =>
    have hdigit : (m.cpu.register x).toNat % 16 < 16 := Nat.mod_lt _ (by decide)
    simp only [execute, executeMisc, Instruction.opcode, maskedRegister_byte, ok_bind, pure_eq_ok,
      and_fifteen, fontStart, glyphHeight]
    rw [mul_eq (by omega), ok_bind, add_eq (by omega)]
    rfl
  | draw x y rows => exact draw_eq h m x y rows
  | loadDelay x => simp [execute, executeMisc, Instruction.opcode, Machine.execute, Machine.mapCpu]
  | setDelay x => simp [execute, executeMisc, Instruction.opcode, Machine.execute]
  | setSound x => simp [execute, executeMisc, Instruction.opcode, Machine.execute]
  | waitKey x => simp [execute, executeMisc, Instruction.opcode, Machine.execute]
  | storeDecimal x =>
    have hstore := store_eq h m.cpu (show (Cpu.decimalDigits (m.cpu.register x)).length ≤ 16 from
      (by decide : 3 ≤ 16)) fun i hi => getList_eq hi
    have hsum := digitSum_le (m.cpu.register x)
    have hmul := mul_eq (show Cpu.digitSum (Cpu.decimalDigits (m.cpu.register x)) *
      Cost.decimalDigit < 2 ^ 32 by rw [Cost.decimalDigit]; omega)
    have hcost := add_eq (show Cost.decimal + Cpu.digitSum (Cpu.decimalDigits (m.cpu.register x)) *
      Cost.decimalDigit < 2 ^ 32 by rw [Cost.decimal, Cost.decimalDigit]; omega)
    simp only [execute, executeMisc, Instruction.opcode, maskedRegister_byte, ok_bind, pure_eq_ok,
      digits_eq, digitSum_eq, hstore, hmul, hcost]
    rfl
  | storeRegisters last =>
    have hlength := m.cpu.length_block last
    have hstore := store_eq h m.cpu (show (m.cpu.block last).length ≤ 16 by omega)
      fun i hi => getElem_block m.cpu last hi
    rw [hlength] at hstore
    simp only [execute, executeMisc, Instruction.opcode, Nibble.toNat_byte, hstore, ok_bind,
      blockDone_eq, pure_eq_ok]
    rfl
  | loadRegisters last =>
    simp only [execute, executeMisc, Instruction.opcode, Nibble.toNat_byte, loadBlock_eq h, ok_bind,
      blockDone_eq, pure_eq_ok]
    rfl
  | unknown word => rfl

example : register .initial 16 = .error .outOfBounds := rfl

example (c : Cpu) : executeArithmetic c false .ret = .error .unreachable := rfl

end Chip8.Checked
