import Chip8.Instruction.Encode
import Chip8.Proofs.Successor

/-! # Arithmetic on registers that coincide

The source, the destination and the flag of an operation may be one register. All operands are read
before the first write and the flag is written last. So VF holds the flag even where it is the
destination, and in all other cases the result and the flag make up one exact number.
-/
namespace Chip8

namespace Instruction
variable {w : Word} {x y : Register}

theorem decode_arithmetic (op : Arithmetic)
    (hw : w.toNat = 0x8000 + x * 256 + y * 16 + op.code) : decode w = .arithmetic op x y := by
  have hx := x.isLt
  have hy := y.isLt
  have hop : op.code < 16 := by cases op <;> decide
  have hfamily : w.family = 0x8 := Machine.family_eq_iff.2 (by change _ = 8; omega)
  have hwx : w.x = x := Fin.ext (by simp only [Word.x, Nibble.ofNat]; omega)
  have hwy : w.y = y := Fin.ext (by simp only [Word.y, Nibble.ofNat]; omega)
  have hwn : w.n.val = op.code := by simp only [Word.n, Nibble.ofNat]; omega
  unfold decode
  rw [hfamily]
  change decodeArithmetic w = _
  unfold decodeArithmetic
  rw [hwx, hwy, hwn]
  cases op <;> rfl

theorem decode_addByte {byte : UInt8} (hw : w.toNat = 0x7000 + x * 256 + byte.toNat) :
    decode w = .addByte x byte := by
  have hx := x.isLt
  have hbyte := byte.toNat_lt
  have hfamily : w.family = 0x7 := Machine.family_eq_iff.2 (by change _ = 7; omega)
  have hwx : w.x = x := Fin.ext (by simp only [Word.x, Nibble.ofNat]; omega)
  have hwnn : w.nn = byte := Machine.nn_eq_iff.2 (by omega)
  unfold decode
  rw [hfamily]
  change addByte w.x w.nn = _
  rw [hwx, hwnn]

end Instruction

section Bytes
variable (a b : UInt8)

theorem toNat_boolByte (p : Bool) : (boolByte p).toNat = if p then 1 else 0 := by
  cases p <;> rfl

theorem toNat_add_carry :
    256 * (boolByte (256 ≤ a.toNat + b.toNat)).toNat + (a + b).toNat = a.toNat + b.toNat := by
  have ha := a.toNat_lt
  have hb := b.toNat_lt
  rw [UInt8.toNat_add, toNat_boolByte]
  simp only [decide_eq_true_eq]
  split <;> omega

theorem toNat_sub_borrow :
    ((a - b).toNat : Int) = a.toNat - b.toNat + 256 * (1 - (boolByte (b ≤ a)).toNat) := by
  have ha := a.toNat_lt
  have hb := b.toNat_lt
  rw [UInt8.toNat_sub, toNat_boolByte]
  simp only [decide_eq_true_eq, UInt8.le_iff_toNat_le]
  split <;> omega

theorem toNat_and_one : (a &&& 1).toNat = a.toNat % 2 := by
  rw [UInt8.toNat_and]
  exact Nat.and_one_is_mod _

theorem toNat_shiftRight_one : (a >>> 1).toNat = a.toNat / 2 := by
  rw [UInt8.toNat_shiftRight]
  exact Nat.shiftRight_eq_div_pow _ 1

theorem toNat_shiftRight_seven : (a >>> 7).toNat = a.toNat / 128 := by
  rw [UInt8.toNat_shiftRight]
  exact Nat.shiftRight_eq_div_pow _ 7

theorem toNat_shiftLeft_one : (a <<< 1).toNat = 2 * a.toNat % 256 := by
  rw [UInt8.toNat_shiftLeft]
  change a.toNat <<< 1 % 256 = _
  rw [Nat.shiftLeft_eq, Nat.mul_comm, Nat.pow_one]

end Bytes

def Arithmetic.targets (legacyShift : Bool) (x y : Register) : Arithmetic → List Register
  | .copy | .or | .and | .xor => [x]
  | .add | .sub | .subReverse => [x, Cpu.flagRegister]
  | .shiftRight | .shiftLeft =>
    if legacyShift then [x, y, Cpu.flagRegister] else [x, Cpu.flagRegister]

namespace Cpu
variable (c : Cpu) {x y z : Register}

theorem register_setRegister_of_ne (h : z ≠ x) (byte : UInt8) :
    (c.setRegister x byte).register z = c.register z := by
  rw [register_setRegister, if_neg h.symm]

theorem flag_setFlag (byte : UInt8) : (c.setFlag byte).register 15 = byte :=
  c.register_setRegister_self _ byte

theorem register_setFlag (h : z ≠ 15) (byte : UInt8) :
    (c.setFlag byte).register z = c.register z :=
  c.register_setRegister_of_ne h byte

theorem register_arithmetic_of_notMem {legacy : Bool} {op : Arithmetic}
    (h : z ∉ op.targets legacy x y) : (c.arithmetic legacy op x y).register z = c.register z := by
  cases op with
  | copy | or | and | xor =>
    exact c.register_setRegister_of_ne (List.ne_of_not_mem_cons h) _
  | add | sub | subReverse =>
    have hx := List.ne_of_not_mem_cons h
    have hflag := List.ne_of_not_mem_cons (List.not_mem_of_not_mem_cons h)
    exact (register_setFlag _ hflag _).trans (c.register_setRegister_of_ne hx _)
  | shiftRight | shiftLeft =>
    have hne : z ≠ x ∧ z ≠ (if legacy then y else x) ∧ z ≠ flagRegister := by
      cases legacy <;> simpa [Arithmetic.targets] using h
    obtain ⟨hx, hsource, hflag⟩ := hne
    exact (register_setFlag _ hflag _).trans
      ((register_setRegister_of_ne _ hx _).trans (c.register_setRegister_of_ne hsource _))

theorem register_sum (x : Register) (a b : UInt8) :
    let d := (c.setRegister x (a + b)).setFlag (boolByte (256 ≤ a.toNat + b.toNat))
    let flag := (d.register 15).toNat
    flag = (if 255 < a.toNat + b.toNat then 1 else 0) ∧
    (x ≠ 15 → 256 * flag + (d.register x).toNat = a.toNat + b.toNat) := by
  intro d flag
  have hflag : flag = (boolByte (256 ≤ a.toNat + b.toNat)).toNat :=
    congrArg UInt8.toNat (flag_setFlag _ _)
  constructor
  · rw [hflag, toNat_boolByte]
    simp only [decide_eq_true_eq]
    rfl
  · intro hx
    rw [hflag, register_setFlag _ hx, register_setRegister_self]
    exact toNat_add_carry a b

theorem register_difference (x : Register) (a b : UInt8) :
    let d := (c.setRegister x (a - b)).setFlag (boolByte (b ≤ a))
    let flag := (d.register 15).toNat
    flag = (if b.toNat ≤ a.toNat then 1 else 0) ∧
    (x ≠ 15 → ((d.register x).toNat : Int) = a.toNat - b.toNat + 256 * (1 - flag)) := by
  intro d flag
  have hflag : flag = (boolByte (b ≤ a)).toNat := congrArg UInt8.toNat (flag_setFlag _ _)
  constructor
  · rw [hflag, toNat_boolByte]
    simp only [decide_eq_true_eq, UInt8.le_iff_toNat_le]
  · intro hx
    rw [hflag, register_setFlag _ hx, register_setRegister_self]
    exact toNat_sub_borrow a b

/-- A shift writes its result to two registers and what falls out to the flag. -/
theorem register_shift (x source : Register) (result flag : UInt8 → UInt8) :
    let d := c.shift x source result flag
    d.register 15 = flag (c.register source) ∧
    (x ≠ 15 → d.register x = result (c.register source)) ∧
    (source ≠ 15 → d.register source = result (c.register source)) := by
  intro d
  refine ⟨flag_setFlag _ _, ?_, ?_⟩
  · intro hx
    exact (register_setFlag _ hx _).trans (register_setRegister_self _ _ _)
  · intro hsource
    refine (register_setFlag _ hsource _).trans ?_
    rw [register_setRegister, register_setRegister_self, ite_self]

theorem register_shiftRight (x source : Register) :
    let d := c.shift x source (· >>> 1) (· &&& 1)
    let s := (c.register source).toNat
    let flag := (d.register 15).toNat
    flag = s % 2 ∧ (x ≠ 15 → 2 * (d.register x).toNat + flag = s) ∧
    (source ≠ 15 → (d.register source).toNat = s / 2) := by
  intro d s flag
  obtain ⟨hlost, hx, hsource⟩ := c.register_shift x source (· >>> 1) (· &&& 1)
  have hresult : (c.register source >>> 1).toNat = s / 2 := toNat_shiftRight_one _
  have hflag : flag = s % 2 := (congrArg UInt8.toNat hlost).trans (toNat_and_one _)
  refine ⟨hflag, ?_, ?_⟩
  · intro hne
    rw [hx hne, hresult]
    omega
  · intro hne
    rw [hsource hne, hresult]

theorem register_shiftLeft (x source : Register) :
    let d := c.shift x source (· <<< 1) (· >>> 7)
    let s := (c.register source).toNat
    let flag := (d.register 15).toNat
    flag = s / 128 ∧ (x ≠ 15 → 256 * flag + (d.register x).toNat = 2 * s) ∧
    (source ≠ 15 → (d.register source).toNat = 2 * s % 256) := by
  intro d s flag
  obtain ⟨hlost, hx, hsource⟩ := c.register_shift x source (· <<< 1) (· >>> 7)
  have hresult : (c.register source <<< 1).toNat = 2 * s % 256 := toNat_shiftLeft_one _
  have hflag : flag = s / 128 := (congrArg UInt8.toNat hlost).trans (toNat_shiftRight_seven _)
  refine ⟨hflag, ?_, ?_⟩
  · intro hne
    rw [hx hne, hresult]
    omega
  · intro hne
    rw [hsource hne, hresult]

end Cpu

namespace Machine

/-- The next step succeeds and computes something in some registers: besides them only the program
counter moves on, and what the step cost is noted. -/
structure ChangesOnly (m : Machine) (registers : List Register) : Prop where
  result : m.step.result = .ok .normal
  register {r : Register} : r ∉ registers → m.step.state.cpu.register r = m.cpu.register r
  rest : m.step.state = { m with
    cpu := { m.cpu with pc := (m.cpu.pc + 2) % 4096, v := m.step.state.cpu.v }
    lastCost := m.step.state.lastCost
    owed := m.step.state.owed }

variable {m : Machine} {x y : Register}

theorem step_of_computing (hrun : m.Running) {f : Cpu → Cpu} {cost : Nat}
    (h : m.nextEffect = effect ((m.mapCpu Cpu.advance).mapCpu f) .normal cost)
    (hf : f m.cpu.advance = { m.cpu.advance with v := (f m.cpu.advance).v })
    {registers : List Register}
    (hkept : ∀ r ∉ registers, (f m.cpu.advance).register r = m.cpu.register r) :
    m.step.state.cpu = f m.cpu.advance ∧ m.ChangesOnly registers := by
  obtain ⟨hresult, hstate⟩ := executeNext_of_effect h
  rw [← step_of_running hrun.fault hrun.awaiting] at hresult hstate
  have hcpu : m.step.state.cpu = f m.cpu.advance := congrArg Machine.cpu hstate
  refine ⟨hcpu, hresult, ?_, ?_⟩
  · intro r hr
    rw [hcpu, hkept r hr]
  · have hfields : { m.cpu with pc := (m.cpu.pc + 2) % 4096, v := (f m.cpu.advance).v } =
        f m.cpu.advance := hf.symm
    rw [hcpu, hfields, hstate]
    rfl

theorem step_of_arithmetic (hrun : m.Running) (op : Arithmetic)
    (hw : m.cpu.fetch.toNat = 0x8000 + x * 256 + y * 16 + op.code) :
    m.step.state.cpu = m.cpu.advance.arithmetic m.settings.legacyShift op x y ∧
    m.ChangesOnly (op.targets m.settings.legacyShift x y) := by
  have hi : m.nextInstruction = .arithmetic op x y := Instruction.decode_arithmetic op hw
  have heffect : m.nextEffect =
      effect ((m.mapCpu Cpu.advance).mapCpu (·.arithmetic m.settings.legacyShift op x y)) .normal
        (if op = .copy then Cost.loadRegister else Cost.arithmetic) := by
    rw [nextEffect, hi]
    rfl
  refine step_of_computing hrun heffect ?_ ?_
  · cases op <;> rfl
  · intro r hr
    exact m.cpu.advance.register_arithmetic_of_notMem hr

theorem step_of_addByte (hrun : m.Running) {byte : UInt8}
    (hw : m.cpu.fetch.toNat = 0x7000 + x * 256 + byte.toNat) :
    m.step.state.cpu = m.cpu.advance.setRegister x (m.cpu.register x + byte) ∧
    m.ChangesOnly [x] := by
  have hi : m.nextInstruction = .addByte x byte := Instruction.decode_addByte hw
  have heffect : m.nextEffect =
      effect ((m.mapCpu Cpu.advance).mapCpu fun c => c.setRegister x (c.register x + byte)) .normal
        Cost.addByte := by
    rw [nextEffect, hi]
    rfl
  refine step_of_computing hrun heffect rfl ?_
  intro r hr
  exact m.cpu.advance.register_setRegister_of_ne (List.ne_of_not_mem_cons hr) _

/-- What a word computes is exact, whichever of its registers coincide: the flag is the carry of a
sum, tells that a difference needs no borrow or is the bit that a shift loses, and where it does not
take the place of the result, the two are one number together. All other registers stay, and so does
the rest of the machine. -/
theorem step_computes_exactly (hrun : m.Running) (x y : Register) (byte : UInt8) :
    let w := m.cpu.fetch.toNat
    let op (n : Nat) := 0x8000 + x * 256 + y * 16 + n
    let legacy := m.settings.legacyShift
    let a := (m.cpu.register x).toNat
    let b := (m.cpu.register y).toNat
    let s := if legacy then b else a
    let x' := (m.step.state.cpu.register x).toNat
    let y' := (m.step.state.cpu.register y).toNat
    let flag := (m.step.state.cpu.register 15).toNat
    (w = op 0x0 → x' = b ∧ m.ChangesOnly [x]) ∧
    (w = op 0x1 → x' = a ||| b ∧ m.ChangesOnly [x]) ∧
    (w = op 0x2 → x' = a &&& b ∧ m.ChangesOnly [x]) ∧
    (w = op 0x3 → x' = a ^^^ b ∧ m.ChangesOnly [x]) ∧
    (w = op 0x4 → flag = (if 255 < a + b then 1 else 0) ∧
      (x ≠ 15 → 256 * flag + x' = a + b) ∧ m.ChangesOnly [x, 15]) ∧
    (w = op 0x5 → flag = (if b ≤ a then 1 else 0) ∧
      (x ≠ 15 → (x' : Int) = a - b + 256 * (1 - flag)) ∧ m.ChangesOnly [x, 15]) ∧
    (w = op 0x7 → flag = (if a ≤ b then 1 else 0) ∧
      (x ≠ 15 → (x' : Int) = b - a + 256 * (1 - flag)) ∧ m.ChangesOnly [x, 15]) ∧
    (w = op 0x6 → flag = s % 2 ∧ (x ≠ 15 → 2 * x' + flag = s) ∧
      (legacy = true → y ≠ 15 → y' = s / 2) ∧
      m.ChangesOnly (if legacy then [x, y, 15] else [x, 15])) ∧
    (w = op 0xE → flag = s / 128 ∧ (x ≠ 15 → 256 * flag + x' = 2 * s) ∧
      (legacy = true → y ≠ 15 → y' = 2 * s % 256) ∧
      m.ChangesOnly (if legacy then [x, y, 15] else [x, 15])) ∧
    (w = 0x7000 + x * 256 + byte.toNat →
      x' = (a + byte.toNat) % 256 ∧ m.ChangesOnly [x]) := by
  intro w op legacy a b s x' y' flag
  have hs : (m.cpu.advance.register (if legacy then y else x)).toNat = s := by
    simp only [s]
    split <;> rfl
  refine ⟨?_, ?_, ?_, ?_, ?_, ?_, ?_, ?_, ?_, ?_⟩
  · intro hw
    obtain ⟨hcpu, honly⟩ := step_of_arithmetic hrun .copy hw
    refine ⟨?_, honly⟩
    simp only [x', hcpu, Cpu.arithmetic, Cpu.register_setRegister_self]
    rfl
  · intro hw
    obtain ⟨hcpu, honly⟩ := step_of_arithmetic hrun .or hw
    refine ⟨?_, honly⟩
    simp only [x', hcpu, Cpu.arithmetic, Cpu.register_setRegister_self]
    exact UInt8.toNat_or _ _
  · intro hw
    obtain ⟨hcpu, honly⟩ := step_of_arithmetic hrun .and hw
    refine ⟨?_, honly⟩
    simp only [x', hcpu, Cpu.arithmetic, Cpu.register_setRegister_self]
    exact UInt8.toNat_and _ _
  · intro hw
    obtain ⟨hcpu, honly⟩ := step_of_arithmetic hrun .xor hw
    refine ⟨?_, honly⟩
    simp only [x', hcpu, Cpu.arithmetic, Cpu.register_setRegister_self]
    exact UInt8.toNat_xor _ _
  · intro hw
    obtain ⟨hcpu, honly⟩ := step_of_arithmetic hrun .add hw
    obtain ⟨hflag, hsum⟩ := m.cpu.advance.register_sum x (m.cpu.register x) (m.cpu.register y)
    simp only [x', flag, hcpu]
    exact ⟨hflag, hsum, honly⟩
  · intro hw
    obtain ⟨hcpu, honly⟩ := step_of_arithmetic hrun .sub hw
    obtain ⟨hflag, hdifference⟩ :=
      m.cpu.advance.register_difference x (m.cpu.register x) (m.cpu.register y)
    simp only [x', flag, hcpu]
    exact ⟨hflag, hdifference, honly⟩
  · intro hw
    obtain ⟨hcpu, honly⟩ := step_of_arithmetic hrun .subReverse hw
    obtain ⟨hflag, hdifference⟩ :=
      m.cpu.advance.register_difference x (m.cpu.register y) (m.cpu.register x)
    simp only [x', flag, hcpu]
    exact ⟨hflag, hdifference, honly⟩
  · intro hw
    obtain ⟨hcpu, honly⟩ := step_of_arithmetic hrun .shiftRight hw
    change _ = m.cpu.advance.shift x (if legacy then y else x) (· >>> 1) (· &&& 1) at hcpu
    obtain ⟨hflag, hresult, hsource⟩ := m.cpu.advance.register_shiftRight x (if legacy then y else x)
    rw [hs, ← hcpu] at hflag hresult hsource
    refine ⟨hflag, hresult, ?_, honly⟩
    intro hlegacy hne
    rw [hlegacy] at hsource
    exact hsource hne
  · intro hw
    obtain ⟨hcpu, honly⟩ := step_of_arithmetic hrun .shiftLeft hw
    change _ = m.cpu.advance.shift x (if legacy then y else x) (· <<< 1) (· >>> 7) at hcpu
    obtain ⟨hflag, hresult, hsource⟩ := m.cpu.advance.register_shiftLeft x (if legacy then y else x)
    rw [hs, ← hcpu] at hflag hresult hsource
    refine ⟨hflag, hresult, ?_, honly⟩
    intro hlegacy hne
    rw [hlegacy] at hsource
    exact hsource hne
  · intro hw
    obtain ⟨hcpu, honly⟩ := step_of_addByte hrun hw
    refine ⟨?_, honly⟩
    simp only [x', hcpu, Cpu.register_setRegister_self]
    exact UInt8.toNat_add _ _

/-- VF is taken from V3 and receives the flag of the same difference, which needs a borrow. -/
theorem step_computes_exactly_on_flag :
    let m := (new {} 0).performAll
      [.loadProgram [0x63, 0x10, 0x6F, 0xF5, 0x83, 0xF5], .runSteps 2]
    m.Running ∧ m.cpu.fetch = 0x83F5 ∧
      (m.step.state.cpu.register 15).toNat = 0 ∧ (m.step.state.cpu.register 3).toNat = 27 ∧
      m.ChangesOnly [3, 15] := by
  intro m
  have hstart : m.fault = none ∧ m.awaiting = none ∧ m.cpu.fetch = 0x83F5 ∧
      m.cpu.register 3 = 16 ∧ m.cpu.register 15 = 245 := by decide +kernel
  obtain ⟨hfault, hawaiting, hw, ha, hb⟩ := hstart
  have hrun : m.Running := ⟨hfault, hawaiting⟩
  obtain ⟨-, -, -, -, -, hsub, -⟩ := step_computes_exactly hrun 3 15 0
  rw [hw, ha, hb] at hsub
  obtain ⟨hflag, hresult, honly⟩ := hsub rfl
  replace hresult := hresult (by decide)
  rw [hflag] at hresult
  exact ⟨hrun, hw, hflag, Int.ofNat_inj.1 hresult, honly⟩

end Machine
end Chip8
