import Chip8.Proofs.Flows
import Mathlib.Data.Nat.Digits.Defs

/-! # What an instruction costs

With COSMAC timing an instruction is charged for what it does: skips that are taken, additions that
leave a page, decimal digits, registers of a block, and the rows and collisions of a sprite. The
costs are words of 32 bits, but no draw comes near to where these end: a sprite has at most sixteen
rows and 256 pixels.
-/
namespace Chip8

namespace Machine

/-- Points that are told by their places in a rectangle are no more than it has. -/
theorem card_le_of_place {points : Finset (Nat × Nat)} (place : Nat × Nat → Nat × Nat)
    {width height : Nat} (hplace : ∀ p ∈ points, (place p).1 < width ∧ (place p).2 < height)
    (hinjective : ∀ p ∈ points, ∀ q ∈ points, place p = place q → p = q) :
    points.card ≤ width * height := by
  have hmaps : ∀ p ∈ points, place p ∈ Finset.range width ×ˢ Finset.range height := by
    intro p hp
    rw [Finset.mem_product, Finset.mem_range, Finset.mem_range]
    exact hplace p hp
  have hcard := Finset.card_le_card_of_injOn place hmaps fun p hp q hq => hinjective p hp q hq
  rwa [Finset.card_product, Finset.card_range, Finset.card_range] at hcard

theorem card_lowHits_le (m : Machine) (x y : Register) (rows : Nibble) :
    (m.lowHits x y rows).card ≤ 8 * rows := by
  apply card_le_of_place (fun p =>
    ((p.1 + 64 - (m.cpu.register x).toNat % 64) % 64,
      (p.2 + 32 - (m.cpu.register y).toNat % 32) % 32))
  all_goals simp only [lowHits, Finset.mem_filter, Finset.mem_product, Finset.mem_range, lowCovers,
    Bool.and_eq_true, decide_eq_true_eq, Prod.mk.injEq]
  · rintro p ⟨-, ⟨hplace, -⟩, -⟩
    exact hplace
  · rintro p ⟨⟨hX, hY⟩, -⟩ q ⟨⟨hX', hY'⟩, -⟩ ⟨hcolumn, hrow⟩
    exact Prod.ext (by omega) (by omega)

theorem card_highHits_le (m : Machine) (x y : Register) (rows : Nibble) :
    (m.screen.hitPixels (m.highCovers x y rows)).card ≤ 16 * highCount rows := by
  have hwidth : (if rows.val = 0 then 16 else 8) ≤ 16 := by split <;> decide
  apply card_le_of_place (fun p =>
    ((p.1 + 128 - (m.cpu.register x).toNat % 128) % 128, p.2 - (m.cpu.register y).toNat % 64))
  all_goals simp only [Screen.hitPixels, Finset.mem_filter, Finset.mem_product, Finset.mem_range,
    highCovers, Bool.and_eq_true, decide_eq_true_eq, Prod.mk.injEq]
  · rintro p ⟨-, ⟨⟨-, hrow, hcolumn⟩, -⟩, -⟩
    exact ⟨Nat.lt_of_lt_of_le hcolumn hwidth, hrow⟩
  · rintro p ⟨⟨hX, -⟩, ⟨⟨hle, -⟩, -⟩, -⟩ q ⟨⟨hX', -⟩, ⟨⟨hle', -⟩, -⟩, -⟩ ⟨hcolumn, hrow⟩
    exact Prod.ext (by omega) (by omega)

/-- The number of rows that a draw is charged for, in the resolution that the screen is in. -/
def drawnRows (m : Machine) (rows : Nibble) : Nat :=
  if m.screen.hires then highCount rows else rows.val

/-- The number of pixels with a set bit of its sprite that are set themselves. -/
def drawnHits (m : Machine) (x y : Register) (rows : Nibble) : Nat :=
  if m.screen.hires then (m.screen.hitPixels (m.highCovers x y rows)).card
  else (m.lowHits x y rows).card

theorem drawnRows_le (m : Machine) (rows : Nibble) : m.drawnRows rows ≤ 16 := by
  have hrows := rows.isLt
  have hcount := highCount_le rows
  rw [drawnRows]
  split <;> omega

theorem drawnHits_le (m : Machine) (x y : Register) (rows : Nibble) :
    m.drawnHits x y rows ≤ 256 := by
  have hrows := rows.isLt
  have hcount := highCount_le rows
  have hhigh := m.card_highHits_le x y rows
  have hlow := m.card_lowHits_le x y rows
  rw [drawnHits]
  split <;> omega

theorem drawing_counts (m : Machine) (x y : Register) (rows : Nibble) :
    (m.drawing x y rows).rows = m.drawnRows rows ∧
      (m.drawing x y rows).collisions = m.drawnHits x y rows := by
  cases hhigh : m.screen.hires with
  | false =>
    obtain ⟨-, hrows, hcollisions, -, -⟩ := Screen.drawLow_eq m.screen
      (m.cpu.register x).toNat (m.cpu.register y).toNat (length_lowSprite m.cpu rows)
    rw [Cpu.length_bytesAtIndex] at hrows
    rw [card_lowHits hhigh] at hcollisions
    simp only [drawnRows, drawnHits, hhigh, Bool.false_eq_true, if_false]
    rw [drawing_low hhigh]
    exact ⟨hrows, hcollisions⟩
  | true =>
    obtain ⟨-, hrows, hcollisions, -, -⟩ := Screen.drawHigh_eq m.screen
      (m.cpu.register x).toNat (m.cpu.register y).toNat (m.highSprite rows) (rows.val == 0)
    rw [length_highSprite] at hrows
    rw [spriteCovers_highSprite] at hcollisions
    simp only [drawnRows, drawnHits, hhigh, if_true]
    rw [drawing_high hhigh]
    exact ⟨hrows, hcollisions⟩

end Machine

theorem Cost.draw_eq {rows collisions : Nat} (hrows : rows ≤ 16) (hcollisions : collisions ≤ 256) :
    draw rows collisions = 3072 + rows * (94 + 8 * collisions) := by
  have hword {n : Nat} (h : n ≤ 37344) : word n = n :=
    Nat.min_eq_left (Nat.le_trans h (by decide))
  have hmod {n : Nat} (h : n ≤ 256) : n % UInt32.size = n :=
    Nat.mod_eq_of_lt (Nat.lt_of_le_of_lt h (by decide))
  have hperRow : 94 + collisions * 8 = 94 + 8 * collisions := by omega
  have hall : rows * (94 + 8 * collisions) ≤ 16 * 2142 := Nat.mul_le_mul hrows (by omega)
  simp only [draw, drawBase, drawRow, drawCollision]
  rw [hmod hcollisions, hmod (by omega), hword (n := collisions * 8) (by omega),
    hword (n := 94 + collisions * 8) (by omega), hperRow,
    hword (n := rows * (94 + 8 * collisions)) (by omega), hword (by omega)]

theorem Cost.crossesPage_iff (base : UInt16) (offset : UInt8) :
    crossesPage base offset = true ↔
      (base.toNat + offset.toNat) / 256 ≠ base.toNat / 256 := by
  have hoffset := offset.toNat_lt
  simp only [crossesPage, decide_eq_true_eq]
  omega

theorem Cpu.digitSum_decimalDigits (b : UInt8) :
    digitSum (decimalDigits b) = (Nat.digits 10 b.toNat).sum := by
  have hdigits (n : Nat) : (Nat.digits 10 n).sum = n % 10 + (Nat.digits 10 (n / 10)).sum := by
    cases n with
    | zero => rfl
    | succ n => rw [Nat.digits_def' (by decide) (Nat.succ_pos n), List.sum_cons]
  have hb := b.toNat_lt
  have hnone : b.toNat / 10 / 10 / 10 = 0 := by omega
  rw [hdigits, hdigits (b.toNat / 10), hdigits (b.toNat / 10 / 10), hnone, Nat.digits_zero,
    List.sum_nil]
  simp only [digitSum, decimalDigits, List.foldl_cons, List.foldl_nil, UInt8.toNat_div,
    UInt8.toNat_mod, UInt8.reduceToNat]
  omega

namespace Machine

/-- The costs of returns, of words for the screen and of all others of family 0. -/
def listedSystem (w : Word) : Nat :=
  if w = 0x00EE then 10
  else if w.toNat / 16 = 0x00C ∨ w ∈ [0x00E0, 0x00FB, 0x00FC, 0x00FE, 0x00FF] then 24
  else 1

def listedArithmetic (w : Word) : Nat :=
  if w.n.val = 0x0 then 12 else if w.n.val ≤ 0x7 ∨ w.n.val = 0xE then 44 else 1

def listedKey (m : Machine) (w : Word) : Nat :=
  let down := m.keypad.isPressed (m.cpu.register w.x)
  if w.nn.toNat = 0x9E then 14 + (if down then 4 else 0)
  else if w.nn.toNat = 0xA1 then 14 + (if down then 0 else 4)
  else 1

def listedMisc (m : Machine) (w : Word) : Nat :=
  let x := (m.cpu.register w.x).toNat
  let index := m.cpu.index.toNat
  match w.nn.toNat with
  | 0x07 | 0x15 | 0x18 => 10
  | 0x0A => 2
  | 0x1E => 16 + if (index + x) / 256 ≠ index / 256 then 6 else 0
  | 0x29 => 20
  | 0x33 => 84 + 16 * (Nat.digits 10 x).sum
  | 0x55 | 0x65 => 18 + 14 * (w.x + 1)
  | _ => 1

/-- The cycles that a word costs with COSMAC timing. -/
def listedCost (m : Machine) (w : Word) : Nat :=
  let x := m.cpu.register w.x
  let y := m.cpu.register w.y
  match w.family.val with
  | 0x0 => listedSystem w
  | 0x1 => 12
  | 0x2 => 26
  | 0x3 => 10 + if x = w.nn then 4 else 0
  | 0x4 => 10 + if x ≠ w.nn then 4 else 0
  | 0x5 => 14 + if x = y then 4 else 0
  | 0x6 => 6
  | 0x7 => 10
  | 0x8 => listedArithmetic w
  | 0x9 => 14 + if x ≠ y then 4 else 0
  | 0xA => 12
  | 0xB =>
    let base := w.nnn.toNat
    let offset := (m.cpu.register Cpu.offsetRegister).toNat
    22 + if (base + offset) / 256 ≠ base / 256 then 2 else 0
  | 0xC => 36
  | 0xD => 3072 + m.drawnRows w.n * (94 + 8 * m.drawnHits w.x w.y w.n)
  | 0xE => m.listedKey w
  | _ => m.listedMisc w

variable {m : Machine} {pc : UInt16} {w : Word} {flow : Flow} {cost : Nat}

open Instruction

theorem cost_ret (h : (m.execute pc .ret).result = .ok (flow, cost)) : cost = 10 := by
  simp only [execute] at h
  split at h
  · cases h
  · cases h
    rfl

theorem cost_call {address : UInt16}
    (h : (m.execute pc (.call address)).result = .ok (flow, cost)) : cost = 26 := by
  simp only [execute] at h
  split at h
  · cases h
  · cases h
    rfl

theorem cost_decodeSystem (h : (m.execute pc (decodeSystem w)).result = .ok (flow, cost)) :
    cost = listedSystem w := by
  unfold decodeSystem at h
  split_ifs at h with hclear hret hright hleft hexit hlow hhigh hdown
  · cases h
    subst hclear
    rfl
  · subst hret
    exact cost_ret h
  · cases h
    subst hright
    rfl
  · cases h
    subst hleft
    rfl
  · cases h
    subst hexit
    rfl
  · cases h
    subst hlow
    rfl
  · cases h
    subst hhigh
    rfl
  · cases h
    rw [listedSystem, if_neg hret, if_pos (Or.inl hdown)]
    rfl
  · cases h
    simp only [listedSystem, List.mem_cons, List.not_mem_nil, hclear, hret, hright, hleft, hlow,
      hhigh, hdown, or_false, if_false]
    rfl

theorem cost_decodeArithmetic (h : (m.execute pc (decodeArithmetic w)).result = .ok (flow, cost)) :
    cost = listedArithmetic w := by
  unfold decodeArithmetic at h
  unfold listedArithmetic
  generalize w.n.val = n at h ⊢
  split at h
  case h_10 =>
    have hn : n ≠ 0x0 ∧ ¬(n ≤ 0x7 ∨ n = 0xE) := by grind
    cases h
    rw [if_neg hn.1, if_neg hn.2]
    rfl
  all_goals
    cases h
    rfl

theorem cost_skip {c : Condition} (h : (m.execute pc (.skip c)).result = .ok (flow, cost)) :
    cost = c.baseCost + if m.holds c then 4 else 0 := by
  cases h
  unfold Cost.skip
  split <;> rfl

theorem cost_decodeKey (h : (m.execute pc (decodeKey w)).result = .ok (flow, cost)) :
    cost = m.listedKey w := by
  unfold decodeKey at h
  unfold listedKey
  generalize w.nn.toNat = nn at h ⊢
  split at h
  case h_1 => exact cost_skip h
  case h_2 =>
    rw [cost_skip h, holds]
    cases m.keypad.isPressed (m.cpu.register w.x) <;> rfl
  case h_3 hdown hup =>
    cases h
    dsimp only
    rw [if_neg hdown, if_neg hup]
    rfl

theorem cost_decodeMisc (h : (m.execute pc (decodeMisc w)).result = .ok (flow, cost)) :
    cost = m.listedMisc w := by
  unfold decodeMisc at h
  unfold listedMisc
  generalize w.nn.toNat = nn at h ⊢
  split at h
  case h_5 =>
    cases h
    simp only [Cost.crossesPage_iff]
    split <;> rfl
  case h_7 =>
    cases h
    rw [Cpu.digitSum_decimalDigits]
    exact congrArg (84 + ·) (Nat.mul_comm _ _)
  case h_8 | h_9 =>
    cases h
    exact congrArg (18 + ·) (Nat.mul_comm _ _)
  case h_10 =>
    cases h
    dsimp only
    split <;> first | contradiction | rfl
  all_goals
    cases h
    rfl

theorem cost_draw {x y : Register} {rows : Nibble}
    (h : (m.execute pc (.draw x y rows)).result = .ok (flow, cost)) :
    cost = 3072 + m.drawnRows rows * (94 + 8 * m.drawnHits x y rows) := by
  have hdraw : (m.draw x y rows).result = .ok (flow, cost) := h
  obtain ⟨hrows, hhits⟩ := m.drawing_counts x y rows
  rw [draw_eq, hrows, hhits, Cost.draw_eq (m.drawnRows_le rows) (m.drawnHits_le x y rows)] at hdraw
  cases hdraw
  rfl

/-- A word that is executed costs what the table says of it. -/
theorem cost_decode (h : (m.execute pc (decode w)).result = .ok (flow, cost)) :
    cost = m.listedCost w := by
  have hlt := w.family.isLt
  unfold decode at h
  unfold listedCost
  generalize w.family.val = family at h hlt ⊢
  split at h
  case h_1 => exact cost_decodeSystem h
  case h_3 => exact cost_call h
  case h_4 | h_6 =>
    simp only [cost_skip h, holds, beq_iff_eq]
    rfl
  case h_5 | h_10 =>
    simp only [cost_skip h, holds, bne_iff_ne]
    rfl
  case h_9 => exact cost_decodeArithmetic h
  case h_12 =>
    cases h
    simp only [Cost.crossesPage_iff]
    split <;> rfl
  case h_14 => exact cost_draw h
  case h_15 => exact cost_decodeKey h
  case h_16 =>
    obtain rfl : family = 0xF := by grind
    exact cost_decodeMisc h
  all_goals
    cases h
    rfl

theorem listedSystem_bounds (w : Word) : 1 ≤ listedSystem w ∧ listedSystem w ≤ 24 := by
  unfold listedSystem
  split_ifs <;> omega

theorem listedArithmetic_bounds (w : Word) : 1 ≤ listedArithmetic w ∧ listedArithmetic w ≤ 44 := by
  unfold listedArithmetic
  split_ifs <;> omega

theorem listedKey_bounds (m : Machine) (w : Word) : 1 ≤ m.listedKey w ∧ m.listedKey w ≤ 18 := by
  simp only [listedKey]
  split_ifs <;> omega

theorem listedMisc_bounds (m : Machine) (w : Word) :
    1 ≤ m.listedMisc w ∧ m.listedMisc w ≤ 4164 := by
  have hx := w.x.isLt
  have hsum := Nat.digit_sum_le 10 (m.cpu.register w.x).toNat
  have hbyte := (m.cpu.register w.x).toNat_lt
  simp only [listedMisc]
  split
  case h_5 => split_ifs <;> omega
  all_goals omega

theorem drawnCost_le (m : Machine) (x y : Register) (rows : Nibble) :
    3072 + m.drawnRows rows * (94 + 8 * m.drawnHits x y rows) ≤ 37344 := by
  have hhits := m.drawnHits_le x y rows
  have hproduct : m.drawnRows rows * (94 + 8 * m.drawnHits x y rows) ≤ 16 * 2142 :=
    Nat.mul_le_mul (m.drawnRows_le rows) (by omega)
  omega

theorem listedCost_bounds (m : Machine) (w : Word) :
    1 ≤ m.listedCost w ∧ m.listedCost w ≤ 37344 := by
  have hsystem := listedSystem_bounds w
  have harithmetic := listedArithmetic_bounds w
  have hkey := m.listedKey_bounds w
  have hmisc := m.listedMisc_bounds w
  have hdraw := m.drawnCost_le w.x w.y w.n
  simp only [listedCost]
  split
  case h_4 | h_5 | h_6 | h_10 | h_12 => split_ifs <;> omega
  all_goals omega

theorem cost_executeNext (hok : m.executeNext.result = .ok flow) :
    m.executeNext.state.lastCost = match m.settings.timing with
      | .fixed => 1
      | .cosmac => m.listedCost m.cpu.fetch := by
  cases hr : m.nextEffect.result with
  | error e => cases hok.symm.trans (executeNext_of_error hr).1
  | ok p =>
    obtain ⟨flow', cost⟩ := p
    have hlisted : cost = (m.mapCpu Cpu.advance).listedCost m.cpu.fetch := cost_decode hr
    have hpos := (m.listedCost_bounds m.cpu.fetch).1
    rw [(executeNext_of_ok hr).2]
    cases m.settings.timing with
    | fixed => rfl
    | cosmac =>
      change max 1 cost = m.listedCost m.cpu.fetch
      rw [hlisted]
      exact Nat.max_eq_right hpos

theorem lastCost_executeNext_bounds (hok : m.executeNext.result = .ok flow) :
    1 ≤ m.executeNext.state.lastCost ∧ m.executeNext.state.lastCost ≤ 37344 := by
  rw [cost_executeNext hok]
  cases m.settings.timing with
  | fixed => exact ⟨Nat.le_refl 1, show 1 ≤ 37344 by decide⟩
  | cosmac => exact m.listedCost_bounds _

/-- What a history makes of the cost that was noted last. -/
structure CostRun (m : Machine) (trace : List Execution) (n : Machine) : Prop where
  le : m.lastCost ≤ 37344 → n.lastCost ≤ 37344
  fault : n.fault = none → m.fault = none
  pos : n.fault = none → trace ≠ [] ∨ 1 ≤ m.lastCost → 1 ≤ n.lastCost

namespace CostRun
variable {m n o : Machine} {before after : List Execution}

theorem of_same (hcost : n.lastCost = m.lastCost) (hfault : n.fault = m.fault) :
    CostRun m [] n where
  le h := hcost ▸ h
  fault h := hfault ▸ h
  pos _ h := hcost ▸ h.resolve_left fun hne => hne rfl

theorem trans (h : CostRun m before n) (h' : CostRun n after o) :
    CostRun m (before ++ after) o where
  le hm := h'.le (h.le hm)
  fault ho := h.fault (h'.fault ho)
  pos ho hm := by
    apply h'.pos ho
    cases after with
    | cons e rest => exact Or.inl (List.cons_ne_nil e rest)
    | nil =>
      rw [List.append_nil] at hm
      exact Or.inr (h.pos (h'.fault ho) hm)

theorem executeNext (hf : m.fault = none) (trace : List Execution) :
    CostRun m trace m.executeNext.state := by
  cases hr : m.executeNext.result with
  | error e =>
    rw [state_of_executeNext_error hr]
    exact ⟨id, nofun, nofun⟩
  | ok flow =>
    obtain ⟨hpos, hle⟩ := lastCost_executeNext_bounds hr
    exact ⟨fun _ => hle, fun _ => hf, fun _ _ => hpos⟩

end CostRun

theorem historical_costRun : Historical CostRun where
  refl _ := .of_same rfl rfl
  trans h h' := h.trans h'
  execute _ hf _ := .executeNext hf _
  pay _ _ _ := .of_same rfl rfl
  clock _ _ _ := .of_same rfl rfl
  timers _ _ := .of_same rfl rfl
  press m key := .of_same (by rw [pressKey_frame]) (by rw [pressKey_frame])
  release _ _ := .of_same rfl rfl
  clear _ := .of_same rfl rfl
  load _ _ := .of_same rfl rfl
  timing _ _ := .of_same rfl rfl
  rate _ _ := .of_same rfl rfl

/-- An instruction that succeeds costs one cycle with fixed timing, and with COSMAC timing what the
table says of its word in the state before. The most expensive one is the draw of a square sprite of
which every pixel collides. No draw has so many rows or collisions that a part of its cost would be
cut off. -/
theorem costs_are_exact :
    (∀ (m : Machine) flow, m.Running → m.step.result = .ok flow →
      let cost := m.step.state.lastCost
      (m.settings.timing = .fixed → cost = 1) ∧
      (m.settings.timing = .cosmac → cost = m.listedCost m.cpu.fetch) ∧
      1 ≤ cost ∧ cost ≤ 37344) ∧
    (∀ settings entropy generator session,
      let m := new settings entropy generator
      let n := m.performAll session
      n.lastCost ≤ 37344 ∧ (m.trace session ≠ [] → n.fault = none → 1 ≤ n.lastCost)) ∧
    (∀ (m : Machine) x y rows,
      let d := m.drawing x y rows
      d.rows = m.drawnRows rows ∧ d.rows ≤ 16 ∧
      d.collisions = m.drawnHits x y rows ∧ d.collisions ≤ 256 ∧
      Cost.draw d.rows d.collisions = 3072 + d.rows * (94 + 8 * d.collisions)) := by
  refine ⟨?_, ?_, ?_⟩
  · intro m flow hrun hok cost
    have hstep := step_of_running hrun.fault hrun.awaiting
    have hcost : cost = m.executeNext.state.lastCost := congrArg (·.state.lastCost) hstep
    rw [hstep] at hok
    have hexact := cost_executeNext hok
    rw [hcost]
    refine ⟨?_, ?_, lastCost_executeNext_bounds hok⟩
    · intro h
      rw [hexact, h]
    · intro h
      rw [hexact, h]
  · intro settings entropy generator session m n
    have hrun := historical_costRun.performAll m session
    exact ⟨hrun.le (Nat.zero_le _), fun ht hf => hrun.pos hf (Or.inl ht)⟩
  · intro m x y rows d
    obtain ⟨hrows, hcollisions⟩ := m.drawing_counts x y rows
    have hfew : d.rows ≤ 16 := hrows ▸ m.drawnRows_le rows
    have hfewer : d.collisions ≤ 256 := hcollisions ▸ m.drawnHits_le x y rows
    exact ⟨hrows, hfew, hcollisions, hfewer, Cost.draw_eq hfew hfewer⟩

/-- The top of a digit is drawn a second time, and all of its four pixels collide. -/
theorem costs_are_exact_of_draw :
    let m := (new { timing := .cosmac } 0).performAll
      [.loadProgram [0xA0, 0x50, 0xDF, 0x01, 0xD0, 0xF1], .step, .step]
    m.Running ∧ m.step.result = .ok .draw ∧ m.step.state.lastCost = 3072 + 1 * (94 + 8 * 4) := by
  intro m
  have hstart : m.fault = none ∧ m.awaiting = none ∧ m.step.result = .ok .draw ∧
      m.settings.timing = .cosmac ∧ m.cpu.fetch = 0xD0F1 ∧
      m.drawnRows 1 = 1 ∧ (m.drawing 0 15 1).collisions = 4 := by
    decide +kernel
  obtain ⟨hfault, hawaiting, hok, htiming, hw, hrows, hcollisions⟩ := hstart
  have hrun : m.Running := ⟨hfault, hawaiting⟩
  obtain ⟨-, hcost, -⟩ := costs_are_exact.1 m .draw hrun hok
  refine ⟨hrun, hok, ?_⟩
  rw [hcost htiming, hw]
  change 3072 + m.drawnRows 1 * (94 + 8 * m.drawnHits 0 15 1) = _
  rw [hrows, ← (m.drawing_counts 0 15 1).2, hcollisions]

end Machine
end Chip8
