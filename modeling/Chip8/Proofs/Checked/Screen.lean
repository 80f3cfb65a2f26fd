import Chip8.Proofs.Checked.Basic
import Chip8.Proofs.HighSprite
import Chip8.Proofs.LowSprite
import Chip8.Screen.Scroll

/-! # Drawing and scrolling within bounds

The loops over the columns of a sprite's rows, with the index in the grid of each pixel they touch,
and the copies that scroll the grid. Coordinates are reduced before anything is added to them, so
that they may be any. Of the numbers in the loops only counts grow with the sprite: the rows, and
in low resolution, where no row is clipped, the collisions. So a draw in low resolution leaves its
bounds exactly if it counts more collisions than its numbers hold.
-/
namespace Chip8.Checked

def flipAt (s : Screen) (i : Nat) : Checked Screen := do
  let on ← get s.pixels i
  return { s with pixels := ← set s.pixels i !on }

/-- Draw column `c` of row `r`. The state counts the pixels that were found set. -/
def plotColumn (size x y r row : Nat) (state : Screen × Nat) (c : Nat) :
    Checked (Screen × Nat) := do
  let bits ← shiftRight 8 row (← sub 7 c)
  if bits &&& 1 = 0 then return state
  else
    let (s, hits) := state
    let px ← mul size (← mod (← add size x c) 64) 2
    let py ← mul size (← mod (← add size y r) 32) 2
    let d ← add size px (← mul size py 128)
    let on ← get s.pixels d
    let hits ← if on then add size hits 1 else pure hits
    let s ← [0, 1, 128, 129].foldlM (fun s offset => do flipAt s (← add size d offset)) s
    return (s, hits)

def plotRows (size x y : Nat) : Nat → List UInt8 → Screen × Nat → Checked (Screen × Nat)
  | _, [], state => pure state
  | r, row :: rest, state => do
    let state ← (List.range 8).foldlM (plotColumn size x y r row.toNat) state
    plotRows size x y (r + 1) rest state

def drawLow (size : Nat) (s : Screen) (x y : Nat) (sprite : List UInt8) : Checked Drawing := do
  let (screen, collisions) ← plotRows size (← mod x 64) (← mod y 32) 0 sprite (s, 0)
  return ⟨screen, if collisions > 0 then 1 else 0, sprite.length, collisions⟩

theorem flipAt_eq (s : Screen) {i x y : Nat} (h : i = x % 128 + y % 64 * 128) :
    flipAt s i = .ok (s.flip x y) := by
  have hi : i < 8192 := by omega
  subst h
  rw [flipAt, get_eq s.pixels hi, ok_bind, set_eq s.pixels hi]
  rfl

theorem and_one_eq_zero_iff (a k : Nat) : a >>> k &&& 1 = 0 ↔ a.testBit k = false := by
  simp [Nat.testBit, Nat.and_comm]

/-- A state whose count is kept in a number with `size` values. -/
def counted (size : Nat) (state : Screen × Nat) : Checked (Screen × Nat) :=
  if state.2 < size then .ok state else .error .overflow

/-- A count that only grows need not be looked at before the end. -/
theorem counted_bind {size : Nat} {state final : Screen × Nat}
    {go : Screen × Nat → Checked (Screen × Nat)} (hle : state.2 ≤ final.2)
    (h : state.2 < size → go state = counted size final) :
    (counted size state >>= go) = counted size final := by
  by_cases hstate : state.2 < size
  · rw [counted, if_pos hstate, ok_bind, h hstate]
  · rw [counted, if_neg hstate, counted, if_neg (by omega)]
    rfl

theorem plotLow_count (state : Screen × Nat) (cell : Nat × Nat) :
    state.2 ≤ (Screen.plotLow state cell).2 ∧ (Screen.plotLow state cell).2 ≤ state.2 + 1 := by
  simp only [Screen.plotLow]
  split <;> omega

theorem foldl_plotLow_count (cells : List (Nat × Nat)) (state : Screen × Nat) :
    state.2 ≤ (cells.foldl Screen.plotLow state).2 ∧
      (cells.foldl Screen.plotLow state).2 ≤ state.2 + cells.length := by
  induction cells generalizing state with
  | nil => exact ⟨Nat.le_refl state.2, Nat.le_refl state.2⟩
  | cons cell rest ih =>
    obtain ⟨hgrows, hone⟩ := plotLow_count state cell
    obtain ⟨hle, hrest⟩ := ih (Screen.plotLow state cell)
    rw [List.foldl_cons, List.length_cons]
    omega

theorem plotColumn_eq {size x y r : Nat} (hx : x < 64) (hy : y < 32) (hr : r + 8192 ≤ size)
    (row : Nat) {state : Screen × Nat} (hstate : state.2 < size) {c : Nat} (hc : c < 8) :
    plotColumn size x y r row state c =
      if row.testBit (7 - c) then counted size (Screen.plotLow state ((x + c) % 64, (y + r) % 32))
      else .ok state := by
  obtain ⟨s, hits⟩ := state
  dsimp only at hstate
  rw [plotColumn, sub_eq (by omega), ok_bind, shiftRight_eq (by omega), ok_bind]
  by_cases hbit : row.testBit (7 - c) = true
  · have hset : ¬row >>> (7 - c) &&& 1 = 0 := by
      rw [and_one_eq_zero_iff, hbit]
      exact Bool.noConfusion
    have hd : (x + c) % 64 * 2 + (y + r) % 32 * 2 * 128 < 8192 := by omega
    have hon : s.pixels[(x + c) % 64 * 2 + (y + r) % 32 * 2 * 128] =
        s.physical (2 * ((x + c) % 64)) (2 * ((y + r) % 32)) := by
      simp only [Screen.physical, Screen.position, Fin.getElem_fin]
      congr 1
      omega
    rw [if_neg hset, if_pos hbit]
    simp (disch := omega) only [add_eq, mul_eq, mod_eq, ok_bind, get_eq _ hd, hon,
      List.foldlM_cons, List.foldlM_nil]
    rw [flipAt_eq s (x := 2 * ((x + c) % 64)) (y := 2 * ((y + r) % 32)) (by omega), ok_bind,
      flipAt_eq _ (x := 2 * ((x + c) % 64) + 1) (y := 2 * ((y + r) % 32)) (by omega), ok_bind,
      flipAt_eq _ (x := 2 * ((x + c) % 64)) (y := 2 * ((y + r) % 32) + 1) (by omega), ok_bind,
      flipAt_eq _ (x := 2 * ((x + c) % 64) + 1) (y := 2 * ((y + r) % 32) + 1) (by omega)]
    simp only [Screen.plotLow, counted]
    by_cases hp : s.physical (2 * ((x + c) % 64)) (2 * ((y + r) % 32)) = true
    · simp only [if_pos hp, add, fit]
      split <;> rfl
    · simp only [if_neg hp, if_pos hstate]
      rfl
  · rw [Bool.not_eq_true] at hbit
    rw [if_pos ((and_one_eq_zero_iff _ _).2 hbit), hbit]
    rfl

theorem plotColumns_eq {size x y r : Nat} (hx : x < 64) (hy : y < 32) (hr : r + 8192 ≤ size)
    (row : Nat) {columns : List Nat} (hc : ∀ c ∈ columns, c < 8) {state : Screen × Nat}
    (hstate : state.2 < size) :
    let cells := (columns.filter fun c => row.testBit (7 - c)).map fun c =>
      ((x + c) % 64, (y + r) % 32)
    columns.foldlM (plotColumn size x y r row) state =
      counted size (cells.foldl Screen.plotLow state) := by
  induction columns generalizing state with
  | nil => exact (if_pos hstate).symm
  | cons c rest ih =>
    obtain ⟨hhead, htail⟩ := List.forall_mem_cons.1 hc
    rw [List.foldlM_cons, plotColumn_eq hx hy hr row hstate hhead, List.filter_cons]
    by_cases hbit : row.testBit (7 - c) = true
    · rw [if_pos hbit, if_pos hbit]
      exact counted_bind (foldl_plotLow_count _ _).1 (ih htail)
    · rw [if_neg hbit, if_neg hbit, ok_bind]
      exact ih htail hstate

theorem plotRows_eq {size x y r : Nat} (hx : x < 64) (hy : y < 32) {sprite : List UInt8}
    (hr : r + sprite.length + 8192 ≤ size) {state : Screen × Nat} (hstate : state.2 < size) :
    plotRows size x y r sprite state =
      counted size ((Screen.lowCells x (y + r) sprite).foldl Screen.plotLow state) := by
  induction sprite generalizing r state with
  | nil => exact (if_pos hstate).symm
  | cons row rest ih =>
    rw [List.length_cons] at hr
    have hrow := plotColumns_eq hx hy (show r + 8192 ≤ size by omega) row.toNat
      (fun c hc => List.mem_range.1 hc) hstate
    rw [plotRows, hrow, Screen.lowCells, List.foldl_append]
    refine counted_bind (foldl_plotLow_count _ _).1 fun hcount => ?_
    rw [ih (by omega) hcount, Nat.add_assoc]
    rfl

/-- A draw in low resolution, at any coordinates, leaves its bounds in the count of its collisions
or not at all. -/
theorem drawLow_eq_ite {size : Nat} (s : Screen) (x y : Nat) {sprite : List UInt8}
    (h : sprite.length + 8192 ≤ size) :
    drawLow size s x y sprite =
      if (s.drawLow x y sprite).collisions < size then .ok (s.drawLow x y sprite)
      else .error .overflow := by
  have hx : x % 64 < 64 := Nat.mod_lt x (by decide)
  have hy : y % 32 < 32 := Nat.mod_lt y (by decide)
  have hrows := plotRows_eq hx hy (show 0 + sprite.length + 8192 ≤ size by omega)
    (show (s, 0).2 < size by dsimp only; omega)
  rw [drawLow, mod_eq (by decide), ok_bind, mod_eq (by decide), ok_bind, hrows]
  by_cases hcount : (s.drawLow x y sprite).collisions < size
  · rw [if_pos hcount]
    exact congrArg (· >>= _) (if_pos hcount)
  · rw [if_neg hcount]
    exact congrArg (· >>= _) (if_neg hcount)

theorem drawLow_eq {size : Nat} (s : Screen) (x y : Nat) {sprite : List UInt8}
    (h : sprite.length + 8192 ≤ size) (hcount : (s.drawLow x y sprite).collisions < size) :
    drawLow size s x y sprite = .ok (s.drawLow x y sprite) := by
  rw [drawLow_eq_ite s x y h, if_pos hcount]

theorem collisions_drawLow_le (s : Screen) (x y : Nat) (sprite : List UInt8) :
    (s.drawLow x y sprite).collisions ≤ 8 * sprite.length := by
  have hcount := (foldl_plotLow_count (Screen.lowCells (x % 64) (y % 32) sprite) (s, 0)).2
  have hcells := Screen.length_lowCells_le (x % 64) (y % 32) sprite
  exact Nat.le_trans hcount (by rw [Nat.zero_add]; exact hcells)

/-- Cut a list into pieces of `n` elements; the last one may be shorter. -/
def pieces (n : Nat) : List UInt8 → List (List UInt8)
  | [] => []
  | a :: rest => (a :: rest.take (n - 1)) :: pieces n (rest.drop (n - 1))
termination_by bytes => bytes.length

def chunks (n : Nat) (bytes : List UInt8) : Checked (List (List UInt8)) :=
  if n = 0 then .error .zeroDivisor else .ok (pieces n bytes)

def rowBits (wide : Bool) (row : List UInt8) : Checked Nat := do
  let high ← getList row 0
  if wide then return high.toNat * 256 + (row[1]?.getD 0).toNat
  else return high.toNat <<< 8

/-- Draw column `c` of a row. The state tells whether a pixel of the row was found set, and counts
those of the sprite. -/
def plotBit (size x y bits : Nat) (state : Screen × Bool × Nat) (c : Nat) :
    Checked (Screen × Bool × Nat) := do
  let bit ← shiftRight 16 bits (← sub 15 c)
  if bit &&& 1 = 0 then return state
  else
    let (s, collided, collisions) := state
    let d ← add size (← mod (← add size x c) 128) (← mul size y 128)
    let on ← get s.pixels d
    let collisions ← if on then add size collisions 1 else pure collisions
    return (← flipAt s d, collided || on, collisions)

/-- Draw the rows from `r` on. The result has the number of rows, drawn or clipped, with the
counts. -/
def plotChunks (size x y : Nat) (wide : Bool) : Nat → List (List UInt8) → Screen × Nat × Nat →
    Checked (Nat × Screen × Nat × Nat)
  | r, [], state => pure (r, state)
  | r, row :: rest, (s, hits, collisions) => do
    let rows ← add size r 1
    let py ← add size y r
    if 64 ≤ py then plotChunks size x y wide rows rest (s, ← add size hits 1, collisions)
    else
      let bits ← rowBits wide row
      let columns ← mul size (if wide then 2 else 1) 8
      let (s, collided, collisions) ←
        (List.range columns).foldlM (plotBit size x py bits) (s, false, collisions)
      let hits ← if collided then add size hits 1 else pure hits
      plotChunks size x y wide rows rest (s, hits, collisions)

def drawHigh (size : Nat) (s : Screen) (x y : Nat) (sprite : List UInt8) (wide : Bool) :
    Checked Drawing := do
  let rows ← chunks (if wide then 2 else 1) sprite
  let (count, screen, hits, collisions) ←
    plotChunks size (← mod x 128) (← mod y 64) wide 0 rows (s, 0, 0)
  return ⟨screen, UInt8.ofNat (min hits 255), count, collisions⟩

def rowValue (wide : Bool) (row : List UInt8) : Nat :=
  if wide then (row[0]?.getD 0).toNat * 256 + (row[1]?.getD 0).toNat else (row[0]?.getD 0).toNat

theorem map_rowValue_pieces (wide : Bool) (sprite : List UInt8) :
    (pieces (if wide then 2 else 1) sprite).map (rowValue wide) =
      Screen.spriteRows wide sprite := by
  cases wide with
  | false =>
    change (pieces 1 sprite).map _ = sprite.map UInt8.toNat
    induction sprite with
    | nil => simp [pieces]
    | cons a rest ih => simpa [pieces, rowValue] using ih
  | true =>
    change (pieces 2 sprite).map _ = Screen.wideRows sprite
    fun_induction Screen.wideRows sprite with
    | case1 => simp [pieces]
    | case2 a => simp [pieces, rowValue]
    | case3 a b rest ih => simpa [pieces, rowValue] using ih

theorem ne_nil_of_mem_pieces {n : Nat} {bytes row : List UInt8} (h : row ∈ pieces n bytes) :
    row ≠ [] := by
  fun_induction pieces n bytes with
  | case1 => cases h
  | case2 a rest ih =>
    rcases List.mem_cons.1 h with rfl | hrest
    · exact List.cons_ne_nil _ _
    · exact ih hrest

theorem length_pieces (wide : Bool) (sprite : List UInt8) :
    (pieces (if wide then 2 else 1) sprite).length = (Screen.spriteRows wide sprite).length := by
  rw [← map_rowValue_pieces, List.length_map]

theorem length_spriteRows_le (wide : Bool) (sprite : List UInt8) :
    (Screen.spriteRows wide sprite).length ≤ sprite.length := by
  cases wide with
  | false => simp [Screen.spriteRows]
  | true =>
    have hlength : (Screen.spriteRows true sprite).length = (sprite.length + 1) / 2 :=
      Screen.length_wideRows sprite
    omega

theorem rowBits_eq (wide : Bool) {row : List UInt8} (h : row ≠ []) :
    rowBits wide row = .ok (rowValue wide row * 2 ^ (16 - Screen.spriteWidth wide)) := by
  obtain ⟨a, rest, rfl⟩ := List.exists_cons_of_ne_nil h
  cases wide with
  | false => simp [rowBits, rowValue, getList, Screen.spriteWidth, Nat.shiftLeft_eq]
  | true => simp [rowBits, rowValue, getList, Screen.spriteWidth]

theorem testBit_rowBits {width c : Nat} (hw : width ≤ 16) (hc : c < width) (row : Nat) :
    (row * 2 ^ (16 - width)).testBit (15 - c) = row.testBit (width - 1 - c) := by
  have hle : 16 - width ≤ 15 - c := by omega
  have hsub : 15 - c - (16 - width) = width - 1 - c := by omega
  rw [Nat.testBit_mul_two_pow, decide_eq_true hle, Bool.true_and, hsub]

theorem plotBit_eq {size x y : Nat} (hy : y < 64) (hx : x < 128) (hsize : 8192 ≤ size) (bits : Nat)
    (s : Screen) {hits collisions : Nat} (h : collisions + hits + 1 < size) {c : Nat}
    (hc : c < 16) :
    plotBit size x y bits (s, decide (0 < hits), collisions + hits) c =
      .ok (if bits.testBit (15 - c) then
          ((Screen.plotHigh y (s, hits) (x + c)).1,
            decide (0 < (Screen.plotHigh y (s, hits) (x + c)).2),
            collisions + (Screen.plotHigh y (s, hits) (x + c)).2)
        else (s, decide (0 < hits), collisions + hits)) := by
  rw [plotBit, sub_eq (by omega), ok_bind, shiftRight_eq (by omega), ok_bind]
  by_cases hbit : bits.testBit (15 - c) = true
  · have hset : ¬bits >>> (15 - c) &&& 1 = 0 := by
      rw [and_one_eq_zero_iff, hbit]
      exact Bool.noConfusion
    have hd : (x + c) % 128 + y * 128 < 8192 := by omega
    have hon : s.pixels[(x + c) % 128 + y * 128] = s.physical (x + c) y := by
      simp only [Screen.physical, Screen.position, Fin.getElem_fin, Nat.mod_eq_of_lt hy]
    rw [if_neg hset, if_pos hbit]
    simp (disch := omega) only [add_eq, mul_eq, mod_eq, ok_bind, get_eq _ hd, hon]
    rw [flipAt_eq s (show _ = (x + c) % 128 + y % 64 * 128 by rw [Nat.mod_eq_of_lt hy])]
    simp only [Screen.plotHigh]
    by_cases hp : s.physical (x + c) y = true <;> simp [hp, Nat.add_assoc]
  · rw [Bool.not_eq_true] at hbit
    rw [if_pos ((and_one_eq_zero_iff _ _).2 hbit), hbit]
    rfl

theorem plotHigh_count_le (y : Nat) (state : Screen × Nat) (x : Nat) :
    (Screen.plotHigh y state x).2 ≤ state.2 + 1 := by
  simp only [Screen.plotHigh]
  split <;> omega

theorem plotBits_eq {size x y : Nat} (hy : y < 64) (hx : x < 128) (hsize : 8192 ≤ size)
    (bits collisions : Nat) {columns : List Nat} (hc : ∀ c ∈ columns, c < 16) {s : Screen}
    {hits : Nat} (h : collisions + hits + columns.length < size) :
    let cells := (columns.filter fun c => bits.testBit (15 - c)).map (x + ·)
    let drawn := cells.foldl (Screen.plotHigh y) (s, hits)
    columns.foldlM (plotBit size x y bits) (s, decide (0 < hits), collisions + hits) =
      .ok (drawn.1, decide (0 < drawn.2), collisions + drawn.2) ∧
    drawn.2 ≤ hits + columns.length := by
  induction columns generalizing s hits with
  | nil => exact ⟨rfl, Nat.le_refl hits⟩
  | cons c rest ih =>
    obtain ⟨hhead, htail⟩ := List.forall_mem_cons.1 hc
    rw [List.length_cons] at h
    have hbit := plotBit_eq hy hx hsize bits s (show collisions + hits + 1 < size by omega) hhead
    rw [List.foldlM_cons, hbit, ok_bind, List.filter_cons, List.length_cons]
    by_cases hset : bits.testBit (15 - c) = true
    · have hcount := plotHigh_count_le y (s, hits) (x + c)
      have hnext : collisions + (Screen.plotHigh y (s, hits) (x + c)).2 + rest.length < size := by
        dsimp only at hcount
        omega
      obtain ⟨hrest, hle⟩ := ih htail hnext
      rw [if_pos hset, if_pos hset]
      exact ⟨hrest, Nat.le_trans hle (by dsimp only at hcount; omega)⟩
    · obtain ⟨hrest, hle⟩ := ih htail (show collisions + hits + rest.length < size by omega)
      rw [if_neg hset, if_neg hset]
      exact ⟨hrest, Nat.le_trans hle (by omega)⟩

theorem plotRow_eq {size x y : Nat} (hy : y < 64) (hx : x < 128) (hsize : 8192 ≤ size)
    {width : Nat} (hw : width ≤ 16) (row collisions : Nat) (s : Screen)
    (h : collisions + width < size) :
    let drawn := ((setColumns width row).map (x + ·)).foldl (Screen.plotHigh y) (s, 0)
    (List.range width).foldlM (plotBit size x y (row * 2 ^ (16 - width)))
        (s, false, collisions) =
      .ok (drawn.1, decide (0 < drawn.2), collisions + drawn.2) ∧
    drawn.2 ≤ width := by
  have hcolumns : setColumns width row =
      (List.range width).filter fun c => (row * 2 ^ (16 - width)).testBit (15 - c) := by
    refine List.filter_congr fun c hc => ?_
    exact (testBit_rowBits hw (List.mem_range.1 hc) row).symm
  have hloop := plotBits_eq hy hx hsize (row * 2 ^ (16 - width)) collisions
    (fun c hc => Nat.lt_of_lt_of_le (List.mem_range.1 hc) hw) (s := s)
    (show collisions + 0 + (List.range width).length < size by rw [List.length_range]; omega)
  rw [← hcolumns, List.length_range, Nat.zero_add] at hloop
  exact hloop

/-- The rows of a sprite. Only those above the bottom edge add to the collisions, by sixteen each at
most. -/
theorem plotChunks_eq {size x y : Nat} (hy : y < 64) (hx : x < 128) (wide : Bool) {r : Nat}
    {rows : List (List UInt8)} (hne : ∀ row ∈ rows, row ≠ []) (hr : r + rows.length + 8192 ≤ size)
    {s : Screen} {hits collisions : Nat} (hhits : hits + rows.length < size)
    (hcollisions : collisions + 16 * (64 - (y + r)) < size) :
    plotChunks size x y wide r rows (s, hits, collisions) =
      .ok (r + rows.length, Screen.drawRows (Screen.spriteWidth wide) x (y + r)
        (rows.map (rowValue wide)) s hits collisions) := by
  induction rows generalizing r s hits collisions with
  | nil => rfl
  | cons row rest ih =>
    obtain ⟨hrow, hrest⟩ := List.forall_mem_cons.1 hne
    rw [List.length_cons] at hr hhits
    have hlength : r + (row :: rest).length = r + 1 + rest.length := by
      rw [List.length_cons]
      omega
    rw [plotChunks, add_eq (by omega), ok_bind, add_eq (by omega), ok_bind, List.map_cons, hlength]
    by_cases hclip : 64 ≤ y + r
    · rw [if_pos hclip, add_eq (by omega), ok_bind, ih hrest (by omega) (by omega) (by omega),
        Screen.drawRows_clipped hclip]
      rfl
    · have hwidth : Screen.spriteWidth wide ≤ 16 := by cases wide <;> decide
      have hcolumns : mul size (if wide then 2 else 1) 8 = .ok (Screen.spriteWidth wide) := by
        cases wide with
        | false => exact mul_eq (show 1 * 8 < size by omega)
        | true => exact mul_eq (show 2 * 8 < size by omega)
      obtain ⟨hdrawn, hle⟩ := plotRow_eq (show y + r < 64 by omega) hx (show 8192 ≤ size by omega)
        hwidth (rowValue wide row) collisions s (by omega)
      rw [if_neg hclip, rowBits_eq wide hrow, ok_bind, hcolumns, ok_bind, hdrawn, ok_bind]
      rw [Screen.drawRows, if_pos (Nat.lt_of_not_le hclip)]
      dsimp only
      by_cases hcount : 0 < (((setColumns (Screen.spriteWidth wide) (rowValue wide row)).map
          (x + ·)).foldl (Screen.plotHigh (y + r)) (s, 0)).2
      · rw [if_pos (decide_eq_true hcount), if_pos hcount, add_eq (by omega), ok_bind,
          ih hrest (by omega) (by omega) (by omega)]
        rfl
      · rw [if_neg (by simpa using hcount), if_neg hcount, pure_eq_ok, ok_bind,
          ih hrest (by omega) (by omega) (by omega)]
        rfl

/-- A draw in high resolution stays within bounds, at any coordinates. -/
theorem drawHigh_eq {size : Nat} (s : Screen) (x y : Nat) {sprite : List UInt8} (wide : Bool)
    (h : sprite.length + 8192 ≤ size) :
    drawHigh size s x y sprite wide = .ok (s.drawHigh x y sprite wide) := by
  have hx : x % 128 < 128 := Nat.mod_lt x (by decide)
  have hy : y % 64 < 64 := Nat.mod_lt y (by decide)
  have hchunks : chunks (if wide then 2 else 1) sprite =
      .ok (pieces (if wide then 2 else 1) sprite) := by cases wide <;> rfl
  have hlength := length_pieces wide sprite
  have hrows := length_spriteRows_le wide sprite
  have hloop := plotChunks_eq hy hx wide (fun row hrow => ne_nil_of_mem_pieces hrow)
    (show 0 + (pieces (if wide then 2 else 1) sprite).length + 8192 ≤ size by omega) (s := s)
    (show 0 + (pieces (if wide then 2 else 1) sprite).length < size by omega)
    (show 0 + 16 * (64 - (y % 64 + 0)) < size by omega)
  rw [drawHigh, hchunks, ok_bind, mod_eq (by decide), ok_bind, mod_eq (by decide), ok_bind, hloop,
    ok_bind, map_rowValue_pieces, hlength, Nat.zero_add, Nat.add_zero]
  rfl

def scrollDown (size : Nat) (s : Screen) (n : Nat) : Checked Screen := do
  let shifted ← mul size (min n 64) 128
  let pixels ← copyWithin s.pixels 0 (← sub 8192 shifted) shifted
  return { s with pixels := ← fill pixels 0 shifted false }

def gridRows (s : Screen) : Vector (Vector Bool 128) 64 :=
  .ofFn fun y => .ofFn fun x => s.pixels[y.val * 128 + x.val]

def withRows (s : Screen) (rows : Vector (Vector Bool 128) 64) : Screen :=
  { s with pixels := .ofFn fun i =>
      rows[i.val / 128][(⟨i.val % 128, Nat.mod_lt _ (by decide)⟩ : Fin 128)] }

def eachRow (s : Screen) (f : Vector Bool 128 → Checked (Vector Bool 128)) : Checked Screen := do
  return withRows s (← (gridRows s).mapM f)

def scrollRight (s : Screen) : Checked Screen :=
  eachRow s fun row => do fill (← copyWithin row 0 (← sub 128 4) 4) 0 4 false

def scrollLeft (s : Screen) : Checked Screen :=
  eachRow s fun row => do fill (← copyWithin row 4 128 0) (← sub 128 4) 128 false

theorem scrollDown_eq {size : Nat} (h : 8192 < size) (s : Screen) (n : Nat) :
    scrollDown size s n = .ok (s.scrollDown n) := by
  have hle : min n 64 * 128 ≤ 8192 := by omega
  rw [scrollDown, mul_eq (by omega), ok_bind, sub_eq hle, ok_bind, copyWithin_eq s.pixels
    (Nat.zero_le _) (Nat.sub_le _ _) (by omega), ok_bind, fill_eq _ (Nat.zero_le _) hle]
  refine congrArg (fun pixels => Except.ok { s with pixels }) (Vector.ext fun i hi => ?_)
  simp only [Vector.getElem_ofFn, Fin.getElem_fin]
  by_cases hn : n * 128 ≤ i
  · have hk : min n 64 * 128 = n * 128 := by omega
    have hin : n * 128 ≤ i ∧ i < n * 128 + (8192 - n * 128 - 0) := by omega
    have hout : ¬(0 ≤ i ∧ i < n * 128) := by omega
    simp only [hk, hin, hout, if_true, if_false, and_true, Nat.zero_add]
    simp only [Vector.getElem?_eq_getElem (show i - n * 128 < 8192 by omega)]
    rfl
  · have hout : 0 ≤ i ∧ i < min n 64 * 128 := by omega
    simp only [hn, hout, if_true, if_false, and_true]

theorem eachRow_eq (s : Screen) {f : Vector Bool 128 → Checked (Vector Bool 128)}
    {g : Vector Bool 128 → Vector Bool 128} (h : ∀ row, f row = .ok (g row)) :
    eachRow s f = .ok (withRows s ((gridRows s).map g)) := by
  obtain rfl : f = fun row => pure (g row) := funext h
  rw [eachRow, Vector.mapM_pure]
  rfl

theorem scrollRight_eq (s : Screen) : scrollRight s = .ok s.scrollRight := by
  have hrow (row : Vector Bool 128) :
      (do fill (← copyWithin row 0 (← sub 128 4) 4) 0 4 false) =
        .ok (Vector.ofFn fun i => if 4 ≤ i.val then row[i.val - 4]?.getD false else false) := by
    rw [sub_eq (by decide), ok_bind, copyWithin_eq row (by decide) (by decide) (by decide), ok_bind,
      fill_eq _ (by decide) (by decide)]
    refine congrArg Except.ok (Vector.ext fun i hi => ?_)
    simp only [Vector.getElem_ofFn, Fin.getElem_fin]
    by_cases h4 : 4 ≤ i
    · have hin : 4 ≤ i ∧ i < 4 + (128 - 4 - 0) := by omega
      have hout : ¬(0 ≤ i ∧ i < 4) := by omega
      simp only [hin, hout, if_true, if_false, and_true, Nat.zero_add]
      simp only [Vector.getElem?_eq_getElem (show i - 4 < 128 by omega)]
      rfl
    · have hout : 0 ≤ i ∧ i < 4 := by omega
      simp only [h4, hout, if_true, if_false, and_true]
  rw [scrollRight, eachRow_eq s hrow]
  refine congrArg (fun pixels => Except.ok { s with pixels }) (Vector.ext fun i hi => ?_)
  simp only [Vector.getElem_ofFn, gridRows, Vector.getElem_map, Fin.getElem_fin]
  by_cases h4 : 4 ≤ i % 128
  · simp only [h4, if_true]
    simp only [Vector.getElem?_eq_getElem (show i % 128 - 4 < 128 by omega)]
    simp only [Vector.getElem_ofFn, Option.getD_some]
    congr 1
    omega
  · simp only [h4, if_false]

theorem scrollLeft_eq (s : Screen) : scrollLeft s = .ok s.scrollLeft := by
  have hrow (row : Vector Bool 128) :
      (do fill (← copyWithin row 4 128 0) (← sub 128 4) 128 false) =
        .ok (Vector.ofFn fun i => if i.val < 124 then row[i.val + 4]?.getD false else false) := by
    rw [copyWithin_eq row (by decide) (by decide) (by decide), ok_bind, sub_eq (by decide), ok_bind,
      fill_eq _ (by decide) (by decide)]
    refine congrArg Except.ok (Vector.ext fun i hi => ?_)
    simp only [Vector.getElem_ofFn, Fin.getElem_fin]
    by_cases h124 : i < 124
    · have hin : 0 ≤ i ∧ i < 0 + (128 - 4) := by omega
      have hout : ¬(128 - 4 ≤ i ∧ i < 128) := by omega
      simp only [h124, hin, hout, if_true, if_false, and_true, Nat.sub_zero, Nat.add_comm 4 i]
      simp only [Vector.getElem?_eq_getElem (show i + 4 < 128 by omega)]
      rfl
    · have hout : 128 - 4 ≤ i ∧ i < 128 := by omega
      simp only [h124, hout, if_true, if_false, and_true]
  rw [scrollLeft, eachRow_eq s hrow]
  refine congrArg (fun pixels => Except.ok { s with pixels }) (Vector.ext fun i hi => ?_)
  simp only [Vector.getElem_ofFn, gridRows, Vector.getElem_map, Fin.getElem_fin]
  by_cases h124 : i % 128 < 124
  · simp only [h124, if_true, dif_pos]
    simp only [Vector.getElem?_eq_getElem (show i % 128 + 4 < 128 by omega)]
    simp only [Vector.getElem_ofFn, Option.getD_some]
    congr 1
    omega
  · simp only [h124, if_false, dif_neg, not_false_eq_true]

end Chip8.Checked
