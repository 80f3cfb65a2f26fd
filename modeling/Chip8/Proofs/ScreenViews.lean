import Chip8.Proofs.Text.Lines
import Chip8.Screen.Text
import Mathlib.Data.List.Basic

/-! # The views of a screen

The logical pixels are read one by one, as a list row by row, and as lines of text. All of these
show one grid, in either resolution: the list has the pixel of each place of the grid, the text has
a mark for it, and the list is found again in the text.
-/
namespace Chip8.Screen

theorem width_pos (s : Screen) : 0 < s.width := by
  rw [width]
  split <;> decide

theorem pixel_add_mul (s : Screen) (x y i j : Nat) :
    s.pixel (x + i * s.width) (y + j * s.height) = s.pixel x y := by
  cases hhires : s.hires with
  | true =>
    simp only [pixel, width, height, hhires, if_true, physical]
    congr 1
    rw [position_eq_iff]
    omega
  | false =>
    simp only [pixel, width, height, hhires, Bool.false_eq_true, if_false, physical]
    congr 1
    rw [position_eq_iff]
    omega

/-- A pixel is read at the upper left corner of its block, in the array of the physical pixels. -/
theorem getElem?_pixels (s : Screen) (x y : Nat) :
    let size := 128 / s.width
    s.pixels.toList[x % s.width * size + y % s.height * size * 128]? = some (s.pixel x y) := by
  intro size
  have hplace (i : Nat) (hi : i < 8192) : s.pixels.toList[i]? = some s.pixels[i] := by
    rw [List.getElem?_eq_getElem (by rwa [Vector.length_toList]), Vector.getElem_toList]
  cases hhires : s.hires with
  | true =>
    have hlt : x % 128 + y % 64 * 128 < 8192 := by omega
    simp only [size, width, height, hhires, if_true, Nat.reduceDiv, Nat.mul_one, hplace _ hlt,
      pixel, physical, position, Fin.getElem_fin]
  | false =>
    have hlt : x % 64 * 2 + y % 32 * 2 * 128 < 8192 := by omega
    have hsame : 2 * x % 128 + 2 * y % 64 * 128 = x % 64 * 2 + y % 32 * 2 * 128 := by omega
    simp only [size, width, height, hhires, Bool.false_eq_true, if_false, Nat.reduceDiv,
      hplace _ hlt, pixel, physical, position, Fin.getElem_fin, hsame]

/-- Of a grid that is listed row by row, place `i` is in row `i / width` and column `i % width`. -/
theorem flatten_rows {α : Type} (f : Nat → Nat → α) {width : Nat} (h : 0 < width) (height : Nat) :
    ((List.range height).map fun y => (List.range width).map fun x => f x y).flatten =
      (List.range (height * width)).map fun i => f (i % width) (i / width) := by
  induction height with
  | zero => simp
  | succ height ih =>
    have hlast : (List.range width).map (fun x => f x height) =
        ((List.range width).map (height * width + ·)).map
          fun i => f (i % width) (i / width) := by
      rw [List.map_map]
      apply List.map_congr_left
      intro x hx
      have hlt := List.mem_range.1 hx
      have hmod : (height * width + x) % width = x := by
        rw [Nat.mul_add_mod', Nat.mod_eq_of_lt hlt]
      have hdiv : (height * width + x) / width = height := by
        rw [Nat.mul_comm, Nat.mul_add_div h, Nat.div_eq_of_lt hlt, Nat.add_zero]
      simp only [Function.comp_apply, hmod, hdiv]
    rw [List.range_succ, List.map_append, List.flatten_append, ih, Nat.succ_mul, List.range_add,
      List.map_append, ← hlast, List.map_singleton, List.flatten_singleton]

theorem snapshot_eq (s : Screen) :
    s.snapshot =
      (List.range (s.height * s.width)).map fun i => s.pixel (i % s.width) (i / s.width) :=
  flatten_rows s.pixel s.width_pos s.height

theorem length_snapshot (s : Screen) : s.snapshot.length = s.width * s.height := by
  rw [snapshot_eq, List.length_map, List.length_range, Nat.mul_comm]

theorem getElem?_snapshot (s : Screen) {x y : Nat} (hx : x < s.width) (hy : y < s.height) :
    s.snapshot[x + y * s.width]? = some (s.pixel x y) := by
  have hlt : x + y * s.width < s.height * s.width := by
    calc x + y * s.width
        < s.width + y * s.width := Nat.add_lt_add_right hx _
      _ = (y + 1) * s.width := by rw [Nat.succ_mul, Nat.add_comm]
      _ ≤ s.height * s.width := Nat.mul_le_mul_right _ hy
  have hmod : (x + y * s.width) % s.width = x := by
    rw [Nat.add_mul_mod_self_right, Nat.mod_eq_of_lt hx]
  have hdiv : (x + y * s.width) / s.width = y := by
    rw [Nat.add_mul_div_right _ _ s.width_pos, Nat.div_eq_of_lt hx, Nat.zero_add]
  rw [snapshot_eq, List.getElem?_map, List.getElem?_range hlt, Option.map_some, hmod, hdiv]

theorem snapshot_of_hires {s : Screen} (h : s.hires = true) : s.snapshot = s.pixels.toList := by
  have hwidth : s.width = 128 := by rw [width, if_pos h]
  have hheight : s.height = 64 := by rw [height, if_pos h]
  apply List.ext_getElem
  · rw [length_snapshot, hwidth, hheight, Vector.length_toList]
  · intro i hi _
    rw [length_snapshot, hwidth, hheight] at hi
    have hposition : i % 128 % 128 + i / 128 % 64 * 128 = i := by omega
    simp only [snapshot_eq, List.getElem_map, List.getElem_range, hwidth, pixel, h, if_true,
      physical, position, Fin.getElem_fin, hposition, Vector.getElem_toList]

theorem rows_eq_of_snapshot {s t : Screen} (hhires : s.hires = t.hires)
    (h : s.snapshot = t.snapshot) : s.rows = t.rows := by
  have hwidth : s.width = t.width := by rw [width, width, hhires]
  have hheight : s.height = t.height := by rw [height, height, hhires]
  rw [rows, rows, ← hheight]
  apply List.map_congr_left
  intro y hy
  rw [row, row, ← hwidth]
  apply List.map_congr_left
  intro x hx
  have hs := s.getElem?_snapshot (List.mem_range.1 hx) (List.mem_range.1 hy)
  have ht := t.getElem?_snapshot (hwidth ▸ List.mem_range.1 hx) (hheight ▸ List.mem_range.1 hy)
  rw [h, hwidth, ht, Option.some_inj] at hs
  exact hs.symm

/-- The pixels of a screen as they are marked in its text. -/
def pixelsOf (text : String) : List Bool := (text.toList.filter (· ≠ '\n')).map (· == '#')

theorem newline_ne_mark : ∀ on, '\n' ≠ mark on := by
  decide

theorem mark_beq : ∀ on, (mark on == '#') = on := by
  decide

theorem toList_dump (s : Screen) :
    s.dump.toList = (s.rows.map (List.map mark)).flatMap Text.ended := by
  rw [dump, String.toList_ofList, List.flatMap_map]
  rfl

theorem lines_dump (s : Screen) : Text.lines s.dump.toList = s.rows.map (List.map mark) := by
  rw [toList_dump]
  apply Text.lines_flatMap_ended
  intro line hline hnewline
  obtain ⟨row, -, rfl⟩ := List.mem_map.1 hline
  obtain ⟨on, -, hmark⟩ := List.mem_map.1 hnewline
  exact newline_ne_mark on hmark.symm

theorem pixelsOf_dump (s : Screen) : pixelsOf s.dump = s.snapshot := by
  have hrow (row : List Bool) :
      ((Text.ended (row.map mark)).filter (· ≠ '\n')).map (· == '#') = row := by
    have hmarks : (row.map mark).filter (· ≠ '\n') = row.map mark := by
      rw [List.filter_eq_self]
      intro c hc
      obtain ⟨on, -, rfl⟩ := List.mem_map.1 hc
      exact decide_eq_true (newline_ne_mark on).symm
    have hread : row.map ((· == '#') ∘ mark) = row := by
      simp only [Function.comp_def, mark_beq, List.map_id']
    rw [Text.ended, List.filter_append, hmarks, List.map_append, List.map_map, hread]
    exact List.append_nil row
  rw [pixelsOf, toList_dump, List.flatMap_map, List.filter_flatMap, List.map_flatMap, snapshot]
  simp only [hrow, List.flatMap_id']

theorem dump_eq_iff {s t : Screen} (hhires : s.hires = t.hires) :
    s.dump = t.dump ↔ s.snapshot = t.snapshot := by
  constructor
  · intro h
    rw [← pixelsOf_dump, h, pixelsOf_dump]
  · intro h
    rw [dump, dump, rows_eq_of_snapshot hhires h]

theorem flatMap_ended_lines_dump (s : Screen) :
    (Text.lines s.dump.toList).flatMap Text.ended = s.dump.toList := by
  rw [lines_dump, ← toList_dump]

theorem length_lines_dump (s : Screen) : (Text.lines s.dump.toList).length = s.height := by
  rw [lines_dump, List.length_map, rows, List.length_map, List.length_range]

theorem getElem?_lines_dump (s : Screen) {x y : Nat} (hx : x < s.width) (hy : y < s.height) :
    (Text.lines s.dump.toList)[y]?.bind (·[x]?) = some (if s.pixel x y then '#' else '.') := by
  rw [lines_dump, rows, List.getElem?_map, List.getElem?_map, List.getElem?_range hy,
    Option.map_some, Option.map_some, Option.bind_some, row, List.getElem?_map, List.getElem?_map,
    List.getElem?_range hx]
  rfl

theorem length_of_mem_lines_dump {s : Screen} {line : List Char}
    (h : line ∈ Text.lines s.dump.toList) : line.length = s.width := by
  rw [lines_dump] at h
  obtain ⟨pixels, hpixels, rfl⟩ := List.mem_map.1 h
  obtain ⟨y, -, rfl⟩ := List.mem_map.1 hpixels
  rw [List.length_map, row, List.length_map, List.length_range]

/-- All views of a screen show the grid of its pixels, in either resolution: the list and the text
have each pixel in its place and nothing else, the list is found again in the text, and two texts
of one resolution are equal as soon as the lists are. Pixels outside of the grid repeat it. Each is
one of the physical pixels, and in high resolution the list is that of all these. -/
theorem views_agree (s : Screen) :
    let lines := Text.lines s.dump.toList
    s.snapshot.length = s.width * s.height ∧
    (∀ x < s.width, ∀ y < s.height, s.snapshot[x + y * s.width]? = some (s.pixel x y)) ∧
    (∀ x y i j, s.pixel (x + i * s.width) (y + j * s.height) = s.pixel x y) ∧
    (∀ x y, let size := 128 / s.width
      s.pixels.toList[x % s.width * size + y % s.height * size * 128]? = some (s.pixel x y)) ∧
    s.dump.toList = lines.flatMap Text.ended ∧
    lines.length = s.height ∧ (∀ line ∈ lines, line.length = s.width) ∧
    (∀ x < s.width, ∀ y < s.height,
      lines[y]?.bind (·[x]?) = some (if s.pixel x y then '#' else '.')) ∧
    pixelsOf s.dump = s.snapshot ∧
    (∀ t : Screen, s.hires = t.hires → (s.dump = t.dump ↔ s.snapshot = t.snapshot)) ∧
    (s.hires = true → s.snapshot = s.pixels.toList) := by
  intro lines
  exact ⟨s.length_snapshot, fun x hx y hy => s.getElem?_snapshot hx hy, s.pixel_add_mul,
    s.getElem?_pixels, s.flatMap_ended_lines_dump.symm, s.length_lines_dump,
    fun line hline => length_of_mem_lines_dump hline, fun x hx y hy => s.getElem?_lines_dump hx hy,
    s.pixelsOf_dump, fun t hhires => dump_eq_iff hhires, snapshot_of_hires⟩

/-- The pixel of a block with one physical pixel in its corner, and one in high resolution. -/
theorem views_agree_of_single :
    let s := blank.flip 10 6
    let t := (blank.setHires true).flip 127 63
    s.pixel 5 3 = true ∧ s.snapshot[5 + 3 * s.width]? = some true ∧
      (Text.lines s.dump.toList)[3]?.bind (·[5]?) = some '#' ∧
      s.hires = blank.hires ∧ s.dump ≠ blank.dump ∧
      t.hires = true ∧ t.snapshot = t.pixels.toList ∧
      t.snapshot[127 + 63 * t.width]? = some true := by
  intro s t
  obtain ⟨-, hlist, -, -, -, -, -, htext, -, hdump, -⟩ := views_agree s
  obtain ⟨-, hlist', -, -, -, -, -, -, -, -, hphysical⟩ := views_agree t
  have hpixel : s.pixel 5 3 = true := by
    rw [pixel, if_neg (by decide), physical_flip, if_pos (by decide), physical_blank]
    rfl
  have hpixel' : t.pixel 127 63 = true := by
    rw [pixel, if_pos (by decide), physical_flip, if_pos (by decide)]
    exact congrArg not (physical_blank 127 63)
  have hlow : s.hires = blank.hires := by decide
  have hhigh : t.hires = true := by decide
  have hx : 5 < s.width := by decide
  have hy : 3 < s.height := by decide
  have hx' : 127 < t.width := by decide
  have hy' : 63 < t.height := by decide
  have hplace := hlist 5 hx 3 hy
  have hmark := htext 5 hx 3 hy
  have hplace' := hlist' 127 hx' 63 hy'
  rw [hpixel] at hplace hmark
  rw [hpixel'] at hplace'
  have hne : s.dump ≠ blank.dump := by
    intro h
    have hclear : blank.snapshot[5 + 3 * blank.width]? = some (blank.pixel 5 3) :=
      blank.getElem?_snapshot (by decide) (by decide)
    have hwidth : s.width = blank.width := by rw [width, width, hlow]
    have hpixels : blank.pixel 5 3 = false := physical_blank 10 6
    rw [(hdump blank hlow).1 h, hwidth, hclear, hpixels] at hplace
    cases hplace
  exact ⟨hpixel, hplace, hmark, hlow, hne, hhigh, hphysical hhigh, hplace'⟩

end Chip8.Screen
