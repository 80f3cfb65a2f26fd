import Chip8.Proofs.Checked.Screen
import Mathlib.Tactic.Common

/-! # Scrolling as translation

Scrolling moves the picture in the plane: down by rows, sideways by columns, and clips it at the
edges of the grid. Moves in the same direction, or at right angles to each other, add up; one that
takes back another brings back all but what was clipped. The grid is one array, and what moves it
are copies within that array and within its rows; these copies overlap, and do the same.
-/
namespace Chip8.Screen

/-- The places of the plane that lie in the grid. -/
def InGrid (x y : Int) : Prop := 0 ≤ x ∧ x < 128 ∧ 0 ≤ y ∧ y < 64

instance (x y : Int) : Decidable (InGrid x y) := inferInstanceAs (Decidable (_ ∧ _))

/-- The picture in the plane: all that lies outside the grid is clear. -/
def plane (s : Screen) (x y : Int) : Bool := decide (InGrid x y) && s.physical x.toNat y.toNat

/-- Another screen shows the picture moved to the right by `dx` and down by `dy`, as far as it is in
the grid. -/
structure MovedBy (dx dy : Int) (s t : Screen) : Prop where
  hires : t.hires = s.hires
  plane (x y : Int) : t.plane x y = (decide (InGrid x y) && s.plane (x - dx) (y - dy))

theorem plane_ofNat {x y : Nat} (hx : x < 128) (hy : y < 64) (s : Screen) :
    s.plane x y = s.physical x y := by
  have hin : InGrid x y := ⟨by omega, by omega, by omega, by omega⟩
  simp only [plane, hin, decide_true, Bool.true_and, Int.toNat_natCast]

theorem plane_of_not_inGrid {x y : Int} (h : ¬InGrid x y) (s : Screen) : s.plane x y = false := by
  simp only [plane, h, decide_false, Bool.false_and]

namespace MovedBy
variable {s t u : Screen} {dx dy dx' dy' : Int}

theorem unique (h : MovedBy dx dy s t) (h' : MovedBy dx dy s u) : u = t := by
  apply eq_of_physical (h'.hires.trans h.hires.symm)
  intro x hx y hy
  rw [← plane_ofNat hx hy, ← plane_ofNat hx hy, h.plane, h'.plane]

theorem physical (h : MovedBy dx dy s t) {x y : Nat} (hx : x < 128) (hy : y < 64) :
    t.physical x y = s.plane (x - dx) (y - dy) := by
  have hin : InGrid x y := ⟨by omega, by omega, by omega, by omega⟩
  rw [← plane_ofNat hx hy, h.plane, decide_eq_true hin, Bool.true_and]

/-- To see that a screen shows the moved picture, it is enough to look at the grid. -/
theorem of_physical (hhires : t.hires = s.hires)
    (h : ∀ x < 128, ∀ y < 64, t.physical x y = s.plane (x - dx) (y - dy)) : MovedBy dx dy s t where
  hires := hhires
  plane x y := by
    by_cases hin : InGrid x y
    · obtain ⟨hx, hx', hy, hy'⟩ := hin
      lift x to Nat using hx
      lift y to Nat using hy
      have hx : x < 128 := by omega
      have hy : y < 64 := by omega
      have hin : InGrid x y := ⟨by omega, hx', by omega, hy'⟩
      rw [plane_ofNat hx hy, h x hx y hy, decide_eq_true hin, Bool.true_and]
    · rw [plane_of_not_inGrid hin, decide_eq_false hin, Bool.false_and]

/-- Moves that do not go against each other add up. -/
theorem trans (hx : 0 ≤ dx ∧ 0 ≤ dx' ∨ dx ≤ 0 ∧ dx' ≤ 0) (hy : 0 ≤ dy ∧ 0 ≤ dy' ∨ dy ≤ 0 ∧ dy' ≤ 0)
    (h : MovedBy dx dy s t) (h' : MovedBy dx' dy' t u) : MovedBy (dx + dx') (dy + dy') s u where
  hires := h'.hires.trans h.hires
  plane x y := by
    have hx' : x - dx' - dx = x - (dx + dx') := by omega
    have hy' : y - dy' - dy = y - (dy + dy') := by omega
    rw [h'.plane, h.plane, hx', hy']
    by_cases hin : InGrid x y
    · by_cases hsource : InGrid (x - (dx + dx')) (y - (dy + dy'))
      · have hbetween : InGrid (x - dx') (y - dy') := by
          unfold InGrid at *
          omega
        rw [decide_eq_true hbetween, Bool.true_and]
      · rw [plane_of_not_inGrid hsource, Bool.and_false]
    · rw [decide_eq_false hin, Bool.false_and, Bool.false_and]

end MovedBy

theorem movedBy_scrollDown (s : Screen) (rows : Nat) : MovedBy 0 rows s (s.scrollDown rows) := by
  apply MovedBy.of_physical (s.hires_scrollDown rows)
  intro x hx y hy
  rw [physical_scrollDown s rows x y hy]
  by_cases h : rows ≤ y
  · have hsource : ((y : Int) - rows) = (y - rows : Nat) := by omega
    rw [if_pos h, Int.sub_zero, hsource, plane_ofNat hx (by omega)]
  · rw [if_neg h, plane_of_not_inGrid (by unfold InGrid; omega)]

theorem movedBy_scrollRight (s : Screen) : MovedBy 4 0 s s.scrollRight := by
  apply MovedBy.of_physical s.hires_scrollRight
  intro x hx y hy
  rw [physical_scrollRight s x y hx]
  by_cases h : 4 ≤ x
  · have hsource : ((x : Int) - 4) = (x - 4 : Nat) := by omega
    rw [if_pos h, Int.sub_zero, hsource, plane_ofNat (by omega) hy]
  · rw [if_neg h, plane_of_not_inGrid (by unfold InGrid; omega)]

theorem movedBy_scrollLeft (s : Screen) : MovedBy (-4) 0 s s.scrollLeft := by
  apply MovedBy.of_physical s.hires_scrollLeft
  intro x hx y hy
  rw [physical_scrollLeft s x y hx]
  by_cases h : x < 124
  · have hsource : ((x : Int) - -4) = (x + 4 : Nat) := by omega
    rw [if_pos h, Int.sub_zero, hsource, plane_ofNat (by omega) hy]
  · rw [if_neg h, plane_of_not_inGrid (by unfold InGrid; omega)]

theorem scrollDown_scrollDown (s : Screen) (a b : Nat) :
    (s.scrollDown a).scrollDown b = s.scrollDown (a + b) := by
  have htwice := (s.movedBy_scrollDown a).trans (by omega) (by omega)
    ((s.scrollDown a).movedBy_scrollDown b)
  have honce := s.movedBy_scrollDown (a + b)
  rw [Int.add_zero] at htwice
  push_cast at honce
  exact honce.unique htwice

theorem MovedBy.comm {s t t' u u' : Screen} {dx dy : Int} (h : MovedBy dx 0 s t)
    (h' : MovedBy 0 dy t u) (k : MovedBy 0 dy s t') (k' : MovedBy dx 0 t' u') : u = u' := by
  have hfirst := h.trans (by omega) (by omega) h'
  have hsecond := k.trans (by omega) (by omega) k'
  rw [Int.add_zero, Int.zero_add] at hfirst hsecond
  exact hsecond.unique hfirst

theorem scrollDown_scrollRight (s : Screen) (rows : Nat) :
    s.scrollRight.scrollDown rows = (s.scrollDown rows).scrollRight :=
  s.movedBy_scrollRight.comm (s.scrollRight.movedBy_scrollDown rows) (s.movedBy_scrollDown rows)
    (s.scrollDown rows).movedBy_scrollRight

theorem scrollDown_scrollLeft (s : Screen) (rows : Nat) :
    s.scrollLeft.scrollDown rows = (s.scrollDown rows).scrollLeft :=
  s.movedBy_scrollLeft.comm (s.scrollLeft.movedBy_scrollDown rows) (s.movedBy_scrollDown rows)
    (s.scrollDown rows).movedBy_scrollLeft

theorem hires_clear (s : Screen) : s.clear.hires = s.hires := s.hires_withPixels _

theorem physical_clear (s : Screen) (x y : Nat) : s.clear.physical x y = false := by
  simp [physical, clear]

theorem scrollDown_of_le (s : Screen) {rows : Nat} (h : 64 ≤ rows) :
    s.scrollDown rows = s.clear := by
  apply eq_of_physical ((s.hires_scrollDown rows).trans s.hires_clear.symm)
  intro x _ y hy
  rw [physical_scrollDown s rows x y hy, if_neg (by omega), physical_clear]

theorem physical_scrollLeft_scrollRight (s : Screen) {x y : Nat} (hx : x < 128) :
    s.scrollRight.scrollLeft.physical x y = if x < 124 then s.physical x y else false := by
  rw [physical_scrollLeft _ x y hx]
  by_cases h : x < 124
  · rw [if_pos h, if_pos h, physical_scrollRight s (x + 4) y (by omega), if_pos (by omega),
      Nat.add_sub_cancel]
  · rw [if_neg h, if_neg h]

theorem physical_scrollRight_scrollLeft (s : Screen) {x y : Nat} (hx : x < 128) :
    s.scrollLeft.scrollRight.physical x y = if 4 ≤ x then s.physical x y else false := by
  rw [physical_scrollRight _ x y hx]
  by_cases h : 4 ≤ x
  · rw [if_pos h, if_pos h, physical_scrollLeft s (x - 4) y (by omega), if_pos (by omega),
      Nat.sub_add_cancel h]
  · rw [if_neg h, if_neg h]

/-- Scrolling translates the picture and clips it, on every screen: down by any number of rows, to
the right and to the left by four columns. So scrolling down adds up, and it may be taken before or
after a scroll sideways; a scroll sideways and back clears four columns at one edge. The resolution
is neither looked at nor changed. The copies and fills of slices of the grid do all of this. -/
theorem scrolling_translates (s : Screen) :
    (∀ n, ∀ x < 128, ∀ y < 64,
      (s.scrollDown n).physical x y = if n ≤ y then s.physical x (y - n) else false) ∧
    (∀ n ≥ 64, s.scrollDown n = s.clear) ∧
    (∀ x < 128, ∀ y < 64,
      s.scrollRight.physical x y = (if 4 ≤ x then s.physical (x - 4) y else false) ∧
      s.scrollLeft.physical x y = (if x < 124 then s.physical (x + 4) y else false) ∧
      s.scrollRight.scrollLeft.physical x y = (if x < 124 then s.physical x y else false) ∧
      s.scrollLeft.scrollRight.physical x y = (if 4 ≤ x then s.physical x y else false)) ∧
    (∀ a b, (s.scrollDown a).scrollDown b = s.scrollDown (a + b)) ∧
    (∀ n, s.scrollRight.scrollDown n = (s.scrollDown n).scrollRight ∧
      s.scrollLeft.scrollDown n = (s.scrollDown n).scrollLeft) ∧
    (∀ n, (s.scrollDown n).hires = s.hires ∧ s.scrollRight.hires = s.hires ∧
      s.scrollLeft.hires = s.hires) ∧
    (∀ n on, (s.setHires on).scrollDown n = (s.scrollDown n).setHires on ∧
      (s.setHires on).scrollRight = s.scrollRight.setHires on ∧
      (s.setHires on).scrollLeft = s.scrollLeft.setHires on) ∧
    ∀ size > 8192, ∀ n, Checked.scrollDown size s n = .ok (s.scrollDown n) ∧
      Checked.scrollRight s = .ok s.scrollRight ∧ Checked.scrollLeft s = .ok s.scrollLeft := by
  refine ⟨?_, ?_, ?_, s.scrollDown_scrollDown, ?_, ?_, ?_, ?_⟩
  · intro n x _ y hy
    exact s.physical_scrollDown n x y hy
  · intro n hn
    exact s.scrollDown_of_le hn
  · intro x hx y _
    exact ⟨s.physical_scrollRight x y hx, s.physical_scrollLeft x y hx,
      s.physical_scrollLeft_scrollRight hx, s.physical_scrollRight_scrollLeft hx⟩
  · intro n
    exact ⟨s.scrollDown_scrollRight n, s.scrollDown_scrollLeft n⟩
  · intro n
    exact ⟨s.hires_scrollDown n, s.hires_scrollRight, s.hires_scrollLeft⟩
  · intro n on
    exact ⟨rfl, rfl, rfl⟩
  · intro size hsize n
    exact ⟨Checked.scrollDown_eq hsize s n, Checked.scrollRight_eq s, Checked.scrollLeft_eq s⟩

/-- A pixel in the last column but three is lost on the way to the right and back, and one beside
it returns; scrolled down by 40 rows and by 24 more, both are gone. -/
theorem scrolling_translates_of_edge :
    let s := (blank.flip 124 9).flip 123 9
    s.scrollRight.scrollLeft.physical 124 9 = false ∧
      s.scrollRight.scrollLeft.physical 123 9 = true ∧
      (s.scrollDown 40).scrollDown 24 = s.clear ∧
      Checked.scrollDown (2 ^ 64) s 40 = .ok (s.scrollDown 40) := by
  intro s
  obtain ⟨-, hgone, hsideways, hadds, -, -, -, hslices⟩ := scrolling_translates s
  obtain ⟨-, -, hlost, -⟩ := hsideways 124 (by decide) 9 (by decide)
  obtain ⟨-, -, hkept, -⟩ := hsideways 123 (by decide) 9 (by decide)
  have hset : s.physical 123 9 = true := by
    simp [s, physical_flip, physical_blank]
  refine ⟨hlost, hkept.trans hset, ?_, (hslices (2 ^ 64) (by decide) 40).1⟩
  rw [hadds]
  exact hgone 64 (by decide)

end Chip8.Screen
