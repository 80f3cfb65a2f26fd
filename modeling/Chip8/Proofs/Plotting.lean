import Chip8.Screen.Draw
import Mathlib.Data.List.Nodup
import Mathlib.Data.Nat.Bits
import Mathlib.Tactic.Common

/-! # Plotting cells

A sprite is drawn cell by cell, and every cell is looked at only when its turn comes. Where no
point is covered by two of the cells the order does not matter: every covered point is flipped
once, and the cells that were found set are those that were set in the beginning. Where the cells
overlap, a point is flipped as often as it is covered.
-/
namespace Chip8

theorem mem_setColumns {width bits c : Nat} :
    c ∈ setColumns width bits ↔ c < width ∧ bits.testBit (width - 1 - c) = true := by
  simp [setColumns]

theorem nodup_setColumns (width bits : Nat) : (setColumns width bits).Nodup :=
  List.nodup_range.filter _

namespace Screen

theorem physical_flip_eq_xor (s : Screen) (a b x y : Nat) :
    (s.flip a b).physical x y =
      (s.physical x y ^^ decide (a % 128 = x % 128 ∧ b % 64 = y % 64)) := by
  rw [physical_flip]
  by_cases h : a % 128 = x % 128 ∧ b % 64 = y % 64
  · simp [h]
  · simp [h]

variable {κ : Type} {plot : Screen × Nat → κ → Screen × Nat} {covers : κ → Nat → Nat → Bool}
  {spot : κ → Nat × Nat} {cells : List κ}

/-- Plotting a cell flips the points that it covers, and counts it when the one of them at which it
is looked at was set. -/
structure Plots (plot : Screen × Nat → κ → Screen × Nat) (covers : κ → Nat → Nat → Bool)
    (spot : κ → Nat × Nat) : Prop where
  hires (s : Screen) (hits : Nat) (c : κ) : (plot (s, hits) c).1.hires = s.hires
  physical (s : Screen) (hits : Nat) (c : κ) (x y : Nat) :
    (plot (s, hits) c).1.physical x y = (s.physical x y ^^ covers c x y)
  count (s : Screen) (hits : Nat) (c : κ) :
    (plot (s, hits) c).2 = if s.physical (spot c).1 (spot c).2 then hits + 1 else hits
  covers_spot (c : κ) : covers c (spot c).1 (spot c).2 = true

/-- No point is covered by two of the cells. -/
def Apart (covers : κ → Nat → Nat → Bool) (cells : List κ) : Prop :=
  cells.Pairwise fun c d => ∀ x y, covers c x y = true → covers d x y = false

theorem Apart.bodd_countP (h : Apart covers cells) (x y : Nat) :
    (cells.countP (covers · x y)).bodd = cells.any (covers · x y) := by
  induction cells with
  | nil => simp
  | cons c rest ih =>
    obtain ⟨hc, hrest⟩ := List.pairwise_cons.1 h
    rw [List.countP_cons, List.any_cons, ← ih hrest]
    cases hx : covers c x y with
    | false => simp
    | true =>
      have hnone : rest.countP (covers · x y) = 0 := by
        rw [List.countP_eq_zero]
        intro d hd
        simp [hc d hd x y hx]
      simp [hnone]

namespace Plots

theorem hires_foldl (h : Plots plot covers spot) (cells : List κ) (s : Screen) (hits : Nat) :
    (cells.foldl plot (s, hits)).1.hires = s.hires := by
  induction cells generalizing s hits with
  | nil => rfl
  | cons c rest ih =>
    rw [List.foldl_cons]
    exact (ih _ _).trans (h.hires s hits c)

/-- A point is flipped by all cells together where an odd number of them covers it. -/
theorem physical_foldl_bodd (h : Plots plot covers spot) (cells : List κ) (s : Screen)
    (hits x y : Nat) :
    (cells.foldl plot (s, hits)).1.physical x y =
      (s.physical x y ^^ (cells.countP (covers · x y)).bodd) := by
  induction cells generalizing s hits with
  | nil => simp
  | cons c rest ih =>
    have htail := ih (plot (s, hits) c).1 (plot (s, hits) c).2
    rw [h.physical] at htail
    rw [List.foldl_cons, List.countP_cons]
    refine htail.trans ?_
    cases covers c x y with
    | false => simp
    | true => simp [Nat.bodd_succ]

theorem physical_foldl (h : Plots plot covers spot) (hapart : Apart covers cells) (s : Screen)
    (hits x y : Nat) :
    (cells.foldl plot (s, hits)).1.physical x y =
      (s.physical x y ^^ cells.any (covers · x y)) := by
  rw [h.physical_foldl_bodd, hapart.bodd_countP]

theorem count_foldl (h : Plots plot covers spot) (hapart : Apart covers cells) (s : Screen)
    (hits : Nat) :
    (cells.foldl plot (s, hits)).2 =
      hits + cells.countP fun c => s.physical (spot c).1 (spot c).2 := by
  induction cells generalizing s hits with
  | nil => rfl
  | cons c rest ih =>
    obtain ⟨hc, hrest⟩ := List.pairwise_cons.1 hapart
    have hsame : (rest.countP fun d => (plot (s, hits) c).1.physical (spot d).1 (spot d).2) =
        rest.countP fun d => s.physical (spot d).1 (spot d).2 := by
      apply List.countP_congr
      intro d hd
      have hspot : covers c (spot d).1 (spot d).2 = false := by
        cases hx : covers c (spot d).1 (spot d).2 with
        | false => rfl
        | true => exact absurd (h.covers_spot d) (by simp [hc d hd _ _ hx])
      rw [h.physical, hspot, Bool.xor_false]
    have htail := ih hrest (plot (s, hits) c).1 (plot (s, hits) c).2
    rw [hsame] at htail
    rw [List.foldl_cons, List.countP_cons]
    refine htail.trans ?_
    rw [h.count]
    split <;> omega

theorem count_foldl_twice (h : Plots plot covers spot) (hapart : Apart covers cells) (s : Screen) :
    let first := cells.foldl plot (s, 0)
    first.2 + (cells.foldl plot (first.1, 0)).2 = cells.length := by
  intro first
  have hflipped : (cells.countP fun c => first.1.physical (spot c).1 (spot c).2) =
      cells.countP fun c => decide ¬s.physical (spot c).1 (spot c).2 = true := by
    apply List.countP_congr
    intro c hc
    have hcovered : cells.any (covers · (spot c).1 (spot c).2) = true :=
      List.any_eq_true.2 ⟨c, hc, h.covers_spot c⟩
    rw [h.physical_foldl hapart s 0, hcovered]
    simp
  have hfirst : first.2 = cells.countP fun c => s.physical (spot c).1 (spot c).2 := by
    rw [← Nat.zero_add (List.countP _ _)]
    exact h.count_foldl hapart s 0
  rw [hfirst, h.count_foldl hapart, Nat.zero_add, hflipped]
  exact (List.length_eq_countP_add_countP _).symm

/-- Where cells are plotted twice, nothing is left of them, and each is found set once. -/
theorem foldl_twice (h : Plots plot covers spot) (hapart : Apart covers cells) (s : Screen)
    (hits : Nat) :
    cells.foldl plot (cells.foldl plot (s, hits)) = (s, hits + cells.length) := by
  have hcount : (cells.foldl plot (s, 0)).2 +
      (cells.foldl plot ((cells.foldl plot (s, 0)).1, 0)).2 = cells.length :=
    h.count_foldl_twice hapart s
  have hscreen : (cells.foldl plot (s, hits)).1 = (cells.foldl plot (s, 0)).1 := by
    apply eq_of_physical
    · rw [h.hires_foldl, h.hires_foldl]
    · intro x _ y _
      rw [h.physical_foldl hapart, h.physical_foldl hapart]
  refine Prod.ext (eq_of_physical ?_ ?_) ?_
  · exact (h.hires_foldl cells _ _).trans (h.hires_foldl cells s hits)
  · intro x _ y _
    refine (h.physical_foldl hapart _ _ x y).trans ?_
    rw [h.physical_foldl hapart, Bool.xor_assoc, Bool.xor_self, Bool.xor_false]
  · rw [h.count_foldl hapart s 0, h.count_foldl hapart _ 0, ← hscreen] at hcount
    refine (h.count_foldl hapart _ _).trans ?_
    rw [h.count_foldl hapart s hits, Nat.add_assoc]
    exact congrArg (hits + ·) (by omega)

theorem foldl_repeated (h : Plots plot covers spot) (hapart : Apart covers cells) (s : Screen)
    (hits n : Nat) :
    (List.replicate (2 * n) cells).flatten.foldl plot (s, hits) = (s, hits + n * cells.length) := by
  induction n generalizing hits with
  | zero => simp
  | succ n ih =>
    rw [Nat.mul_succ, List.replicate_succ, List.replicate_succ, List.flatten_cons,
      List.flatten_cons, List.foldl_append, List.foldl_append, h.foldl_twice hapart, ih,
      Nat.succ_mul]
    congr 1
    omega
end Plots

end Screen
end Chip8
