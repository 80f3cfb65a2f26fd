import Mathlib.Tactic.Common

/-! # Lines

A text as its lines, each of which ends with a line break; what is left behind the last break is a
line too. Lines that are written one after the other are found again.
-/
namespace Chip8.Text

/-- The lines of a text, without their breaks. -/
def lines : List Char → List (List Char)
  | [] => []
  | c :: rest =>
    if c = '\n' then [] :: lines rest
    else match lines rest with
      | [] => [[c]]
      | line :: more => (c :: line) :: more

def ended (line : List Char) : List Char := line ++ ['\n']

theorem lines_ended_append {line : List Char} (h : '\n' ∉ line) (rest : List Char) :
    lines (ended line ++ rest) = line :: lines rest := by
  induction line with
  | nil => rfl
  | cons c line ih =>
    obtain ⟨hc, hline⟩ := not_or.1 fun hmem => h (List.mem_cons.2 hmem)
    have hne : ¬c = '\n' := fun heq => hc heq.symm
    have htail : lines (ended line ++ rest) = line :: lines rest := ih hline
    rw [ended, List.cons_append, List.cons_append, lines, if_neg hne, ← ended, htail]

theorem lines_flatMap_ended {written : List (List Char)} (h : ∀ line ∈ written, '\n' ∉ line) :
    lines (written.flatMap ended) = written := by
  induction written with
  | nil => rfl
  | cons line rest ih =>
    obtain ⟨hline, hrest⟩ := List.forall_mem_cons.1 h
    rw [List.flatMap_cons, lines_ended_append hline, ih hrest]

end Chip8.Text
