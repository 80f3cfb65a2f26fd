import Chip8.Proofs.Frames
import Mathlib.Algebra.Order.Floor.Div
import Mathlib.Tactic.Common

/-! # How a run ends

A run goes on frame by frame until a frame fails, the program has asked to stop, or no time is left.
The first of these ends it, looked for in this order within a frame, while the time is looked at
before each frame. As each frame that succeeds takes the same time, the time limit alone bounds the
number of frames. Whether a run waits between its frames makes no difference to what it leads to.
-/
namespace Chip8.Player

/-- The first frames succeed, and after none of them has the program asked to stop. -/
def GoesOn (p : Player) (n : Nat) : Prop :=
  ∀ j < n, (p.afterFrames j).frame.result = .ok () ∧
    (p.afterFrames (j + 1)).machine.exitRequested = false

/-- How a run ends that has time for a number of frames, and after how many of them. -/
inductive Ends (p : Player) (frames : Nat) : Nat → Except Fault Stop → Prop
  | fault {j : Nat} {e : Fault} : j < frames → p.GoesOn j →
      (p.afterFrames j).frame.result = .error e → Ends p frames (j + 1) (.error e)
  | exit {j : Nat} : j < frames → p.GoesOn j → (p.afterFrames j).frame.result = .ok () →
      (p.afterFrames (j + 1)).machine.exitRequested = true → Ends p frames (j + 1) (.ok .exit)
  | timeLimit : p.GoesOn frames → Ends p frames frames (.ok .timeLimit)

variable {p : Player} {n frames limit : Nat} {shown : Level} {notices : List Notice}

theorem GoesOn.elapsed_eq (h : p.GoesOn n) :
    (p.afterFrames n).elapsed = p.elapsed + n * framePeriod :=
  elapsed_afterFrames fun j hj => (h j hj).1

theorem exists_ends (p : Player) (frames : Nat) : ∃ n result, p.Ends frames n result := by
  have hfirst : p.GoesOn frames ∨ ∃ j < frames, p.GoesOn j ∧ ¬p.GoesOn (j + 1) := by
    induction frames with
    | zero => exact Or.inl fun j hj => absurd hj (Nat.not_lt_zero j)
    | succ frames ih =>
      rcases ih with hall | ⟨j, hj, hbefore, hstop⟩
      · by_cases hnext : p.GoesOn (frames + 1)
        · exact Or.inl hnext
        · exact Or.inr ⟨frames, Nat.lt_succ_self frames, hall, hnext⟩
      · exact Or.inr ⟨j, Nat.lt_succ_of_lt hj, hbefore, hstop⟩
  rcases hfirst with hall | ⟨j, hj, hbefore, hstop⟩
  · exact ⟨frames, _, .timeLimit hall⟩
  · cases hr : (p.afterFrames j).frame.result with
    | error e => exact ⟨j + 1, _, .fault hj hbefore hr⟩
    | ok u =>
      cases hx : (p.afterFrames (j + 1)).machine.exitRequested with
      | true => exact ⟨j + 1, _, .exit hj hbefore hr hx⟩
      | false =>
        refine absurd ?_ hstop
        intro i hi
        rcases Nat.lt_succ_iff_lt_or_eq.1 hi with hi | rfl
        · exact hbefore i hi
        · exact ⟨hr, hx⟩

section Turn
variable {M : Type → Type} [Monad M] (wait : Nat → M Unit)

theorem runWith_of_timeLimit (h : limit ≤ p.elapsed) :
    p.runWith wait shown limit notices =
      pure ⟨p, .ok .timeLimit, .timeLimitReached p.frameCount :: notices⟩ := by
  rw [runWith, if_neg (Nat.not_lt_of_le h)]

/-- The notices of a frame that are shown, with those from before it. -/
def noticesAfter (p : Player) (shown : Level) (notices : List Notice) : List Notice :=
  p.frame.notices.filter (shown.shows ·.level) ++ notices

theorem runWith_of_error (h : p.elapsed < limit) {e : Fault} (he : p.frame.result = .error e) :
    p.runWith wait shown limit notices =
      pure ⟨p.frame.state, .error e, p.noticesAfter shown notices⟩ := by
  rw [runWith, if_pos h, noticesAfter]
  split
  · rename_i hframe
    rw [hframe] at he ⊢
    cases he
    rfl
  · rename_i hframe
    rw [hframe] at he
    cases he

theorem runWith_of_ok (h : p.elapsed < limit) (hok : p.frame.result = .ok ()) :
    p.runWith wait shown limit notices =
      let q := p.frame.state
      let notices := p.noticesAfter shown notices
      if q.machine.exitRequested then pure ⟨q, .ok .exit, .exited q.frameCount :: notices⟩
      else wait q.elapsed >>= fun _ => q.runWith wait shown limit notices := by
  rw [runWith, if_pos h, noticesAfter]
  split
  · rename_i hframe
    rw [hframe] at hok
    cases hok
  · rename_i hframe
    rw [hframe]

/-- A run that waits after its frames gives what one gives that does not. -/
theorem runWith_eq [LawfulMonad M] (p : Player) (shown : Level) (limit : Nat)
    (notices : List Notice) :
    ∃ times : List Nat, p.runWith wait shown limit notices =
      times.forM wait >>= fun _ =>
        pure (Id.run (p.runWith (fun _ => pure ()) shown limit notices)) := by
  induction hleft : limit - p.elapsed using Nat.strong_induction_on generalizing p notices with
  | _ left ih =>
    by_cases h : p.elapsed < limit
    · cases hr : p.frame.result with
      | error e =>
        refine ⟨[], ?_⟩
        rw [runWith_of_error wait h hr, runWith_of_error _ h hr]
        simp
      | ok u =>
        rw [runWith_of_ok wait h hr, runWith_of_ok _ h hr]
        cases hx : p.frame.state.machine.exitRequested with
        | true => exact ⟨[], by simp [hx]⟩
        | false =>
          have hshorter : limit - p.frame.state.elapsed < left := by
            have hpos : 0 < framePeriod := by decide
            rw [elapsed_frame hr]
            omega
          obtain ⟨times, htimes⟩ := ih _ hshorter p.frame.state (p.noticesAfter shown notices) rfl
          refine ⟨p.frame.state.elapsed :: times, ?_⟩
          simp [hx, htimes]
    · refine ⟨[], ?_⟩
      rw [runWith_of_timeLimit wait (Nat.le_of_not_lt h),
        runWith_of_timeLimit _ (Nat.le_of_not_lt h)]
      simp

end Turn

/-- The notices that the first frames of a run show, with those from before it. -/
def noticesThrough (p : Player) (shown : Level) (notices : List Notice) : Nat → List Notice
  | 0 => notices
  | n + 1 => (p.afterFrames n).noticesAfter shown (p.noticesThrough shown notices n)

/-- The notices that a run gives behind those of its frames. -/
def closing (p : Player) : Except Fault Stop → List Notice
  | .error _ => []
  | .ok .exit => [.exited p.frameCount]
  | .ok .timeLimit => [.timeLimitReached p.frameCount]

theorem runWith_of_goesOn (h : p.GoesOn n)
    (ht : ∀ j < n, p.elapsed + j * framePeriod < limit) (shown : Level) (notices : List Notice) :
    Id.run (p.runWith (fun _ => pure ()) shown limit notices) =
      Id.run ((p.afterFrames n).runWith (fun _ => pure ()) shown limit
        (p.noticesThrough shown notices n)) := by
  induction n with
  | zero => rfl
  | succ n ih =>
    have hbefore : p.GoesOn n := fun j hj => h j (Nat.lt_succ_of_lt hj)
    obtain ⟨hr, hx⟩ := h n (Nat.lt_succ_self n)
    have htime : (p.afterFrames n).elapsed < limit := by
      rw [hbefore.elapsed_eq]
      exact ht n (Nat.lt_succ_self n)
    rw [afterFrames_succ] at hx ⊢
    rw [ih hbefore fun j hj => ht j (Nat.lt_succ_of_lt hj), runWith_of_ok _ htime hr]
    simp [hx, noticesThrough]

namespace Ends
variable {result : Except Fault Stop}

theorem le (h : p.Ends frames n result) : n ≤ frames := by
  cases h with
  | fault hj _ _ => exact hj
  | exit hj _ _ _ => exact hj
  | timeLimit _ => exact Nat.le_refl n

theorem elapsed_eq {stop : Stop} (h : p.Ends frames n (.ok stop)) :
    (p.afterFrames n).elapsed = p.elapsed + n * framePeriod := by
  cases h with
  | @exit j _ hbefore hr _ =>
    rw [afterFrames_succ, elapsed_frame hr, hbefore.elapsed_eq, Nat.succ_mul, Nat.add_assoc]
  | timeLimit hall => exact hall.elapsed_eq

theorem elapsed_le (h : p.Ends frames n result) :
    (p.afterFrames n).elapsed ≤ p.elapsed + n * framePeriod := by
  cases h with
  | @fault j _ _ hbefore he =>
    rw [afterFrames_succ, elapsed_frame_of_error he, hbefore.elapsed_eq]
    exact Nat.add_le_add_left (Nat.mul_le_mul_right _ (Nat.le_succ j)) _
  | exit hj hbefore hr hx => exact Nat.le_of_eq (elapsed_eq (.exit hj hbefore hr hx))
  | timeLimit hall => exact Nat.le_of_eq hall.elapsed_eq

theorem outcome_run (h : p.Ends frames n result)
    (hframes : ∀ j, limit ≤ p.elapsed + j * framePeriod ↔ frames ≤ j) (shown : Level) :
    p.run (some limit) shown = ⟨p.afterFrames n, result,
      (p.afterFrames n).closing result ++ p.noticesThrough shown [] n⟩ := by
  have htime : ∀ j < frames, p.elapsed + j * framePeriod < limit := by
    intro j hj
    have := hframes j
    omega
  have hpass {j : Nat} (hbefore : p.GoesOn j) (hj : j ≤ frames) :=
    runWith_of_goesOn hbefore (fun i hi => htime i (Nat.lt_of_lt_of_le hi hj)) shown []
  rw [run, Option.getD_some]
  cases h with
  | @fault j e hj hbefore he =>
    rw [hpass hbefore (Nat.le_of_lt hj), runWith_of_error _ (hbefore.elapsed_eq ▸ htime j hj) he,
      afterFrames_succ]
    rfl
  | @exit j hj hbefore hr hx =>
    rw [afterFrames_succ] at hx ⊢
    rw [hpass hbefore (Nat.le_of_lt hj), runWith_of_ok _ (hbefore.elapsed_eq ▸ htime j hj) hr]
    simp [hx, closing, noticesThrough]
  | timeLimit hall =>
    have hover : limit ≤ (p.afterFrames n).elapsed := by
      rw [hall.elapsed_eq]
      exact (hframes n).2 (Nat.le_refl n)
    rw [hpass hall (Nat.le_refl _), runWith_of_timeLimit _ hover]
    rfl

theorem run_eq (h : p.Ends frames n result)
    (hframes : ∀ j, limit ≤ p.elapsed + j * framePeriod ↔ frames ≤ j) (shown : Level) :
    (p.run (some limit) shown).result = result ∧
      (p.run (some limit) shown).state = p.afterFrames n := by
  rw [h.outcome_run hframes shown]
  exact ⟨rfl, rfl⟩

end Ends

theorem limit_le_iff (p : Player) (limit j : Nat) :
    limit ≤ p.elapsed + j * framePeriod ↔ (limit - p.elapsed) ⌈/⌉ framePeriod ≤ j := by
  have hpos : 0 < framePeriod := by decide
  rw [ceilDiv_le_iff_le_smul hpos, smul_eq_mul, Nat.mul_comm, Nat.sub_le_iff_le_add']

/-- A run is a number of frames, and gives what they give. -/
theorem exists_outcome_run (p : Player) (limit : Option Nat) :
    ∃ frames n result, p.Ends frames n result ∧ ∀ shown, p.run limit shown =
      ⟨p.afterFrames n, result,
        (p.afterFrames n).closing result ++ p.noticesThrough shown [] n⟩ := by
  obtain ⟨n, result, hends⟩ := exists_ends p ((limit.getD maxElapsed - p.elapsed) ⌈/⌉ framePeriod)
  exact ⟨_, n, result, hends, hends.outcome_run (p.limit_le_iff (limit.getD maxElapsed))⟩

/-- A run with a time limit is frame after frame, until one fails, until the program has asked to
stop after one, or until the limit is reached, which it is after as many frames as it takes time
for; it leads to the player after those frames. Waiting between the frames changes nothing. -/
theorem run_iterates_frames (p : Player) (limit : Nat) (shown : Level) :
    let frames := (limit - p.elapsed) ⌈/⌉ framePeriod
    let o := p.run (some limit) shown
    (∀ j, limit ≤ p.elapsed + j * framePeriod ↔ frames ≤ j) ∧
    (∃ n, p.Ends frames n o.result) ∧
    (∀ n result, p.Ends frames n result →
      n ≤ frames ∧ o.result = result ∧ o.state = p.afterFrames n ∧
      ∀ stop, result = .ok stop → o.state.elapsed = p.elapsed + n * framePeriod) ∧
    (p.elapsed ≤ maxElapsed → limit + framePeriod ≤ maxElapsed → o.state.elapsed ≤ maxElapsed) ∧
    ∀ (M : Type → Type) [Monad M] [LawfulMonad M] (wait : Nat → M Unit), ∃ times : List Nat,
      p.runWith wait shown limit [] = times.forM wait >>= fun _ => pure o := by
  intro frames o
  have hframes := p.limit_le_iff limit
  obtain ⟨n, result, hends⟩ := exists_ends p frames
  obtain ⟨hresult, hstate⟩ := hends.run_eq hframes shown
  refine ⟨hframes, ⟨n, hresult ▸ hends⟩, ?_, ?_, ?_⟩
  · intro n' result' hends'
    obtain ⟨hresult', hstate'⟩ := hends'.run_eq hframes shown
    refine ⟨hends'.le, hresult', hstate', ?_⟩
    rintro stop rfl
    exact (congrArg Player.elapsed hstate').trans hends'.elapsed_eq
  · intro hnow hroom
    have helapsed : o.state.elapsed ≤ p.elapsed + n * framePeriod :=
      (congrArg Player.elapsed hstate).trans_le hends.elapsed_le
    cases n with
    | zero => omega
    | succ n =>
      have hbefore : ¬limit ≤ p.elapsed + n * framePeriod := by
        rw [hframes n]
        exact Nat.not_le_of_lt hends.le
      rw [Nat.succ_mul] at helapsed
      omega
  · intro M _ _ wait
    exact runWith_eq wait p shown limit []

/-- A program that asks to stop in its second frame ends its run there, a long time before the
limit. -/
theorem run_iterates_frames_of_exit :
    let p := (ofSettings {} { rate := 100 } 0).loadProgram [0x60, 0x05, 0x00, 0xFD]
    let o := p.run (some 1000000000) .error
    p.Ends 61 2 (.ok .exit) ∧ o.result = .ok .exit ∧ o.state.elapsed = 33333332 := by
  intro p o
  have hends : p.Ends 61 2 (.ok .exit) := by
    refine .exit (by decide) ?_ (by decide +kernel) (by decide +kernel)
    intro j hj
    obtain rfl : j = 0 := by omega
    exact ⟨by decide +kernel, by decide +kernel⟩
  have hstart : p.elapsed = 0 := rfl
  have hframes : (1000000000 - p.elapsed) ⌈/⌉ framePeriod = 61 := by
    rw [hstart, Nat.ceilDiv_eq_add_pred_div]
    decide
  obtain ⟨-, -, hall, -⟩ := run_iterates_frames p 1000000000 .error
  obtain ⟨-, hresult, -, helapsed⟩ := hall 2 _ (hframes ▸ hends)
  refine ⟨hends, hresult, (helapsed .exit rfl).trans ?_⟩
  rw [hstart]
  decide

end Chip8.Player
