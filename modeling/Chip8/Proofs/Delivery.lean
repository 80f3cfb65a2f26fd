import Chip8.Proofs.Frames
import Mathlib.Tactic.Common

/-! # Delivery of scripted keys

A script is a queue in order of time, and a frame takes from its front what is due as the frame
begins. In a queue in order that is all that is due, and what an earlier frame left was not due
then. So each event is delivered once, by the first frame that begins at its time or later, and
events come in order of time, those of one time as they were written.
-/
namespace Chip8

/-- Events in order of time, and those of the same time in the order in which they were written. -/
structure Chronological (written ordered : List KeyEvent) : Prop where
  perm : ordered.Perm written
  sorted : ordered.Pairwise (·.millis ≤ ·.millis)
  stable (millis : UInt64) :
    ordered.filter (·.millis == millis) = written.filter (·.millis == millis)

/-- Whether an event is due as one of the first frames begins, up to some number of them. -/
def KeyEvent.dueWithin : Nat → KeyEvent → Bool
  | 0, _ => false
  | n + 1, e => e.millis.toNat ≤ n * 16666666 / 1000000

theorem Chronological.filter {written ordered : List KeyEvent} (h : Chronological written ordered)
    (p : KeyEvent → Bool) : Chronological (written.filter p) (ordered.filter p) where
  perm := h.perm.filter p
  sorted := h.sorted.filter p
  stable millis := by
    have comm (events : List KeyEvent) : (events.filter p).filter (·.millis == millis) =
        (events.filter (·.millis == millis)).filter p := by
      simp only [List.filter_filter, Bool.and_comm]
    rw [comm, comm, h.stable]

theorem chronological_ofEvents (events : List KeyEvent) :
    Chronological events (Script.ofEvents events).events := by
  have trans (a b c : KeyEvent) (hab : decide (a.millis ≤ b.millis) = true)
      (hbc : decide (b.millis ≤ c.millis) = true) : decide (a.millis ≤ c.millis) = true :=
    decide_eq_true (UInt64.le_trans (of_decide_eq_true hab) (of_decide_eq_true hbc))
  have total (a b : KeyEvent) : (decide (a.millis ≤ b.millis) || decide (b.millis ≤ a.millis)) =
      true := by
    simpa using UInt64.le_total a.millis b.millis
  have hperm := List.mergeSort_perm events fun a b => a.millis ≤ b.millis
  refine ⟨hperm, ?_, ?_⟩
  · exact (List.pairwise_mergeSort trans total events).imp of_decide_eq_true
  · intro millis
    have hsame : (events.filter (·.millis == millis)).Pairwise
        fun a b => decide (a.millis ≤ b.millis) = true := by
      refine List.pairwise_filter.2 (List.pairwise_of_forall ?_)
      intro a b ha hb
      rw [eq_of_beq ha, eq_of_beq hb]
      exact decide_eq_true (UInt64.le_refl millis)
    have hsub := List.sublist_mergeSort trans total hsame List.filter_sublist
    have hfilter := hsub.filter (·.millis == millis)
    rw [List.filter_filter] at hfilter
    simp only [Bool.and_self] at hfilter
    exact (hfilter.eq_of_length (hperm.filter _).length_eq.symm).symm

section Queue
variable {queue : List KeyEvent} {p : KeyEvent → Bool}

theorem takeWhile_eq_filter (h : queue.Pairwise (·.millis ≤ ·.millis))
    (hp : ∀ a b : KeyEvent, a.millis ≤ b.millis → p b = true → p a = true) :
    queue.takeWhile p = queue.filter p := by
  induction queue with
  | nil => rfl
  | cons e rest ih =>
    obtain ⟨hhead, htail⟩ := List.pairwise_cons.1 h
    cases he : p e with
    | true => rw [List.takeWhile_cons_of_pos he, List.filter_cons_of_pos he, ih htail]
    | false =>
      have hnone : rest.filter p = [] := by
        refine List.filter_eq_nil_iff.2 ?_
        intro b hb hdue
        cases he.symm.trans (hp e b (hhead b hb) hdue)
      simp [he, hnone]

theorem dropWhile_eq_filter (h : queue.Pairwise (·.millis ≤ ·.millis))
    (hp : ∀ a b : KeyEvent, a.millis ≤ b.millis → p b = true → p a = true) :
    queue.dropWhile p = queue.filter fun e => !p e := by
  induction queue with
  | nil => rfl
  | cons e rest ih =>
    obtain ⟨hhead, htail⟩ := List.pairwise_cons.1 h
    cases he : p e with
    | true => simp [he, ih htail]
    | false =>
      have hall : rest.filter (fun e => !p e) = rest := by
        refine List.filter_eq_self.2 ?_
        intro b hb
        cases hdue : p b with
        | false => rfl
        | true => cases he.symm.trans (hp e b (hhead b hb) hdue)
      simp [he, hall]

end Queue

namespace KeyEvent

theorem isDue_of_le (elapsed : Nat) (a b : KeyEvent) (h : a.millis ≤ b.millis)
    (hb : b.isDue elapsed = true) : a.isDue elapsed = true :=
  decide_eq_true (Nat.le_trans (UInt64.le_iff_toNat_le.1 h) (of_decide_eq_true hb))

theorem dueWithin_succ (n : Nat) (e : KeyEvent) :
    e.dueWithin (n + 1) = e.isDue (n * Player.framePeriod) := rfl

theorem dueWithin_of_le (n : Nat) (a b : KeyEvent) (h : a.millis ≤ b.millis)
    (hb : b.dueWithin n = true) : a.dueWithin n = true := by
  cases n with
  | zero => cases hb
  | succ n => exact isDue_of_le (n * Player.framePeriod) a b h hb

theorem dueWithin_mono {e : KeyEvent} {n : Nat} (h : e.dueWithin n = true) :
    e.dueWithin (n + 1) = true := by
  cases n with
  | zero => cases h
  | succ n =>
    refine decide_eq_true (Nat.le_trans (of_decide_eq_true h) ?_)
    exact Nat.div_le_div_right (Nat.mul_le_mul_right _ (Nat.le_succ n))

end KeyEvent

namespace Player

variable {p : Player} {n : Nat}

theorem events_afterFrames (h : p.elapsed = 0)
    (hsorted : p.script.events.Pairwise (·.millis ≤ ·.millis))
    (hok : ∀ j, j + 1 < n → (p.afterFrames j).frame.result = .ok ()) :
    (p.afterFrames n).script.events = p.script.events.filter fun e => !e.dueWithin n := by
  induction n with
  | zero => exact (List.filter_eq_self.2 fun _ _ => rfl).symm
  | succ n ih =>
    have hold := ih fun j hj => hok j (Nat.lt_succ_of_lt hj)
    have helapsed : (p.afterFrames n).elapsed = n * framePeriod := by
      rw [elapsed_afterFrames fun j hj => hok j (Nat.succ_lt_succ hj), h, Nat.zero_add]
    rw [afterFrames_succ, script_frame, Script.rest, hold, helapsed,
      dropWhile_eq_filter (hsorted.filter _) (KeyEvent.isDue_of_le _), List.filter_filter]
    refine List.filter_congr fun e _ => ?_
    rw [← KeyEvent.dueWithin_succ]
    cases hdue : e.dueWithin n with
    | false => simp
    | true => simp [KeyEvent.dueWithin_mono hdue]

theorem delivered_afterFrames (h : p.elapsed = 0)
    (hsorted : p.script.events.Pairwise (·.millis ≤ ·.millis))
    (hok : ∀ j < n, (p.afterFrames j).frame.result = .ok ()) :
    (p.afterFrames n).delivered =
      p.script.events.filter fun e => e.dueWithin (n + 1) && !e.dueWithin n := by
  have hold := events_afterFrames h hsorted fun j hj => hok j (Nat.lt_of_succ_lt hj)
  rw [delivered, Script.due, hold, elapsed_afterFrames hok, h, Nat.zero_add,
    takeWhile_eq_filter (hsorted.filter _) (KeyEvent.isDue_of_le _), List.filter_filter]
  rfl

/-- No event is lost and none is delivered twice. -/
theorem delivered_append_events (p : Player) (n : Nat) :
    ((List.range n).flatMap fun j => (p.afterFrames j).delivered) ++
      (p.afterFrames n).script.events = p.script.events := by
  induction n with
  | zero => rfl
  | succ n ih =>
    rw [List.range_succ, List.flatMap_append, List.flatMap_singleton, List.append_assoc,
      afterFrames_succ, script_frame, delivered, Script.due_append_rest, ih]

theorem flatMap_delivered (h : p.elapsed = 0)
    (hsorted : p.script.events.Pairwise (·.millis ≤ ·.millis))
    (hok : ∀ j, j + 1 < n → (p.afterFrames j).frame.result = .ok ()) :
    ((List.range n).flatMap fun j => (p.afterFrames j).delivered) =
      p.script.events.filter (KeyEvent.dueWithin n) := by
  have hall := p.delivered_append_events n
  rw [events_afterFrames h hsorted hok,
    ← dropWhile_eq_filter hsorted (KeyEvent.dueWithin_of_le n)] at hall
  rw [← takeWhile_eq_filter hsorted (KeyEvent.dueWithin_of_le n)]
  exact List.append_cancel_right (hall.trans List.takeWhile_append_dropWhile.symm)

/-- A script is delivered once and in order: of the events that were written, a frame delivers
those that are due as it begins and were not due before, and then lets the machine run; together
the frames deliver those that are due by the last of them, and the others stay in the queue. All
frames but the last must succeed. -/
theorem delivers_script {p : Player} (h : p.elapsed = 0) (events : List KeyEvent) {n : Nat}
    (hok : ∀ j, j + 1 < n →
      ((p.setScript (.ofEvents events)).afterFrames j).frame.result = .ok ()) :
    let before (j : Nat) := (p.setScript (.ofEvents events)).afterFrames j
    (∀ j < n,
      Chronological (events.filter fun e => e.dueWithin (j + 1) && !e.dueWithin j)
        (before j).delivered ∧
      (before (j + 1)).machine =
        (((before j).delivered.foldl (fun m e => m.setKey e.key e.pressed)
          (before j).machine).update framePeriod).state) ∧
    Chronological (events.filter (KeyEvent.dueWithin n))
      ((List.range n).flatMap fun j => (before j).delivered) ∧
    Chronological (events.filter fun e => !e.dueWithin n) (before n).script.events := by
  intro before
  have horder := chronological_ofEvents events
  have hsorted : (p.setScript (.ofEvents events)).script.events.Pairwise (·.millis ≤ ·.millis) :=
    horder.sorted
  have hzero : (p.setScript (.ofEvents events)).elapsed = 0 := h
  refine ⟨?_, ?_, ?_⟩
  · intro j hj
    have hfirst : ∀ i < j, (before i).frame.result = .ok () :=
      fun i hi => hok i (Nat.lt_of_le_of_lt hi hj)
    refine ⟨?_, ?_⟩
    · rw [delivered_afterFrames hzero hsorted hfirst]
      exact horder.filter _
    · exact (congrArg Player.machine (afterFrames_succ _ j)).trans (machine_frame (before j))
  · rw [flatMap_delivered hzero hsorted hok]
    exact horder.filter _
  · rw [events_afterFrames hzero hsorted hok]
    exact horder.filter _

/-- In two frames a player delivers what is due by the seventeenth millisecond. -/
theorem delivers_script_of_two_frames :
    let p := ofSettings {} { rate := 7 } 0
    let events : List KeyEvent := [⟨200, 3, false⟩, ⟨16, 3, true⟩, ⟨0, 5, true⟩, ⟨16, 5, false⟩]
    p.elapsed = 0 ∧
      (∀ j, j + 1 < 2 → ((p.setScript (.ofEvents events)).afterFrames j).frame.result = .ok ()) ∧
      Chronological [⟨16, 3, true⟩, ⟨0, 5, true⟩, ⟨16, 5, false⟩]
        ((List.range 2).flatMap fun j =>
          ((p.setScript (.ofEvents events)).afterFrames j).delivered) ∧
      Chronological [⟨200, 3, false⟩]
        ((p.setScript (.ofEvents events)).afterFrames 2).script.events := by
  intro p events
  have hscript : Script.ofEvents events =
      ⟨[⟨0, 5, true⟩, ⟨16, 3, true⟩, ⟨16, 5, false⟩, ⟨200, 3, false⟩]⟩ := by
    simp [Script.ofEvents, List.mergeSort, events]
  have hok : ∀ j, j + 1 < 2 →
      ((p.setScript (.ofEvents events)).afterFrames j).frame.result = .ok () := by
    intro j hj
    obtain rfl : j = 0 := by omega
    rw [hscript]
    decide +kernel
  have hdue : events.filter (KeyEvent.dueWithin 2) =
      [⟨16, 3, true⟩, ⟨0, 5, true⟩, ⟨16, 5, false⟩] := by decide
  have hleft : events.filter (fun e => !e.dueWithin 2) = [⟨200, 3, false⟩] := by decide
  obtain ⟨-, hall, hrest⟩ := delivers_script (p := p) rfl events hok
  exact ⟨rfl, hok, hdue ▸ hall, hleft ▸ hrest⟩

end Player
end Chip8
