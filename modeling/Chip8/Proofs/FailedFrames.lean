import Chip8.Proofs.Endings
import Chip8.Proofs.Moments
import Mathlib.Data.List.TakeWhile

/-! # Frames that fail

A frame that fails takes no time, but what was due as it began has left the script. So nothing is
due to the frame after it, whose machine gives its fault again at once: a player stays as its first
failing frame left it, whatever frames and runs it is asked for.
-/
namespace Chip8

theorem Machine.fault_of_update_error {m : Machine} {elapsed : Nat} {e : Fault}
    (h : (m.update elapsed).result = .error e) : (m.update elapsed).state.fault = some e := by
  cases hf : m.fault with
  | some e' =>
    rw [update_of_fault hf] at h ⊢
    cases h
    exact hf
  | none =>
    rcases cyclesOk_or_fault m (m.budget elapsed / m.clock.period) with hok | ⟨j, hj, e', hok, he⟩
    · cases h.symm.trans (update_of_cyclesOk hf elapsed hok).1
    · obtain ⟨hresult, hstate⟩ := update_of_cycle_error hf hj hok he
      cases h.symm.trans hresult
      rw [hstate, afterCycles_succ']
      exact fault_of_cycle_error he

theorem Script.due_rest (s : Script) (elapsed : Nat) : (s.rest elapsed).due elapsed = [] := by
  rw [due, rest, List.takeWhile_eq_nil_iff]
  intro hlength
  exact List.dropWhile_get_zero_not _ _ hlength

namespace Player

/-- What a host can ask of a player between giving it programs and scripts. -/
inductive Turn
  | frame
  | run (limit : Option Nat) (shown : Level)

/-- The player after a turn, whatever it gives. -/
def afterTurn (p : Player) : Turn → Player
  | .frame => p.frame.state
  | .run limit shown => (p.run limit shown).state

def afterTurns (p : Player) (turns : List Turn) : Player := turns.foldl afterTurn p

/-- The players that a host can bring about while their time can be told. -/
inductive Reachable : Player → Prop
  | start (preferences : Preferences) (settings : Settings) (entropy : Random.Key)
      (generator : Random.Generator) :
      Reachable (ofSettings preferences settings entropy generator)
  | loadProgram {p : Player} (program : List UInt8) : Reachable p → Reachable (p.loadProgram program)
  | setScript {p : Player} (events : List KeyEvent) :
      Reachable p → Reachable (p.setScript (.ofEvents events))
  | turn {p : Player} (turn : Turn) : Reachable p → (p.afterTurn turn).elapsed ≤ maxElapsed →
      Reachable (p.afterTurn turn)

variable {p : Player} {e : Fault}

theorem dvd_elapsed_afterFrames (h : framePeriod ∣ p.elapsed) (n : Nat) :
    framePeriod ∣ (p.afterFrames n).elapsed := by
  induction n with
  | zero => exact h
  | succ n ih =>
    rw [afterFrames_succ]
    cases hr : (p.afterFrames n).frame.result with
    | error e =>
      rw [elapsed_frame_of_error hr]
      exact ih
    | ok u =>
      rw [elapsed_frame hr]
      exact Nat.dvd_add_self_right.2 ih

theorem exists_state_run (p : Player) (limit : Option Nat) (shown : Level) :
    ∃ n, (p.run limit shown).state = p.afterFrames n := by
  obtain ⟨_, n, _, _, hrun⟩ := p.exists_outcome_run limit
  exact ⟨n, congrArg Outcome.state (hrun shown)⟩

theorem Reachable.dvd_elapsed (h : p.Reachable) : framePeriod ∣ p.elapsed := by
  induction h with
  | start preferences settings entropy generator => exact Nat.dvd_zero framePeriod
  | loadProgram program _ ih => exact ih
  | setScript events _ ih => exact ih
  | @turn p turn _ _ ih =>
    cases turn with
    | frame => exact dvd_elapsed_afterFrames ih 1
    | run limit shown =>
      obtain ⟨n, hn⟩ := exists_state_run p limit shown
      rw [afterTurn, hn]
      exact dvd_elapsed_afterFrames ih n

theorem Reachable.elapsed_le (h : p.Reachable) : p.elapsed ≤ maxElapsed := by
  induction h with
  | start preferences settings entropy generator => exact Nat.zero_le maxElapsed
  | loadProgram program _ ih => exact ih
  | setScript events _ ih => exact ih
  | turn turn _ htime _ => exact htime

/-- The longest time that can be told is not one of whole frames. -/
theorem Reachable.elapsed_lt (h : p.Reachable) : p.elapsed < maxElapsed := by
  have hodd : ¬framePeriod ∣ maxElapsed := by decide
  refine Nat.lt_of_le_of_ne h.elapsed_le ?_
  intro heq
  exact hodd (heq ▸ h.dvd_elapsed)

/-- The machine has faulted, and no event is due. -/
structure Frozen (p : Player) (e : Fault) : Prop where
  fault : p.machine.fault = some e
  delivered : p.delivered = []

theorem deliver_of_delivered_nil (h : p.delivered = []) : p.deliver = p := by
  have hdue : p.script.due p.elapsed = [] := h
  have hrest : p.script.rest p.elapsed = p.script := by
    have happend := p.script.due_append_rest p.elapsed
    rw [hdue, List.nil_append] at happend
    exact congrArg Script.mk happend
  simp only [deliver, hdue, hrest, List.foldl_nil]

theorem Frozen.frame (h : p.Frozen e) : p.frame = ⟨p, .error e, []⟩ := by
  have hdeliver := deliver_of_delivered_nil h.delivered
  have hupdate : p.deliver.machine.update framePeriod = ⟨p.machine, .error e, []⟩ := by
    rw [hdeliver]
    exact Machine.update_of_fault h.fault framePeriod
  have hdue : p.script.due p.elapsed = [] := h.delivered
  rw [frame_of_error (congrArg Outcome.result hupdate), hupdate, hdeliver, deliveryNotices, hdue]
  rfl

/-- The first frame ends a run that has time for one, without a wait. -/
theorem Frozen.runWith (h : p.Frozen e) {M : Type → Type} [Monad M] (wait : Nat → M Unit)
    (shown : Level) {limit : Nat} (ht : p.elapsed < limit) :
    p.runWith wait shown limit [] = pure ⟨p, .error e, []⟩ := by
  have hframe := h.frame
  rw [runWith_of_error wait ht (congrArg Outcome.result hframe), noticesAfter, hframe]
  rfl

theorem Frozen.run (h : p.Frozen e) {limit : Option Nat} (shown : Level)
    (ht : p.elapsed < limit.getD maxElapsed) : p.run limit shown = ⟨p, .error e, []⟩ :=
  h.runWith (M := Id) (fun _ => pure ()) shown ht

theorem Frozen.afterTurn (h : p.Frozen e) (turn : Turn) : p.afterTurn turn = p := by
  cases turn with
  | frame => exact congrArg Outcome.state h.frame
  | run limit shown =>
    by_cases ht : p.elapsed < limit.getD maxElapsed
    · exact congrArg Outcome.state (h.run shown ht)
    · rw [Player.afterTurn, Player.run, runWith_of_timeLimit _ (Nat.le_of_not_lt ht)]
      rfl

theorem Frozen.afterTurns (h : p.Frozen e) (turns : List Turn) : p.afterTurns turns = p := by
  induction turns with
  | nil => rfl
  | cons turn rest ih =>
    rw [Player.afterTurns, List.foldl_cons, h.afterTurn turn]
    exact ih

theorem frozen_of_error (h : p.frame.result = .error e) : p.frame.state.Frozen e where
  fault := by
    have he := update_error_iff_frame.2 h
    rw [frame_of_error he]
    exact Machine.fault_of_update_error he
  delivered := by
    rw [delivered, script_frame, elapsed_frame_of_error h]
    exact p.script.due_rest p.elapsed

/-- A frame that fails takes no time and leaves a player that stays: after whatever frames and runs
it is the same in every part, and each further frame, and each further run that has time for one,
ends at once with the same fault. -/
theorem failed_frame_freezes {p : Player} (hp : p.Reachable) {e : Fault}
    (h : p.frame.result = .error e) :
    let q := p.frame.state
    q.elapsed = p.elapsed ∧ q.tone = p.tone ∧
    ∀ turns : List Turn,
      let n := q.afterTurns turns
      n = q ∧ n.frame = ⟨n, .error e, []⟩ ∧
      ∀ (limit : Option Nat) (shown : Level), (∀ time ∈ limit, n.elapsed < time) →
        n.run limit shown = ⟨n, .error e, []⟩ ∧
        (∀ frames, 0 < frames → n.Ends frames 1 (.error e)) ∧
        ∀ (M : Type → Type) [Monad M] (wait : Nat → M Unit),
          n.runWith wait shown (limit.getD maxElapsed) [] = pure ⟨n, .error e, []⟩ := by
  intro q
  have hq : q.Frozen e := frozen_of_error h
  have helapsed : q.elapsed = p.elapsed := elapsed_frame_of_error h
  refine ⟨helapsed, tone_frame_of_error h, ?_⟩
  intro turns n
  have hn : n = q := hq.afterTurns turns
  rw [hn]
  refine ⟨rfl, hq.frame, ?_⟩
  intro limit shown hlimit
  have ht : q.elapsed < limit.getD maxElapsed := by
    cases limit with
    | none => exact helapsed ▸ hp.elapsed_lt
    | some time => exact hlimit time rfl
  refine ⟨hq.run shown ht, ?_, fun M _ wait => hq.runWith wait shown ht⟩
  intro frames hframes
  have hnone : q.GoesOn 0 := fun j hj => absurd hj (Nat.not_lt_zero j)
  exact .fault hframes hnone (congrArg Outcome.result hq.frame)

/-- A press that was due when the program faulted has been delivered; the release that was not due
stays in the script for good. -/
theorem failed_frame_freezes_of_return :
    let p := setUp {} {} 0 .chaCha [0x00, 0xEE] (.ofEvents [⟨0, 3, true⟩, ⟨10, 3, false⟩])
    let q := p.frame.state
    p.Reachable ∧ p.frame.result = .error (.stackUnderflow 0x200) ∧
      q.machine.keypad.isDown 3 = true ∧ q.script.events = [⟨10, 3, false⟩] ∧
      q.afterTurns [.frame, .run (some 2000000000) .info, .frame] = q ∧
      (q.run none .info).result = .error (.stackUnderflow 0x200) := by
  intro p q
  have hp : p.Reachable := .setScript _ (.loadProgram _ (.start _ _ _ _))
  have hevents : Script.ofEvents [⟨0, 3, true⟩, ⟨10, 3, false⟩] =
      ⟨[⟨0, 3, true⟩, ⟨10, 3, false⟩]⟩ := by
    simp [Script.ofEvents, List.mergeSort]
  have hsorted : p = setUp {} {} 0 .chaCha [0x00, 0xEE] ⟨[⟨0, 3, true⟩, ⟨10, 3, false⟩]⟩ :=
    congrArg (setUp {} {} 0 .chaCha [0x00, 0xEE]) hevents
  have hfirst : p.frame.result = .error (.stackUnderflow 0x200) ∧
      q.machine.keypad.isDown 3 = true ∧ q.script.events = [⟨10, 3, false⟩] := by
    change _ ∧ p.frame.state.machine.keypad.isDown 3 = true ∧ p.frame.state.script.events = _
    rw [hsorted]
    decide +kernel
  obtain ⟨h, hdown, hleft⟩ := hfirst
  obtain ⟨-, -, hturns⟩ := failed_frame_freezes hp h
  obtain ⟨hstays, -, -⟩ := hturns [.frame, .run (some 2000000000) .info, .frame]
  obtain ⟨-, -, hruns⟩ := hturns []
  obtain ⟨hrun, -, -⟩ := hruns none .info nofun
  exact ⟨hp, h, hdown, hleft, hstays, congrArg Outcome.result hrun⟩

end Player
end Chip8
