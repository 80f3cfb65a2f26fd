import Chip8.Player
import Mathlib.Logic.Function.Iterate

/-! # Frame by frame

What a frame does to each part of a player, and the player after a number of frames. A frame
succeeds if its update does; only then does it take time.
-/
namespace Chip8.Player

/-- A player at the start of a run, with a program and a script. -/
def setUp (preferences : Preferences) (settings : Settings) (entropy : Random.Key)
    (generator : Random.Generator) (program : List UInt8) (script : Script) : Player :=
  ((ofSettings preferences settings entropy generator).loadProgram program).setScript script

/-- The player after a number of frames, whatever they give. -/
def afterFrames (p : Player) (n : Nat) : Player := (fun p => p.frame.state)^[n] p

def delivered (p : Player) : List KeyEvent := p.script.due p.elapsed

/-- The player after a frame whose update succeeds, before it takes note of the buzzer. -/
def advanced (p : Player) : Player :=
  { p.deliver with
    machine := (p.deliver.machine.update framePeriod).state
    elapsed := p.elapsed + framePeriod }

theorem afterFrames_succ (p : Player) (n : Nat) :
    p.afterFrames (n + 1) = (p.afterFrames n).frame.state :=
  Function.iterate_succ_apply' _ n p

theorem noteTone_script (p : Player) : p.noteTone.1.script = p.script := by
  simp only [noteTone]
  split <;> rfl

theorem noteTone_machine (p : Player) : p.noteTone.1.machine = p.machine := by
  simp only [noteTone]
  split <;> rfl

theorem script_frame (p : Player) : p.frame.state.script = p.script.rest p.elapsed := by
  simp only [frame]
  split
  · rfl
  · simp only [noteTone_script]
    rfl

/-- What pressing and releasing keys keep is kept by the delivery of a frame. -/
theorem deliver_invariant {P : Machine → Prop} (press : ∀ m key, P m → P (m.pressKey key))
    (release : ∀ m key, P m → P (m.releaseKey key)) {p : Player} (h : P p.machine) :
    P p.deliver.machine := by
  refine List.foldlRecOn p.delivered _ h ?_
  intro m hm event _
  rw [Machine.setKey]
  split
  · exact press m event.key hm
  · exact release m event.key hm

theorem clock_deliver (p : Player) : p.deliver.machine.clock = p.machine.clock :=
  deliver_invariant (P := fun m => m.clock = p.machine.clock)
    (fun m key h => (m.clock_pressKey key).trans h) (fun _ _ h => h) rfl

theorem machine_frame (p : Player) :
    p.frame.state.machine =
      ((p.delivered.foldl (fun m e => m.setKey e.key e.pressed) p.machine).update
        framePeriod).state := by
  simp only [frame]
  split
  · rfl
  · simp only [noteTone_machine]
    rfl

theorem result_frame (p : Player) :
    p.frame.result = (p.deliver.machine.update framePeriod).result.map fun _ => () := by
  simp only [frame]
  split
  · rename_i h
    rw [h]
    rfl
  · rename_i h
    rw [h]
    rfl

variable {p : Player} {n : Nat}

/-- A frame whose update faults stops where the machine did. -/
theorem frame_of_error {e : Fault} (h : (p.deliver.machine.update framePeriod).result = .error e) :
    let o := p.deliver.machine.update framePeriod
    p.frame = ⟨{ p.deliver with machine := o.state }, .error e, o.notices ++ p.deliveryNotices⟩ := by
  simp only [frame, h]

/-- A frame whose update succeeds takes its time, and then notes the buzzer. -/
theorem frame_of_ok {cycles : Nat}
    (h : (p.deliver.machine.update framePeriod).result = .ok cycles) :
    p.frame = ⟨p.advanced.noteTone.1, .ok (), p.advanced.noteTone.2 ++
      ((p.deliver.machine.update framePeriod).notices ++ p.deliveryNotices)⟩ := by
  simp only [frame, h]
  rfl

theorem update_error_iff_frame {e : Fault} :
    (p.deliver.machine.update framePeriod).result = .error e ↔ p.frame.result = .error e := by
  rw [result_frame]
  exact Outcome.map_error_iff.symm

theorem elapsed_frame_of_error {e : Fault} (h : p.frame.result = .error e) :
    p.frame.state.elapsed = p.elapsed := by
  revert h
  simp only [frame]
  split
  · intro _
    rfl
  · intro h
    cases h

theorem tone_frame_of_error {e : Fault} (h : p.frame.result = .error e) :
    p.frame.state.tone = p.tone := by
  rw [frame_of_error (update_error_iff_frame.2 h)]
  rfl

theorem elapsed_afterFrames (hok : ∀ j < n, (p.afterFrames j).frame.result = .ok ()) :
    (p.afterFrames n).elapsed = p.elapsed + n * framePeriod := by
  induction n with
  | zero => rw [Nat.zero_mul]; rfl
  | succ n ih =>
    rw [afterFrames_succ, elapsed_frame (hok n (Nat.lt_succ_self n)),
      ih fun j hj => hok j (Nat.lt_succ_of_lt hj), Nat.succ_mul, Nat.add_assoc]

end Chip8.Player
