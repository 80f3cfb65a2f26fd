import Chip8.Proofs.Cycles
import Chip8.Proofs.Frames

/-! # Reports of the buzzer

A player that is to tell of the buzzer compares it, at the end of each frame that succeeds, with
what it was at the end of the one before. So it tells of every change and of nothing else: the
reports are on and off in turn, and the last one is how the buzzer stands.
-/
namespace Chip8

def Notice.tone? : Notice → Option Bool
  | .tone on => some on
  | _ => none

/-- What the notices of an outcome tell of the buzzer, in the order in which they were given. -/
def Outcome.tones {σ α : Type} (o : Outcome σ α) : List Bool := o.log.filterMap Notice.tone?

def alternating (count : Nat) : List Bool := (List.range count).map (· % 2 == 0)

/-- What was told is on and off in turn, as often as it takes to come to what holds now. -/
structure InTurn (told : List Bool) (now : Bool) : Prop where
  eq_alternating : told = alternating told.length
  now_eq : now = (told.length % 2 == 1)

theorem beq_even_succ (count : Nat) : ((count + 1) % 2 == 1) = (count % 2 == 0) := by
  rw [Bool.eq_iff_iff, beq_iff_eq, beq_iff_eq]
  omega

theorem beq_even (count : Nat) : (count % 2 == 0) = !(count % 2 == 1) := by
  rcases Nat.mod_two_eq_zero_or_one count with h | h <;> rw [h] <;> rfl

theorem alternating_succ (count : Nat) :
    alternating (count + 1) = alternating count ++ [count % 2 == 0] := by
  rw [alternating, List.range_succ, List.map_append]
  rfl

namespace InTurn
variable {told : List Bool} {now : Bool}

theorem nil : InTurn [] false := ⟨rfl, rfl⟩

/-- To tell of a change goes on in turn. -/
theorem tell (h : InTurn told now) (next : Bool) :
    InTurn (told ++ if next = now then [] else [next]) next := by
  by_cases hsame : next = now
  · rw [if_pos hsame, List.append_nil, hsame]
    exact h
  · have hnext : next = (told.length % 2 == 0) := by
      rw [beq_even, ← h.now_eq]
      exact Bool.eq_not_of_ne hsame
    rw [if_neg hsame]
    refine ⟨?_, ?_⟩
    · rw [List.length_append, List.length_singleton, alternating_succ, ← h.eq_alternating, ← hnext]
    · rw [List.length_append, List.length_singleton, beq_even_succ, ← hnext]

theorem getElem_eq (h : InTurn told now) {i : Nat} (hi : i < told.length) :
    told[i] = (i % 2 == 0) := by
  have hget : told[i]? = (alternating told.length)[i]? := congrArg (·[i]?) h.eq_alternating
  rw [List.getElem?_eq_getElem hi] at hget
  simpa [alternating, hi] using hget

theorem getLast?_eq (h : InTurn told now) : told.getLast?.getD false = now := by
  rw [h.eq_alternating, h.now_eq]
  cases told.length with
  | zero => rfl
  | succ count => rw [alternating_succ, List.getLast?_concat, Option.getD_some, beq_even_succ]

end InTurn

namespace Machine

section Notices
variable {P : Notice → Prop} (h : ∀ m : Machine, ∀ notice ∈ m.executeNext.notices, P notice)
include h

theorem notices_step (m : Machine) : ∀ notice ∈ m.step.notices, P notice := by
  cases hf : m.fault with
  | some e =>
    rw [step_of_fault hf]
    exact List.forall_mem_nil P
  | none =>
    cases hx : m.awaiting with
    | some x =>
      rw [step_of_awaiting hf hx]
      exact List.forall_mem_nil P
    | none =>
      rw [step_of_running hf hx]
      exact h m

theorem notices_cycle (m : Machine) : ∀ notice ∈ m.cycle.notices, P notice := by
  cases hx : m.awaiting with
  | some x =>
    rw [cycle_of_awaiting hx]
    exact List.forall_mem_nil P
  | none =>
    by_cases ho : 0 < m.owed
    · rw [cycle_of_owed hx ho]
      exact List.forall_mem_nil P
    · rw [cycle_of_paid hx ho]
      exact notices_step h m

theorem notices_spend (m : Machine) (spent : Nat) {notices : List Notice}
    (hbefore : ∀ notice ∈ notices, P notice) :
    ∀ notice ∈ (m.spend spent notices).notices, P notice := by
  fun_induction spend m spent notices with
  | case1 m spent notices ht => exact hbefore
  | case2 m spent notices clock ht o e he =>
    exact List.forall_mem_append.2 ⟨notices_cycle h (m.withClock clock), hbefore⟩
  | case3 m spent notices clock ht o he ih =>
    exact ih (List.forall_mem_append.2 ⟨notices_cycle h (m.withClock clock), hbefore⟩)

/-- What holds of the notices of every instruction holds of those of an update. -/
theorem notices_update (m : Machine) (elapsed : Nat) :
    ∀ notice ∈ (m.update elapsed).notices, P notice := by
  cases hf : m.fault with
  | some e =>
    rw [update_of_fault hf]
    exact List.forall_mem_nil P
  | none =>
    have hspend := notices_spend h (m.withClock (m.clock.advance elapsed)) 0 (List.forall_mem_nil P)
    cases hr : ((m.withClock (m.clock.advance elapsed)).spend 0 []).result with
    | error e =>
      rw [update_of_spend_error hf hr]
      exact hspend
    | ok n =>
      rw [update_of_spend_ok hf hr]
      exact hspend

end Notices

theorem tone?_executeNext (m : Machine) : ∀ notice ∈ m.executeNext.notices, notice.tone? = none := by
  have hinstruction : ∀ notice ∈ m.nextInstruction.notices m.cpu.pc ++
      [.executing m.cpu.pc m.nextInstruction], notice.tone? = none := by
    refine List.forall_mem_append.2 ⟨?_, by simp [Notice.tone?]⟩
    cases m.nextInstruction <;> simp [Instruction.notices, Notice.tone?]
  rw [executeNext]
  rcases m.nextEffect with ⟨n, fault | ⟨flow, cost⟩⟩
  · exact List.forall_mem_cons.2 ⟨rfl, hinstruction⟩
  · exact hinstruction

end Machine

namespace Player

variable {p : Player}

theorem tones_before_note (p : Player) :
    ((p.deliver.machine.update framePeriod).notices ++ p.deliveryNotices).reverse.filterMap
      Notice.tone? = [] := by
  have hupdate := Machine.notices_update Machine.tone?_executeNext p.deliver.machine framePeriod
  have hdelivery : ∀ notice ∈ p.deliveryNotices, notice.tone? = none := by
    rw [deliveryNotices]
    split
    · exact List.forall_mem_nil _
    · simp [Notice.tone?]
  refine List.filterMap_eq_nil_iff.2 ?_
  intro notice hmem
  exact List.forall_mem_append.2 ⟨hupdate, hdelivery⟩ notice (List.mem_reverse.1 hmem)

theorem report_of_error {e : Fault} (h : p.frame.result = .error e) :
    p.frame.tones = [] ∧ p.frame.state.tone = p.tone := by
  refine ⟨?_, tone_frame_of_error h⟩
  rw [frame_of_error (update_error_iff_frame.2 h)]
  exact p.tones_before_note

theorem tones_frame_of_ok (h : p.frame.result = .ok ()) :
    p.frame.state = p.advanced.noteTone.1 ∧
    p.frame.tones = p.advanced.noteTone.2.reverse.filterMap Notice.tone? := by
  cases hr : (p.deliver.machine.update framePeriod).result with
  | error e => cases h.symm.trans (update_error_iff_frame.1 hr)
  | ok cycles =>
    rw [frame_of_ok hr]
    refine ⟨rfl, ?_⟩
    rw [Outcome.tones, Outcome.log, List.reverse_append, List.filterMap_append,
      tones_before_note, List.nil_append]

theorem noteTone_of_quiet (h : p.preferences.sound = false) : p.noteTone = (p, []) := by
  simp [noteTone, h]

theorem noteTone_of_sound (h : p.preferences.sound = true) :
    p.noteTone = ({ p with tone := p.machine.buzzer },
      if p.machine.buzzer = p.tone then [] else [.tone p.machine.buzzer]) := by
  by_cases hsame : p.machine.buzzer = p.tone
  · simp [noteTone, hsame]
  · simp [noteTone, h, hsame]

theorem tones_frame_of_quiet (h : p.preferences.sound = false) : p.frame.tones = [] := by
  cases hr : p.frame.result with
  | error e => exact (report_of_error hr).1
  | ok u =>
    rw [(tones_frame_of_ok hr).2, noteTone_of_quiet (p := p.advanced) h]
    rfl

theorem report_of_ok (h : p.frame.result = .ok ()) (hsound : p.preferences.sound = true) :
    let buzzer := p.frame.state.machine.buzzer
    p.frame.tones = (if buzzer = p.tone then [] else [buzzer]) ∧ p.frame.state.tone = buzzer := by
  obtain ⟨hstate, htones⟩ := tones_frame_of_ok h
  rw [hstate, htones, noteTone_of_sound (p := p.advanced) hsound]
  refine ⟨?_, rfl⟩
  change _ = if p.advanced.machine.buzzer = p.advanced.tone then [] else _
  split <;> rfl

theorem preferences_frame (p : Player) : p.frame.state.preferences = p.preferences := by
  cases hr : (p.deliver.machine.update framePeriod).result with
  | error e =>
    rw [frame_of_error hr]
    rfl
  | ok cycles =>
    rw [frame_of_ok hr, noteTone]
    split <;> rfl

theorem preferences_afterFrames (p : Player) (n : Nat) :
    (p.afterFrames n).preferences = p.preferences := by
  induction n with
  | zero => rfl
  | succ n ih =>
    rw [afterFrames_succ, preferences_frame]
    exact ih

/-- What the first frames report. -/
def reports (p : Player) (n : Nat) : List Bool :=
  (List.range n).flatMap fun j => (p.afterFrames j).frame.tones

/-- How the buzzer stood at the end of the last of the first frames that succeeded: off, if none
did. -/
def lastBuzzer (p : Player) : Nat → Bool
  | 0 => false
  | n + 1 =>
    match (p.afterFrames n).frame.result with
    | .ok () => (p.afterFrames (n + 1)).machine.buzzer
    | .error _ => p.lastBuzzer n

theorem reports_succ (p : Player) (n : Nat) :
    p.reports (n + 1) = p.reports n ++ (p.afterFrames n).frame.tones := by
  rw [reports, List.range_succ, List.flatMap_append, List.flatMap_singleton]
  rfl

theorem tone_afterFrames (hsound : p.preferences.sound = true) (htone : p.tone = false) (n : Nat) :
    (p.afterFrames n).tone = p.lastBuzzer n := by
  induction n with
  | zero => exact htone
  | succ n ih =>
    have hafter : (p.afterFrames n).preferences.sound = true := by
      rw [preferences_afterFrames, hsound]
    cases hr : (p.afterFrames n).frame.result with
    | error e =>
      simp only [lastBuzzer, hr]
      rw [afterFrames_succ, (report_of_error hr).2, ih]
    | ok u =>
      simp only [lastBuzzer, hr]
      rw [afterFrames_succ]
      exact (report_of_ok hr hafter).2

theorem tones_afterFrames_of_ok (hsound : p.preferences.sound = true) (htone : p.tone = false)
    {n : Nat} (h : (p.afterFrames n).frame.result = .ok ()) :
    let buzzer := (p.afterFrames (n + 1)).machine.buzzer
    (p.afterFrames n).frame.tones = if buzzer = p.lastBuzzer n then [] else [buzzer] := by
  have hafter : (p.afterFrames n).preferences.sound = true := by
    rw [preferences_afterFrames, hsound]
  rw [afterFrames_succ, ← tone_afterFrames hsound htone]
  exact (report_of_ok h hafter).1

/-- After any number of frames the reports are in turn, and have come to the buzzer as it stood when
a frame last succeeded. -/
theorem inTurn_reports (hsound : p.preferences.sound = true) (htone : p.tone = false) (n : Nat) :
    InTurn (p.reports n) (p.lastBuzzer n) := by
  induction n with
  | zero => exact .nil
  | succ n ih =>
    cases hr : (p.afterFrames n).frame.result with
    | error e =>
      simp only [reports_succ, lastBuzzer, hr, (report_of_error hr).1, List.append_nil]
      exact ih
    | ok u =>
      simp only [reports_succ, lastBuzzer, hr, tones_afterFrames_of_ok hsound htone hr]
      exact ih.tell _

/-- A player that is to tell of the buzzer does so in exactly those frames that succeed and at whose
end it is not as it was at the end of the last one that did, or off before the first. The reports
are on and off in turn, and the last one is how the buzzer stood when a frame last succeeded. A
player that is not to tell of it never does. -/
theorem reports_tell_buzzer (preferences : Preferences) (settings : Settings)
    (entropy : Random.Key) (generator : Random.Generator)
    (program : List UInt8) (script : Script) (n : Nat) :
    let p := setUp preferences settings entropy generator program script
    (preferences.sound = true →
      (∀ i (h : i < (p.reports n).length), (p.reports n)[i] = (i % 2 == 0)) ∧
      (∀ j < n,
        let buzzer := (p.afterFrames (j + 1)).machine.buzzer
        (p.afterFrames j).frame.tones =
          if (p.afterFrames j).frame.result = .ok () ∧ buzzer ≠ p.lastBuzzer j then [buzzer]
          else []) ∧
      (p.reports n).getLast?.getD false = p.lastBuzzer n) ∧
    (preferences.sound = false → p.reports n = []) ∧
    (Notice.tone true).text = "tone on" ∧ (Notice.tone false).text = "tone off" := by
  intro p
  refine ⟨?_, ?_, rfl, rfl⟩
  · intro hsound
    have hturn : InTurn (p.reports n) (p.lastBuzzer n) := inTurn_reports hsound rfl n
    refine ⟨fun i hi => hturn.getElem_eq hi, ?_, hturn.getLast?_eq⟩
    intro j _ buzzer
    cases hr : (p.afterFrames j).frame.result with
    | error e => simp [(report_of_error hr).1]
    | ok u => simp [tones_afterFrames_of_ok hsound rfl hr, buzzer, ite_not]
  · intro hquiet
    refine List.flatMap_eq_nil_iff.2 ?_
    intro j _
    apply tones_frame_of_quiet
    rw [preferences_afterFrames]
    exact hquiet

/-- A program that beeps, is silent, and faults as it beeps again: the buzzer is left on. -/
theorem reports_tell_buzzer_of_two_beeps :
    let program : List UInt8 := [0x60, 0x02, 0xF0, 0x18, 0xA0, 0x00, 0xF0, 0x18, 0x00, 0xEE]
    let p := setUp {} { rate := 60 } 0 .chaCha program .empty
    p.reports 7 = [true, false, true] ∧ p.lastBuzzer 7 = true ∧
      (p.afterFrames 5).frame.tones = [] ∧
      (setUp { sound := false } { rate := 60 } 0 .chaCha program .empty).reports 7 = [] := by
  intro program p
  have hreports : p.reports 7 = [true, false, true] := by decide +kernel
  have hfault : (p.afterFrames 5).frame.result ≠ .ok () := by decide +kernel
  obtain ⟨hsound, -⟩ := reports_tell_buzzer {} { rate := 60 } 0 .chaCha program .empty 7
  obtain ⟨-, hframes, hlast⟩ := hsound rfl
  obtain ⟨-, hquiet, -⟩ :=
    reports_tell_buzzer { sound := false } { rate := 60 } 0 .chaCha program .empty 7
  have hnone : (p.afterFrames 5).frame.tones = [] :=
    (hframes 5 (by decide)).trans (if_neg fun h => hfault h.1)
  refine ⟨hreports, ?_, hnone, hquiet rfl⟩
  rw [← hlast, hreports]
  rfl

end Player
end Chip8
