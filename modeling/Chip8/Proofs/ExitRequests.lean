import Chip8.Proofs.Endings
import Chip8.Proofs.FailedFrames
import Chip8.Proofs.Flows
import Chip8.Proofs.History

/-! # Requests to stop

An instruction that asks to stop raises a flag and no more: the machine goes on with the cycles of
the frame, and its player looks at the flag behind them. So the frame in which a program asks to
stop is the last one of its run, and the run ends well unless an instruction that is executed after
the request, in what is left of that frame, faults.
-/
namespace Chip8

/-- The fault that an instruction at `pc` ends in when it fails. -/
def Instruction.fault? (pc : UInt16) : Instruction → Option Fault
  | .ret => some (.stackUnderflow pc)
  | .call _ => some (.stackOverflow pc)
  | _ => none

namespace Machine

theorem fault?_of_executeNext_error {m : Machine} {e : Fault}
    (h : m.executeNext.result = .error e) : m.nextInstruction.fault? m.cpu.pc = some e := by
  have hfails := executeNext_error_iff.1 h
  generalize m.nextInstruction = i at hfails
  cases hfails <;> rfl

theorem internal_exitRequested :
    Internal fun m trace n => n.exitRequested = true ↔
      m.exitRequested = true ∨ ∃ pc, (pc, .exit) ∈ trace where
  refl m := by simp
  trans h h' := by
    rw [h', h, or_assoc, ← exists_or]
    simp only [List.mem_append]
  execute m _ _ := by
    rw [exitRequested_executeNext, Bool.or_eq_true, beq_iff_eq, Instruction.flow_eq_exit_iff]
    simp only [List.mem_singleton, Prod.mk.injEq, exists_eq_left, eq_comm]
  pay _ _ _ := by simp
  clock _ _ _ := by simp [withClock]
  timers _ _ := by simp

/-- A fault is that of the last execution, and nothing is executed after it. -/
structure FaultedBy (m : Machine) (trace : List Execution) (n : Machine) : Prop where
  stays : ∀ e, m.fault = some e → n.fault = some e ∧ trace = []
  arises : m.fault = none → ∀ e, n.fault = some e →
    ∃ earlier last, trace = earlier ++ [last] ∧ last.2.fault? last.1 = some e

namespace FaultedBy
variable {m n o : Machine} {before after : List Execution}

theorem of_same (h : n.fault = m.fault) : FaultedBy m [] n where
  stays _ he := ⟨h.trans he, rfl⟩
  arises hf _ he := absurd ((h.symm.trans he).symm.trans hf) (Option.some_ne_none _)

theorem trans (h : FaultedBy m before n) (h' : FaultedBy n after o) :
    FaultedBy m (before ++ after) o where
  stays e he := by
    obtain ⟨hn, rfl⟩ := h.stays e he
    exact h'.stays e hn
  arises hf e he := by
    cases hn : n.fault with
    | none =>
      obtain ⟨earlier, last, rfl, hlast⟩ := h'.arises hn e he
      exact ⟨before ++ earlier, last, (List.append_assoc ..).symm, hlast⟩
    | some e' =>
      obtain ⟨ho, rfl⟩ := h'.stays e' hn
      cases he.symm.trans ho
      rw [List.append_nil]
      exact h.arises hf e hn

theorem executeNext (hf : m.fault = none) :
    FaultedBy m [(m.cpu.pc, m.nextInstruction)] m.executeNext.state where
  stays _ he := absurd (he.symm.trans hf) (Option.some_ne_none _)
  arises _ e he := by
    refine ⟨[], _, rfl, ?_⟩
    cases hr : m.executeNext.result with
    | error e' =>
      rw [state_of_executeNext_error hr] at he
      cases he
      exact fault?_of_executeNext_error hr
    | ok flow =>
      rw [fault_of_executeNext_ok hr, hf] at he
      cases he

end FaultedBy

theorem internal_faultedBy : Internal FaultedBy where
  refl _ := .of_same rfl
  trans := .trans
  execute _ hf _ := .executeNext hf
  pay _ _ _ := .of_same rfl
  clock _ _ _ := .of_same rfl
  timers _ _ := .of_same rfl

end Machine

namespace Player
variable {p : Player} {n frames : Nat}

def executions (p : Player) (limit : Option Nat) : List Execution := (p.run limit .trace).trace

theorem trace_deliveryNotices (p : Player) : Notice.trace p.deliveryNotices = [] := by
  rw [deliveryNotices]
  split <;> rfl

theorem trace_noteTone (p : Player) : Notice.trace p.noteTone.2 = [] := by
  rw [noteTone]
  split <;> rfl

theorem trace_frame (p : Player) :
    p.frame.trace = (p.deliver.machine.update framePeriod).trace := by
  cases hr : (p.deliver.machine.update framePeriod).result with
  | error e =>
    simp only [frame_of_error hr, Outcome.trace, Notice.trace_append, trace_deliveryNotices,
      List.nil_append]
  | ok cycles =>
    simp only [frame_of_ok hr, Outcome.trace, Notice.trace_append, trace_deliveryNotices,
      trace_noteTone, List.nil_append, List.append_nil]

theorem exitRequested_of_mem_trace {pc : UInt16} (h : (pc, .exit) ∈ p.frame.trace) :
    p.frame.state.machine.exitRequested = true := by
  rw [trace_frame] at h
  rw [machine_frame]
  exact (Machine.internal_exitRequested.update p.deliver.machine framePeriod).2 (Or.inr ⟨pc, h⟩)

/-- A frame that executes something and faults does so with the last instruction of it. -/
theorem exists_failing_of_error {e : Fault} (h : p.frame.result = .error e)
    (hne : p.frame.trace ≠ []) :
    ∃ earlier failing, p.frame.trace = earlier ++ [failing] ∧
      failing.2.fault? failing.1 = some e := by
  rw [trace_frame] at hne ⊢
  have hfaulted := Machine.internal_faultedBy.update p.deliver.machine framePeriod
  have hafter := Machine.fault_of_update_error (update_error_iff_frame.2 h)
  refine hfaulted.arises ?_ e hafter
  cases hf : p.deliver.machine.fault with
  | none => rfl
  | some e' => exact absurd (hfaulted.stays e' hf).2 hne

theorem trace_noticesThrough (p : Player) (n : Nat) :
    Notice.trace (p.noticesThrough .trace [] n) =
      (List.range n).flatMap fun j => (p.afterFrames j).frame.trace := by
  have hall (level : Level) : Level.trace.shows level = true := by
    cases level <;> rfl
  induction n with
  | zero => rfl
  | succ n ih =>
    rw [noticesThrough, noticesAfter, List.filter_eq_self.2 fun notice _ => hall notice.level,
      Notice.trace_append, ih, List.range_succ, List.flatMap_append, List.flatMap_singleton]
    rfl

theorem exists_executions (p : Player) (limit : Option Nat) :
    ∃ frames n result, p.Ends frames n result ∧
      p.executions limit = (List.range n).flatMap (fun j => (p.afterFrames j).frame.trace) ∧
      ∀ shown, (p.run limit shown).result = result ∧
        (p.run limit shown).state = p.afterFrames n := by
  obtain ⟨frames, n, result, hends, hrun⟩ := p.exists_outcome_run limit
  have hclosing : Notice.trace ((p.afterFrames n).closing result) = [] := by
    rcases result with e | _ | _ <;> rfl
  refine ⟨frames, n, result, hends, ?_, fun shown => by rw [hrun]; exact ⟨rfl, rfl⟩⟩
  rw [executions, hrun, Outcome.trace, Notice.trace_append, hclosing, List.append_nil,
    trace_noticesThrough]

theorem GoesOn.exit_notMem (h : p.GoesOn n) {j : Nat} (hj : j < n) (pc : UInt16) :
    (pc, .exit) ∉ (p.afterFrames j).frame.trace := by
  intro hmem
  have hnot := (h j hj).2
  rw [afterFrames_succ, exitRequested_of_mem_trace hmem] at hnot
  cases hnot

/-- A run is over with the first frame that asks to stop. -/
theorem Ends.last_of_exit {result : Except Fault Stop} (h : p.Ends frames n result) {pc : UInt16}
    (hmem : ∃ j < n, (pc, .exit) ∈ (p.afterFrames j).frame.trace) :
    ∃ j, n = j + 1 ∧ p.GoesOn j ∧ (pc, .exit) ∈ (p.afterFrames j).frame.trace ∧
      result = (p.afterFrames j).frame.result.map fun _ => .exit := by
  obtain ⟨i, hi, hmem⟩ := hmem
  cases h with
  | @fault j e _ hbefore he =>
    rcases Nat.lt_succ_iff_lt_or_eq.1 hi with hi | rfl
    · exact absurd hmem (hbefore.exit_notMem hi pc)
    · exact ⟨i, rfl, hbefore, hmem, by rw [he]; rfl⟩
  | @exit j _ hbefore hr _ =>
    rcases Nat.lt_succ_iff_lt_or_eq.1 hi with hi | rfl
    · exact absurd hmem (hbefore.exit_notMem hi pc)
    · exact ⟨i, rfl, hbefore, hmem, by rw [hr]; rfl⟩
  | timeLimit hall => exact absurd hmem (hall.exit_notMem hi pc)

/-- The frame in which a program asks to stop is the last one of its run, whatever else the program
holds. The run ends as a request to stop, unless that frame fails, which it does with an instruction
that is executed after the request; then the run ends with its fault. Waiting between the frames
changes nothing. -/
theorem exit_ends_run (p : Player) (limit : Option Nat) (shown : Level) {pc : UInt16}
    (h : (pc, .exit) ∈ p.executions limit) :
    let o := p.run limit shown
    ∃ j, p.GoesOn j ∧ o.state = p.afterFrames (j + 1) ∧
      (∀ i < j, ∀ a, (a, .exit) ∉ (p.afterFrames i).frame.trace) ∧
      (pc, .exit) ∈ (p.afterFrames j).frame.trace ∧
      ((p.afterFrames j).frame.result = .ok () → o.result = .ok .exit) ∧
      (∀ e, (p.afterFrames j).frame.result = .error e → o.result = .error e ∧
        ∃ before between failing,
          (p.afterFrames j).frame.trace = before ++ (pc, .exit) :: (between ++ [failing]) ∧
          failing.2.fault? failing.1 = some e) ∧
      ∀ (M : Type → Type) [Monad M] [LawfulMonad M] (wait : Nat → M Unit), ∃ times : List Nat,
        p.runWith wait shown (limit.getD maxElapsed) [] = times.forM wait >>= fun _ => pure o := by
  intro o
  obtain ⟨frames, n, result, hends, hexecutions, hrun⟩ := p.exists_executions limit
  obtain ⟨hresult, hstate⟩ := hrun shown
  rw [hexecutions] at h
  obtain ⟨i, hi, hmem⟩ := List.mem_flatMap.1 h
  obtain ⟨j, rfl, hbefore, hmem, rfl⟩ := hends.last_of_exit ⟨i, List.mem_range.1 hi, hmem⟩
  refine ⟨j, hbefore, hstate, fun i hi a => hbefore.exit_notMem hi a, hmem, ?_, ?_, ?_⟩
  · intro hok
    exact hresult.trans (by rw [hok]; rfl)
  · intro e he
    refine ⟨hresult.trans (by rw [he]; rfl), ?_⟩
    obtain ⟨earlier, failing, htrace, hfails⟩ :=
      exists_failing_of_error he (List.ne_nil_of_mem hmem)
    rw [htrace] at hmem
    rcases List.mem_append.1 hmem with hearlier | hlast
    · obtain ⟨before, between, rfl⟩ := List.append_of_mem hearlier
      exact ⟨before, between, failing, by rw [htrace, List.append_assoc, List.cons_append], hfails⟩
    · rw [← List.mem_singleton.1 hlast] at hfails
      cases hfails
  · intro M _ _ wait
    exact runWith_eq wait p shown (limit.getD maxElapsed) []

/-- With one instruction to a frame, a request to stop comes before the return that would fail. -/
theorem exit_ends_run_of_slow_rate :
    let p := (ofSettings {} { rate := 60 } 0).loadProgram [0x00, 0xFD, 0x00, 0xEE]
    (0x200, .exit) ∈ p.executions none ∧ (p.run none .info).result = .ok .exit := by
  intro p
  have hframe : p.frame.result = .ok () := by decide +kernel
  have hrun (shown : Level) : p.run none shown =
      ⟨p.frame.state, .ok .exit, .exited p.frame.state.frameCount :: p.noticesAfter shown []⟩ := by
    have hexit : p.frame.state.machine.exitRequested = true := by decide +kernel
    exact (runWith_of_ok _ (by decide) hframe).trans (if_pos hexit)
  have h : (0x200, .exit) ∈ p.executions none := by
    rw [executions, hrun]
    decide +kernel
  obtain ⟨j, -, -, hnone, -, hok, -⟩ := exit_ends_run p none .info h
  have hfirst : (0x200, .exit) ∈ (p.afterFrames 0).frame.trace := by decide +kernel
  obtain rfl : j = 0 := Nat.eq_zero_of_not_pos fun hj => hnone 0 hj 0x200 hfirst
  exact ⟨h, hok hframe⟩

/-- A request to stop does not keep what is left of its frame from failing. -/
theorem fault_after_exit :
    let p := (new {} 0).loadProgram [0x00, 0xFD, 0x00, 0xEE]
    p.executions none = [(0x200, .exit), (0x202, .ret)] ∧
      ∀ shown, (p.run none shown).result = .error (.stackUnderflow 0x202) := by
  intro p
  have hframe : p.frame.result = .error (.stackUnderflow 0x202) := by decide +kernel
  have hrun (shown : Level) : p.run none shown =
      ⟨p.frame.state, .error (.stackUnderflow 0x202), p.noticesAfter shown []⟩ :=
    runWith_of_error _ (by decide) hframe
  refine ⟨?_, fun shown => by rw [hrun]⟩
  rw [executions, hrun]
  decide +kernel

end Player
end Chip8
