import Chip8.Proofs.History
import Chip8.Proofs.Moments

/-! # Events

What a session does to memory and to the call stack, it does in events: instructions are executed,
each at some moment of the machine, and programs are loaded. All else that happens in between, a
cycle that is paid, time that passes, a key or a setting, is an aside. A course leads from a machine
through its events to the machine after them, and can be cut at any of them.
-/
namespace Chip8

inductive Event
  /-- A machine executes its next instruction. -/
  | executes (moment : Machine)
  | loads (program : List UInt8)

namespace Event

def execution? : Event → Option Execution
  | .executes m => some (m.cpu.pc, m.nextInstruction)
  | .loads _ => none

def load? : Event → Option (List UInt8)
  | .executes _ => none
  | .loads program => some program

def executions (events : List Event) : List Execution := events.filterMap execution?

theorem executions_append (before after : List Event) :
    executions (before ++ after) = executions before ++ executions after :=
  List.filterMap_append

def programs (events : List Event) : List (List UInt8) := events.filterMap load?

theorem programs_append (before after : List Event) :
    programs (before ++ after) = programs before ++ programs after :=
  List.filterMap_append

end Event

def Operation.load? : Operation → Option (List UInt8)
  | .loadProgram program => some program
  | _ => none

namespace Machine

def stepEvents (m : Machine) : List Event :=
  match m.fault, m.awaiting with
  | none, none => [.executes m]
  | _, _ => []

def stepsEvents (m : Machine) : Nat → List Event
  | 0 => []
  | n + 1 => m.stepEvents ++ m.step.state.stepsEvents n

def cycleEvents (m : Machine) : List Event := if 0 < m.owed then [] else m.stepEvents

/-- The events of some cycles, each of which takes its time from the clock before it is spent. -/
def spendEvents (m : Machine) : Nat → List Event
  | 0 => []
  | n + 1 =>
    let m := m.withClock m.clock.take
    m.cycleEvents ++ m.cycle.state.spendEvents n

def updateEvents (m : Machine) (elapsed : Nat) : List Event :=
  let m := m.withClock (m.clock.advance elapsed)
  m.spendEvents m.clock.available

def eventsOf (m : Machine) : Operation → List Event
  | .step => m.stepEvents
  | .runSteps count => m.stepsEvents count
  | .update elapsed => m.updateEvents elapsed
  | .loadProgram program => [.loads program]
  | _ => []

def events (m : Machine) : List Operation → List Event
  | [] => []
  | operation :: rest => m.eventsOf operation ++ (m.perform operation).state.events rest

/-- What happens to a machine between its events. -/
inductive Aside : Machine → Machine → Prop
  | pay (m : Machine) : m.awaiting = none → 0 < m.owed → Aside m { m with owed := m.owed - 1 }
  | clock (m : Machine) (clock : Clock) : clock.period = m.clock.period →
      Aside m (m.withClock clock)
  | timers (m : Machine) (elapsed : Nat) : Aside m { m with timers := m.timers.advance elapsed }
  | press (m : Machine) (key : Key) : Aside m (m.pressKey key)
  | release (m : Machine) (key : Key) : Aside m (m.releaseKey key)
  | clear (m : Machine) : Aside m m.clearKeys
  | timing (m : Machine) (timing : Timing) : Aside m (m.setTiming timing)
  | rate (m : Machine) (hz : UInt64) : Aside m (m.setRate hz)

/-- A machine, its events in order, and the machine after them. -/
inductive Course : Machine → List Event → Machine → Prop
  | refl (m : Machine) : Course m [] m
  | executes {m n : Machine} {events : List Event} : m.Running →
      Course m.executeNext.state events n → Course m (.executes m :: events) n
  | loads {m n : Machine} {events : List Event} (program : List UInt8) :
      Course (m.loadProgram program) events n → Course m (.loads program :: events) n
  | aside {m n o : Machine} {events : List Event} : Aside m n → Course n events o →
      Course m events o

namespace Course
variable {m n o : Machine} {before after events : List Event}

theorem of_aside (h : Aside m n) : Course m [] n := .aside h (.refl n)

theorem append (h : Course m before n) (h' : Course n after o) : Course m (before ++ after) o := by
  induction h with
  | refl m => exact h'
  | executes hrun _ ih => exact .executes hrun (ih h')
  | loads program _ ih => exact .loads program (ih h')
  | aside ha _ ih => exact .aside ha (ih h')

/-- A course comes to each of its moments, and goes on from there. -/
theorem split {b : Machine} (h : Course m (before ++ .executes b :: after) n) :
    Course m before b ∧ b.Running ∧ Course b.executeNext.state after n := by
  generalize hevents : before ++ .executes b :: after = events at h
  induction h generalizing before with
  | refl m => simp at hevents
  | executes hrun hrest ih =>
    cases before with
    | nil =>
      cases hevents
      exact ⟨.refl _, hrun, hrest⟩
    | cons event before =>
      cases hevents
      obtain ⟨hbefore, hb, hafter⟩ := ih rfl
      exact ⟨.executes hrun hbefore, hb, hafter⟩
  | loads program hrest ih =>
    cases before with
    | nil => cases hevents
    | cons event before =>
      cases hevents
      obtain ⟨hbefore, hb, hafter⟩ := ih rfl
      exact ⟨.loads program hbefore, hb, hafter⟩
  | aside ha _ ih =>
    obtain ⟨hbefore, hb, hafter⟩ := ih hevents
    exact ⟨.aside ha hbefore, hb, hafter⟩

theorem historical {R : Machine → List Execution → Machine → Prop} (hR : Historical R)
    (h : Course m events n) : R m (Event.executions events) n := by
  induction h with
  | refl m => exact hR.refl m
  | executes hrun _ ih => exact hR.trans (hR.execute _ hrun.fault hrun.awaiting) ih
  | loads program _ ih => exact hR.trans (hR.load _ program) ih
  | @aside m n o events ha _ ih =>
    have hfirst : R m [] n := by
      cases ha with
      | pay hx ho => exact hR.pay m hx ho
      | clock clock hc => exact hR.clock m clock hc
      | timers elapsed => exact hR.timers m elapsed
      | press key => exact hR.press m key
      | release key => exact hR.release m key
      | clear => exact hR.clear m
      | timing timing => exact hR.timing m timing
      | rate hz => exact hR.rate m hz
    exact hR.trans hfirst ih

end Course

theorem stepEvents_of_fault {m : Machine} {e : Fault} (h : m.fault = some e) :
    m.stepEvents = [] := by
  simp only [stepEvents, h]

theorem stepEvents_of_awaiting {m : Machine} {x : Register} (hx : m.awaiting = some x) :
    m.stepEvents = [] := by
  cases hf : m.fault with
  | some e => exact stepEvents_of_fault hf
  | none => simp only [stepEvents, hf, hx]

theorem stepEvents_of_running {m : Machine} (h : m.Running) : m.stepEvents = [.executes m] := by
  simp only [stepEvents, h.fault, h.awaiting]

theorem course_step (m : Machine) :
    Course m m.stepEvents m.step.state ∧ m.step.trace = Event.executions m.stepEvents := by
  cases hf : m.fault with
  | some e =>
    rw [step_of_fault hf, stepEvents_of_fault hf]
    exact ⟨.refl m, rfl⟩
  | none =>
    cases hx : m.awaiting with
    | some x =>
      rw [step_of_awaiting hf hx, stepEvents_of_awaiting hx]
      exact ⟨.refl m, rfl⟩
    | none =>
      rw [step_of_running hf hx, stepEvents_of_running ⟨hf, hx⟩]
      exact ⟨.executes ⟨hf, hx⟩ (.refl _), m.trace_executeNext⟩

theorem stepsEvents_of_still {m : Machine} {result : Except Fault Flow}
    (hstep : m.step = ⟨m, result, []⟩) (hevents : m.stepEvents = []) (n : Nat) :
    m.stepsEvents n = [] := by
  induction n with
  | zero => rfl
  | succ n ih => rw [stepsEvents, hevents, hstep, ih, List.nil_append]

theorem stepsEvents_of_running {m : Machine} {n : Nat} (h : ∀ j < n, (m.afterSteps j).Running) :
    m.stepsEvents n = (List.range n).map fun j => .executes (m.afterSteps j) := by
  induction n generalizing m with
  | zero => rfl
  | succ n ih =>
    have hrest : ∀ j < n, (m.step.state.afterSteps j).Running := by
      intro j hj
      rw [← afterSteps_succ]
      exact h (j + 1) (Nat.succ_lt_succ hj)
    have hfirst : m.stepEvents = [.executes m] := stepEvents_of_running (h 0 (Nat.succ_pos n))
    rw [stepsEvents, hfirst, ih hrest,
      List.range_succ_eq_map, List.map_cons, List.map_map]
    rfl

theorem course_stepsFrom (n : Nat) (m : Machine) (result : Except Fault Flow)
    (notices : List Notice) :
    let o := stepsFrom n ⟨m, result, notices⟩
    Course m (m.stepsEvents n) o.state ∧
      o.trace = Notice.trace notices ++ Event.executions (m.stepsEvents n) := by
  induction n generalizing m result notices with
  | zero => exact ⟨.refl m, (List.append_nil _).symm⟩
  | succ n ih =>
    obtain ⟨hcourse, htrace⟩ := m.course_step
    have hlast (hnil : m.step.state.stepsEvents n = []) :
        Course m (m.stepsEvents (n + 1)) m.step.state ∧
        Notice.trace (m.step.notices ++ notices) =
          Notice.trace notices ++ Event.executions (m.stepsEvents (n + 1)) := by
      rw [stepsEvents, hnil, List.append_nil, ← htrace]
      exact ⟨hcourse, Notice.trace_append _ _⟩
    cases hr : m.step.result with
    | error e =>
      have hf := fault_step_iff.2 hr
      rw [stepsFrom_of_error hr]
      exact hlast (stepsEvents_of_still (step_of_fault hf) (stepEvents_of_fault hf) n)
    | ok flow =>
      by_cases hk : flow = .keyWait
      · subst hk
        obtain ⟨x, hx⟩ := awaiting_of_step_keyWait hr
        have hstill := step_of_awaiting (fault_of_step_ok hr) hx
        rw [stepsFrom_of_keyWait hr]
        exact hlast (stepsEvents_of_still hstill (stepEvents_of_awaiting hx) n)
      · rw [stepsFrom_of_ok hr hk]
        obtain ⟨hrest, htrace'⟩ := ih m.step.state (.ok flow) (m.step.notices ++ notices)
        refine ⟨hcourse.append hrest, htrace'.trans ?_⟩
        rw [Notice.trace_append, List.append_assoc, stepsEvents, Event.executions_append, ← htrace]
        rfl

theorem course_cycle (m : Machine) :
    Course m m.cycleEvents m.cycle.state ∧ m.cycle.trace = Event.executions m.cycleEvents := by
  by_cases ho : 0 < m.owed
  · rw [cycleEvents, if_pos ho]
    cases hx : m.awaiting with
    | some x =>
      rw [cycle_of_awaiting hx]
      exact ⟨.refl m, rfl⟩
    | none =>
      rw [cycle_of_owed hx ho]
      exact ⟨.of_aside (.pay m hx ho), rfl⟩
  · rw [cycleEvents, if_neg ho]
    cases hx : m.awaiting with
    | some x =>
      rw [cycle_of_awaiting hx, stepEvents_of_awaiting hx]
      exact ⟨.refl m, rfl⟩
    | none =>
      rw [cycle_of_paid hx ho]
      exact m.course_step

theorem cycleEvents_of_fault {m : Machine} {e : Fault} (h : m.fault = some e) :
    m.cycleEvents = [] := by
  rw [cycleEvents, stepEvents_of_fault h, ite_self]

theorem spendEvents_of_fault {m : Machine} {e : Fault} (h : m.fault = some e) (n : Nat) :
    m.spendEvents n = [] := by
  induction n generalizing m with
  | zero => rfl
  | succ n ih =>
    have hcycle := historical_fault.cycle (m.withClock m.clock.take) e h
    rw [spendEvents, cycleEvents_of_fault (m := m.withClock m.clock.take) h, ih hcycle]
    rfl

theorem course_spend {m : Machine} {n : Nat} (hn : m.clock.available = n) (spent : Nat)
    (notices : List Notice) :
    let o := m.spend spent notices
    Course m (m.spendEvents n) o.state ∧
      o.trace = Notice.trace notices ++ Event.executions (m.spendEvents n) := by
  induction n generalizing m spent notices with
  | zero =>
    rw [spend_of_take?_none (Clock.take?_of_available_zero hn)]
    exact ⟨.refl m, (List.append_nil _).symm⟩
  | succ n ih =>
    have hn' : m.clock.take.available = n := by
      rw [Clock.available_take, hn, Nat.add_sub_cancel]
    obtain ⟨hcycle, htrace⟩ := (m.withClock m.clock.take).course_cycle
    rw [cycle_withClock] at hcycle htrace
    have hfirst : Course m (m.withClock m.clock.take).cycleEvents
        (m.cycle.state.withClock m.clock.take) := .aside (.clock m m.clock.take rfl) hcycle
    have hevents : m.spendEvents (n + 1) = (m.withClock m.clock.take).cycleEvents ++
        (m.cycle.state.withClock m.clock.take).spendEvents n := by
      rw [spendEvents, cycle_withClock]
      rfl
    rw [spend_of_take?_some (Clock.take?_of_available hn), hevents]
    cases hr : m.cycle.result with
    | error e =>
      have hf : (m.cycle.state.withClock m.clock.take).fault = some e := fault_of_cycle_error hr
      rw [spendEvents_of_fault hf, List.append_nil, ← htrace]
      exact ⟨hfirst, Notice.trace_append _ _⟩
    | ok u =>
      obtain ⟨hrest, htrace'⟩ := ih (m := m.cycle.state.withClock m.clock.take) hn' (spent + 1)
        (m.cycle.notices ++ notices)
      refine ⟨hfirst.append hrest, htrace'.trans ?_⟩
      rw [Notice.trace_append, List.append_assoc, Event.executions_append, ← htrace]
      rfl

theorem course_update (m : Machine) (elapsed : Nat) :
    Course m (m.updateEvents elapsed) (m.update elapsed).state ∧
      (m.update elapsed).trace = Event.executions (m.updateEvents elapsed) := by
  cases hf : m.fault with
  | some e =>
    have hnone : m.updateEvents elapsed = [] :=
      spendEvents_of_fault (m := m.withClock (m.clock.advance elapsed)) hf _
    rw [update_of_fault hf, hnone]
    exact ⟨.refl m, rfl⟩
  | none =>
    obtain ⟨hspend, htrace⟩ := course_spend (m := m.withClock (m.clock.advance elapsed)) rfl 0 []
    have hcourse := Course.aside (.clock m (m.clock.advance elapsed) rfl) hspend
    cases hr : ((m.withClock (m.clock.advance elapsed)).spend 0 []).result with
    | error e =>
      rw [update_of_spend_error hf hr]
      exact ⟨hcourse, htrace⟩
    | ok n =>
      rw [update_of_spend_ok hf hr]
      have htimers := hcourse.append (.of_aside (.timers _ elapsed))
      rw [List.append_nil] at htimers
      exact ⟨htimers, htrace⟩

theorem course_perform (m : Machine) (operation : Operation) :
    Course m (m.eventsOf operation) (m.perform operation).state ∧
      (m.perform operation).trace = Event.executions (m.eventsOf operation) := by
  cases operation with
  | step => exact m.course_step
  | runSteps count => exact course_stepsFrom count m (.ok .normal) []
  | update elapsed => exact m.course_update elapsed
  | pressKey key => exact ⟨.of_aside (.press m key), rfl⟩
  | releaseKey key => exact ⟨.of_aside (.release m key), rfl⟩
  | setKey key pressed =>
    cases pressed with
    | true => exact ⟨.of_aside (.press m key), rfl⟩
    | false => exact ⟨.of_aside (.release m key), rfl⟩
  | clearKeys => exact ⟨.of_aside (.clear m), rfl⟩
  | loadProgram program =>
    exact ⟨.loads program (.refl _), m.trace_perform_loadProgram program⟩
  | setTiming timing => exact ⟨.of_aside (.timing m timing), rfl⟩
  | setRate hz => exact ⟨.of_aside (.rate m hz), rfl⟩

/-- A session leads through its events, and its trace are the executions among them. -/
theorem course_performAll (m : Machine) (session : List Operation) :
    Course m (m.events session) (m.performAll session) ∧
      m.trace session = Event.executions (m.events session) := by
  induction session generalizing m with
  | nil => exact ⟨.refl m, rfl⟩
  | cons operation rest ih =>
    obtain ⟨hhead, htrace⟩ := m.course_perform operation
    obtain ⟨hrest, htrace'⟩ := ih (m.perform operation).state
    refine ⟨hhead.append hrest, ?_⟩
    rw [trace, htrace, htrace', events, Event.executions_append]

theorem events_append (m : Machine) (first second : List Operation) :
    m.events (first ++ second) = m.events first ++ (m.performAll first).events second := by
  induction first generalizing m with
  | nil => rfl
  | cons operation rest ih =>
    rw [List.cons_append, events, events, ih, List.append_assoc]
    rfl

theorem executes_mem_stepEvents_iff {m b : Machine} :
    Event.executes b ∈ m.stepEvents ↔ m.Running ∧ b = m := by
  constructor
  · intro h
    unfold stepEvents at h
    split at h
    · rename_i hf hx
      cases List.mem_singleton.1 h
      exact ⟨⟨hf, hx⟩, rfl⟩
    · cases h
  · rintro ⟨hrun, rfl⟩
    rw [stepEvents_of_running hrun]
    exact List.mem_singleton_self _

theorem executes_mem_stepsEvents_iff {m b : Machine} {n : Nat} :
    Event.executes b ∈ m.stepsEvents n ↔
      ∃ j < n, (m.afterSteps j).Running ∧ b = m.afterSteps j := by
  induction n generalizing m with
  | zero => simp [stepsEvents]
  | succ n ih =>
    rw [stepsEvents, List.mem_append, executes_mem_stepEvents_iff, ih, Nat.exists_lt_succ_left]
    rfl

theorem executes_mem_cycleEvents_iff {m b : Machine} :
    Event.executes b ∈ m.cycleEvents ↔ m.Running ∧ m.owed = 0 ∧ b = m := by
  by_cases ho : 0 < m.owed
  · simp [cycleEvents, ho, Nat.ne_of_gt ho]
  · simp [cycleEvents, executes_mem_stepEvents_iff, Nat.eq_zero_of_not_pos ho]

theorem running_withClock {m : Machine} {clock : Clock} :
    (m.withClock clock).Running ↔ m.Running :=
  ⟨fun h => ⟨h.fault, h.awaiting⟩, fun h => ⟨h.fault, h.awaiting⟩⟩

theorem executes_mem_spendEvents_iff {m b : Machine} {n : Nat} :
    Event.executes b ∈ m.spendEvents n ↔
      ∃ j < n, (m.afterCycles j).Running ∧ (m.afterCycles j).owed = 0 ∧
        b = (m.afterCycles j).withClock (m.clock.takeMany (j + 1)) := by
  induction n generalizing m with
  | zero => simp [spendEvents]
  | succ n ih =>
    rw [spendEvents, List.mem_append, executes_mem_cycleEvents_iff, ih, Nat.exists_lt_succ_left]
    refine or_congr ?_ (exists_congr fun j => and_congr_right fun _ => ?_)
    · rw [running_withClock, ← Clock.takeMany_take, Clock.takeMany_zero]
      rfl
    · have hafter : (m.withClock m.clock.take).cycle.state.afterCycles j =
          (m.afterCycles (j + 1)).withClock m.clock.take := by
        rw [cycle_withClock, afterCycles_succ]
        exact afterCycles_withClock _ _ j
      rw [hafter, running_withClock, clock_cycle, ← m.clock.takeMany_take]
      rfl

/-- The machines at the moments of an operation are those that execute their next instruction in
its course. -/
theorem executes_mem_eventsOf_iff {m b : Machine} {operation : Operation} :
    Event.executes b ∈ m.eventsOf operation ↔ m.Executes operation b := by
  cases operation with
  | step =>
    rw [eventsOf, executes_mem_stepEvents_iff]
    constructor
    · rintro ⟨hrun, rfl⟩
      exact .step hrun
    · rintro ⟨hrun⟩
      exact ⟨hrun, rfl⟩
  | runSteps count =>
    rw [eventsOf, executes_mem_stepsEvents_iff]
    constructor
    · rintro ⟨j, hj, hrun, rfl⟩
      exact .runSteps hj hrun
    · rintro (_ | ⟨hj, hrun⟩)
      exact ⟨_, hj, hrun, rfl⟩
  | update elapsed =>
    have hcount : (m.withClock (m.clock.advance elapsed)).clock.available =
        m.budget elapsed / m.clock.period := m.available_advance_eq elapsed
    have hmoment (j : Nat) : ((m.withClock (m.clock.advance elapsed)).afterCycles j).withClock
        ((m.withClock (m.clock.advance elapsed)).clock.takeMany (j + 1)) =
          m.atCycle elapsed j := by
      have htaken := m.takeMany_advance_eq elapsed (j + 1)
      rw [afterCycles_withClock]
      exact congrArg (m.afterCycles j).withClock htaken
    rw [eventsOf, updateEvents, executes_mem_spendEvents_iff, hcount]
    constructor
    · rintro ⟨j, hj, hrun, howed, rfl⟩
      rw [afterCycles_withClock] at hrun howed
      rw [hmoment]
      exact .update hj (running_withClock.1 hrun) howed
    · rintro (_ | _ | ⟨hj, hrun, howed⟩)
      refine ⟨_, hj, ?_, ?_, (hmoment _).symm⟩
      · rw [afterCycles_withClock]
        exact running_withClock.2 hrun
      · rw [afterCycles_withClock]
        exact howed
  | loadProgram program =>
    constructor
    · intro h
      cases List.mem_singleton.1 h
    · rintro ⟨⟩
  | _ =>
    constructor
    · intro h
      cases h
    · rintro ⟨⟩

theorem programs_stepEvents (m : Machine) : Event.programs m.stepEvents = [] := by
  unfold stepEvents
  split <;> rfl

theorem programs_stepsEvents (m : Machine) (n : Nat) : Event.programs (m.stepsEvents n) = [] := by
  induction n generalizing m with
  | zero => rfl
  | succ n ih => rw [stepsEvents, Event.programs_append, programs_stepEvents, ih, List.nil_append]

theorem programs_cycleEvents (m : Machine) : Event.programs m.cycleEvents = [] := by
  unfold cycleEvents
  split
  · rfl
  · exact m.programs_stepEvents

theorem programs_spendEvents (m : Machine) (n : Nat) : Event.programs (m.spendEvents n) = [] := by
  induction n generalizing m with
  | zero => rfl
  | succ n ih => rw [spendEvents, Event.programs_append, programs_cycleEvents, ih, List.nil_append]

theorem programs_events (m : Machine) (session : List Operation) :
    Event.programs (m.events session) = session.filterMap Operation.load? := by
  induction session generalizing m with
  | nil => rfl
  | cons operation rest ih =>
    rw [events, Event.programs_append, ih]
    cases operation with
    | step => rw [eventsOf, programs_stepEvents]; rfl
    | runSteps count => rw [eventsOf, programs_stepsEvents]; rfl
    | update elapsed => rw [eventsOf, updateEvents, programs_spendEvents]; rfl
    | _ => rfl

end Machine
end Chip8
