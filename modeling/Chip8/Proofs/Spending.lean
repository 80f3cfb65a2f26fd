import Chip8.Proofs.Idle
import Chip8.Proofs.Moments
import Mathlib.Algebra.Ring.Nat

/-! # What cycles are spent on

A cycle is spent on waiting for a key, on what the last instruction owes, or on the next
instruction, which then owes its cost but for that cycle. So the cycles that are not spent on
waiting, together with what is owed in the end, are what was owed in the beginning and the costs of
the instructions that were executed: nothing is paid twice, and nothing is forgotten over a wait,
however the host interleaves its updates with keys and changes of the rate.
-/
namespace Chip8

/-- What a cycle is spent on. -/
inductive Spending
  /-- A register waits for a key. -/
  | waiting
  /-- The last instruction owes a cycle. -/
  | paying
  | executing (execution : Execution) (cost : Nat)
deriving DecidableEq, Repr

namespace Spending

def isActive : Spending → Bool
  | .waiting => false
  | _ => true

def cost : Spending → Nat
  | .executing _ cost => cost
  | _ => 0

def execution? : Spending → Option Execution
  | .executing execution _ => some execution
  | _ => none

end Spending

/-- Operations that drive the machine by its clock alone and leave the timing mode as it is. -/
def Operation.isClocked : Operation → Bool
  | .step | .runSteps _ | .setTiming _ => false
  | _ => true

namespace Machine

/-- What the next cycle is spent on. The cost of an instruction is what is noted after it. -/
def spending (m : Machine) : Spending :=
  if m.isAwaiting then .waiting
  else if 0 < m.owed then .paying
  else .executing (m.cpu.pc, m.nextInstruction) m.step.state.lastCost

def cycleSpendings (m : Machine) : Nat → List Spending
  | 0 => []
  | n + 1 => m.spending :: m.cycle.state.cycleSpendings n

def spendingsOf (m : Machine) : Operation → List Spending
  | .update elapsed => m.cycleSpendings (m.budget elapsed / m.clock.period)
  | _ => []

/-- What the cycles of a session are spent on, in order. -/
def spendings (m : Machine) : List Operation → List Spending
  | [] => []
  | operation :: rest => m.spendingsOf operation ++ (m.perform operation).state.spendings rest

def cyclesReportedBy (m : Machine) (operation : Operation) : Nat :=
  match (m.perform operation).result with
  | .ok (.cycles count) => count
  | _ => 0

/-- The number of cycles that the operations of a session answer with, all together. -/
def cyclesReported (m : Machine) : List Operation → Nat
  | [] => 0
  | operation :: rest =>
    m.cyclesReportedBy operation + (m.perform operation).state.cyclesReported rest

theorem spending_of_awaiting {m : Machine} {x : Register} (hx : m.awaiting = some x) :
    m.spending = .waiting := by
  simp [spending, isAwaiting, hx]

theorem spending_of_owed {m : Machine} (hx : m.awaiting = none) (ho : 0 < m.owed) :
    m.spending = .paying := by
  simp [spending, isAwaiting, hx, ho]

theorem spending_of_paid {m : Machine} (hx : m.awaiting = none) (ho : ¬0 < m.owed) :
    m.spending = .executing (m.cpu.pc, m.nextInstruction) m.step.state.lastCost := by
  simp [spending, isAwaiting, hx, ho]

theorem owed_of_executeNext_ok {m : Machine} {flow : Flow} (h : m.executeNext.result = .ok flow) :
    m.executeNext.state.owed + 1 = m.executeNext.state.lastCost := by
  cases hr : m.nextEffect.result with
  | error e =>
    rw [(executeNext_of_error hr).1] at h
    cases h
  | ok p =>
    have hpos := m.settings.timing.cyclesOf_pos p.2
    rw [(executeNext_of_ok hr).2]
    dsimp only
    omega

theorem balance_cycle {m : Machine} (hf : m.fault = none) (hok : m.cycle.result = .ok ()) :
    (if m.spending.isActive then 1 else 0) + m.cycle.state.owed = m.owed + m.spending.cost := by
  cases hx : m.awaiting with
  | some x =>
    rw [spending_of_awaiting hx, cycle_of_awaiting hx]
    simp [Spending.isActive, Spending.cost]
  | none =>
    by_cases ho : 0 < m.owed
    · rw [spending_of_owed hx ho, cycle_of_owed hx ho]
      simp only [Spending.isActive, Spending.cost, if_true]
      omega
    · have hstep : m.step = m.executeNext := step_of_running hf hx
      have howed : m.step.state.owed + 1 = m.step.state.lastCost := by
        cases hr : m.step.result with
        | ok flow =>
          rw [hstep] at hr ⊢
          exact owed_of_executeNext_ok hr
        | error e =>
          have he := cycle_error_iff.2 ⟨hx, Nat.eq_zero_of_not_pos ho, hr⟩
          cases hok.symm.trans he
      rw [spending_of_paid hx ho, cycle_of_paid hx ho]
      simp only [Spending.isActive, Spending.cost, if_true, Outcome.map]
      omega

theorem trace_cycle {m : Machine} (hf : m.fault = none) :
    m.cycle.trace = m.spending.execution?.toList := by
  cases hx : m.awaiting with
  | some x =>
    rw [spending_of_awaiting hx, cycle_of_awaiting hx]
    rfl
  | none =>
    by_cases ho : 0 < m.owed
    · rw [spending_of_owed hx ho, cycle_of_owed hx ho]
      rfl
    · rw [spending_of_paid hx ho, cycle_of_paid hx ho, step_of_running hf hx]
      exact m.trace_executeNext

theorem running_of_spending {m : Machine} {execution : Execution} {cost : Nat}
    (h : m.spending = .executing execution cost) :
    m.awaiting = none ∧ m.owed = 0 ∧ execution = (m.cpu.pc, m.nextInstruction) := by
  cases hx : m.awaiting with
  | some x => cases (spending_of_awaiting hx).symm.trans h
  | none =>
    by_cases ho : 0 < m.owed
    · cases (spending_of_owed hx ho).symm.trans h
    · cases (spending_of_paid hx ho).symm.trans h
      exact ⟨rfl, Nat.eq_zero_of_not_pos ho, rfl⟩

/-- What a host may do between two cycles: nobody pays, and unless a key was pressed a register that
waits goes on waiting. -/
structure Between (pressed : Bool) (m n : Machine) : Prop where
  owed : n.owed = m.owed
  awaiting : pressed = false → n.awaiting = m.awaiting

/-- A run of cycles without a fault, what they are spent on, and the machine after them. -/
inductive Spends (pressed : Bool) : Machine → List Spending → Machine → Prop
  | refl (m : Machine) : Spends pressed m [] m
  | cycle {m n : Machine} {cycles : List Spending} : m.fault = none → m.cycle.result = .ok () →
      Spends pressed m.cycle.state cycles n → Spends pressed m (m.spending :: cycles) n
  | between {m n o : Machine} {cycles : List Spending} : Between pressed m n →
      Spends pressed n cycles o → Spends pressed m cycles o

namespace Spends
variable {pressed : Bool} {m n o : Machine} {before after cycles : List Spending}

theorem trans (h : Spends pressed m before n) (h' : Spends pressed n after o) :
    Spends pressed m (before ++ after) o := by
  induction h with
  | refl m => exact h'
  | cycle hf hok _ ih => exact .cycle hf hok (ih h')
  | between hb _ ih => exact .between hb (ih h')

theorem split {s : Spending} (h : Spends pressed m (before ++ s :: after) n) :
    ∃ b, Spends pressed m before b ∧ b.spending = s ∧ b.fault = none ∧
      b.cycle.result = .ok () ∧ Spends pressed b.cycle.state after n := by
  generalize hc : before ++ s :: after = cycles at h
  induction h generalizing before with
  | refl m => simp at hc
  | @cycle m n cycles hf hok hrest ih =>
    cases before with
    | nil =>
      obtain ⟨rfl, rfl⟩ := List.cons.inj hc
      exact ⟨m, .refl m, rfl, hf, hok, hrest⟩
    | cons t before =>
      obtain ⟨rfl, htail⟩ := List.cons.inj hc
      obtain ⟨b, hbefore, hrest⟩ := ih htail
      exact ⟨b, .cycle hf hok hbefore, hrest⟩
  | between hb _ ih =>
    obtain ⟨b, hbefore, hrest⟩ := ih hc
    exact ⟨b, .between hb hbefore, hrest⟩

theorem balance (h : Spends pressed m cycles n) :
    cycles.countP Spending.isActive + n.owed = m.owed + (cycles.map Spending.cost).sum := by
  induction h with
  | refl m => simp
  | @cycle m n cycles hf hok _ ih =>
    have hcycle := balance_cycle hf hok
    rw [List.countP_cons, List.map_cons, List.sum_cons]
    omega
  | between hb _ ih => rw [ih, hb.owed]

theorem of_awaiting (h : Spends false m cycles n) {x : Register} (hx : m.awaiting = some x) :
    (∀ s ∈ cycles, s = .waiting) ∧ n.awaiting = some x ∧ n.owed = m.owed := by
  induction h with
  | refl m => exact ⟨by simp, hx, rfl⟩
  | cycle _ _ _ ih =>
    rw [cycle_of_awaiting hx] at ih
    obtain ⟨hall, hrest⟩ := ih hx
    exact ⟨List.forall_mem_cons.2 ⟨spending_of_awaiting hx, hall⟩, hrest⟩
  | between hb _ ih =>
    obtain ⟨hall, hn, ho⟩ := ih ((hb.awaiting rfl).trans hx)
    exact ⟨hall, hn, ho.trans hb.owed⟩

end Spends

theorem awaiting_of_spending {m : Machine} (hf : m.fault = none) {a : UInt16} {x : Register}
    {cost : Nat} (h : m.spending = .executing (a, .waitKey x) cost) :
    m.cycle.state.awaiting = some x := by
  obtain ⟨hx, ho, hexecution⟩ := running_of_spending h
  have hi : m.nextInstruction = .waitKey x := (congrArg Prod.snd hexecution).symm
  have hr : m.nextEffect.result = .ok (.keyWait, Cost.waitKey) := by
    rw [nextEffect, hi]
    rfl
  have hawait : m.nextEffect.machine.awaiting = some x := by
    rw [nextEffect, awaiting_execute, hi]
  rw [cycle_of_paid hx (Nat.not_lt_of_le (Nat.le_of_eq ho)), step_of_running hf hx]
  change m.executeNext.state.awaiting = some x
  rw [(executeNext_of_ok hr).2]
  exact hawait

theorem spends_cycles (pressed : Bool) {m : Machine} (hf : m.fault = none) {n : Nat}
    (hok : m.CyclesOk n) : Spends pressed m (m.cycleSpendings n) (m.afterCycles n) := by
  induction n generalizing m with
  | zero => exact .refl m
  | succ n ih =>
    obtain ⟨hr, htail⟩ := hok.tail
    rw [afterCycles_succ]
    exact .cycle hf hr (ih (fault_of_cycle_ok hf hr) htail)

theorem length_cycleSpendings (m : Machine) (n : Nat) : (m.cycleSpendings n).length = n := by
  induction n generalizing m with
  | zero => rfl
  | succ n ih => rw [cycleSpendings, List.length_cons, ih]

theorem executions_cycleSpendings {m : Machine} (hf : m.fault = none) {n : Nat}
    (hok : m.CyclesOk n) :
    (m.cycleSpendings n).filterMap Spending.execution? = m.cyclesTrace n := by
  induction n generalizing m with
  | zero => rfl
  | succ n ih =>
    obtain ⟨hr, htail⟩ := hok.tail
    rw [cycleSpendings, cyclesTrace, trace_cycle hf, ← ih (fault_of_cycle_ok hf hr) htail]
    cases m.spending <;> rfl

theorem spends_perform {pressed : Bool} {m : Machine} {operation : Operation}
    (hc : operation.isClocked = true) (hp : operation.isPress = true → pressed = true)
    (hf : (m.perform operation).state.fault = none) :
    Spends pressed m (m.spendingsOf operation) (m.perform operation).state := by
  have aside {n : Machine} (h : Between pressed m n) : Spends pressed m [] n := .between h (.refl n)
  have press (key : Key) (h : pressed = true) : Between pressed m (m.pressKey key) := by
    refine ⟨by rw [pressKey_frame], ?_⟩
    intro hfalse
    cases h.symm.trans hfalse
  cases operation with
  | step => cases hc
  | runSteps count => cases hc
  | setTiming timing => cases hc
  | update elapsed =>
    have hf' : m.fault = none := unfaulted_of_perform hf
    have hok := cyclesOk_of_update_unfaulted hf' hf
    have hstate := (update_of_cyclesOk hf' elapsed hok).2
    have hlast : Between pressed (m.afterCycles (m.budget elapsed / m.clock.period))
        (m.update elapsed).state := by
      rw [hstate]
      exact ⟨rfl, fun _ => rfl⟩
    have hall := (spends_cycles pressed hf' hok).trans (.between hlast (.refl _))
    rwa [List.append_nil] at hall
  | pressKey key => exact aside (press key (hp rfl))
  | releaseKey key => exact aside ⟨rfl, fun _ => rfl⟩
  | setKey key down =>
    cases down with
    | true => exact aside (press key (hp rfl))
    | false => exact aside ⟨rfl, fun _ => rfl⟩
  | clearKeys => exact aside ⟨rfl, fun _ => rfl⟩
  | loadProgram program => exact aside ⟨rfl, fun _ => rfl⟩
  | setRate hz => exact aside ⟨rfl, fun _ => rfl⟩

theorem spends_session {pressed : Bool} {m : Machine} {session : List Operation}
    (hc : ∀ o ∈ session, o.isClocked = true) (hp : ∀ o ∈ session, o.isPress = true → pressed = true)
    (hf : (m.performAll session).fault = none) :
    Spends pressed m (m.spendings session) (m.performAll session) := by
  induction session generalizing m with
  | nil => exact .refl m
  | cons operation rest ih =>
    obtain ⟨hhead, htail⟩ := List.forall_mem_cons.1 hc
    obtain ⟨hphead, hptail⟩ := List.forall_mem_cons.1 hp
    have hfirst := spends_perform hhead hphead (unfaulted_of_performAll rest hf)
    exact hfirst.trans (ih htail hptail hf)

/-- The cycles that are counted are the ones that the operation reports, and the instructions that
they are spent on are the ones that it executes. -/
theorem spendingsOf_eq {m : Machine} {operation : Operation} (hc : operation.isClocked = true)
    (hf : (m.perform operation).state.fault = none) :
    (m.spendingsOf operation).length = m.cyclesReportedBy operation ∧
    (m.spendingsOf operation).filterMap Spending.execution? = (m.perform operation).trace := by
  cases operation with
  | step => cases hc
  | runSteps count => cases hc
  | setTiming timing => cases hc
  | update elapsed =>
    have hf' : m.fault = none := unfaulted_of_perform hf
    have hok := cyclesOk_of_update_unfaulted hf' hf
    refine ⟨?_, ?_⟩
    · rw [spendingsOf, length_cycleSpendings, cyclesReportedBy, perform,
        Outcome.map, (update_of_cyclesOk hf' elapsed hok).1]
      rfl
    · rw [perform, spendingsOf, executions_cycleSpendings hf' hok]
      exact (trace_update_of_cyclesOk hf' elapsed hok).symm
  | loadProgram program => exact ⟨rfl, (trace_perform_loadProgram m program).symm⟩
  | _ => exact ⟨rfl, rfl⟩

theorem spendings_eq {m : Machine} {session : List Operation}
    (hc : ∀ o ∈ session, o.isClocked = true) (hf : (m.performAll session).fault = none) :
    (m.spendings session).length = m.cyclesReported session ∧
    (m.spendings session).filterMap Spending.execution? = m.trace session := by
  induction session generalizing m with
  | nil => exact ⟨rfl, rfl⟩
  | cons operation rest ih =>
    obtain ⟨hhead, htail⟩ := List.forall_mem_cons.1 hc
    obtain ⟨hlength, htrace⟩ := ih htail hf
    obtain ⟨hlength', htrace'⟩ := spendingsOf_eq hhead (unfaulted_of_performAll rest hf)
    refine ⟨?_, ?_⟩
    · rw [spendings, List.length_append, hlength, hlength', cyclesReported]
    · rw [spendings, List.filterMap_append, htrace, htrace', trace]

/-- In a session of updates and of what a host does between them, the cycles that are not spent on
waiting, together with what is owed in the end, are what was owed before and the costs of the
instructions executed; each instruction starts when what was owed and all costs before it are paid.
Without a key, waiting changes no debt, and the instruction that waits stays owed but for its own
cycle. -/
theorem cycles_pay_costs {m : Machine} {session : List Operation}
    (hc : ∀ o ∈ session, o.isClocked = true) (hf : (m.performAll session).fault = none) :
    let n := m.performAll session
    let cycles := m.spendings session
    cycles.length = m.cyclesReported session ∧
    cycles.filterMap Spending.execution? = m.trace session ∧
    cycles.countP Spending.isActive + n.owed = m.owed + (cycles.map Spending.cost).sum ∧
    (∀ before execution cost after, cycles = before ++ .executing execution cost :: after →
      before.countP Spending.isActive = m.owed + (before.map Spending.cost).sum) ∧
    ((∀ o ∈ session, o.isPress = false) →
      (∀ x, m.awaiting = some x → (∀ s ∈ cycles, s = .waiting) ∧ n.owed = m.owed) ∧
      ∀ before a x cost after, cycles = before ++ .executing (a, .waitKey x) cost :: after →
        (∀ s ∈ after, s = .waiting) ∧ n.owed + 1 = cost) := by
  intro n cycles
  have hrun : Spends true m cycles n := spends_session hc (fun _ _ _ => rfl) hf
  obtain ⟨hlength, htrace⟩ := spendings_eq hc hf
  refine ⟨hlength, htrace, hrun.balance, ?_, ?_⟩
  · intro before execution cost after hcycles
    rw [hcycles] at hrun
    obtain ⟨b, hbefore, hspending, -⟩ := hrun.split
    have hbalance := hbefore.balance
    obtain ⟨-, howed, -⟩ := running_of_spending hspending
    omega
  · intro hpress
    have hquiet : Spends false m cycles n := by
      refine spends_session hc ?_ hf
      intro o ho hpressed
      cases (hpress o ho).symm.trans hpressed
    refine ⟨?_, ?_⟩
    · intro x hx
      obtain ⟨hall, -, howed⟩ := hquiet.of_awaiting hx
      exact ⟨hall, howed⟩
    · intro before a x cost after hcycles
      rw [hcycles] at hquiet
      obtain ⟨b, -, hspending, hfb, hok, hafter⟩ := hquiet.split
      obtain ⟨hall, -, howed⟩ := hafter.of_awaiting (awaiting_of_spending hfb hspending)
      obtain ⟨-, hpaid, -⟩ := running_of_spending hspending
      have hcost := balance_cycle hfb hok
      rw [hspending, hpaid] at hcost
      simp only [Spending.isActive, Spending.cost, if_true] at hcost
      refine ⟨hall, ?_⟩
      omega

/-- A wait for a key, and after the key the cycle that it owes and the next instruction. -/
theorem cycles_pay_costs_of_wait :
    let m := (new { timing := .cosmac } 0).loadProgram [0xF5, 0x0A, 0x65, 0x07]
    let session : List Operation := [.update 20000, .pressKey 9, .setRate 1000, .update 20000]
    (∀ o ∈ session, o.isClocked = true) ∧ (m.performAll session).fault = none ∧
      (m.spendings session).countP Spending.isActive + (m.performAll session).owed = 8 := by
  intro m session
  have hc : ∀ o ∈ session, o.isClocked = true := by decide
  have hf : (m.performAll session).fault = none := by decide +kernel
  have hcosts : m.owed + ((m.spendings session).map Spending.cost).sum = 8 := by decide +kernel
  obtain ⟨-, -, hbalance, -⟩ := cycles_pay_costs hc hf
  exact ⟨hc, hf, hbalance.trans hcosts⟩

end Machine
end Chip8
