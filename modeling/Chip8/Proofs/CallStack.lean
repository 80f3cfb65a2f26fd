import Chip8.Proofs.FreeSlots

/-! # The call stack as a list

The slots of the call stack and their pointer stand for a list of at most sixteen return addresses:
a call appends the address behind it, a return drops the newest one and goes there, and nothing else
touches the list. So what the executions of a session make of the empty list is the stack after it,
and calls and returns nest like brackets.
-/
namespace Chip8

/-- What an execution makes of a list of return addresses: nothing, if it is a call nested too deep
or a return without a call. -/
def nextStack? (stack : List UInt16) : Execution → Option (List UInt16)
  | (pc, .call _) => if stack.length < stackSize then some (stack ++ [(pc + 2) % 4096]) else none
  | (_, .ret) => if stack = [] then none else some stack.dropLast
  | _ => some stack

/-- The list after some executions, where those that fail leave it alone. -/
def stackAfter (stack : List UInt16) (executions : List Execution) : List UInt16 :=
  executions.foldl (fun stack execution => (nextStack? stack execution).getD stack) stack

def stackAfter? (stack : List UInt16) (executions : List Execution) : Option (List UInt16) :=
  executions.foldlM nextStack? stack

theorem stackAfter?_singleton (stack : List UInt16) (execution : Execution) :
    stackAfter? stack [execution] = nextStack? stack execution := by
  simp [stackAfter?]

theorem nextStack?_of_other {execution : Execution} (h : execution.2.usesStack = false)
    (stack : List UInt16) : nextStack? stack execution = some stack := by
  rcases execution with ⟨pc, i⟩
  cases i with
  | ret => cases h
  | call address => cases h
  | _ => rfl

theorem nextStack?_eq_none_iff {stack : List UInt16} {pc : UInt16} {i : Instruction} :
    nextStack? stack (pc, i) = none ↔
      i = .ret ∧ stack = [] ∨ (∃ address, i = .call address) ∧ stackSize ≤ stack.length := by
  cases i <;> simp [nextStack?]

theorem nextStack?_call_eq_some {stack next : List UInt16} {pc address : UInt16}
    (h : nextStack? stack (pc, .call address) = some next) :
    next = stack ++ [(pc + 2) % 4096] := by
  simp only [nextStack?] at h
  split at h
  · exact (Option.some.inj h).symm
  · cases h

theorem nextStack?_ret_eq_some {stack next : List UInt16} {pc : UInt16}
    (h : nextStack? stack (pc, .ret) = some next) : stack ≠ [] ∧ next = stack.dropLast := by
  simp only [nextStack?] at h
  split at h
  · cases h
  · exact ⟨‹_›, (Option.some.inj h).symm⟩

/-- Executions whose calls and returns are balanced. -/
inductive Balanced : List Execution → Prop
  | nil : Balanced []
  | other {execution : Execution} {rest : List Execution} : execution.2.usesStack = false →
      Balanced rest → Balanced (execution :: rest)
  | nest {pc address back : UInt16} {body rest : List Execution} : Balanced body → Balanced rest →
      Balanced ((pc, .call address) :: (body ++ (back, .ret) :: rest))

theorem Balanced.stackAfter?_eq {executions : List Execution} (h : Balanced executions)
    {stack next : List UInt16} (hnext : stackAfter? stack executions = some next) :
    next = stack := by
  induction h generalizing stack next with
  | nil => exact (Option.some.inj hnext).symm
  | other hother _ ih =>
    rw [stackAfter?, List.foldlM_cons, nextStack?_of_other hother] at hnext
    exact ih hnext
  | nest _ _ ihbody ihrest =>
    rw [stackAfter?, List.foldlM_cons, Option.bind_eq_bind, Option.bind_eq_some_iff] at hnext
    obtain ⟨called, hcall, hnext⟩ := hnext
    rw [List.foldlM_append, Option.bind_eq_bind, Option.bind_eq_some_iff] at hnext
    obtain ⟨inner, hinner, hnext⟩ := hnext
    rw [List.foldlM_cons, Option.bind_eq_bind, Option.bind_eq_some_iff] at hnext
    obtain ⟨returned, hreturn, hnext⟩ := hnext
    obtain ⟨-, hdrop⟩ := nextStack?_ret_eq_some hreturn
    rw [ihbody hinner, nextStack?_call_eq_some hcall, List.dropLast_concat] at hdrop
    rw [ihrest hnext, hdrop]

namespace Cpu

theorem length_stack {c : Cpu} (h : c.sp ≤ 16) : c.stack.length = c.sp := by
  simp [stack, h]

theorem stack_eq_nil_iff {c : Cpu} (h : c.sp ≤ 16) : c.stack = [] ↔ c.sp = 0 := by
  rw [← List.length_eq_zero_iff, length_stack h]

theorem top?_eq_getLast? {c : Cpu} (h : c.sp ≤ 16) : c.top? = c.stack.getLast? := by
  rw [top?_eq, List.getLast?_eq_getElem?, length_stack h]
  split
  · rfl
  · have hzero : c.sp = 0 := by omega
    rw [(stack_eq_nil_iff h).2 hzero]
    rfl

theorem stack_pop_eq_dropLast {c : Cpu} (h : c.sp ≤ 16) : c.pop.stack = c.stack.dropLast := by
  rw [stack_pop, List.dropLast_eq_take, length_stack h]

theorem InBounds.lt_of_mem_stack {c : Cpu} (h : c.InBounds) {address : UInt16}
    (ha : address ∈ c.stack) : address.toNat < 4096 := by
  have hmem : address ∈ c.slots.toList := List.mem_of_mem_take ha
  obtain ⟨i, hi, rfl⟩ := List.mem_iff_getElem.1 hmem
  rw [Vector.length_toList] at hi
  exact h.slots_lt ⟨i, hi⟩

end Cpu

namespace Machine
variable {m : Machine}

theorem stack_execute (h : m.cpu.sp ≤ 16) {pc : UInt16} (hpc : m.cpu.pc = (pc + 2) % 4096)
    (i : Instruction) :
    (m.execute pc i).machine.cpu.stack =
      (nextStack? m.cpu.stack (pc, i)).getD m.cpu.stack := by
  cases hi : i.usesStack with
  | false =>
    obtain ⟨hsp, hslots⟩ := slots_execute m pc hi
    rw [nextStack?_of_other hi, Cpu.stack, hsp, hslots]
    rfl
  | true =>
    cases i with
    | ret =>
      cases htop : m.cpu.top? with
      | none =>
        have hnil := (Cpu.stack_eq_nil_iff h).2 ((Cpu.top?_eq_none_iff h).1 htop)
        simp only [execute, htop, hnil]
        rfl
      | some address =>
        have hne : m.cpu.stack ≠ [] := by
          intro hnil
          rw [Cpu.top?_eq_getLast? h, hnil] at htop
          cases htop
        simp only [execute, htop, nextStack?, if_neg hne]
        exact Cpu.stack_pop_eq_dropLast h
    | call address =>
      by_cases hroom : m.cpu.sp < 16
      · have hlength : m.cpu.stack.length < stackSize := Cpu.length_stack h ▸ hroom
        have hp := Cpu.push?_of_lt hroom m.cpu.pc
        have hpush := Cpu.stack_push? hp
        simp only [execute, hp, nextStack?, if_pos hlength, ← hpc]
        exact hpush
      · have hlength : ¬m.cpu.stack.length < stackSize := Cpu.length_stack h ▸ hroom
        have hp := (m.cpu.push?_eq_none_iff m.cpu.pc).2 (Nat.le_of_not_lt hroom)
        simp only [execute, hp, nextStack?, if_neg hlength]
        rfl
    | _ => cases hi

theorem executeNext_error_iff_nextStack? (h : m.cpu.sp ≤ 16) :
    (∃ e, m.executeNext.result = .error e) ↔
      nextStack? m.cpu.stack (m.cpu.pc, m.nextInstruction) = none := by
  have hnil : m.cpu.advance.top? = none ↔ m.cpu.stack = [] := by
    rw [Cpu.top?_eq_none_iff (c := m.cpu.advance) h, Cpu.stack_eq_nil_iff h]
    rfl
  have hfull : m.cpu.advance.push? m.cpu.advance.pc = none ↔ stackSize ≤ m.cpu.stack.length := by
    rw [Cpu.push?_eq_none_iff, Cpu.length_stack h]
    rfl
  simp only [executeNext_error_iff, nextStack?_eq_none_iff, ← hnil, ← hfull]
  generalize m.nextInstruction = i
  constructor
  · rintro ⟨e, htop | hp⟩
    · exact Or.inl ⟨rfl, htop⟩
    · exact Or.inr ⟨⟨_, rfl⟩, hp⟩
  · rintro (⟨rfl, htop⟩ | ⟨⟨address, rfl⟩, hp⟩)
    · exact ⟨_, .ret htop⟩
    · exact ⟨_, .call hp⟩

theorem stack_executeNext (h : m.cpu.sp ≤ 16) :
    m.executeNext.state.cpu.stack =
      (nextStack? m.cpu.stack (m.cpu.pc, m.nextInstruction)).getD m.cpu.stack := by
  have hexecute := stack_execute (m := m.mapCpu Cpu.advance) h rfl m.nextInstruction
  cases hr : m.nextEffect.result with
  | error e =>
    obtain ⟨hresult, hstate⟩ := executeNext_of_error hr
    rw [hstate, (executeNext_error_iff_nextStack? h).1 ⟨e, hresult⟩]
    rfl
  | ok p =>
    rw [(executeNext_of_ok hr).2]
    exact hexecute

theorem pc_executeNext_of_ret (h : m.cpu.InBounds) (hi : m.nextInstruction = .ret) {flow : Flow}
    (hr : m.executeNext.result = .ok flow) :
    m.cpu.stack.getLast? = some m.executeNext.state.cpu.pc := by
  have htop : m.cpu.advance.top? = m.cpu.stack.getLast? :=
    Cpu.top?_eq_getLast? (c := m.cpu.advance) h.sp_le
  have heffect : m.nextEffect = (m.mapCpu Cpu.advance).execute m.cpu.pc .ret := by
    rw [nextEffect, hi]
  cases hlast : m.cpu.stack.getLast? with
  | none =>
    have hfails : m.executeNext.result = .error (.stackUnderflow m.cpu.pc) :=
      executeNext_error_iff.2 (hi ▸ .ret (htop.trans hlast))
    cases hr.symm.trans hfails
  | some address =>
    have hlt : address.toNat < 4096 := h.lt_of_mem_stack (List.mem_of_getLast? hlast)
    have hpc : UInt16.ofNat (address.toNat % 4096) = address := by
      rw [Nat.mod_eq_of_lt hlt, UInt16.ofNat_toNat]
    have hjump : m.nextEffect = effect
        ((m.mapCpu Cpu.advance).mapCpu fun c => c.pop.jump address.toNat) .jump Cost.ret := by
      rw [heffect, execute]
      simp only [mapCpu, htop, hlast]
    rw [(executeNext_of_effect hjump).2]
    exact congrArg some hpc.symm

/-- What a history makes of the call stack. -/
structure StackRun (m : Machine) (executions : List Execution) (n : Machine) : Prop where
  sound : m.Sound → n.Sound
  fault : ∀ e, m.fault = some e → n.fault = some e
  after : m.Sound → n.cpu.stack = stackAfter m.cpu.stack executions
  exact : m.Sound → n.fault = none → stackAfter? m.cpu.stack executions = some n.cpu.stack

namespace StackRun

theorem of_same {m n : Machine} (hsound : m.Sound → n.Sound)
    (hfault : ∀ e, m.fault = some e → n.fault = some e) (h : n.cpu.stack = m.cpu.stack) :
    StackRun m [] n :=
  ⟨hsound, hfault, fun _ => h, fun _ _ => congrArg some h.symm⟩

theorem unfaulted {m n : Machine} {executions : List Execution} (h : StackRun m executions n)
    (hn : n.fault = none) : m.fault = none := by
  cases hm : m.fault with
  | none => rfl
  | some e => cases (h.fault e hm).symm.trans hn

theorem trans {m n o : Machine} {before after : List Execution} (h : StackRun m before n)
    (h' : StackRun n after o) : StackRun m (before ++ after) o where
  sound hm := h'.sound (h.sound hm)
  fault e he := h'.fault e (h.fault e he)
  after hm := by
    rw [h'.after (h.sound hm), h.after hm]
    exact List.foldl_append.symm
  exact hm ho := by
    rw [stackAfter?, List.foldlM_append, ← stackAfter?, h.exact hm (h'.unfaulted ho)]
    exact h'.exact (h.sound hm) ho

theorem executeNext {m : Machine} (hf : m.fault = none) (hx : m.awaiting = none) :
    StackRun m [(m.cpu.pc, m.nextInstruction)] m.executeNext.state where
  sound := historical_sound.execute m hf hx
  fault := historical_fault.execute m hf hx
  after hm := stack_executeNext hm.bounds.sp_le
  exact hm hn := by
    cases hnext : nextStack? m.cpu.stack (m.cpu.pc, m.nextInstruction) with
    | none =>
      obtain ⟨e, he⟩ := (executeNext_error_iff_nextStack? hm.bounds.sp_le).2 hnext
      rw [state_of_executeNext_error he] at hn
      cases hn
    | some stack =>
      rw [stack_executeNext hm.bounds.sp_le, stackAfter?_singleton, hnext]
      rfl

theorem pressKey (m : Machine) (key : Key) : StackRun m [] (m.pressKey key) := by
  refine of_same (historical_sound.press m key) (historical_fault.press m key) ?_
  cases hx : m.awaiting with
  | none => rw [pressKey_of_running hx]
  | some x =>
    rw [pressKey_of_awaiting hx]
    rfl

end StackRun

theorem historical_stackRun : Historical StackRun where
  refl _ := .of_same id (fun _ he => he) rfl
  trans h h' := h.trans h'
  execute _ hf hx := .executeNext hf hx
  pay m hx ho := .of_same (historical_sound.pay m hx ho) (fun _ he => he) rfl
  clock m clock hc := .of_same (historical_sound.clock m clock hc) (fun _ he => he) rfl
  timers m elapsed := .of_same (historical_sound.timers m elapsed) (fun _ he => he) rfl
  press m key := .pressKey m key
  release m key := .of_same (historical_sound.release m key) (fun _ he => he) rfl
  clear m := .of_same (historical_sound.clear m) (fun _ he => he) rfl
  load m program := .of_same (historical_sound.load m program) (fun _ he => he) rfl
  timing m timing := .of_same (historical_sound.timing m timing) (fun _ he => he) rfl
  rate m hz := .of_same (historical_sound.rate m hz) (fun _ he => he) rfl

/-- The next instruction does to the call stack what it does to the list, fails where the list does
not allow it, and returns to the newest address of the list. -/
theorem executeNext_on_stack {b : Machine} (hb : b.Sound) :
    let s := b.cpu.stack
    let o := b.executeNext
    o.state.cpu.stack = (nextStack? s (b.cpu.pc, b.nextInstruction)).getD s ∧
    ((∃ e, o.result = .error e) ↔
      b.nextInstruction = .ret ∧ s = [] ∨
        (∃ address, b.nextInstruction = .call address) ∧ s.length = 16) ∧
    (b.nextInstruction = .ret → ∀ flow, o.result = .ok flow →
      s.getLast? = some o.state.cpu.pc) := by
  intro s o
  have hle := hb.bounds.sp_le
  have hfull : stackSize ≤ s.length ↔ s.length = 16 := by
    have hlength : s.length = b.cpu.sp := Cpu.length_stack hle
    have hsize : stackSize = 16 := rfl
    omega
  refine ⟨stack_executeNext hle, ?_, fun hi flow hr => pc_executeNext_of_ret hb.bounds hi hr⟩
  rw [executeNext_error_iff_nextStack? hle, nextStack?_eq_none_iff, hfull]

/-- Behind a call and what is balanced after it, the return goes back behind the call. -/
theorem return_resumes {b r : Machine} {body : List Event} {address : UInt16} (hb : b.Sound)
    (hrunb : b.Running) (hcourse : Course b.executeNext.state body r) (hrunr : r.Running)
    (hcall : b.nextInstruction = .call address) (hret : r.nextInstruction = .ret)
    (hbody : Balanced (Event.executions body)) :
    (∃ flow, r.executeNext.result = .ok flow) ∧
    r.executeNext.state.cpu.pc = (b.cpu.pc + 2) % 4096 ∧
    r.executeNext.state.cpu.stack = b.cpu.stack := by
  have hfirst : StackRun b _ b.executeNext.state := .executeNext hrunb.fault hrunb.awaiting
  have hrest := hcourse.historical historical_stackRun
  have hunfaulted : b.executeNext.state.fault = none := hrest.unfaulted hrunr.fault
  have hr : r.Sound := hrest.sound (hfirst.sound hb)
  have hpushed : b.executeNext.state.cpu.stack = b.cpu.stack ++ [(b.cpu.pc + 2) % 4096] := by
    have hnext := hfirst.exact hb hunfaulted
    rw [stackAfter?_singleton, hcall] at hnext
    exact nextStack?_call_eq_some hnext
  have hstack : r.cpu.stack = b.cpu.stack ++ [(b.cpu.pc + 2) % 4096] :=
    (hbody.stackAfter?_eq (hrest.exact (hfirst.sound hb) hrunr.fault)).trans hpushed
  obtain ⟨hdrop, hfails, hpc⟩ := executeNext_on_stack hr
  have hok : ∃ flow, r.executeNext.result = .ok flow := by
    cases hresult : r.executeNext.result with
    | ok flow => exact ⟨flow, rfl⟩
    | error e =>
      rcases hfails.1 ⟨e, hresult⟩ with ⟨-, hnil⟩ | ⟨⟨a, hi⟩, -⟩
      · simp [hstack] at hnil
      · cases hret.symm.trans hi
  obtain ⟨flow, hflow⟩ := hok
  have hlast := hpc hret flow hflow
  rw [hstack, List.getLast?_concat] at hlast
  refine ⟨⟨flow, hflow⟩, (Option.some.inj hlast).symm, ?_⟩
  rw [hdrop, hret, hstack]
  simp [nextStack?]

/-- The call stack is the list that the executions make of the empty one: a call appends the address
behind it and fails on a list of sixteen, a return drops the newest address, goes there and fails on
the empty list, and nothing else fails or changes the list. A return goes back behind its call, with
the list as before it. What the free slots of the stack hold makes no difference to anything. -/
theorem call_stack_is_list (settings : Settings) (entropy : Random.Key)
    (generator : Random.Generator) (session : List Operation) :
    let m := new settings entropy generator
    let n := m.performAll session
    m.trace session = Event.executions (m.events session) ∧
    n.cpu.stack = stackAfter [] (m.trace session) ∧
    (∀ operation, (n.perform operation).trace = [] →
      (n.perform operation).state.cpu.stack = n.cpu.stack) ∧
    (∀ before b after, m.events session = before ++ .executes b :: after →
      let s := stackAfter [] (Event.executions before)
      let o := b.executeNext
      b.cpu.stack = s ∧
      o.state.cpu.stack = (nextStack? s (b.cpu.pc, b.nextInstruction)).getD s ∧
      ((∃ e, o.result = .error e) ↔
        b.nextInstruction = .ret ∧ s = [] ∨
          (∃ address, b.nextInstruction = .call address) ∧ s.length = 16) ∧
      (b.nextInstruction = .ret → ∀ flow, o.result = .ok flow →
        s.getLast? = some o.state.cpu.pc)) ∧
    (∀ before b body r after address,
      m.events session = before ++ .executes b :: (body ++ .executes r :: after) →
      b.nextInstruction = .call address → r.nextInstruction = .ret →
      Balanced (Event.executions body) →
      (∃ flow, r.executeNext.result = .ok flow) ∧
      r.executeNext.state.cpu.pc = (b.cpu.pc + 2) % 4096 ∧
      r.executeNext.state.cpu.stack = b.cpu.stack) ∧
    (∀ slots : Vector UInt16 16, (∀ i (hi : i < 16), i < n.cpu.sp → slots[i] = n.cpu.slots[i]) →
      ∀ later operation,
        ((n.performAll later).perform operation).Alike AgreeButFree
          (((n.withSlots slots).performAll later).perform operation)) := by
  intro m n
  have hm : m.Sound := sound_new settings entropy generator
  obtain ⟨hcourse, htrace⟩ := m.course_performAll session
  have hrun : StackRun m (m.trace session) n := historical_stackRun.performAll m session
  have hmoment {before after : List Event} {b : Machine}
      (h : m.events session = before ++ .executes b :: after) :
      b.Sound ∧ b.cpu.stack = stackAfter [] (Event.executions before) := by
    rw [h] at hcourse
    have hbefore := hcourse.split.1.historical historical_stackRun
    exact ⟨hbefore.sound hm, hbefore.after hm⟩
  refine ⟨htrace, hrun.after hm, ?_, ?_, ?_, ?_⟩
  · intro operation hnone
    have hop := historical_stackRun.perform n operation
    rw [hnone] at hop
    exact hop.after (hrun.sound hm)
  · intro before b after h s o
    obtain ⟨hb, hstack⟩ := hmoment h
    refine ⟨hstack, ?_⟩
    have hlist := executeNext_on_stack hb
    rw [hstack] at hlist
    exact hlist
  · intro before b body r after address h hcall hret hbody
    have hb := (hmoment h).1
    rw [h] at hcourse
    obtain ⟨-, hrunb, hrest⟩ := hcourse.split
    obtain ⟨hbetween, hrunr, -⟩ := hrest.split
    exact return_resumes hb hrunb hbetween hrunr hcall hret hbody
  · intro slots hslots later operation
    have hfree : n.AgreeButFree (n.withSlots slots) := .of_slots hslots
    have hlater : (n.performAll later).AgreeButFree ((n.withSlots slots).performAll later) :=
      lockstep_agreeButFree.performAll hfree fun _ _ => trivial
    exact lockstep_agreeButFree.perform hlater fun _ _ => trivial

/-- Two nested calls, and their returns. -/
theorem call_stack_is_list_of_nested :
    let m := new {} 0
    let program := [0x22, 0x04, 0x00, 0xFD, 0x22, 0x08, 0x00, 0xEE, 0x00, 0xEE]
    let b := m.loadProgram program
    let r := b.afterSteps 3
    m.events [.loadProgram program, .runSteps 4] =
      [.loads program] ++ .executes b ::
        ([.executes (b.afterSteps 1), .executes (b.afterSteps 2)] ++ [.executes r]) ∧
    b.cpu.pc = 0x200 ∧ r.executeNext.state.cpu.pc = 0x202 ∧ r.executeNext.state.cpu.stack = [] := by
  intro m program b r
  have hrunning : ∀ j < 4, (b.afterSteps j).fault = none ∧ (b.afterSteps j).awaiting = none := by
    decide +kernel
  have hinstructions : ∀ j < 4, (b.afterSteps j).nextInstruction =
      [Instruction.call 0x204, .call 0x208, .ret, .ret].getD j .exit := by
    decide +kernel
  have hevents : m.events [.loadProgram program, .runSteps 4] =
      [.loads program] ++ .executes b ::
        ([.executes (b.afterSteps 1), .executes (b.afterSteps 2)] ++ [.executes r]) := by
    have hsteps := stepsEvents_of_running fun j hj => ⟨(hrunning j hj).1, (hrunning j hj).2⟩
    change [Event.loads program] ++ (b.stepsEvents 4 ++ []) = _
    rw [List.append_nil, hsteps]
    rfl
  have hbody : Balanced
      (Event.executions [.executes (b.afterSteps 1), .executes (b.afterSteps 2)]) := by
    change Balanced [(_, (b.afterSteps 1).nextInstruction), (_, (b.afterSteps 2).nextInstruction)]
    rw [hinstructions 1 (by decide), hinstructions 2 (by decide)]
    exact .nest .nil .nil
  obtain ⟨-, -, -, -, hnested, -⟩ := call_stack_is_list {} 0 .chaCha [.loadProgram program, .runSteps 4]
  obtain ⟨-, hpc, hstack⟩ := hnested _ b _ r [] 0x204 hevents (hinstructions 0 (by decide))
    (hinstructions 3 (by decide)) hbody
  exact ⟨hevents, rfl, hpc, hstack⟩

end Machine
end Chip8
