import Chip8.Proofs.Lockstep

/-! # Free slots of the call stack

The slots at and above the stack pointer keep what was pushed there once. Nothing reads them: a
return takes the newest address of the stack, and a call overwrites the slot that it takes. So two
machines that differ in free slots only are alike to their host.
-/
namespace Chip8

namespace Cpu

theorem top?_eq (c : Cpu) : c.top? = if 0 < c.sp then c.stack[c.sp - 1]? else none := by
  simp only [top?, stack]
  split
  · rename_i h
    rw [List.getElem?_take_of_lt (Nat.sub_lt h Nat.zero_lt_one), Vector.getElem?_toList]
  · rfl

end Cpu

namespace Machine

def withSlots (m : Machine) (slots : Vector UInt16 16) : Machine :=
  { m with cpu := { m.cpu with slots } }

/-- Two machines agree on all but the free slots of their call stacks. -/
structure AgreeButFree (m n : Machine) : Prop where
  rest : n = m.withSlots n.cpu.slots
  stack : n.cpu.stack = m.cpu.stack

theorem draw_withSlots (m : Machine) (slots : Vector UInt16 16) (screen : Screen) (cost : Nat) :
    effect { m.withSlots slots with screen } .draw cost =
      ⟨(effect { m with screen } .draw cost).machine.withSlots slots, .ok (.draw, cost)⟩ := rfl

theorem execute_withSlots (m : Machine) (slots : Vector UInt16 16) (pc : UInt16) {i : Instruction}
    (hi : i.usesStack = false) :
    (m.withSlots slots).execute pc i =
      ⟨(m.execute pc i).machine.withSlots slots, (m.execute pc i).result⟩ := by
  cases i with
  | ret => cases hi
  | call address => cases hi
  | skip condition =>
    have hholds : (m.withSlots slots).holds condition = m.holds condition := by
      cases condition <;> rfl
    simp only [execute, hholds]
    cases m.holds condition <;> rfl
  | arithmetic op x y => cases op <;> rfl
  | storeRegisters last =>
    have hlegacy : (m.withSlots slots).settings = m.settings := rfl
    simp only [execute, hlegacy]
    cases m.settings.legacyMemory <;> rfl
  | loadRegisters last =>
    have hlegacy : (m.withSlots slots).settings = m.settings := rfl
    simp only [execute, hlegacy]
    cases m.settings.legacyMemory <;> rfl
  | scrollDown rows => exact draw_withSlots m slots (m.screen.scrollDown rows) Cost.extended
  | scrollRight => exact draw_withSlots m slots m.screen.scrollRight Cost.extended
  | scrollLeft => exact draw_withSlots m slots m.screen.scrollLeft Cost.extended
  | _ => rfl

namespace AgreeButFree
variable {m n : Machine}

theorem of_slots {slots : Vector UInt16 16}
    (h : ∀ i (hi : i < 16), i < m.cpu.sp → slots[i] = m.cpu.slots[i]) :
    m.AgreeButFree (m.withSlots slots) where
  rest := rfl
  stack := by
    apply List.ext_getElem?
    intro i
    simp only [Cpu.stack, withSlots, List.getElem?_take]
    split
    · rename_i hsp
      by_cases hi : i < 16
      · simp [hi, h i hi hsp]
      · simp [hi]
    · rfl

theorem same {α : Type} (h : m.AgreeButFree n) (f : Machine → α)
    (hf : ∀ slots, f (m.withSlots slots) = f m) : f n = f m := (congrArg f h.rest).trans (hf _)

theorem sp (h : m.AgreeButFree n) : n.cpu.sp = m.cpu.sp :=
  h.same (·.cpu.sp) fun _ => rfl

theorem top? (h : m.AgreeButFree n) : n.cpu.top? = m.cpu.top? := by
  rw [Cpu.top?_eq, Cpu.top?_eq, h.sp, h.stack]

theorem execute (h : m.AgreeButFree n) (pc : UInt16) (i : Instruction) :
    ∃ slots, n.execute pc i =
        ⟨(m.execute pc i).machine.withSlots slots, (m.execute pc i).result⟩ ∧
      (m.execute pc i).machine.AgreeButFree ((m.execute pc i).machine.withSlots slots) := by
  have hrest := h.rest
  have hstack := h.stack
  have hsp := h.sp
  generalize n.cpu.slots = slots at hrest
  subst hrest
  cases hi : i.usesStack with
  | false =>
    obtain ⟨hsp', hslots⟩ := slots_execute m pc hi
    refine ⟨slots, execute_withSlots m slots pc hi, rfl, ?_⟩
    simp only [Cpu.stack, withSlots, hsp', hslots]
    exact hstack
  | true =>
    cases i with
    | ret =>
      have htop : (m.withSlots slots).cpu.top? = m.cpu.top? := h.top?
      simp only [execute, htop]
      cases m.cpu.top? with
      | none => exact ⟨slots, rfl, rfl, hstack⟩
      | some address =>
        refine ⟨slots, rfl, rfl, ?_⟩
        have hpop : (m.withSlots slots).cpu.pop.stack = m.cpu.pop.stack := by
          rw [Cpu.stack_pop, Cpu.stack_pop, hstack]
          rfl
        exact hpop
    | call address =>
      by_cases hroom : m.cpu.sp < 16
      · have hp := Cpu.push?_of_lt hroom m.cpu.pc
        have hp' := Cpu.push?_of_lt (c := (m.withSlots slots).cpu) hroom (m.withSlots slots).cpu.pc
        have hpush := (Cpu.stack_push? hp').trans (hstack ▸ (Cpu.stack_push? hp).symm)
        simp only [execute, hp, hp']
        exact ⟨slots.set m.cpu.sp m.cpu.pc hroom, rfl, rfl, hpush⟩
      · have hp := (m.cpu.push?_eq_none_iff m.cpu.pc).2 (Nat.le_of_not_lt hroom)
        have hp' := ((m.withSlots slots).cpu.push?_eq_none_iff (m.withSlots slots).cpu.pc).2
          (Nat.le_of_not_lt hroom)
        simp only [execute, hp, hp']
        exact ⟨slots, rfl, rfl, hstack⟩
    | _ => cases hi

theorem settle {effect : Effect} {slots : Vector UInt16 16}
    (h : effect.machine.AgreeButFree (effect.machine.withSlots slots)) (pc : UInt16)
    (notices : List Notice) :
    (effect.settle pc notices).Alike AgreeButFree
      (Effect.settle pc notices ⟨effect.machine.withSlots slots, effect.result⟩) := by
  rcases effect with ⟨k, e | ⟨flow, cost⟩⟩
  · exact ⟨⟨rfl, h.stack⟩, rfl, rfl⟩
  · exact ⟨⟨rfl, h.stack⟩, rfl, rfl⟩

theorem executeNext (h : m.AgreeButFree n) : m.executeNext.Alike AgreeButFree n.executeNext := by
  have hpc : n.cpu.pc = m.cpu.pc := h.same (·.cpu.pc) fun _ => rfl
  have hnext : n.nextInstruction = m.nextInstruction :=
    h.same nextInstruction fun _ => rfl
  have hadvance : (m.mapCpu Cpu.advance).AgreeButFree (n.mapCpu Cpu.advance) :=
    ⟨congrArg (·.mapCpu Cpu.advance) h.rest, h.stack⟩
  obtain ⟨slots, heffect, hagree⟩ := hadvance.execute m.cpu.pc m.nextInstruction
  have hnextEffect : n.nextEffect =
      ⟨m.nextEffect.machine.withSlots slots, m.nextEffect.result⟩ := by
    rw [nextEffect, hpc, hnext]
    exact heffect
  rw [Machine.executeNext, Machine.executeNext, hnextEffect, hnext, hpc]
  exact settle hagree m.cpu.pc _

theorem pressKey (h : m.AgreeButFree n) (key : Key) :
    (m.pressKey key).AgreeButFree (n.pressKey key) := by
  have hawaiting : n.awaiting = m.awaiting := h.same awaiting fun _ => rfl
  cases hx : m.awaiting with
  | none =>
    rw [pressKey_of_running hx, pressKey_of_running (hawaiting.trans hx)]
    exact ⟨congrArg (fun m : Machine => { m with keypad := m.keypad.set key true }) h.rest,
      h.stack⟩
  | some x =>
    rw [pressKey_of_awaiting hx, pressKey_of_awaiting (hawaiting.trans hx)]
    exact ⟨congrArg (fun m : Machine => { m with
      keypad := m.keypad.set key true
      cpu := m.cpu.setRegister x (UInt8.ofNat key)
      awaiting := none }) h.rest, h.stack⟩

end AgreeButFree

theorem lockstep_agreeButFree : Lockstep (fun _ => True) AgreeButFree where
  fault h := h.same Machine.fault fun _ => rfl
  awaiting h := h.same Machine.awaiting fun _ => rfl
  owed h := h.same Machine.owed fun _ => rfl
  clock h := h.same Machine.clock fun _ => rfl
  executeNext h _ := h.executeNext
  pay owed h := ⟨congrArg (fun m : Machine => { m with owed }) h.rest, h.stack⟩
  withClock clock h := ⟨congrArg (·.withClock clock) h.rest, h.stack⟩
  timers elapsed h :=
    ⟨congrArg (fun m : Machine => { m with timers := m.timers.advance elapsed }) h.rest, h.stack⟩
  pressKey key h := h.pressKey key
  releaseKey key h := ⟨congrArg (·.releaseKey key) h.rest, h.stack⟩
  clearKeys h := ⟨congrArg clearKeys h.rest, h.stack⟩
  loadProgram program h := ⟨congrArg (·.loadProgram program) h.rest, h.stack⟩
  setTiming timing h := ⟨congrArg (·.setTiming timing) h.rest, h.stack⟩
  setRate hz h := ⟨congrArg (·.setRate hz) h.rest, h.stack⟩

end Machine
end Chip8
