import Chip8.Proofs.HighSprite
import Chip8.Proofs.LowSprite
import Chip8.Proofs.Successor
import Chip8.Proofs.Words

/-! # What a flow tells

The flow of a step is that of the instruction that was executed, or of the wait for a key. It tells
a host all that it would find out by comparing the machine with the one before: whether to show the
screen or to play a sound, whether the program left its place, waits for a key or asked to stop.
What is not told did not change.
-/
namespace Chip8

/-- What an instruction tells the host when it succeeds. -/
def Instruction.flow : Instruction → Flow
  | .clearScreen | .scrollDown _ | .scrollRight | .scrollLeft | .draw .. => .draw
  | .ret | .jump _ | .call _ | .jumpOffset _ => .jump
  | .setSound _ => .sound
  | .waitKey _ => .keyWait
  | .exit => .exit
  | _ => .normal

namespace Machine

theorem hires_drawing (m : Machine) (x y : Register) (rows : Nibble) :
    (m.drawing x y rows).screen.hires = m.screen.hires := by
  cases hhigh : m.screen.hires with
  | false =>
    rw [drawing_low hhigh, (Screen.drawLow_eq _ _ _ (length_lowSprite m.cpu rows)).1]
    exact hhigh
  | true =>
    rw [drawing_high hhigh, (Screen.drawHigh_eq _ _ _ _ _).1]
    exact hhigh

theorem flow_execute {m : Machine} {pc : UInt16} {i : Instruction} {flow : Flow} {cost : Nat}
    (h : (m.execute pc i).result = .ok (flow, cost)) : flow = i.flow := by
  cases i with
  | ret =>
    simp only [execute] at h
    split at h
    · cases h
    · cases h
      rfl
  | call address =>
    simp only [execute] at h
    split at h
    · cases h
    · cases h
      rfl
  | _ =>
    cases h
    rfl

/-- What a host sees of a machine changes only as an instruction tells. -/
structure ToldBy (i : Instruction) (m n : Machine) : Prop where
  pixels : i.flow ≠ .draw → n.screen.pixels = m.screen.pixels
  hires : i ≠ .lowResolution → i ≠ .highResolution → n.screen.hires = m.screen.hires
  sound : i.flow ≠ .sound → n.timers.sound = m.timers.sound
  delay : (∀ x, i ≠ .setDelay x) → n.timers.delay = m.timers.delay
  exitRequested : n.exitRequested = (m.exitRequested || i.flow == .exit)

namespace ToldBy
variable {i : Instruction} {m n : Machine}

theorem of_same (hi : i.flow ≠ .exit) (hscreen : n.screen = m.screen)
    (htimers : n.timers = m.timers) (hexit : n.exitRequested = m.exitRequested) :
    ToldBy i m n where
  pixels _ := congrArg Screen.pixels hscreen
  hires _ _ := congrArg Screen.hires hscreen
  sound _ := congrArg Timers.sound htimers
  delay _ := congrArg Timers.delay htimers
  exitRequested := by
    rw [hexit, beq_eq_false_iff_ne.2 hi, Bool.or_false]

theorem of_draw (hi : i.flow = .draw) (m : Machine) {screen : Screen}
    (hhires : screen.hires = m.screen.hires) (cpu : Cpu) : ToldBy i m { m with screen, cpu } where
  pixels h := absurd hi h
  hires _ _ := hhires
  sound _ := rfl
  delay _ := rfl
  exitRequested := by
    rw [hi]
    exact (Bool.or_false _).symm

end ToldBy

theorem execute_toldBy (m : Machine) (pc : UInt16) (i : Instruction) :
    ToldBy i m (m.execute pc i).machine := by
  cases i with
  | ret =>
    simp only [execute]
    split
    · exact .of_same (by decide) rfl rfl rfl
    · exact .of_same (by decide) rfl rfl rfl
  | call address =>
    simp only [execute]
    split
    · exact .of_same (fun h => by cases h) rfl rfl rfl
    · exact .of_same (fun h => by cases h) rfl rfl rfl
  | clearScreen => exact .of_draw rfl m (m.screen.hires_withPixels _) m.cpu
  | scrollDown rows => exact .of_draw rfl m (m.screen.hires_withPixels _) m.cpu
  | scrollRight => exact .of_draw rfl m (m.screen.hires_withPixels _) m.cpu
  | scrollLeft => exact .of_draw rfl m (m.screen.hires_withPixels _) m.cpu
  | draw x y rows => exact .of_draw rfl m (m.hires_drawing x y rows) _
  | exit => exact ⟨fun _ => rfl, fun _ _ => rfl, fun _ => rfl, fun _ => rfl, (Bool.or_true _).symm⟩
  | lowResolution =>
    exact ⟨fun _ => rfl, fun h _ => absurd rfl h, fun _ => rfl, fun _ => rfl,
      (Bool.or_false _).symm⟩
  | highResolution =>
    exact ⟨fun _ => rfl, fun _ h => absurd rfl h, fun _ => rfl, fun _ => rfl,
      (Bool.or_false _).symm⟩
  | setDelay x =>
    exact ⟨fun _ => rfl, fun _ _ => rfl, fun _ => rfl, fun h => absurd rfl (h x),
      (Bool.or_false _).symm⟩
  | setSound x =>
    exact ⟨fun _ => rfl, fun _ _ => rfl, fun h => absurd rfl h, fun _ => rfl,
      (Bool.or_false _).symm⟩
  | _ => exact .of_same (fun h => by cases h) rfl rfl rfl

end Machine

namespace Instruction
variable {w : Word}

theorem flow_eq_exit_iff {i : Instruction} : i.flow = .exit ↔ i = .exit := by
  constructor
  · intro h
    cases i with
    | exit => rfl
    | _ => cases h
  · rintro rfl
    rfl

theorem isControl_of_flow_jump {i : Instruction} (h : i.flow = .jump) : i.isControl = true := by
  cases i with
  | ret | jump address | call address | jumpOffset address => rfl
  | _ => cases h

theorem flow_decode_eq_jump_iff :
    (decode w).flow = .jump ↔
      w.toNat = 0x00EE ∨ w.toNat / 4096 = 0x1 ∨ w.toNat / 4096 = 0x2 ∨ w.toNat / 4096 = 0xB := by
  have hret : w.toNat = 0x00EE ↔ w = 0x00EE := UInt16.toNat_inj (b := 0x00EE)
  constructor
  · intro h
    have hcontrol : Control w (decode w) := control_decode (isControl_of_flow_jump h)
    generalize decode w = i at h hcontrol
    cases hcontrol with
    | ret hw => exact Or.inl (hret.2 hw)
    | jump hw => exact Or.inr (Or.inl (Machine.family_eq_iff.1 hw))
    | call hw => exact Or.inr (Or.inr (Or.inl (Machine.family_eq_iff.1 hw)))
    | jumpOffset hw => exact Or.inr (Or.inr (Or.inr (Machine.family_eq_iff.1 hw)))
    | _ => cases h
  · rintro (h | h | h | h)
    · exact congrArg flow (Control.ret (hret.1 h)).decode_eq
    · exact congrArg flow (Control.jump (Machine.family_eq_iff.2 h)).decode_eq
    · exact congrArg flow (Control.call (Machine.family_eq_iff.2 h)).decode_eq
    · exact congrArg flow (Control.jumpOffset (Machine.family_eq_iff.2 h)).decode_eq

theorem toNat_of_decode_lowResolution (h : decode w = .lowResolution) : w.toNat = 0x00FE := by
  rw [eq_encode_of_decode h nofun]
  rfl

theorem toNat_of_decode_highResolution (h : decode w = .highResolution) : w.toNat = 0x00FF := by
  rw [eq_encode_of_decode h nofun]
  rfl

theorem toNat_of_decode_setDelay {x : Register} (h : decode w = .setDelay x) :
    w.toNat / 4096 = 0xF ∧ w.toNat % 256 = 0x15 := by
  have hx := x.isLt
  rw [eq_encode_of_decode h nofun, encode, Word.ofByte, UInt16.toNat_ofNat']
  omega

end Instruction

namespace Machine
variable {m : Machine} {flow : Flow}

theorem executeNext_toldBy (hok : m.executeNext.result = .ok flow) :
    flow = m.nextInstruction.flow ∧ ToldBy m.nextInstruction m m.executeNext.state := by
  cases hr : m.nextEffect.result with
  | error e => cases hok.symm.trans (executeNext_of_error hr).1
  | ok p =>
    obtain ⟨hresult, hstate⟩ := executeNext_of_ok hr
    have htold := (m.mapCpu Cpu.advance).execute_toldBy m.cpu.pc m.nextInstruction
    cases hok.symm.trans hresult
    rw [hstate]
    exact ⟨flow_execute hr, htold.pixels, htold.hires, htold.sound, htold.delay,
      htold.exitRequested⟩

theorem isAwaiting_executeNext (hx : m.awaiting = none) (hok : m.executeNext.result = .ok flow) :
    m.executeNext.state.isAwaiting = true ↔ m.nextInstruction.flow = .keyWait := by
  cases hr : m.nextEffect.result with
  | error e => cases hok.symm.trans (executeNext_of_error hr).1
  | ok p =>
    have hawaiting := (m.mapCpu Cpu.advance).awaiting_execute m.cpu.pc m.nextInstruction
    rw [(executeNext_of_ok hr).2, isAwaiting, nextEffect]
    dsimp only
    rw [hawaiting]
    cases m.nextInstruction with
    | waitKey x => exact ⟨fun _ => rfl, fun _ => rfl⟩
    | _ =>
      change m.awaiting.isSome = true ↔ _
      rw [hx]
      constructor
      all_goals
        intro h
        cases h

theorem keypad_executeNext (m : Machine) : m.executeNext.state.keypad = m.keypad := by
  cases hr : m.nextEffect.result with
  | error e => rw [(executeNext_of_error hr).2]
  | ok p =>
    rw [(executeNext_of_ok hr).2]
    exact m.nextEffect_sameAround.keypad

/-- Without a jump the program goes on behind the instruction, or behind the next one. -/
theorem pc_executeNext_of_no_jump (hok : m.executeNext.result = .ok flow) (hflow : flow ≠ .jump) :
    m.executeNext.state.cpu.pc.toNat = (m.cpu.pc.toNat + 2) % 4096 ∨
      m.executeNext.state.cpu.pc.toNat = (m.cpu.pc.toNat + 4) % 4096 := by
  have hne : m.nextInstruction.flow ≠ .jump := (executeNext_toldBy hok).1 ▸ hflow
  cases hc : m.nextInstruction.isControl with
  | false => exact Or.inl (pc_executeNext_of_other hok hc)
  | true =>
    cases hi : m.nextInstruction with
    | skip c =>
      rw [pc_executeNext_of_skip hok hi]
      split
      · exact Or.inr rfl
      · exact Or.inl rfl
    | ret | jump address | call address | jumpOffset address =>
      rw [hi] at hne
      exact absurd rfl hne
    | _ =>
      rw [hi] at hc
      cases hc

theorem exitRequested_executeNext (m : Machine) :
    m.executeNext.state.exitRequested = (m.exitRequested || m.nextInstruction.flow == .exit) := by
  cases hr : m.executeNext.result with
  | error e =>
    have hflow : m.nextInstruction.flow = .jump := by
      have hfails := executeNext_error_iff.1 hr
      generalize m.nextInstruction = i at hfails
      cases hfails <;> rfl
    rw [state_of_executeNext_error hr, hflow]
    exact (Bool.or_false _).symm
  | ok flow => exact (executeNext_toldBy hr).2.exitRequested

theorem historical_exitRequested :
    Historical fun m _ n => m.exitRequested = true → n.exitRequested = true where
  refl _ h := h
  trans h h' hm := h' (h hm)
  execute m _ _ h := by rw [exitRequested_executeNext, h, Bool.true_or]
  pay _ _ _ h := h
  clock _ _ _ h := h
  timers _ _ h := h
  press m key h := by
    rw [pressKey_frame]
    exact h
  release _ _ h := h
  clear _ h := h
  load _ _ h := h
  timing _ _ h := h
  rate _ _ h := h

/-- The flow of a step that succeeds is a sound report of it: it tells of a wait for a key, of what
was drawn, of a sound timer that was set, of a request to stop and of a jump, and where it does not
tell of them there were none. A request to stop stays, and no step touches the keypad. -/
theorem flow_tells_what_happened :
    (∀ (m : Machine) flow, m.step.result = .ok flow →
      let n := m.step.state
      let pc := m.cpu.pc.toNat
      let w := m.cpu.fetch.toNat
      (m.awaiting = none → flow = m.nextInstruction.flow) ∧
      (flow = .keyWait ↔ n.isAwaiting = true) ∧
      (flow ≠ .draw → n.screen.pixels = m.screen.pixels) ∧
      (n.screen.hires ≠ m.screen.hires → m.awaiting = none ∧ (w = 0x00FE ∨ w = 0x00FF)) ∧
      (flow ≠ .sound → n.timers.sound = m.timers.sound) ∧
      (n.timers.delay ≠ m.timers.delay → m.awaiting = none ∧ w / 4096 = 0xF ∧ w % 256 = 0x15) ∧
      n.exitRequested = (m.exitRequested || flow == .exit) ∧
      (flow = .jump ↔ m.awaiting = none ∧
        (w = 0x00EE ∨ w / 4096 = 0x1 ∨ w / 4096 = 0x2 ∨ w / 4096 = 0xB)) ∧
      (flow ≠ .jump → m.awaiting = none →
        n.cpu.pc.toNat = (pc + 2) % 4096 ∨ n.cpu.pc.toNat = (pc + 4) % 4096) ∧
      n.keypad = m.keypad) ∧
    ∀ (m : Machine) session, m.exitRequested = true →
      (m.performAll session).exitRequested = true := by
  refine ⟨?_, fun m session h => historical_exitRequested.performAll m session h⟩
  intro m flow hok n pc w
  have hf : m.fault = none := by
    cases hf : m.fault with
    | none => rfl
    | some e => cases hok.symm.trans (congrArg Outcome.result (step_of_fault hf))
  cases hx : m.awaiting with
  | some x =>
    have hstep := step_of_awaiting hf hx
    have hn : n = m := congrArg Outcome.state hstep
    have hflow : flow = .keyWait := Except.ok.inj (hok.symm.trans (congrArg Outcome.result hstep))
    have hwaits : m.isAwaiting = true := by rw [isAwaiting, hx]; rfl
    rw [hn, hflow]
    simp [hwaits]
  | none =>
    have hstep := step_of_running hf hx
    rw [hstep] at hok
    have hn : n = m.executeNext.state := congrArg Outcome.state hstep
    obtain ⟨hflow, htold⟩ := executeNext_toldBy hok
    rw [hn]
    refine ⟨fun _ => hflow, ?_, ?_, ?_, ?_, ?_, ?_, ?_, ?_, m.keypad_executeNext⟩
    · rw [hflow]
      exact (isAwaiting_executeNext hx hok).symm
    · intro h
      exact htold.pixels (hflow ▸ h)
    · intro h
      refine ⟨rfl, ?_⟩
      by_contra hw
      apply h
      apply htold.hires
      · exact fun hi => hw (Or.inl (Instruction.toNat_of_decode_lowResolution hi))
      · exact fun hi => hw (Or.inr (Instruction.toNat_of_decode_highResolution hi))
    · intro h
      exact htold.sound (hflow ▸ h)
    · intro h
      refine ⟨rfl, ?_⟩
      by_contra hw
      apply h
      apply htold.delay
      exact fun x hi => hw (Instruction.toNat_of_decode_setDelay hi)
    · rw [hflow]
      exact htold.exitRequested
    · rw [hflow]
      exact Instruction.flow_decode_eq_jump_iff.trans (by simp [w])
    · intro h _
      exact pc_executeNext_of_no_jump hok h

/-- In high resolution a program asks to stop: nothing was drawn or heard, it goes on behind the
request, and whatever the host does then the request stays. -/
theorem flow_tells_what_happened_of_exit :
    let m := (new {} 0).performAll [.loadProgram [0x00, 0xFF, 0x00, 0xFD], .step]
    m.step.result = .ok .exit ∧ m.step.state.screen.pixels = m.screen.pixels ∧
      m.step.state.screen.hires = true ∧ m.step.state.cpu.pc ≠ m.cpu.pc ∧
      ∀ session, (m.step.state.performAll session).exitRequested = true := by
  intro m
  have hstart : m.step.result = .ok .exit ∧ m.screen.hires = true ∧ m.awaiting = none ∧
      m.cpu.fetch.toNat = 0x00FD ∧ m.cpu.pc = 0x202 := by
    decide +kernel
  obtain ⟨hok, hhigh, hx, hw, hpc⟩ := hstart
  obtain ⟨-, -, hpixels, hhires, -, -, hexit, -, hnext, -⟩ := flow_tells_what_happened.1 m .exit hok
  refine ⟨hok, hpixels nofun, ?_, ?_, ?_⟩
  · by_contra h
    obtain ⟨-, hword⟩ := hhires (by rwa [hhigh])
    omega
  · intro h
    have hto := hnext nofun hx
    rw [h, hpc] at hto
    simp at hto
  · intro session
    apply flow_tells_what_happened.2
    rw [hexit]
    exact Bool.or_true _

end Machine
end Chip8
