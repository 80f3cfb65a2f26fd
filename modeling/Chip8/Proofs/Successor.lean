import Chip8.Proofs.CallStack

/-! # Where the program goes on

An instruction that succeeds leads to one address, which its word and the state before it decide: the
target of a jump or call, the newest return address, the word behind the next one where the condition
of a skip holds, and else the next word. All addresses wrap around the memory.
-/
namespace Chip8

namespace Cpu

theorem toNat_pc_advance (c : Cpu) : c.advance.pc.toNat = (c.pc.toNat + 2) % 4096 := by
  simp only [advance, UInt16.toNat_mod, UInt16.toNat_add, UInt16.reduceToNat]
  omega

theorem toNat_pc_jump (c : Cpu) (address : Nat) : (c.jump address).pc.toNat = address % 4096 := by
  rw [jump, UInt16.toNat_ofNat']
  omega

theorem toNat_pc_skipIf (c : Cpu) (taken : Bool) :
    (c.advance.skipIf taken).pc.toNat = (c.pc.toNat + if taken then 4 else 2) % 4096 := by
  cases taken with
  | true =>
    change c.advance.advance.pc.toNat = _
    rw [toNat_pc_advance, toNat_pc_advance, if_pos rfl]
    omega
  | false => exact c.toNat_pc_advance

theorem toNat_fetch (c : Cpu) :
    c.fetch.toNat = (c.memory.read c.pc.toNat).toNat * 256 +
      (c.memory.read ((c.pc.toNat + 1) % 4096)).toNat := by
  have hhigh := (c.memory.read c.pc.toNat).toNat_lt
  have hlow := (c.memory.read (c.pc.toNat + 1)).toNat_lt
  rw [Memory.read_mod, fetch, Word.ofBytes, UInt16.toNat_ofNat']
  omega

end Cpu

namespace Machine
variable {m : Machine} {flow : Flow}

theorem cpu_executeNext (h : m.executeNext.result = .ok flow) :
    m.executeNext.state.cpu = m.nextEffect.machine.cpu := by
  cases hr : m.nextEffect.result with
  | error e => cases h.symm.trans (executeNext_of_error hr).1
  | ok p => rw [(executeNext_of_ok hr).2]

theorem pc_executeNext_of_other (h : m.executeNext.result = .ok flow)
    (hi : m.nextInstruction.isControl = false) :
    m.executeNext.state.cpu.pc.toNat = (m.cpu.pc.toNat + 2) % 4096 := by
  have hsame := execute_sameControl (m.mapCpu Cpu.advance) m.cpu.pc hi
  rw [cpu_executeNext h, nextEffect, hsame.pc]
  exact m.cpu.toNat_pc_advance

theorem pc_executeNext_of_skip (h : m.executeNext.result = .ok flow) {c : Condition}
    (hi : m.nextInstruction = .skip c) :
    m.executeNext.state.cpu.pc.toNat =
      (m.cpu.pc.toNat + if m.holds c then 4 else 2) % 4096 := by
  have hholds : (m.mapCpu Cpu.advance).holds c = m.holds c := by cases c <;> rfl
  rw [cpu_executeNext h, nextEffect, hi, ← hholds]
  exact m.cpu.toNat_pc_skipIf _

theorem pc_executeNext_of_jump (h : m.executeNext.result = .ok flow) {address : UInt16}
    (hi : m.nextInstruction = .jump address) :
    m.executeNext.state.cpu.pc.toNat = address.toNat % 4096 := by
  rw [cpu_executeNext h, nextEffect, hi]
  exact Cpu.toNat_pc_jump _ _

theorem pc_executeNext_of_jumpOffset (h : m.executeNext.result = .ok flow) {address : UInt16}
    (hi : m.nextInstruction = .jumpOffset address) :
    m.executeNext.state.cpu.pc.toNat =
      (address.toNat + (m.cpu.register Cpu.offsetRegister).toNat) % 4096 := by
  rw [cpu_executeNext h, nextEffect, hi]
  exact Cpu.toNat_pc_jump _ _

theorem pc_executeNext_of_call (h : m.executeNext.result = .ok flow) {address : UInt16}
    (hi : m.nextInstruction = .call address) :
    m.executeNext.state.cpu.pc.toNat = address.toNat % 4096 := by
  have hpush : ∃ cpu, m.cpu.advance.push? m.cpu.advance.pc = some cpu := by
    cases hp : m.cpu.advance.push? m.cpu.advance.pc with
    | some cpu => exact ⟨cpu, rfl⟩
    | none =>
      have hfails : m.executeNext.result = .error (.stackOverflow m.cpu.pc) :=
        executeNext_error_iff.2 (hi ▸ .call hp)
      cases h.symm.trans hfails
  obtain ⟨cpu, hp⟩ := hpush
  rw [cpu_executeNext h, nextEffect, hi, execute]
  simp only [mapCpu, hp]
  exact Cpu.toNat_pc_jump _ _

theorem executeNext_of_unknown {w : Word} (hi : m.nextInstruction = .unknown w) :
    m.executeNext.result = .ok .normal ∧
    m.executeNext.state = { m with cpu := m.cpu.advance, lastCost := 1, owed := 0 } := by
  have heffect : m.nextEffect = effect (m.mapCpu Cpu.advance) .normal Cost.nothing := by
    rw [nextEffect, hi]
    rfl
  have hcost : m.settings.timing.cyclesOf Cost.nothing = 1 := by
    cases m.settings.timing <;> rfl
  obtain ⟨hresult, hstate⟩ := executeNext_of_effect heffect
  rw [hcost] at hstate
  exact ⟨hresult, hstate⟩

/-- A number is that of a key, and the key is down. -/
def KeyDown (m : Machine) (number : Nat) : Prop :=
  ∃ h : number < 16, m.keypad.isDown ⟨number, h⟩ = true

theorem keyDown_iff (m : Machine) (id : UInt8) :
    m.KeyDown id.toNat ↔ m.keypad.isPressed id = true := Keypad.isPressed_iff.symm

/-- The word of a skip whose condition holds. -/
inductive Skips (m : Machine) (w : Nat) : Prop
  | equalsByte : w / 4096 = 0x3 → (m.cpu.registerAt (w / 256)).toNat = w % 256 → Skips m w
  | differsFromByte : w / 4096 = 0x4 → (m.cpu.registerAt (w / 256)).toNat ≠ w % 256 → Skips m w
  | equals : w / 4096 = 0x5 → m.cpu.registerAt (w / 256) = m.cpu.registerAt (w / 16) → Skips m w
  | differs : w / 4096 = 0x9 → m.cpu.registerAt (w / 256) ≠ m.cpu.registerAt (w / 16) → Skips m w
  | keyDown : w / 4096 = 0xE → w % 256 = 0x9E →
      m.KeyDown (m.cpu.registerAt (w / 256)).toNat → Skips m w
  | keyUp : w / 4096 = 0xE → w % 256 = 0xA1 →
      ¬m.KeyDown (m.cpu.registerAt (w / 256)).toNat → Skips m w

theorem family_eq_iff {w : Word} {k : Nibble} : w.family = k ↔ w.toNat / 4096 = k.val := Fin.ext_iff

theorem toNat_nn (w : Word) : w.nn.toNat = w.toNat % 256 := by
  simp [Word.nn]

theorem nn_eq_iff {w : Word} {b : UInt8} : w.nn = b ↔ w.toNat % 256 = b.toNat := by
  rw [← UInt8.toNat_inj, toNat_nn]

theorem skips_iff {w : Word} :
    m.Skips w.toNat ↔ ∃ c, Instruction.Control w (.skip c) ∧ m.holds c = true := by
  have hbyte : (m.cpu.registerAt (w.toNat / 256)).toNat = w.toNat % 256 ↔
      m.cpu.register w.x = w.nn := by
    rw [← toNat_nn, UInt8.toNat_inj]
    rfl
  have hdown : m.KeyDown (m.cpu.registerAt (w.toNat / 256)).toNat ↔
      m.keypad.isPressed (m.cpu.register w.x) = true := m.keyDown_iff _
  constructor
  · intro h
    cases h with
    | equalsByte hw h => exact ⟨_, .equalsByte (family_eq_iff.2 hw), beq_iff_eq.2 (hbyte.1 h)⟩
    | differsFromByte hw h =>
      exact ⟨_, .differsFromByte (family_eq_iff.2 hw), bne_iff_ne.2 fun heq => h (hbyte.2 heq)⟩
    | equals hw h => exact ⟨_, .equals (family_eq_iff.2 hw), beq_iff_eq.2 h⟩
    | differs hw h => exact ⟨_, .differs (family_eq_iff.2 hw), bne_iff_ne.2 h⟩
    | keyDown hw hn h => exact ⟨_, .keyDown (family_eq_iff.2 hw) (nn_eq_iff.2 hn), hdown.1 h⟩
    | keyUp hw hn h =>
      have hup : m.keypad.isPressed (m.cpu.register w.x) = false :=
        Bool.eq_false_iff.2 fun hp => h (hdown.2 hp)
      exact ⟨_, .keyUp (family_eq_iff.2 hw) (nn_eq_iff.2 hn), congrArg not hup⟩
  · rintro ⟨c, hc, hholds⟩
    cases hc with
    | equalsByte hw => exact .equalsByte (family_eq_iff.1 hw) (hbyte.2 (beq_iff_eq.1 hholds))
    | differsFromByte hw =>
      exact .differsFromByte (family_eq_iff.1 hw) fun heq => bne_iff_ne.1 hholds (hbyte.1 heq)
    | equals hw => exact .equals (family_eq_iff.1 hw) (beq_iff_eq.1 hholds)
    | differs hw => exact .differs (family_eq_iff.1 hw) (bne_iff_ne.1 hholds)
    | keyDown hw hn => exact .keyDown (family_eq_iff.1 hw) (nn_eq_iff.1 hn) (hdown.2 hholds)
    | keyUp hw hn =>
      have hup : m.keypad.isPressed (m.cpu.register w.x) = false := by simpa [holds] using hholds
      exact .keyUp (family_eq_iff.1 hw) (nn_eq_iff.1 hn) fun h => by cases (hdown.1 h).symm.trans hup

/-- A step that succeeds leads where the word at the program counter says: a jump or a call to its
address, a jump with an offset as far behind that as V0 says, a return to the newest return address,
a skip whose condition holds past the next word, and all else to the next word. Unknown words do
nothing more. -/
theorem step_leads_on (hm : m.Reachable) (hrun : m.Running) (hok : m.step.result = .ok flow) :
    let pc := m.cpu.pc.toNat
    let w := (m.cpu.memory.read pc).toNat * 256 + (m.cpu.memory.read ((pc + 1) % 4096)).toNat
    let next := m.step.state.cpu.pc
    (w / 4096 = 0x1 ∨ w / 4096 = 0x2 → next.toNat = w % 4096) ∧
    (w / 4096 = 0xB → next.toNat = (w % 4096 + (m.cpu.registerAt 0).toNat) % 4096) ∧
    (w = 0x00EE → m.cpu.stack.getLast? = some next) ∧
    (m.Skips w → next.toNat = (pc + 4) % 4096) ∧
    (w / 4096 ≠ 0x1 → w / 4096 ≠ 0x2 → w / 4096 ≠ 0xB → w ≠ 0x00EE → ¬m.Skips w →
      next.toNat = (pc + 2) % 4096) ∧
    (∀ u, Instruction.decode (UInt16.ofNat w) = .unknown u → flow = .normal ∧
      m.step.state = { m with
        cpu := { m.cpu with pc := UInt16.ofNat ((pc + 2) % 4096) }
        lastCost := 1
        owed := 0 }) := by
  intro pc w next
  have hw : w = m.cpu.fetch.toNat := m.cpu.toNat_fetch.symm
  have hnext : next = m.executeNext.state.cpu.pc := by rw [← step_of_running hrun.fault hrun.awaiting]
  rw [step_of_running hrun.fault hrun.awaiting] at hok ⊢
  rw [hnext]
  clear_value w
  subst hw
  have hnnn : m.cpu.fetch.nnn.toNat = m.cpu.fetch.toNat % 4096 := by simp [Word.nnn]
  have hret : m.cpu.fetch.toNat = 0x00EE ↔ m.cpu.fetch = 0x00EE := UInt16.toNat_inj (b := 0x00EE)
  refine ⟨?_, ?_, ?_, ?_, ?_, ?_⟩
  · rintro (h | h)
    · have hi := (Instruction.Control.jump (family_eq_iff.2 h)).decode_eq
      rw [pc_executeNext_of_jump hok hi, hnnn, Nat.mod_mod]
    · have hi := (Instruction.Control.call (family_eq_iff.2 h)).decode_eq
      rw [pc_executeNext_of_call hok hi, hnnn, Nat.mod_mod]
  · intro h
    have hi := (Instruction.Control.jumpOffset (family_eq_iff.2 h)).decode_eq
    rw [pc_executeNext_of_jumpOffset hok hi, hnnn]
    rfl
  · intro h
    exact pc_executeNext_of_ret hm.sound.bounds (Instruction.Control.ret (hret.1 h)).decode_eq hok
  · intro h
    obtain ⟨c, hc, hholds⟩ := skips_iff.1 h
    rw [pc_executeNext_of_skip hok hc.decode_eq, if_pos hholds]
  · intro hjump hcall hoffset hne hskips
    cases hc : m.nextInstruction.isControl with
    | false => exact pc_executeNext_of_other hok hc
    | true =>
      have hcontrol : Instruction.Control m.cpu.fetch m.nextInstruction :=
        Instruction.control_decode hc
      have hskip {c : Condition} (hi : m.nextInstruction = .skip c) :
          m.executeNext.state.cpu.pc.toNat = (pc + 2) % 4096 := by
        have hholds : ¬m.holds c = true := fun h => hskips (skips_iff.2 ⟨c, hi ▸ hcontrol, h⟩)
        rw [pc_executeNext_of_skip hok hi, if_neg hholds]
      generalize m.nextInstruction = i at hcontrol hskip
      cases hcontrol with
      | ret h => exact absurd (hret.2 h) hne
      | jump h => exact absurd (family_eq_iff.1 h) hjump
      | call h => exact absurd (family_eq_iff.1 h) hcall
      | jumpOffset h => exact absurd (family_eq_iff.1 h) hoffset
      | _ => exact hskip rfl
  · intro u hu
    rw [UInt16.ofNat_toNat] at hu
    obtain ⟨hresult, hstate⟩ := executeNext_of_unknown hu
    have hpc : m.cpu.advance = { m.cpu with pc := UInt16.ofNat ((pc + 2) % 4096) } := by
      rw [← Cpu.toNat_pc_advance, UInt16.ofNat_toNat]
      rfl
    rw [hstate, hpc]
    exact ⟨Except.ok.inj (hok.symm.trans hresult), rfl⟩

/-- At the end of memory, a skip for a number that is no key leads around to the third byte. -/
theorem step_leads_on_around_memory :
    let session : List Operation :=
      [.loadProgram [0x60, 0xE0, 0x61, 0xA1, 0xAF, 0xFE, 0xF1, 0x55, 0x1F, 0xFE], .runSteps 5]
    let m := (new {} 0).performAll session
    m.Reachable ∧ m.Running ∧ m.step.result = .ok .normal ∧ m.cpu.pc = 0xFFE ∧
      m.Skips 0xE0A1 ∧ m.step.state.cpu.pc.toNat = 0x002 := by
  intro session m
  have hm : m.Reachable := ⟨{}, 0, .chaCha, session, rfl⟩
  have hstate : m.fault = none ∧ m.awaiting = none ∧ m.step.result = .ok .normal ∧
      m.cpu.pc = 0xFFE ∧ m.cpu.memory.read 0xFFE = 0xE0 ∧ m.cpu.memory.read 0xFFF = 0xA1 ∧
      m.cpu.registerAt 0 = 0xE0 := by decide +kernel
  obtain ⟨hfault, hawaiting, hok, hpc, hhigh, hlow, hregister⟩ := hstate
  have hrun : m.Running := ⟨hfault, hawaiting⟩
  have hskips : m.Skips 0xE0A1 := by
    refine .keyUp rfl rfl ?_
    change ¬m.KeyDown (m.cpu.registerAt 0).toNat
    rw [hregister]
    rintro ⟨h, -⟩
    exact absurd h (by decide)
  obtain ⟨-, -, -, hskip, -, -⟩ := step_leads_on hm hrun hok
  rw [hpc] at hskip
  exact ⟨hm, hrun, hok, hpc, hskips, hskip (by simpa [hhigh, hlow] using hskips)⟩

end Machine
end Chip8
