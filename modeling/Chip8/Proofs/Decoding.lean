import Chip8.Instruction.Decode
import Mathlib.Tactic.Common

/-! # Words that control where the program goes on

A return has one word only; the calls, the jumps and most skips are the words of one family each, and
the two skips that look at a key share a family. All other words read as instructions that leave the
program counter and the call stack to the machine.
-/
namespace Chip8.Instruction

def usesStack : Instruction → Bool
  | .ret | .call _ => true
  | _ => false

/-- The instructions that move the program counter or the call stack by themselves. -/
def isControl : Instruction → Bool
  | .ret | .call _ | .jump _ | .jumpOffset _ | .skip _ => true
  | _ => false

theorem isControl_of_usesStack {i : Instruction} (h : i.usesStack = true) : i.isControl = true := by
  cases i with
  | ret | call address => rfl
  | _ => cases h

/-- What the words say that control where the program goes on. -/
inductive Control (w : Word) : Instruction → Prop
  | ret : w = 0x00EE → Control w .ret
  | jump : w.family = 0x1 → Control w (.jump w.nnn)
  | call : w.family = 0x2 → Control w (.call w.nnn)
  | equalsByte : w.family = 0x3 → Control w (.skip (.equalsByte w.x w.nn))
  | differsFromByte : w.family = 0x4 → Control w (.skip (.differsFromByte w.x w.nn))
  | equals : w.family = 0x5 → Control w (.skip (.equals w.x w.y))
  | differs : w.family = 0x9 → Control w (.skip (.differs w.x w.y))
  | jumpOffset : w.family = 0xB → Control w (.jumpOffset w.nnn)
  | keyDown : w.family = 0xE → w.nn = 0x9E → Control w (.skip (.keyDown w.x))
  | keyUp : w.family = 0xE → w.nn = 0xA1 → Control w (.skip (.keyUp w.x))

theorem Control.decode_eq {w : Word} {i : Instruction} (h : Control w i) : decode w = i := by
  cases h with
  | ret hw =>
    subst hw
    rfl
  | keyDown hw hn | keyUp hw hn =>
    unfold decode
    rw [hw]
    simp only [decodeKey, hn]
    rfl
  | jump hw | call hw | equalsByte hw | differsFromByte hw | equals hw | differs hw
  | jumpOffset hw =>
    unfold decode
    rw [hw]
    rfl

theorem isControl_decodeSystem {w : Word} (h : (decodeSystem w).isControl = true) :
    w = 0x00EE := by
  by_contra hw
  simp only [decodeSystem, if_neg hw] at h
  split_ifs at h <;> cases h

theorem isControl_decodeArithmetic (w : Word) : (decodeArithmetic w).isControl = false := by
  unfold decodeArithmetic
  split <;> rfl

theorem isControl_decodeMisc (w : Word) : (decodeMisc w).isControl = false := by
  unfold decodeMisc
  split <;> rfl

theorem control_decodeKey {w : Word} (hw : w.family = 0xE)
    (h : (decodeKey w).isControl = true) : Control w (decodeKey w) := by
  unfold decodeKey at h ⊢
  split at h
  · exact .keyDown hw (UInt8.toNat_inj.1 ‹_›)
  · exact .keyUp hw (UInt8.toNat_inj.1 ‹_›)
  · cases h

theorem control_decode {w : Word} (h : (decode w).isControl = true) : Control w (decode w) := by
  unfold decode at h ⊢
  split at h
  case h_1 =>
    obtain rfl := isControl_decodeSystem h
    exact .ret rfl
  case h_2 hw => exact .jump (Fin.ext hw)
  case h_3 hw => exact .call (Fin.ext hw)
  case h_4 hw => exact .equalsByte (Fin.ext hw)
  case h_5 hw => exact .differsFromByte (Fin.ext hw)
  case h_6 hw => exact .equals (Fin.ext hw)
  case h_9 => exact absurd h (by simp [isControl_decodeArithmetic])
  case h_10 hw => exact .differs (Fin.ext hw)
  case h_12 hw => exact .jumpOffset (Fin.ext hw)
  case h_15 hw => exact control_decodeKey (Fin.ext hw) h
  case h_16 => exact absurd h (by simp [isControl_decodeMisc])
  all_goals cases h

/-- Only one word is a return, and only the words of one family are calls. -/
theorem usesStack_decode {w : Word} (h : (decode w).usesStack = true) :
    w = 0x00EE ∨ w.family = 2 := by
  have hcontrol := control_decode (isControl_of_usesStack h)
  generalize decode w = i at h hcontrol
  cases hcontrol with
  | ret hw => exact Or.inl hw
  | call hw => exact Or.inr hw
  | _ => cases h

theorem decode_of_family_two {w : Word} (h : w.family = 2) : decode w = .call w.nnn :=
  (Control.call h).decode_eq

theorem decode_eq_ret_iff {w : Word} : decode w = .ret ↔ w = 0x00EE := by
  refine ⟨?_, fun hw => (Control.ret hw).decode_eq⟩
  intro h
  rcases usesStack_decode (w := w) (by rw [h]; rfl) with hw | hw
  · exact hw
  · cases h.symm.trans (decode_of_family_two hw)

theorem family_of_decode_call {w : Word} {a : UInt16} (h : decode w = .call a) :
    w.family = 2 := by
  rcases usesStack_decode (w := w) (by rw [h]; rfl) with rfl | hw
  · cases h
  · exact hw

end Chip8.Instruction
