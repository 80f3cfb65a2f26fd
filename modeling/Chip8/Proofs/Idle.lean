import Chip8.Machine.Operation
import Chip8.Proofs.Execution

/-! # Machines whose program stands still

While a machine has faulted, or waits for a key, the program makes no progress: what a host does
then reaches the keys, the memory, the timers and the keeping of time, each through its own
operations, and nothing else.
-/
namespace Chip8

namespace Operation

def isLoad : Operation → Bool
  | .loadProgram _ => true
  | _ => false

def isKey : Operation → Bool
  | .pressKey _ | .releaseKey _ | .setKey _ _ | .clearKeys => true
  | _ => false

def isPress : Operation → Bool
  | .pressKey _ => true
  | .setKey _ pressed => pressed
  | _ => false

/-- Operations that set how time is kept. -/
def isTiming : Operation → Bool
  | .setTiming _ | .setRate _ => true
  | _ => false

end Operation

namespace Machine

/-- The program has gone no further from one machine to another. -/
structure SameProgress (m n : Machine) : Prop where
  registers : n.cpu.v = m.cpu.v
  index : n.cpu.index = m.cpu.index
  control : m.cpu.SameControl n.cpu
  screen : n.screen = m.screen
  random : n.random = m.random
  awaiting : n.awaiting = m.awaiting
  exitRequested : n.exitRequested = m.exitRequested
  lastCost : n.lastCost = m.lastCost
  fault : n.fault = m.fault

namespace SameProgress

theorem refl (m : Machine) : m.SameProgress m :=
  ⟨rfl, rfl, ⟨rfl, rfl, rfl⟩, rfl, rfl, rfl, rfl, rfl, rfl⟩

theorem trans {m n o : Machine} (h : m.SameProgress n) (h' : n.SameProgress o) :
    m.SameProgress o where
  registers := h'.registers.trans h.registers
  index := h'.index.trans h.index
  control := ⟨h'.control.pc.trans h.control.pc, h'.control.sp.trans h.control.sp,
    h'.control.slots.trans h.control.slots⟩
  screen := h'.screen.trans h.screen
  random := h'.random.trans h.random
  awaiting := h'.awaiting.trans h.awaiting
  exitRequested := h'.exitRequested.trans h.exitRequested
  lastCost := h'.lastCost.trans h.lastCost
  fault := h'.fault.trans h.fault

end SameProgress

/-- What a host reaches in a machine whose program stands still, by the operations it uses. -/
structure Untouched (operations : List Operation) (m n : Machine) : Prop extends
    SameProgress m n where
  memory : (∀ o ∈ operations, o.isLoad = false) → n.cpu.memory = m.cpu.memory
  keypad : (∀ o ∈ operations, o.isKey = false) → n.keypad = m.keypad
  timing : (∀ o ∈ operations, o.isTiming = false) →
    n.settings = m.settings ∧ n.clock.period = m.clock.period ∧ n.owed = m.owed
  legacyShift : n.settings.legacyShift = m.settings.legacyShift
  legacyMemory : n.settings.legacyMemory = m.settings.legacyMemory
  seed : n.settings.seed = m.settings.seed

namespace Untouched

theorem refl (operations : List Operation) (m : Machine) : Untouched operations m m where
  toSameProgress := .refl m
  memory _ := rfl
  keypad _ := rfl
  timing _ := ⟨rfl, rfl, rfl⟩
  legacyShift := rfl
  legacyMemory := rfl
  seed := rfl

theorem cons {operation : Operation} {rest : List Operation} {m n o : Machine}
    (h : Untouched [operation] m n) (h' : Untouched rest n o) :
    Untouched (operation :: rest) m o where
  toSameProgress := h.toSameProgress.trans h'.toSameProgress
  memory hall := by
    obtain ⟨hhead, htail⟩ := List.forall_mem_cons.1 hall
    exact (h'.memory htail).trans (h.memory (by simpa using hhead))
  keypad hall := by
    obtain ⟨hhead, htail⟩ := List.forall_mem_cons.1 hall
    exact (h'.keypad htail).trans (h.keypad (by simpa using hhead))
  timing hall := by
    obtain ⟨hhead, htail⟩ := List.forall_mem_cons.1 hall
    obtain ⟨hs, hp, ho⟩ := h.timing (by simpa using hhead)
    obtain ⟨hs', hp', ho'⟩ := h'.timing htail
    exact ⟨hs'.trans hs, hp'.trans hp, ho'.trans ho⟩
  legacyShift := h'.legacyShift.trans h.legacyShift
  legacyMemory := h'.legacyMemory.trans h.legacyMemory
  seed := h'.seed.trans h.seed

theorem of_time (operations : List Operation) (m : Machine) (timers : Timers) (pending : Nat) :
    Untouched operations m { m with timers, clock := { m.clock with pending } } :=
  { refl operations m with }

theorem loadProgram (m : Machine) (program : List UInt8) :
    Untouched [.loadProgram program] m (m.loadProgram program) :=
  { refl _ m with
    control := ⟨rfl, rfl, rfl⟩
    memory := fun hall => by simp [Operation.isLoad] at hall }

theorem of_keypad {operation : Operation} (hk : operation.isKey = true) (m : Machine)
    (keypad : Keypad) : Untouched [operation] m { m with keypad } :=
  { refl _ m with keypad := fun hall => by simp [hk] at hall }

theorem setTiming (m : Machine) (timing : Timing) :
    Untouched [.setTiming timing] m (m.setTiming timing) :=
  { refl _ m with timing := fun hall => by simp [Operation.isTiming] at hall }

theorem setRate (m : Machine) (hz : UInt64) : Untouched [.setRate hz] m (m.setRate hz) :=
  { refl _ m with timing := fun hall => by simp [Operation.isTiming] at hall }

end Untouched

end Machine
end Chip8
