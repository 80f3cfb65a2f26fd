import Chip8.Log

/-! # Outcomes

What an operation leaves behind: the state after it, its result or the fault that stopped it, and
the notices it gave. Notices are kept newest first, so that a long run can add to them cheaply.
-/
namespace Chip8

structure Outcome (σ α : Type) where
  state : σ
  result : Except Fault α
  notices : List Notice := []

namespace Outcome
variable {σ α β : Type}

def map (f : α → β) (o : Outcome σ α) : Outcome σ β :=
  ⟨o.state, o.result.map f, o.notices⟩

theorem map_error_iff {f : α → β} {o : Outcome σ α} {e : Fault} :
    (o.map f).result = .error e ↔ o.result = .error e := by
  cases hr : o.result <;> simp [map, hr, Except.map]

def mapState {τ : Type} (f : σ → τ) (o : Outcome σ α) : Outcome τ α :=
  ⟨f o.state, o.result, o.notices⟩

/-- The notices in the order in which they were given. -/
def log (o : Outcome σ α) : List Notice := o.notices.reverse

end Outcome
end Chip8
