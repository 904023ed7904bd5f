import CurveMarket.Error.Basic

/-!
# Actions

An action changes a state and may fail. When it fails the state stays as it was at that moment, so
what a failed action leaves behind is part of its meaning.
-/

namespace CurveMarket

/-- A step on a state `σ` that ends with a result or an error, and with a state in both cases. -/
abbrev Action (σ α : Type) := EStateM Error σ α

namespace Action

variable {σ τ α : Type}

def ofExcept : Except Error α → Action σ α
  | .ok a => pure a
  | .error e => throw e

instance : MonadLift (Except Error) (EStateM Error σ) := ⟨ofExcept⟩

/-- Runs an action on a part of the state. -/
def focus (part : τ → σ) (replace : τ → σ → τ) (a : Action σ α) : Action τ α := fun t =>
  match a (part t) with
  | .ok x s => .ok x (replace t s)
  | .error e s => .error e (replace t s)

def stateAfter (a : Action σ α) (s : σ) : σ :=
  match a s with
  | .ok _ s' => s'
  | .error _ s' => s'

def outcome (a : Action σ α) (s : σ) : Except Error α :=
  match a s with
  | .ok x _ => .ok x
  | .error e _ => .error e

end Action

end CurveMarket
