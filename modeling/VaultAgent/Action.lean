/-!
# Actions

An action changes a state and gives a value or fails; what it did before it failed stays done.
Actions on a part of a state are actions on the whole of it.
-/

namespace VaultAgent

abbrev Action (ε σ α : Type) := EStateM ε σ α

namespace Action

variable {ε ε' σ τ α : Type}

/-- Runs an action on a part of the state. -/
def onPart (part : σ → τ) (replace : σ → τ → σ) (cause : ε' → ε) (a : Action ε' τ α) :
    Action ε σ α := fun s =>
  match a (part s) with
  | .ok x t => .ok x (replace s t)
  | .error e t => .error (cause e) (replace s t)

/-- Runs an action and gives its failure as a value. -/
def attempt (a : Action ε' σ α) : Action ε σ (Except ε' α) := fun s =>
  match a s with
  | .ok x t => .ok (.ok x) t
  | .error e t => .ok (.error e) t

/-- Goes on with a value, or fails with a cause. -/
def ofExcept (cause : ε' → ε) : Except ε' α → Action ε σ α
  | .ok x => pure x
  | .error e => throw (cause e)

end Action

end VaultAgent
