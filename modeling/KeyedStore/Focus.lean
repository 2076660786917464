/-!
# Steps on a part of a state

A step that knows only a part of a state, run on the whole: the part is taken out, stepped, and
put back, whether the step succeeds or fails.
-/

namespace KeyedStore

variable {ε σ τ α : Type}

/-- Runs a step on the part of the state that `get` takes out and `set` puts back. -/
def focus (get : σ → τ) (set : τ → σ → σ) (m : EStateM ε τ α) : EStateM ε σ α := fun s =>
  match m (get s) with
  | .ok a t => .ok a (set t s)
  | .error e t => .error e (set t s)

/-- A result that touches no state. -/
def liftResult : Except ε α → EStateM ε σ α
  | .ok a => pure a
  | .error e => throw e

/-- The outcome of a step as a value; the state goes on from where the step left it. -/
def outcome (m : EStateM ε σ α) : EStateM ε σ (Except ε α) := fun s =>
  match m s with
  | .ok a s => .ok (.ok a) s
  | .error e s => .ok (.error e) s

end KeyedStore
