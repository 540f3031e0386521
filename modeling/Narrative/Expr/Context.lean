import Narrative.Expr.Error
import Narrative.Value

/-!
# Evaluation contexts

An expression is evaluated against a context that knows the variables, calls functions and draws
random numbers. Evaluation threads the state of the context; a step that fails keeps the state it
has reached, and a computation that does not finish is told apart from one that fails.
-/

namespace Narrative

/-- A computation over a state, without a result when it does not finish. -/
abbrev Run (σ : Type) := StateT σ Option

/-- A computation that may fail with an error and keeps the state it has reached then. -/
abbrev Eval (σ : Type) := ExceptT ExprError (Run σ)

/-- The names an expression may use. -/
structure Names where
  /-- Whether a name stands for a value. -/
  hasVariable : String → Bool
  /-- Whether a name can be called. -/
  hasFunction : String → Bool

/-- What an expression is evaluated against. -/
structure Context (σ : Type) where
  /-- The names known in a state. -/
  names : σ → Names
  /-- The value of a name; a name without one is null. -/
  value : σ → String → Value
  /-- Calls a function with evaluated arguments. -/
  call : String → List Value → Eval σ Value
  /-- Calls a method of the host's object with the given key; none when it has no such method. -/
  method : (key method : String) → List Value → Option (Except String Value)
  /-- Draws an index below a positive bound. -/
  roll : (bound : Nat) → σ → Nat × σ

namespace Context

variable {σ : Type}

/-- Draws an index below a positive bound as a computation. -/
def draw (ctx : Context σ) (bound : Nat) : Run σ Nat := do
  let (index, state) := ctx.roll bound (← get)
  set state
  return index

end Context

end Narrative
