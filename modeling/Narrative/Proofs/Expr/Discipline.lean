import Narrative.Directive
import Narrative.Proofs.Computation
import Narrative.Story.Function

/-!
# What evaluation inherits from its context

Evaluating an expression, checking conditions and resolving the directives of a text do nothing but
ask their context. Whatever property of computations the answers of the context have, these have it
too.
-/

namespace Narrative

variable {σ : Type} [Nonempty σ]

/-- What a context answers has the property. -/
structure Context.Obeys (D : Discipline σ) (ctx : Context σ) : Prop where
  /-- Looking up which names are known. -/
  names : D.Allows (do return ctx.names (← get))
  /-- Looking up the value of a name. -/
  value (name : String) : D.Allows (do return ctx.value (← get) name)
  /-- Calling a function. -/
  call (name : String) (args : List Value) : D.AllowsAttempt (ctx.call name args)
  /-- Drawing a random number. -/
  draw (bound : Nat) : D.Allows (ctx.draw bound)

namespace Context.Obeys

open Discipline

variable {D : Discipline σ} {ctx : Context σ} (h : ctx.Obeys D)

include h

/-- Calling a function is allowed for. -/
theorem invoke (callee : Callee) (args : List Value) :
    D.AllowsAttempt (ctx.invoke callee args) := by
  cases callee with
  | function name => exact h.call name args
  | method object name =>
    exact attempt_consult (h.value object) (fun s t e => by simp only [e]) fun s =>
      attempt_result (ctx.callMethod (ctx.value s object) object name args)

/-- A step of an expression is allowed for. -/
theorem step (stack : List Slot) (s : Step) : D.AllowsAttempt (ctx.step stack s) := by
  cases s with
  | literal | arguments => exact attempt_pure _
  | «variable» name =>
    exact attempt_consult (h.value name) (fun s t e => by simp only [e]) fun s => attempt_pure _
  | operator op =>
    refine attempt_bind (attempt_result _) fun (v, stack) => ?_
    simp only
    split
    · exact attempt_bind (attempt_result _) fun _ => attempt_pure _
    · exact attempt_bind (attempt_result _) fun _ =>
        attempt_bind (attempt_result _) fun _ => attempt_pure _
  | call callee =>
    exact attempt_bind (attempt_result _) fun _ =>
      attempt_bind (h.invoke callee _) fun _ => attempt_pure _

/-- Several steps are allowed for. -/
theorem steps (steps : List Step) (stack : List Slot) :
    D.AllowsAttempt (ctx.steps steps stack) := by
  induction steps generalizing stack with
  | nil => exact attempt_pure _
  | cons s steps ih => exact attempt_bind (h.step stack s) ih

/-- Evaluating an expression is allowed for. -/
theorem eval (e : Expr) : D.AllowsAttempt (ctx.eval e) := by
  refine attempt_bind (h.steps e.steps []) fun stack => ?_
  refine attempt_bind (attempt_result _) fun (v, stack) => ?_
  simp only
  split
  · exact attempt_pure _
  · exact attempt_throw _

/-- Evaluating the text of an expression has the property. -/
theorem evalText (source : List Char) : D.AllowsAttempt (ctx.evalText source) :=
  attempt_consult h.names (fun s t e => by simp only [e]) fun s =>
    attempt_bind (attempt_result (Expr.compile (ctx.names s) source)) h.eval

/-- Finding out whether a condition holds is allowed for. -/
theorem holds (source : String) : D.Allows (ctx.holds source) := by
  refine D.bind (h.evalText source.toList) fun r => ?_
  cases r <;> exact D.pure _

/-- Finding out whether several conditions hold is allowed for. -/
theorem allHold (sources : List String) : D.Allows (ctx.allHold sources) := by
  induction sources with
  | nil => exact D.pure _
  | cons source rest ih =>
    refine D.bind (h.holds source) fun b => ?_
    cases b with
    | true => exact ih
    | false => exact D.pure _

/-- Looking for the first guard that holds is allowed for. -/
theorem firstHolding (guards : List (Option String)) : D.Allows (ctx.firstHolding guards) := by
  induction guards with
  | nil => exact D.pure _
  | cons guard rest ih =>
    cases guard with
    | none => exact D.pure _
    | some source =>
      refine D.bind (h.holds source) fun b => ?_
      cases b with
      | true => exact D.pure _
      | false => exact D.bind ih fun _ => D.pure _

/-- Choosing an option is allowed for. -/
theorem chooseOption (mode : BlockMode) (options : List BlockOption) (count : Nat) :
    D.Allows (ctx.chooseOption mode options count) := by
  cases mode with
  | conditional => exact h.firstHolding _
  | shuffle =>
    change D.Allows (if options.isEmpty then return 0 else ctx.draw options.length)
    split
    · exact D.pure _
    · exact h.draw _
  | stopping | cycle | once => exact D.pure _

/-- Resolving a directive is allowed for. -/
theorem resolve (count : Nat) (d : Directive) : D.Allows (d.resolve ctx count) := by
  cases d with
  | conditional condition options | indexed condition options | value condition =>
    refine D.bind (h.evalText condition) fun r => ?_
    cases r <;> exact D.pure _
  | shuffle options => exact D.bind (h.draw _) fun _ => D.pure _
  | cycle options | once options | stopping options => exact D.pure _

/-- Replacing the directives in front is allowed for. -/
theorem expandBefore (count : Nat) (left right : List Char) :
    D.Allows (Directive.expandBefore ctx count left right) := by
  induction left generalizing right with
  | nil => exact D.pure _
  | cons c left ih =>
    unfold Directive.expandBefore
    split
    · split
      · exact D.pure _
      · exact D.bind (h.resolve count _) fun resolved => ih _
    · exact ih _

/-- Resolving the directives of a text has the property. -/
theorem expand (count : Nat) (text : List Char) : D.Allows (Directive.expand ctx count text) :=
  h.expandBefore count text.reverse []

/-- Applying a function of the language is allowed for. -/
theorem apply (v : Value) (f : Builtin) : D.AllowsAttempt (f.apply ctx v) := by
  cases f with
  | random =>
    unfold Builtin.apply
    simp only
    split
    · exact attempt_pure _
    · exact attempt_bind (attempt_lift (h.draw _)) fun _ => attempt_pure _
  | isKnot =>
    exact attempt_consult (h.value "this") (fun s t e => by simp only [e]) fun s => attempt_pure _
  | isNull | getNull | not | floor => exact attempt_pure _

/-- Calling a function of the language has the property. -/
theorem callBuiltin {name : String} {args : List Value} {x : Eval σ Value}
    (hx : ctx.callBuiltin? name args = some x) : D.AllowsAttempt x := by
  obtain ⟨f, _, rfl⟩ := Option.map_eq_some_iff.1 hx
  unfold Builtin.call
  split
  · exact h.apply _ f
  · exact attempt_throw _

end Context.Obeys

end Narrative
