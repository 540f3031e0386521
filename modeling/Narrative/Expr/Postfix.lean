import Narrative.Expr.Context
import Narrative.Expr.Token

/-!
# Postfix form

An expression is compiled to a sequence of steps for a stack of values: operands first, then the
operator, with a mark where the arguments of a call begin. Operators wait on a second stack until
their right operand is complete. The compiled form is checked for operand counts before it is
evaluated.
-/

namespace Narrative

/-- Something that can be called. -/
inductive Callee where
  /-- A function of the story or of the language. -/
  | function (name : String)
  /-- A method of the object that a name stands for. -/
  | method (object name : String)
deriving DecidableEq, Repr

/-- One step of a compiled expression. -/
inductive Step where
  /-- Pushes a constant. -/
  | literal (v : Value)
  /-- Pushes the value of a name. -/
  | variable (name : String)
  /-- Combines the topmost values. -/
  | operator (op : Operator)
  /-- Marks where the arguments of a call begin. -/
  | arguments
  /-- Calls with the values above the topmost mark. -/
  | call (callee : Callee)
deriving DecidableEq, Repr

/-- What waits for the end of its operands or arguments. -/
inductive Pending where
  /-- An operator. -/
  | operator (op : Operator)
  /-- An open parenthesis, of a group or of an argument. -/
  | paren
  /-- A callee whose arguments are being read. -/
  | callee (c : Callee)
deriving DecidableEq, Repr

/-- The callee a name stands for: a function, or a method of a known object. -/
def Callee.ofName? (names : Names) (name : String) : Option Callee :=
  if names.hasFunction name then some (.function name)
  else
    match Text.lastCut? '.' name.toList with
    | none => none
    | some (object, member) =>
      if !member.isEmpty && names.hasVariable (String.ofList object) then
        some (.method (String.ofList object) (String.ofList member))
      else none

namespace Pending

/-- The operators on top of the stack that take their right operand before `op` does. -/
def yielding (op : Operator) : List Pending → List Step × List Pending
  | .operator top :: stack =>
    if top.yieldsBefore op then
      let (steps, stack) := yielding op stack
      (.operator top :: steps, stack)
    else ([], .operator top :: stack)
  | stack => ([], stack)

/-- The operators above the topmost parenthesis, and the stack below it. -/
def group? : List Pending → Option (List Step × List Pending)
  | .paren :: stack => some ([], stack)
  | .operator op :: stack => (group? stack).map fun (steps, stack) => (.operator op :: steps, stack)
  | _ => none

/-- The operators left at the end, if nothing else is. -/
def finish? : List Pending → Option (List Step)
  | [] => some []
  | .operator op :: stack => (finish? stack).map (.operator op :: ·)
  | _ => none

end Pending

namespace Step

/-- What follows steps that are already known. -/
def follow (steps : List Step) (rest : Except ExprError (List Step)) :
    Except ExprError (List Step) :=
  rest.map (steps ++ ·)

/-- The steps for a sequence of tokens, given what is pending. -/
def ofTokens (names : Names) : List Token → List Pending → Except ExprError (List Step)
  | [], stack => (Pending.finish? stack).elim (.error .mismatchedParens) .ok
  | .finish :: _, stack => (Pending.finish? stack).elim (.error .mismatchedParens) .ok
  | .number n :: tokens, stack => follow [.literal (.number n)] (ofTokens names tokens stack)
  | .str s :: tokens, stack => follow [.literal (.str s)] (ofTokens names tokens stack)
  | .ident name :: tokens, stack =>
    if names.hasVariable name then follow [.variable name] (ofTokens names tokens stack)
    else
      match Callee.ofName? names name with
      | none => .error (.unknownIdentifier name)
      | some callee =>
        if tokens.head? = some .opening then
          follow [.arguments] (ofTokens names tokens (.callee callee :: stack))
        else follow [.arguments, .call callee] (ofTokens names tokens stack)
  | .operator op :: tokens, stack =>
    let (steps, stack) := Pending.yielding op stack
    follow steps (ofTokens names tokens (.operator op :: stack))
  | .opening :: tokens, stack => ofTokens names tokens (.paren :: stack)
  | .comma :: tokens, stack =>
    match Pending.group? stack with
    | none => .error .mismatchedParens
    | some (steps, stack) => follow steps (ofTokens names tokens (.paren :: stack))
  | .closing :: tokens, stack =>
    match Pending.group? stack with
    | none => .error .mismatchedParens
    | some (steps, .callee callee :: stack) =>
      follow (steps ++ [.call callee]) (ofTokens names tokens stack)
    | some (steps, stack) => follow steps (ofTokens names tokens stack)
  | .unknown c position :: _, _ => .error (.unknownOperator c position)

/-- Checks operand counts: `top` values lie above the topmost mark, and `below` counts the values
between the marks under it. -/
def check : List Step → (top : Nat) → (below : List Nat) → Except ExprError Unit
  | [], _, _ :: _ => .error (.missingParameters "(")
  | [], 0, [] => .error .empty
  | [], 1, [] => .ok ()
  | [], _, [] => .error .tooManyValues
  | .literal _ :: steps, top, below => check steps (top + 1) below
  | .variable _ :: steps, top, below => check steps (top + 1) below
  | .operator op :: steps, top, below =>
    if top < op.arity then .error (.missingParameters op.symbol)
    else check steps (top + 1 - op.arity) below
  | .arguments :: steps, top, below => check steps 0 (top :: below)
  | .call _ :: _, _, [] => .error .mismatchedParens
  | .call _ :: steps, _, outer :: below => check steps (outer + 1) below

end Step

/-- A compiled expression whose operand counts have been checked. -/
structure Expr where
  /-- The steps in order. -/
  steps : List Step
deriving DecidableEq, Repr

namespace Expr

/-- Compiles a sequence of tokens. Names are classified here, so the result fits contexts that know
the same names. -/
def ofTokens (names : Names) (tokens : List Token) : Except ExprError Expr := do
  let steps ← Step.ofTokens names tokens []
  Step.check steps 0 []
  return ⟨steps⟩

/-- Compiles the text of an expression. -/
def compile (names : Names) (source : List Char) : Except ExprError Expr :=
  ofTokens names (Token.ofChars source)

end Expr

end Narrative
