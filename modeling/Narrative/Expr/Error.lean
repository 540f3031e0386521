import Narrative.Expr.Operator
import Narrative.Decimal

/-!
# Expression errors

The ways in which compiling or evaluating an expression fails, each with the values its message
shows.
-/

namespace Narrative

/-- Why an expression has no value. -/
inductive ExprError where
  /-- A character that begins no token. -/
  | unknownOperator (c : Char) (position : Nat)
  /-- Parentheses or commas that do not pair up. -/
  | mismatchedParens
  /-- An operator or call without its operands. -/
  | missingParameters (symbol : String)
  /-- Values that no operator combines. -/
  | tooManyValues
  /-- Nothing to evaluate. -/
  | empty
  /-- A name that is neither a value nor callable. -/
  | unknownIdentifier (name : String)
  /-- A function called with the wrong number of arguments. -/
  | arity (name : String) (expected found : Nat)
  /-- A method that its receiver does not have. -/
  | unknownMethod (object method : String)
  /-- A method of the host that reported a failure. -/
  | hostMethod (object method message : String)
  /-- An arithmetic operation without a result. -/
  | arithmetic (fault : Decimal.Fault)
  /-- Operands of types the operator does not accept. -/
  | typeMismatch (op : Operator) (types : List String)
  /-- A failure inside the body of a function of the story. -/
  | function (name message : String)
deriving DecidableEq, Repr

namespace ExprError

/-- The text of an error as the author of a story sees it. -/
def message : ExprError → String
  | unknownOperator c position =>
    "Unknown operator '" ++ String.singleton c ++ "' at position " ++ toString position
  | mismatchedParens => "Mismatched parentheses"
  | missingParameters symbol => "Missing parameter(s) for operator or function " ++ symbol
  | tooManyValues => "Too many numbers or values"
  | empty => "Empty expression"
  | unknownIdentifier name => "Unknown operator or function: " ++ name
  | arity name expected found =>
    "Function " ++ name ++ " expects " ++ toString expected ++ " parameter(s), found " ++
      toString found
  | unknownMethod object method => "Could not identify the method " ++ method ++ " on " ++ object
  | hostMethod object method message =>
    "Method " ++ object ++ "." ++ method ++ " failed: " ++ message
  | arithmetic fault => fault.message
  | typeMismatch op types =>
    "Operator " ++ op.symbol ++ " cannot be applied to " ++ " and ".intercalate types
  | function name message => "Error in function " ++ name ++ ": " ++ message

end ExprError

end Narrative
