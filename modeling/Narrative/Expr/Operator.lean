/-!
# Operators

The operators of the expression language with their binding strength, their associativity and the
way they are written.
-/

namespace Narrative

/-- An operator of the expression language. -/
inductive Operator where
  | or | and | eq | ne | lt | le | gt | ge | add | sub | mul | div | rem | pow | neg
deriving DecidableEq, Repr

namespace Operator

/-- How strongly an operator binds its operands. -/
def precedence : Operator → Nat
  | or => 1
  | and => 2
  | eq | ne => 3
  | lt | le | gt | ge => 4
  | add | sub => 5
  | mul | div | rem => 6
  | pow => 7
  | neg => 8

/-- Whether a chain of the operator is grouped from the right. -/
def rightAssociative : Operator → Bool
  | pow | neg => true
  | _ => false

/-- The number of operands. -/
def arity : Operator → Nat
  | neg => 1
  | _ => 2

/-- The operator as it is written in messages. -/
def symbol : Operator → String
  | or => "||"
  | and => "&&"
  | eq => "=="
  | ne => "!="
  | lt => "<"
  | le => "<="
  | gt => ">"
  | ge => ">="
  | add => "+"
  | sub => "-"
  | mul => "*"
  | div => "/"
  | rem => "%"
  | pow => "^"
  | neg => "-"

/-- Whether an operator waiting for its right operand takes it before `next` does. -/
def yieldsBefore (waiting next : Operator) : Bool :=
  next.precedence < waiting.precedence ||
    (waiting.precedence == next.precedence && !next.rightAssociative)

end Operator

end Narrative
