import Narrative.Decimal.Literal

/-!
# Values

What a variable of a story holds and what an expression evaluates to. Objects of the host are
opaque: a story knows them by their key only.
-/

namespace Narrative

/-- A value of the story language. -/
inductive Value where
  /-- The absence of a value. -/
  | null
  /-- A truth value; reading a variable turns it into a number. -/
  | bool (b : Bool)
  /-- A decimal number. -/
  | number (n : Decimal)
  /-- A text. -/
  | str (s : String)
  /-- A reference to a container of the story by its id. -/
  | container (id : String)
  /-- An object of the host by its key. -/
  | object (key : String)
deriving DecidableEq, Repr, Inhabited

namespace Value

/-- The number nearest to an integer. -/
def int (n : Int) : Value :=
  number (.ofInt n)

/-- A truth value as the number one or zero. -/
def truth (b : Bool) : Value :=
  number (.ofBool b)

/-- What a value looks like in the text of a story. -/
def text : Value → String
  | null => ""
  | bool b => if b then "true" else "false"
  | number n => n.text
  | str s => s
  | container id => id
  | object key => key

/-- Whether a value counts as true: a number must have a positive integer part, a text must not be
empty, and references always count. -/
def holds : Value → Bool
  | null => false
  | bool b => b
  | number n => decide (0 < n.toInt64)
  | str s => !s.isEmpty
  | container _ => true
  | object _ => true

/-- The number that arithmetic sees in a value; truth values count as one and zero. -/
def number? : Value → Option Decimal
  | number n => some n
  | bool b => some (.ofBool b)
  | _ => none

/-- Whether the value is absent. -/
def isNull (v : Value) : Bool :=
  v == null

/-- The name of a value's type in messages. -/
def typeName : Value → String
  | null => "null"
  | bool _ => "boolean"
  | number _ => "number"
  | str _ => "string"
  | container _ => "container"
  | object _ => "object"

/-- What reading a variable yields: truth values become numbers. -/
def read : Value → Value
  | bool b => truth b
  | v => v

/-- Whether two values are equal in an expression, where truth values count as numbers. -/
def agree (v w : Value) : Bool :=
  match v.number?, w.number? with
  | some x, some y => x == y
  | _, _ => v == w

end Value

end Narrative
