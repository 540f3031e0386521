import Narrative.Expr.Eval

/-!
# Built-in functions

The functions that every story can call. Their names are recognised in any mix of upper and lower
case.
-/

namespace Narrative

/-- A function of the language. -/
inductive Builtin where
  /-- Whether a value is absent. -/
  | isNull
  /-- The absent value. -/
  | getNull
  /-- Whether a truth value or a number is false. -/
  | not
  /-- A random integer below a bound. -/
  | random
  /-- Whether a text or reference names the container being played. -/
  | isKnot
  /-- A number without its fraction. -/
  | floor
deriving DecidableEq, Repr

namespace Builtin

/-- The function of a name. -/
def ofName? (name : String) : Option Builtin :=
  match String.ofList (name.toList.map Char.toLower) with
  | "isnull" => some isNull
  | "getnull" => some getNull
  | "not" => some not
  | "random" => some random
  | "isknot" => some isKnot
  | "floor" => some floor
  | _ => none

/-- Whether a name is that of a function of the language. -/
def isName (name : String) : Bool :=
  (ofName? name).isSome

/-- The number of arguments of a function. -/
def arity : Builtin → Nat
  | getNull => 0
  | _ => 1

/-- The number in a value; values of other types count as zero. -/
def numberOf (v : Value) : Decimal :=
  v.number?.getD .zero

/-- The negation of a truth value or of the integer part of a number; other values negate to
false. -/
def negation : Value → Bool
  | .bool b => !b
  | .number n => n.toInt64 == 0
  | _ => false

/-- Whether a value names the container that the name `this` stands for. -/
def names (v this : Value) : Bool :=
  match v, this with
  | .str s, .str this => s == this
  | .container id, .str this => id == this
  | _, _ => false

variable {σ : Type}

/-- The result of a function for arguments of the right number, the first of which is `v`. -/
def apply (ctx : Context σ) (v : Value) : Builtin → Eval σ Value
  | isNull => pure (.bool v.isNull)
  | getNull => pure .null
  | not => pure (.bool (negation v))
  | random =>
    let bound := (numberOf v).toInt64
    if bound ≤ 0 then pure (.number .zero)
    else do return .int (← ctx.draw bound.toNat)
  | isKnot => do return .bool (names v (ctx.value (← get) "this"))
  | floor => pure (.number (numberOf v).trunc)

/-- Calls a function under the name it was written with. -/
def call (ctx : Context σ) (f : Builtin) (name : String) (args : List Value) : Eval σ Value :=
  if args.length = f.arity then f.apply ctx (args.headD .null)
  else throw (.arity name f.arity args.length)

end Builtin

/-- Calls the built-in function of a name, if there is one. -/
def Context.callBuiltin? {σ : Type} (ctx : Context σ) (name : String) (args : List Value) :
    Option (Eval σ Value) :=
  (Builtin.ofName? name).map fun f => f.call ctx name args

end Narrative
