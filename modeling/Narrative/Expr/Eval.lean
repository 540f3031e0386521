import Narrative.Expr.Postfix

/-!
# Evaluation

A compiled expression is run over a stack of values and argument marks. Operators compare and
combine values; a call passes the values above the topmost mark in the order they were pushed.
-/

namespace Narrative

namespace Operator

/-- The error of an operator applied to two values it does not accept. -/
def mismatch (op : Operator) (x y : Value) : ExprError :=
  .typeMismatch op [x.typeName, y.typeName]

/-- Whether a comparison operator holds for an order; none for other operators. -/
def judge? (op : Operator) (order : Ordering) : Option Bool :=
  match op with
  | lt => some order.isLT
  | le => some order.isLE
  | gt => some order.isGT
  | ge => some order.isGE
  | _ => none

/-- An arithmetic operator applied to two numbers; none for other operators. The exponent of a
power is its integer part. -/
def calculate? (op : Operator) (x y : Decimal) : Option (Except Decimal.Fault Decimal) :=
  match op with
  | add => some (.ok (x.add y))
  | sub => some (.ok (x.sub y))
  | mul => some (.ok (x.mul y))
  | div => some (x.div y)
  | rem => some (x.rem y)
  | pow => some (x.pow y.toInt64)
  | _ => none

/-- An operator applied to two texts. -/
def applyTexts (op : Operator) (s t : String) : Except ExprError Value :=
  match op.judge? (Ord.compare s t) with
  | some b => .ok (.truth b)
  | none => .error (op.mismatch (.str s) (.str t))

/-- An operator applied to two numbers, which stand for the values `v` and `w` in messages. -/
def applyNumbers (op : Operator) (v w : Value) (x y : Decimal) : Except ExprError Value :=
  match op.calculate? x y, op.judge? (x.compare y) with
  | some (.ok n), _ => .ok (.number n)
  | some (.error fault), _ => .error (.arithmetic fault)
  | none, some b => .ok (.truth b)
  | none, none => .error (op.mismatch v w)

/-- Whether a value is a text. -/
def isText : Value → Bool
  | .str _ => true
  | _ => false

/-- A binary operator applied to two values. Logic and equality accept all values, and adding a
text to any value joins their texts. -/
def applyBinary (op : Operator) (v w : Value) : Except ExprError Value :=
  match op with
  | and => .ok (.truth (v.holds && w.holds))
  | or => .ok (.truth (v.holds || w.holds))
  | eq => .ok (.truth (v.agree w))
  | ne => .ok (.truth (!v.agree w))
  | op =>
    if op == add && (isText v || isText w) then .ok (.str (v.text ++ w.text))
    else
      match v, w with
      | .str s, .str t => op.applyTexts s t
      | v, w =>
        match v.number?, w.number? with
        | some x, some y => op.applyNumbers v w x y
        | _, _ => .error (op.mismatch v w)

/-- A unary operator, which can only be the minus sign, applied to a value. -/
def applyUnary (op : Operator) (v : Value) : Except ExprError Value :=
  match v.number? with
  | some x => .ok (.number x.neg)
  | none => .error (.typeMismatch op [v.typeName])

end Operator

/-- An entry of the evaluation stack. -/
inductive Slot where
  /-- Where the arguments of a call begin. -/
  | mark
  /-- An operand or argument. -/
  | value (v : Value)
deriving DecidableEq, Repr

namespace Slot

/-- The topmost value and the stack below it. -/
def pop : List Slot → Except ExprError (Value × List Slot)
  | .value v :: stack => .ok (v, stack)
  | _ => .error (.missingParameters "value")

/-- The values above the topmost mark, the last pushed first, and the stack below the mark. -/
def popArguments : List Slot → Except ExprError (List Value × List Slot)
  | .mark :: stack => .ok ([], stack)
  | .value v :: stack => (popArguments stack).map fun (args, stack) => (v :: args, stack)
  | [] => .error .mismatchedParens

end Slot

namespace Context

variable {σ : Type}

/-- Calls a method of the value that the name `object` has. A receiver that is not set yields
zero. -/
def callMethod (ctx : Context σ) (receiver : Value) (object method : String) (args : List Value) :
    Except ExprError Value :=
  match receiver with
  | .object key =>
    match ctx.method key method args with
    | some (.ok v) => .ok v
    | some (.error message) => .error (.hostMethod object method message)
    | none => .error (.unknownMethod object method)
  | .null => .ok (.int 0)
  | .number n => if n.isZero then .ok (.int 0) else .error (.unknownMethod object method)
  | _ => .error (.unknownMethod object method)

/-- Calls a function or a method. -/
def invoke (ctx : Context σ) (callee : Callee) (args : List Value) : Eval σ Value :=
  match callee with
  | .function name => ctx.call name args
  | .method object name => do
    ExceptT.mk (pure (ctx.callMethod (ctx.value (← get) object) object name args))

/-- A result that does not touch the state, as a computation. -/
def result {α : Type} (r : Except ExprError α) : Eval σ α :=
  ExceptT.mk (pure r)

/-- The stack after one step. -/
def step (ctx : Context σ) (stack : List Slot) : Step → Eval σ (List Slot)
  | .literal v => pure (.value v :: stack)
  | .variable name => do return .value (ctx.value (← get) name).read :: stack
  | .operator op => do
    let (w, stack) ← result (Slot.pop stack)
    if op.arity = 1 then
      return .value (← result (op.applyUnary w)) :: stack
    else
      let (v, stack) ← result (Slot.pop stack)
      return .value (← result (op.applyBinary v w)) :: stack
  | .arguments => pure (.mark :: stack)
  | .call callee => do
    let (args, stack) ← result (Slot.popArguments stack)
    return .value (← ctx.invoke callee args.reverse) :: stack

/-- The stack after a sequence of steps. -/
def steps (ctx : Context σ) : List Step → List Slot → Eval σ (List Slot)
  | [], stack => pure stack
  | s :: rest, stack => do ctx.steps rest (← ctx.step stack s)

/-- The value of a compiled expression. -/
def eval (ctx : Context σ) (e : Expr) : Eval σ Value := do
  let (v, stack) ← result (Slot.pop (← ctx.steps e.steps []))
  if stack.isEmpty then return v else throw .tooManyValues

/-- Compiles the text of an expression against the names known now and evaluates it. -/
def evalText (ctx : Context σ) (source : List Char) : Eval σ Value := do
  ctx.eval (← result (Expr.compile (ctx.names (← get)) source))

end Context

end Narrative
