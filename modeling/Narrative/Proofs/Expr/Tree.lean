import Narrative.Proofs.Expr.StackSafety

/-!
# Expression trees

A tree is what an expression means. Its postfix form is the post-order of its nodes, and running
that form on a stack is the same computation as evaluating the tree recursively. This holds for any
way in which the surroundings answer, so the two agree in what they ask, and in which order, as well
as in their results.
-/

namespace Narrative

/-- An expression as a tree. -/
inductive Tree where
  /-- A constant. -/
  | literal (v : Value)
  /-- The value of a name. -/
  | variable (name : String)
  /-- The unary minus. -/
  | negate (operand : Tree)
  /-- A binary operator. -/
  | binary (op : Operator) (isBinary : op ≠ .neg) (left right : Tree)
  /-- A call of a function or a method. -/
  | call (callee : Callee) (args : List Tree)

/-- What an evaluation asks of its surroundings, and how it takes a result that may be an error. -/
structure Surroundings (m : Type → Type) [Monad m] where
  /-- The value of a name. -/
  value : (name : String) → m Value
  /-- A call of a function. -/
  call : (name : String) → (args : List Value) → m Value
  /-- A call of a method of a receiver, which the name `object` stands for. -/
  method : (receiver : Value) → (object name : String) → (args : List Value) → m Value
  /-- A result that asks nothing. -/
  result : {α : Type} → Except ExprError α → m α
  /-- A result that is no error goes on. -/
  result_ok : ∀ {α : Type} (a : α), result (.ok a) = pure a

namespace Surroundings

variable {m : Type → Type} [Monad m] (w : Surroundings m)

/-- Calls a function, or a method of a receiver that is looked up now. -/
def invoke (callee : Callee) (args : List Value) : m Value :=
  match callee with
  | .function name => w.call name args
  | .method object name => do w.method (← w.value object) object name args

/-- The stack after one step. -/
def step (stack : List Slot) : Step → m (List Slot)
  | .literal v => pure (.value v :: stack)
  | .variable name => do return .value (← w.value name).read :: stack
  | .operator op => do
    let (v, stack) ← w.result (Slot.pop stack)
    if op.arity = 1 then
      return .value (← w.result (op.applyUnary v)) :: stack
    else
      let (u, stack) ← w.result (Slot.pop stack)
      return .value (← w.result (op.applyBinary u v)) :: stack
  | .arguments => pure (.mark :: stack)
  | .call callee => do
    let (args, stack) ← w.result (Slot.popArguments stack)
    return .value (← w.invoke callee args.reverse) :: stack

/-- The stack after a sequence of steps. -/
def steps (w : Surroundings m) : List Step → List Slot → m (List Slot)
  | [], stack => pure stack
  | s :: rest, stack => do w.steps rest (← w.step stack s)

/-- The value of a compiled expression. -/
def eval (e : Expr) : m Value := do
  let (v, stack) ← w.result (Slot.pop (← w.steps e.steps []))
  if stack.isEmpty then return v else w.result (.error .tooManyValues)

end Surroundings

namespace Tree

mutual

/-- The post-order of a tree, where a mark goes in front of the arguments of a call. -/
def postorder : Tree → List Step
  | .literal v => [.literal v]
  | .variable name => [.variable name]
  | .negate t => t.postorder ++ [.operator .neg]
  | .binary op _ l r => l.postorder ++ r.postorder ++ [.operator op]
  | .call callee args => .arguments :: postorders args ++ [.call callee]

/-- The post-orders of some trees, one after the other. -/
def postorders : List Tree → List Step
  | [] => []
  | t :: ts => t.postorder ++ postorders ts

end

mutual

/-- The value of a tree. Operands and arguments are evaluated from left to right, all of them, and
the receiver of a method is looked up after its arguments. -/
def eval {m : Type → Type} [Monad m] (w : Surroundings m) : Tree → m Value
  | .literal v => pure v
  | .variable name => do return (← w.value name).read
  | .negate t => do w.result (Operator.neg.applyUnary (← t.eval w))
  | .binary op _ l r => do
    let u ← l.eval w
    let v ← r.eval w
    w.result (op.applyBinary u v)
  | .call callee args => do w.invoke callee (← evalAll w args)

/-- The values of some trees, from left to right. -/
def evalAll {m : Type → Type} [Monad m] (w : Surroundings m) : List Tree → m (List Value)
  | [] => pure []
  | t :: ts => do
    let v ← t.eval w
    let vs ← evalAll w ts
    return v :: vs

end

end Tree

/-- Every operator but the sign takes two operands. -/
theorem Operator.arity_eq_two {op : Operator} (h : op ≠ .neg) : op.arity = 2 := by
  cases op <;> first | rfl | exact absurd rfl h

namespace Surroundings

variable {m : Type → Type} [Monad m] (w : Surroundings m)

/-- Steps are taken one after the other. -/
theorem steps_cons (s : Step) (rest : List Step) (stack : List Slot) :
    w.steps (s :: rest) stack = w.step stack s >>= w.steps rest := rfl

/-- A literal is put on the stack. -/
theorem step_literal (v : Value) (stack : List Slot) :
    w.step stack (.literal v) = pure (.value v :: stack) := rfl

/-- The value of a variable is put on the stack. -/
theorem step_variable (name : String) (stack : List Slot) :
    w.step stack (.variable name) = (do return .value (← w.value name).read :: stack) := rfl

/-- Arguments begin with a mark. -/
theorem step_arguments (stack : List Slot) : w.step stack .arguments = pure (.mark :: stack) := rfl

variable [LawfulMonad m]

/-- A unary operator replaces the topmost value. -/
theorem step_unary {op : Operator} (h : op.arity = 1) (v : Value) (stack : List Slot) :
    w.step (.value v :: stack) (.operator op) =
      (do return .value (← w.result (op.applyUnary v)) :: stack) := by
  simp only [step, Slot.pop, w.result_ok, pure_bind, if_pos h]

/-- A binary operator replaces the two topmost values, of which the upper one is the right
operand. -/
theorem step_binary {op : Operator} (h : op.arity = 2) (u v : Value) (stack : List Slot) :
    w.step (.value v :: .value u :: stack) (.operator op) =
      (do return .value (← w.result (op.applyBinary u v)) :: stack) := by
  simp only [step, Slot.pop, w.result_ok, pure_bind, h, if_neg (by decide : ¬(2 : Nat) = 1)]

/-- A call replaces the topmost mark and the arguments above it. -/
theorem step_call (callee : Callee) (args : List Value) (stack : List Slot) :
    w.step (args.map .value ++ .mark :: stack) (.call callee) =
      (do return .value (← w.invoke callee args.reverse) :: stack) := by
  simp only [step, Slot.popArguments_append, w.result_ok, pure_bind]

mutual

/-- Running the post-order of a tree puts the value of the tree on top of the stack. -/
theorem steps_postorder (t : Tree) (rest : List Step) (stack : List Slot) :
    w.steps (t.postorder ++ rest) stack =
      t.eval w >>= fun v => w.steps rest (.value v :: stack) := by
  match t with
  | .literal v =>
    rw [Tree.postorder, Tree.eval, List.singleton_append, steps_cons, step_literal, pure_bind,
      pure_bind]
  | .variable name =>
    simp only [Tree.postorder, Tree.eval, List.singleton_append, steps_cons, step_variable,
      bind_assoc, pure_bind]
  | .negate t =>
    have hneg : Operator.neg.arity = 1 := rfl
    simp only [Tree.postorder, Tree.eval, List.append_assoc, List.singleton_append,
      steps_postorder t, steps_cons, w.step_unary hneg, bind_assoc, pure_bind]
  | .binary op h l r =>
    simp only [Tree.postorder, Tree.eval, List.append_assoc, List.singleton_append,
      steps_postorder l, steps_postorder r, steps_cons, w.step_binary (Operator.arity_eq_two h),
      bind_assoc, pure_bind]
  | .call callee args =>
    simp only [Tree.postorder, Tree.eval, List.append_assoc, List.cons_append, List.nil_append,
      steps_cons, step_arguments, steps_postorders args, step_call, List.reverse_reverse,
      bind_assoc, pure_bind]

/-- Running the post-orders of some trees puts their values on the stack, the last one on top. -/
theorem steps_postorders (ts : List Tree) (rest : List Step) (stack : List Slot) :
    w.steps (Tree.postorders ts ++ rest) stack =
      Tree.evalAll w ts >>= fun vs => w.steps rest (vs.reverse.map .value ++ stack) := by
  match ts with
  | [] =>
    simp only [Tree.postorders, Tree.evalAll, List.nil_append, pure_bind, List.reverse_nil,
      List.map_nil]
  | t :: ts =>
    simp only [Tree.postorders, Tree.evalAll, List.append_assoc, steps_postorder t,
      steps_postorders ts, bind_assoc, pure_bind, List.reverse_cons, List.map_append,
      List.map_singleton, List.singleton_append]

end

/-- The post-order of a tree evaluates to the value of the tree. -/
theorem eval_postorder (t : Tree) : w.eval ⟨t.postorder⟩ = t.eval w := by
  have h := w.steps_postorder t [] []
  rw [List.append_nil] at h
  simp only [eval, h, steps, bind_assoc, pure_bind, Slot.pop, w.result_ok, List.isEmpty_nil,
    if_true, bind_pure]

end Surroundings

/-- Something that an evaluation asks its context for. -/
inductive Query where
  /-- The value of a name. -/
  | value (name : String)
  /-- A call of a function. -/
  | call (name : String) (args : List Value)
  /-- A call of a method of a receiver. -/
  | method (receiver : Value) (object name : String) (args : List Value)
deriving DecidableEq, Repr

namespace Context

variable {σ : Type} (ctx : Context σ)

/-- A context as the surroundings of an evaluation. -/
def surroundings : Surroundings (Eval σ) where
  value name := do return ctx.value (← get) name
  call := ctx.call
  method receiver object name args := result (ctx.callMethod receiver object name args)
  result := result
  result_ok := result_ok

/-- A step asks its context as its surroundings. -/
theorem step_eq_surroundings (stack : List Slot) (s : Step) :
    ctx.step stack s = ctx.surroundings.step stack s := by
  cases s with
  | literal | «variable» | operator | arguments => rfl
  | call callee => cases callee <;> rfl

/-- Several steps ask their context as their surroundings. -/
theorem steps_eq_surroundings (steps : List Step) (stack : List Slot) :
    ctx.steps steps stack = ctx.surroundings.steps steps stack := by
  induction steps generalizing stack with
  | nil => rfl
  | cons s steps ih =>
    rw [Context.steps, Surroundings.steps, step_eq_surroundings]
    exact bind_congr ih

/-- Evaluation is evaluation in the surroundings that the context is. -/
theorem eval_eq_surroundings (e : Expr) : ctx.eval e = ctx.surroundings.eval e := by
  rw [Context.eval, Surroundings.eval, steps_eq_surroundings]
  rfl

/-- A computation that notes what it asks for before it asks. -/
def noting {α : Type} (query : Query) (x : Eval σ α) : Eval (σ × List Query) α :=
  fun (s, log) => (x s).map fun (r, s') => (r, s', log ++ [query])

/-- A context that keeps a log of what it is asked for, in order. -/
def recorder : Surroundings (Eval (σ × List Query)) where
  value name := noting (.value name) (ctx.surroundings.value name)
  call name args := noting (.call name args) (ctx.call name args)
  method receiver object name args :=
    noting (.method receiver object name args) (ctx.surroundings.method receiver object name args)
  result := result
  result_ok := result_ok

end Context

end Narrative
