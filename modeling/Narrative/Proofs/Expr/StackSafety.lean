import Narrative.Expr.Eval
import Narrative.Proofs.Computation

/-!
# Stack safety

The check of a compiled expression counts operands frame by frame, while evaluation works on one
stack with marks in it. The layout of a stack connects the two: a step that passes the check finds
its operands, whatever the context answers, and leaves a stack of the layout the check goes on with.
-/

namespace Narrative

namespace Slot

/-- The number of values above the topmost mark, and the numbers of values between the marks under
it. This is what the check of operand counts knows of a stack. -/
def layout : List Slot → Nat × List Nat
  | [] => (0, [])
  | .value _ :: stack => ((layout stack).1 + 1, (layout stack).2)
  | .mark :: stack => (0, (layout stack).1 :: (layout stack).2)

/-- An empty stack has no values. -/
@[simp] theorem layout_nil : layout [] = (0, []) := rfl

/-- A value counts in the topmost part. -/
@[simp] theorem layout_value (v : Value) (stack : List Slot) :
    layout (.value v :: stack) = ((layout stack).1 + 1, (layout stack).2) := rfl

/-- A mark begins a new part. -/
@[simp] theorem layout_mark (stack : List Slot) :
    layout (.mark :: stack) = (0, (layout stack).1 :: (layout stack).2) := rfl

/-- A stack with enough values above its topmost mark has them on top. -/
theorem exists_operands {stack : List Slot} {count : Nat} (h : count ≤ (layout stack).1) :
    ∃ (vs : List Value) (rest : List Slot), vs.length = count ∧ stack = vs.map .value ++ rest ∧
      layout stack = ((layout rest).1 + count, (layout rest).2) := by
  induction count generalizing stack with
  | zero => exact ⟨[], stack, rfl, rfl, rfl⟩
  | succ count ih =>
    match stack with
    | [] | .mark :: _ => simp at h
    | .value v :: stack =>
      rw [layout_value] at h
      obtain ⟨vs, rest, hlen, rfl, hlayout⟩ := ih (Nat.le_of_succ_le_succ h)
      refine ⟨v :: vs, rest, by rw [List.length_cons, hlen], rfl, ?_⟩
      rw [layout_value, hlayout, Nat.add_assoc]

/-- A stack with a frame below its topmost mark has that mark under some arguments. -/
theorem exists_arguments {stack : List Slot} {outer : Nat} {below : List Nat}
    (h : (layout stack).2 = outer :: below) :
    ∃ (args : List Value) (rest : List Slot), stack = args.map .value ++ .mark :: rest ∧
      layout rest = (outer, below) := by
  induction stack with
  | nil => simp at h
  | cons slot stack ih =>
    cases slot with
    | mark =>
      rw [layout_mark, List.cons.injEq] at h
      exact ⟨[], stack, rfl, Prod.ext h.1 h.2⟩
    | value v =>
      obtain ⟨args, rest, rfl, hlayout⟩ := ih h
      exact ⟨v :: args, rest, rfl, hlayout⟩

/-- The arguments of a call are the values above the topmost mark. -/
theorem popArguments_append (args : List Value) (rest : List Slot) :
    popArguments (args.map .value ++ .mark :: rest) = .ok (args, rest) := by
  induction args with
  | nil => rfl
  | cons v args ih =>
    rw [List.map_cons, List.cons_append, popArguments, ih]
    rfl

end Slot

namespace Operator

/-- The ways in which an operator fails on operands that it was given. -/
def Blames (op : Operator) (e : ExprError) : Prop :=
  (∃ types, e = .typeMismatch op types) ∨ e = .arithmetic .divisionByZero ∨
    ∃ name, e = .arithmetic (.overflow name)

/-- A mismatch is blamed on the operator. -/
theorem blames_mismatch (op : Operator) (v w : Value) : op.Blames (op.mismatch v w) :=
  .inl ⟨_, rfl⟩

/-- A fault of arithmetic is blamed on the operator. -/
theorem blames_arithmetic (op : Operator) (fault : Decimal.Fault) :
    op.Blames (.arithmetic fault) := by
  cases fault with
  | divisionByZero => exact .inr (.inl rfl)
  | overflow name => exact .inr (.inr ⟨name, rfl⟩)

/-- A unary operator fails with an error of its own. -/
theorem blames_of_applyUnary {op : Operator} {v : Value} {e : ExprError}
    (h : op.applyUnary v = .error e) : op.Blames e := by
  unfold applyUnary at h
  split at h
  · cases h
  · cases h
    exact .inl ⟨_, rfl⟩

/-- An operator between texts fails with an error of its own. -/
theorem blames_of_applyTexts {op : Operator} {s t : String} {e : ExprError}
    (h : op.applyTexts s t = .error e) : op.Blames e := by
  unfold applyTexts at h
  split at h
  · cases h
  · cases h
    exact op.blames_mismatch _ _

/-- An operator between numbers fails with an error of its own. -/
theorem blames_of_applyNumbers {op : Operator} {v w : Value} {x y : Decimal} {e : ExprError}
    (h : op.applyNumbers v w x y = .error e) : op.Blames e := by
  unfold applyNumbers at h
  split at h
  · cases h
  · cases h
    exact op.blames_arithmetic _
  · cases h
  · cases h
    exact op.blames_mismatch _ _

/-- An operator applied to its operands fails with a mismatch of their types, a division by zero or
an overflow only. -/
theorem blames_of_applyBinary {op : Operator} {v w : Value} {e : ExprError}
    (h : op.applyBinary v w = .error e) : op.Blames e := by
  unfold applyBinary at h
  split at h
  case h_5 =>
    split at h
    · cases h
    · split at h
      · exact blames_of_applyTexts h
      · split at h
        · exact blames_of_applyNumbers h
        · cases h
          exact op.blames_mismatch _ _
  all_goals cases h

end Operator

namespace Step

/-- What a step takes from the stack lies on top of it: an operator finds as many values as it has
operands, and a call finds the mark under its arguments. -/
def Supplied : Step → List Slot → Prop
  | .operator op, stack =>
    ∃ (vs : List Value) (rest : List Slot), vs.length = op.arity ∧ stack = vs.map .value ++ rest
  | .call _, stack =>
    ∃ (args : List Value) (rest : List Slot), stack = args.map .value ++ .mark :: rest
  | _, _ => True

/-- A step fails through its own fault: the operator refuses the operands on the stack, or the
function or method that is called with the arguments on the stack reports the error. -/
inductive Fails {σ : Type} (ctx : Context σ) : Step → List Slot → σ → ExprError → σ → Prop
  | unary {op : Operator} {v : Value} {rest : List Slot} {s : σ} {e : ExprError} :
      op.arity = 1 → op.applyUnary v = .error e → op.Blames e →
      Fails ctx (.operator op) (.value v :: rest) s e s
  | binary {op : Operator} {v w : Value} {rest : List Slot} {s : σ} {e : ExprError} :
      op.arity = 2 → op.applyBinary v w = .error e → op.Blames e →
      Fails ctx (.operator op) (.value w :: .value v :: rest) s e s
  | function {name : String} {args : List Value} {rest : List Slot} {s s' : σ} {e : ExprError} :
      ctx.call name args.reverse s = some (.error e, s') →
      Fails ctx (.call (.function name)) (args.map .value ++ .mark :: rest) s e s'
  | method {object name : String} {args : List Value} {rest : List Slot} {s : σ} {e : ExprError} :
      ctx.callMethod (ctx.value s object) object name args.reverse = .error e →
      Fails ctx (.call (.method object name)) (args.map .value ++ .mark :: rest) s e s

/-- The rest of a compiled expression passes the check on a stack. -/
def Fits (steps : List Step) (stack : List Slot) : Prop :=
  check steps (Slot.layout stack).1 (Slot.layout stack).2 = .ok ()

/-- A step that passes the check finds what it takes from the stack. -/
theorem Fits.supplied {next : Step} {rest : List Step} {stack : List Slot}
    (h : Fits (next :: rest) stack) : next.Supplied stack := by
  cases next with
  | operator op =>
    have hcount : op.arity ≤ (Slot.layout stack).1 := by
      refine Nat.le_of_not_lt fun hlt => ?_
      simp [Fits, check, hlt] at h
    obtain ⟨vs, below, hlen, hstack, _⟩ := Slot.exists_operands hcount
    exact ⟨vs, below, hlen, hstack⟩
  | call callee =>
    cases hbelow : (Slot.layout stack).2 with
    | nil => simp [Fits, check, hbelow] at h
    | cons outer below =>
      obtain ⟨args, under, hstack, _⟩ := Slot.exists_arguments hbelow
      exact ⟨args, under, hstack⟩
  | literal | «variable» | arguments => trivial

/-- An operator leaves one value in the place of its operands. -/
theorem Fits.operator {op : Operator} {rest : List Step} {vs : List Value} {stack : List Slot}
    (h : Fits (.operator op :: rest) (vs.map .value ++ stack)) (hlen : vs.length = op.arity)
    (v : Value) : Fits rest (.value v :: stack) := by
  have hlayout : Slot.layout (vs.map .value ++ stack) =
      ((Slot.layout stack).1 + vs.length, (Slot.layout stack).2) := by
    clear h hlen
    induction vs with
    | nil => rfl
    | cons w vs ih => simp [ih, Nat.add_assoc]
  have hle : ¬ (Slot.layout stack).1 + vs.length < op.arity := by omega
  simp only [Fits, check, hlayout, if_neg hle] at h
  simp only [Fits, Slot.layout_value]
  rwa [show (Slot.layout stack).1 + vs.length + 1 - op.arity = (Slot.layout stack).1 + 1 by
    omega] at h

/-- A call leaves one value in the place of the mark and the arguments. -/
theorem Fits.call {callee : Callee} {rest : List Step} {args : List Value} {stack : List Slot}
    (h : Fits (.call callee :: rest) (args.map .value ++ .mark :: stack)) (v : Value) :
    Fits rest (.value v :: stack) := by
  have hlayout : (Slot.layout (args.map .value ++ .mark :: stack)).2 =
      (Slot.layout stack).1 :: (Slot.layout stack).2 := by
    clear h
    induction args with
    | nil => rfl
    | cons w args ih => simp [ih]
  simpa only [Fits, check, hlayout, Slot.layout_value] using h

/-- A stack that passes the check of no further steps holds one value. -/
theorem Fits.eq_singleton {stack : List Slot} (h : Fits [] stack) : ∃ v, stack = [.value v] := by
  match stack with
  | [] | .mark :: _ | .value _ :: .mark :: _ => simp [Fits, check] at h
  | [.value v] => exact ⟨v, rfl⟩
  | .value _ :: .value _ :: stack =>
    cases hbelow : (Slot.layout stack).2 <;> simp [Fits, check, hbelow] at h

/-- What may become of a step in front of the rest of an expression: it leaves a stack that passes
the check of the rest, or it fails through its own fault. -/
def Outcome {σ : Type} (ctx : Context σ) (next : Step) (rest : List Step) (stack : List Slot)
    (s : σ) :
    Except ExprError (List Slot) → σ → Prop
  | .ok left, _ => Fits rest left
  | .error e, s' => Fails ctx next stack s e s'

end Step

namespace Context

open Step

variable {σ : Type} (ctx : Context σ)

/-- A result is given without effect. -/
theorem result_ok {α : Type} (a : α) : (result (.ok a) : Eval σ α) = pure a := rfl

/-- A unary operator replaces the topmost value. -/
theorem step_unary {op : Operator} (h : op.arity = 1) (v : Value) (stack : List Slot) :
    ctx.step (.value v :: stack) (.operator op) =
      (do return .value (← result (op.applyUnary v)) :: stack) := by
  simp only [step, Slot.pop, result_ok, pure_bind, if_pos h]

/-- A binary operator replaces the two topmost values, of which the upper one is the right
operand. -/
theorem step_binary {op : Operator} (h : op.arity = 2) (v w : Value) (stack : List Slot) :
    ctx.step (.value w :: .value v :: stack) (.operator op) =
      (do return .value (← result (op.applyBinary v w)) :: stack) := by
  simp only [step, Slot.pop, result_ok, pure_bind, h, if_neg (by decide : ¬(2 : Nat) = 1)]

/-- A call replaces the topmost mark and the arguments above it. -/
theorem step_call (callee : Callee) (args : List Value) (stack : List Slot) :
    ctx.step (args.map .value ++ .mark :: stack) (.call callee) =
      (do return .value (← ctx.invoke callee args.reverse) :: stack) := by
  simp only [step, Slot.popArguments_append, result_ok, pure_bind]

/-- A method call reads its receiver and leaves the state alone. -/
theorem invoke_method (object name : String) (args : List Value) (s : σ) :
    ctx.invoke (.method object name) args s =
      some (ctx.callMethod (ctx.value s object) object name args, s) := rfl

/-- A step that passes the check keeps to the layout that the check goes on with, and fails through
its own fault only. -/
theorem step_outcome {next : Step} {rest : List Step} {stack : List Slot} {s s' : σ}
    {r : Except ExprError (List Slot)} (h : Fits (next :: rest) stack)
    (hrun : ctx.step stack next s = some (r, s')) : Outcome ctx next rest stack s r s' := by
  cases next with
  | literal v =>
    cases hrun
    exact h
  | «variable» name =>
    cases hrun
    exact h
  | arguments =>
    cases hrun
    exact h
  | operator op =>
    obtain ⟨vs, below, hlen, rfl⟩ := h.supplied
    match vs with
    | [v] =>
      have harity : op.arity = 1 := hlen.symm
      rw [List.map_singleton, List.singleton_append, step_unary ctx harity] at hrun
      cases happly : op.applyUnary v with
      | error e =>
        simp only [happly] at hrun
        cases hrun
        exact .unary harity happly (Operator.blames_of_applyUnary happly)
      | ok u =>
        simp only [happly] at hrun
        cases hrun
        exact h.operator hlen u
    | [w, v] =>
      have harity : op.arity = 2 := hlen.symm
      rw [List.map_cons, List.map_singleton, List.cons_append, List.singleton_append,
        step_binary ctx harity] at hrun
      cases happly : op.applyBinary v w with
      | error e =>
        simp only [happly] at hrun
        cases hrun
        exact .binary harity happly (Operator.blames_of_applyBinary happly)
      | ok u =>
        simp only [happly] at hrun
        cases hrun
        exact h.operator hlen u
    | [] => cases op <;> cases hlen
    | _ :: _ :: _ :: _ => cases op <;> simp [Operator.arity] at hlen
  | call callee =>
    obtain ⟨args, below, rfl⟩ := h.supplied
    rw [step_call] at hrun
    cases r with
    | ok stack' =>
      obtain ⟨v, u, _, hv⟩ := Attempt.bind_eq_ok.1 hrun
      cases hv
      exact h.call v
    | error e =>
      obtain hcall | ⟨v, u, _, hv⟩ := Attempt.bind_eq_error.1 hrun
      · cases callee with
        | function name => exact .function hcall
        | method object name =>
          rw [invoke_method] at hcall
          obtain ⟨hmethod, rfl⟩ := Prod.mk.inj (Option.some.inj hcall)
          exact .method hmethod
      · cases hv

/-- A run that succeeds on the first steps of an expression leaves a stack for the other ones. -/
theorem steps_fits {done rest : List Step} {stack left : List Slot} {s s' : σ}
    (h : Fits (done ++ rest) stack) (hrun : ctx.steps done stack s = some (.ok left, s')) :
    Fits rest left := by
  induction done generalizing stack s with
  | nil =>
    cases hrun
    exact h
  | cons next done ih =>
    obtain ⟨mid, s₁, hstep, hrest⟩ := Attempt.bind_eq_ok.1 hrun
    exact ih (ctx.step_outcome h hstep) hrest

/-- A run that fails does so in one of its steps, on the stack that the steps before it leave. -/
theorem steps_error {steps : List Step} {stack : List Slot} {s s' : σ} {e : ExprError}
    (h : Fits steps stack) (hrun : ctx.steps steps stack s = some (.error e, s')) :
    ∃ done next rest left s₁, steps = done ++ next :: rest ∧
      ctx.steps done stack s = some (.ok left, s₁) ∧ Fails ctx next left s₁ e s' := by
  induction steps generalizing stack s with
  | nil => cases hrun
  | cons next rest ih =>
    obtain hstep | ⟨mid, s₁, hstep, hrest⟩ := Attempt.bind_eq_error.1 hrun
    · exact ⟨[], next, rest, stack, s, rfl, rfl, ctx.step_outcome h hstep⟩
    · obtain ⟨done, next', rest', left, s₂, rfl, hdone, hfails⟩ :=
        ih (ctx.step_outcome h hstep) hrest
      exact ⟨next :: done, next', rest', left, s₂, rfl,
        Attempt.bind_eq_ok.2 ⟨mid, s₁, hstep, hdone⟩, hfails⟩

/-- Evaluation never goes wrong on its stack: whatever the context has answered so far, the next
step finds what it takes, the last step leaves one value, and an error is the fault of an operator,
a function or a method. -/
structure StackSafe (e : Expr) (s : σ) : Prop where
  /-- Each step that is reached finds its operands, or the mark under its arguments. -/
  supplied {done rest : List Step} {next : Step} {stack : List Slot} {s₁ : σ} :
    e.steps = done ++ next :: rest → ctx.steps done [] s = some (.ok stack, s₁) →
      next.Supplied stack
  /-- The value of the expression is left, and nothing else. -/
  single {stack : List Slot} {s₁ : σ} :
    ctx.steps e.steps [] s = some (.ok stack, s₁) → ∃ v, stack = [.value v]
  /-- An error comes from the step that was reached. -/
  blamed {err : ExprError} {s' : σ} :
    ctx.eval e s = some (.error err, s') →
      ∃ done next rest stack s₁, e.steps = done ++ next :: rest ∧
        ctx.steps done [] s = some (.ok stack, s₁) ∧ Fails ctx next stack s₁ err s'

/-- An expression whose operand counts have been checked is safe in every context. -/
theorem stackSafe_of_fits {e : Expr} (h : Fits e.steps []) (s : σ) : ctx.StackSafe e s where
  supplied := by
    intro done rest next stack s₁ hsteps hrun
    rw [hsteps] at h
    exact (ctx.steps_fits h hrun).supplied
  single := by
    intro stack s₁ hrun
    rw [← List.append_nil e.steps] at h
    exact (ctx.steps_fits h hrun).eq_singleton
  blamed := by
    intro err s' hrun
    obtain hsteps | ⟨stack, s₁, hsteps, hend⟩ := Attempt.bind_eq_error.1 hrun
    · exact ctx.steps_error h hsteps
    · rw [← List.append_nil e.steps] at h
      obtain ⟨v, rfl⟩ := (ctx.steps_fits h hsteps).eq_singleton
      cases hend

end Context

/-- A context that knows no name, where every variable reads as zero and every call is refused as if
parentheses were wrong. -/
def Context.refusing : Context Unit where
  names _ := { hasVariable := fun _ => false, hasFunction := fun _ => false }
  value _ _ := .int 0
  call _ _ := throw .mismatchedParens
  method _ _ _ := none
  roll _ s := (0, s)

namespace Expr

/-- Compiling succeeds when the tokens are known and in their places and the check passes. -/
theorem ofTokens_eq_ok {names : Names} {tokens : List Token} {e : Expr} :
    ofTokens names tokens = .ok e ↔
      Step.ofTokens names tokens [] = .ok e.steps ∧ Step.check e.steps 0 [] = .ok () := by
  unfold ofTokens
  cases hsteps : Step.ofTokens names tokens [] with
  | error err => simp [bind, Except.bind]
  | ok steps =>
    cases hcheck : Step.check steps 0 [] with
    | error err =>
      simp only [bind, Except.bind, hcheck, Except.ok.injEq, reduceCtorEq, false_iff, not_and]
      rintro rfl
      simp [hcheck]
    | ok _ =>
      simp only [bind, Except.bind, hcheck, pure, Except.pure, Except.ok.injEq]
      constructor
      · rintro rfl
        exact ⟨rfl, hcheck⟩
      · rintro ⟨rfl, _⟩
        rfl

/-- What is compiled fits the empty stack. -/
theorem fits_of_ofTokens {names : Names} {tokens : List Token} {e : Expr}
    (h : ofTokens names tokens = .ok e) : Step.Fits e.steps [] :=
  (ofTokens_eq_ok.1 h).2

/-- A text that compiles against some names is evaluated safely in every context, also in one that
knows other names. -/
theorem stackSafe_of_compile {names : Names} {source : List Char} {e : Expr}
    (h : compile names source = .ok e) {σ : Type} (ctx : Context σ) (s : σ) :
    ctx.StackSafe e s :=
  ctx.stackSafe_of_fits (fits_of_ofTokens h) s

/-- The case of a call that is evaluated where the names it was compiled against are not known. The
function reports an error that a faulty stack would also cause, yet the error is the function's. -/
theorem stackSafe_of_compile_refused :
    compile { hasVariable := (· == "x"), hasFunction := (· == "f") } "f(1, -x) * 2".toList =
        .ok ⟨[.arguments, .literal (.number .one), .variable "x", .operator .neg,
          .call (.function "f"), .literal (.int 2), .operator .mul]⟩ ∧
      Context.refusing.StackSafe ⟨[.arguments, .literal (.number .one), .variable "x",
        .operator .neg, .call (.function "f"), .literal (.int 2), .operator .mul]⟩ () :=
  ⟨by decide +kernel, stackSafe_of_compile (by decide +kernel :
      compile { hasVariable := (· == "x"), hasFunction := (· == "f") } "f(1, -x) * 2".toList =
        .ok _) Context.refusing ()⟩

end Expr

end Narrative
