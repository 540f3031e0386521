import Narrative.Proofs.Expr.Tree

/-!
# Renderings of expression trees

A rendering writes a tree as a sequence of tokens, with parentheses wherever the tiers of the
operators ask for them and with any others besides. The compiler finds the tree again: operators
wait on its stack until the tokens close them, and the steps it emits are the post-order of the
tree.
-/

namespace Narrative

namespace Operator

/-- The operators from those that bind loosest to the one that binds tightest. -/
def tiers : List (List Operator) :=
  [[.or], [.and], [.eq, .ne], [.lt, .le, .gt, .ge], [.add, .sub], [.mul, .div, .rem], [.pow],
    [.neg]]

/-- The place of an operator among the tiers. -/
def tier (op : Operator) : Nat :=
  tiers.findIdx (·.contains op)

/-- The tier from which the left operand of a binary operator needs no parentheses. A chain is
grouped from the left, but for powers. -/
def leftTier (op : Operator) : Nat :=
  if op = .pow then op.tier + 1 else op.tier

/-- The tier from which the right operand of a binary operator needs no parentheses. -/
def rightTier (op : Operator) : Nat :=
  if op = .pow then op.tier else op.tier + 1

/-- The left operand of an operator binds no less tightly. -/
theorem tier_le_leftTier (op : Operator) : op.tier ≤ op.leftTier := by
  unfold leftTier
  split <;> omega

/-- The right operand of an operator binds no less tightly. -/
theorem tier_le_rightTier (op : Operator) : op.tier ≤ op.rightTier := by
  unfold rightTier
  split <;> omega

/-- The sign waits for no other operator. -/
theorem yieldsBefore_neg (op : Operator) : op.yieldsBefore neg = false := by
  cases op <;> decide

/-- An operator on the left takes its operand first when it binds as the left operand of the next
one may. -/
theorem yieldsBefore_of_leftTier_le {op next : Operator} (hnext : next ≠ .neg)
    (h : next.leftTier ≤ op.tier) : op.yieldsBefore next = true := by
  revert hnext h
  cases next <;> cases op <;> decide

/-- An operator on the left waits when the next one may stand in its right operand. -/
theorem yieldsBefore_of_rightTier_le {op next : Operator} (h : op.rightTier ≤ next.tier) :
    op.yieldsBefore next = false := by
  revert h
  cases next <;> cases op <;> decide

end Operator

mutual

/-- A sequence of tokens that a tree can be written as where operators of the given tier and above
need no parentheses. -/
inductive Rendering (names : Names) : (tier : Nat) → Tree → List Token → Prop
  | number {p : Nat} (n : Decimal) : Rendering names p (.literal (.number n)) [.number n]
  | str {p : Nat} (s : String) : Rendering names p (.literal (.str s)) [.str s]
  | variable {p : Nat} {name : String} :
      names.hasVariable name = true → Rendering names p (.variable name) [.ident name]
  | group {p : Nat} {t : Tree} {ts : List Token} :
      Rendering names 0 t ts → Rendering names p t (.opening :: ts ++ [.closing])
  | negate {p : Nat} {t : Tree} {ts : List Token} :
      p ≤ Operator.neg.tier → Rendering names Operator.neg.tier t ts →
      Rendering names p (.negate t) (.operator .neg :: ts)
  | binary {p : Nat} {op : Operator} {l r : Tree} {ls rs : List Token} (h : op ≠ .neg) :
      p ≤ op.tier → Rendering names op.leftTier l ls → Rendering names op.rightTier r rs →
      Rendering names p (.binary op h l r) (ls ++ .operator op :: rs)
  | bare {p : Nat} {name : String} {callee : Callee} :
      names.hasVariable name = false → Callee.ofName? names name = some callee →
      Rendering names p (.call callee []) [.ident name]
  | call {p : Nat} {name : String} {callee : Callee} {args : List Tree} {ts : List Token} :
      names.hasVariable name = false → Callee.ofName? names name = some callee →
      ArgumentsRendering names args ts →
      Rendering names p (.call callee args) (.ident name :: .opening :: ts ++ [.closing])

/-- The same for the arguments of a call, with commas between them. -/
inductive ArgumentsRendering (names : Names) : List Tree → List Token → Prop
  | none : ArgumentsRendering names [] []
  | one {t : Tree} {ts : List Token} :
      Rendering names 0 t ts → ArgumentsRendering names [t] ts
  | more {t u : Tree} {us : List Tree} {ts rest : List Token} :
      Rendering names 0 t ts → ArgumentsRendering names (u :: us) rest →
      ArgumentsRendering names (t :: u :: us) (ts ++ .comma :: rest)

end

namespace Step

/-- No step in front changes nothing. -/
@[simp] theorem follow_nil (rest : Except ExprError (List Step)) : follow [] rest = rest := by
  cases rest <;> rfl

/-- Steps in front come one after the other. -/
@[simp] theorem follow_follow (steps more : List Step) (rest : Except ExprError (List Step)) :
    follow steps (follow more rest) = follow (steps ++ more) rest := by
  cases rest <;> simp [follow, Except.map]

/-- The tokens take every waiting operator of the given tier or above from the stack before anything
else happens, and they are no arguments. -/
structure Closes (names : Names) (tier : Nat) (rest : List Token) : Prop where
  /-- A waiting operator is emitted first. -/
  emits {op : Operator} (stack : List Pending) : tier ≤ op.tier →
    ofTokens names rest (.operator op :: stack) =
      follow [.operator op] (ofTokens names rest stack)
  /-- A callee in front of the tokens has no arguments. -/
  noOpening : rest.head? ≠ some .opening

/-- No operator of the given tier or above takes anything from the stack, and a parenthesis on top
of it is that of a group. -/
structure Waits (tier : Nat) (stack : List Pending) : Prop where
  /-- The operators on the stack keep waiting. -/
  yielding {op : Operator} : tier ≤ op.tier → Pending.yielding op stack = ([], stack)
  /-- The stack does not end with a callee. -/
  noCallee (callee : Callee) (under : List Pending) : stack ≠ .callee callee :: under

/-- What closes a tier closes every higher one. -/
theorem Closes.mono {names : Names} {p q : Nat} {rest : List Token} (h : Closes names p rest)
    (hpq : p ≤ q) : Closes names q rest :=
  ⟨fun stack hop => h.emits stack (Nat.le_trans hpq hop), h.noOpening⟩

/-- What waits for a tier waits for every higher one. -/
theorem Waits.mono {p q : Nat} {stack : List Pending} (h : Waits p stack) (hpq : p ≤ q) :
    Waits q stack :=
  ⟨fun hop => h.yielding (Nat.le_trans hpq hop), h.noCallee⟩

/-- The end closes every tier. -/
theorem closes_finish (names : Names) (tier : Nat) : Closes names tier [.finish] where
  emits := by
    intro op stack _
    simp only [ofTokens, Pending.finish?]
    cases Pending.finish? stack <;> rfl
  noOpening := by decide

/-- A comma closes every tier. -/
theorem closes_comma (names : Names) (tier : Nat) (rest : List Token) :
    Closes names tier (.comma :: rest) where
  emits := by
    intro op stack _
    simp only [ofTokens, Pending.group?]
    cases Pending.group? stack with
    | none => rfl
    | some found => simp only [Option.map_some, follow_follow, List.singleton_append]
  noOpening := by simp

/-- A closing parenthesis closes every tier. -/
theorem closes_closing (names : Names) (tier : Nat) (rest : List Token) :
    Closes names tier (.closing :: rest) where
  emits := by
    intro op stack _
    simp only [ofTokens, Pending.group?]
    cases Pending.group? stack with
    | none => rfl
    | some found =>
      obtain ⟨steps, stack⟩ := found
      match stack with
      | .callee _ :: _ | [] | .paren :: _ | .operator _ :: _ =>
        simp only [Option.map_some, follow_follow, List.cons_append, List.nil_append]
  noOpening := by simp

/-- A binary operator takes what may stand in its left operand without parentheses. -/
theorem closes_operator (names : Names) {next : Operator} (h : next ≠ .neg) (rest : List Token) :
    Closes names next.leftTier (.operator next :: rest) where
  emits := by
    intro op stack hop
    have hyields := Operator.yieldsBefore_of_leftTier_le h hop
    simp only [ofTokens, Pending.yielding, hyields, if_true, follow_follow, List.singleton_append]
  noOpening := by simp

/-- Nothing waits on an empty stack. -/
theorem waits_nil (tier : Nat) : Waits tier [] :=
  ⟨fun _ => rfl, fun _ _ h => by cases h⟩

/-- Nothing that waits in front of a parenthesis is taken. -/
theorem waits_paren (tier : Nat) (stack : List Pending) : Waits tier (.paren :: stack) :=
  ⟨fun _ => rfl, fun _ _ h => by cases h⟩

/-- A binary operator waits for what may stand in its right operand without parentheses. -/
theorem waits_operator (op : Operator) (stack : List Pending) :
    Waits op.rightTier (.operator op :: stack) where
  yielding := by
    intro next hnext
    simp [Pending.yielding, Operator.yieldsBefore_of_rightTier_le hnext]
  noCallee := by
    intro _ _ h
    cases h

/-- The sign takes nothing from the stack. -/
theorem yielding_neg (stack : List Pending) : Pending.yielding .neg stack = ([], stack) := by
  match stack with
  | [] | .paren :: _ | .callee _ :: _ => rfl
  | .operator op :: _ => simp [Pending.yielding, Operator.yieldsBefore_neg]

/-- A sign waits for what binds no less tightly. -/
theorem waits_neg (stack : List Pending) : Waits Operator.neg.tier (.operator .neg :: stack) where
  yielding := by
    intro next hnext
    have hyields : Operator.neg.yieldsBefore next = false := by
      revert hnext
      cases next <;> decide
    simp [Pending.yielding, hyields]
  noCallee := by
    intro _ _ h
    cases h

/-- A closing parenthesis emits what waits inside, and that is all when it closes a group. -/
theorem ofTokens_closing {names : Names} {stack under : List Pending} {steps : List Step}
    (hgroup : Pending.group? stack = some (steps, under))
    (hunder : ∀ callee rest, under ≠ .callee callee :: rest) (tokens : List Token) :
    ofTokens names (.closing :: tokens) stack = follow steps (ofTokens names tokens under) := by
  match under with
  | .callee callee :: rest => exact absurd rfl (hunder callee rest)
  | [] | .paren :: _ | .operator _ :: _ => simp only [ofTokens, hgroup]

/-- A parenthesis that closes the arguments of a call makes the call. -/
theorem ofTokens_closing_call (names : Names) (rest : List Token) (callee : Callee)
    (stack : List Pending) :
    ofTokens names (.closing :: rest) (.paren :: .callee callee :: stack) =
      follow [.call callee] (ofTokens names rest stack) := by
  simp only [ofTokens, Pending.group?, List.nil_append]

/-- A comma begins the next argument. -/
theorem ofTokens_comma (names : Names) (rest : List Token) (stack : List Pending) :
    ofTokens names (.comma :: rest) (.paren :: stack) = ofTokens names rest (.paren :: stack) := by
  simp only [ofTokens, Pending.group?, follow_nil]

mutual

/-- The tokens of a tree become its post-order, between operators that wait for them and tokens that
close them. -/
theorem ofTokens_rendering {names : Names} {p : Nat} {t : Tree} {ts : List Token}
    (h : Rendering names p t ts) {rest : List Token} (hrest : Closes names p rest)
    {stack : List Pending} (hstack : Waits p stack) :
    ofTokens names (ts ++ rest) stack = follow t.postorder (ofTokens names rest stack) := by
  match h with
  | .number n => simp only [List.singleton_append, ofTokens, Tree.postorder]
  | .str s => simp only [List.singleton_append, ofTokens, Tree.postorder]
  | .variable hname => simp only [List.singleton_append, ofTokens, hname, if_true, Tree.postorder]
  | .group hinner =>
    rw [List.cons_append, List.cons_append, List.append_assoc, List.singleton_append, ofTokens,
      ofTokens_rendering hinner (closes_closing names 0 rest) (waits_paren 0 stack),
      ofTokens_closing rfl hstack.noCallee, follow_nil]
  | .negate hp hinner =>
    rw [List.cons_append, ofTokens, yielding_neg]
    simp only [follow_nil]
    rw [ofTokens_rendering hinner (hrest.mono hp) (waits_neg stack), hrest.emits stack hp,
      follow_follow, Tree.postorder]
  | .binary hop hp hl hr =>
    rw [List.append_assoc, List.cons_append,
      ofTokens_rendering hl (closes_operator names hop _)
        (hstack.mono (Nat.le_trans hp (Operator.tier_le_leftTier _))),
      ofTokens, hstack.yielding hp]
    simp only [follow_nil]
    rw [ofTokens_rendering hr (hrest.mono (Nat.le_trans hp (Operator.tier_le_rightTier _)))
        (waits_operator _ stack),
      hrest.emits stack hp, follow_follow, follow_follow, Tree.postorder]
  | .bare hname hcallee =>
    simp only [List.singleton_append, ofTokens, hname, hcallee, if_neg hrest.noOpening,
      Bool.false_eq_true, if_false, Tree.postorder, Tree.postorders]
  | .call hname hcallee hargs =>
    simp only [List.cons_append, List.append_assoc, ofTokens, hname, hcallee, Bool.false_eq_true,
      if_false, List.head?_cons, if_true, List.nil_append]
    rw [ofTokens_arguments hargs, ofTokens_closing_call, follow_follow, follow_follow]
    rfl

/-- The tokens of some arguments become their post-orders, one after the other. -/
theorem ofTokens_arguments {names : Names} {args : List Tree} {ts : List Token}
    (h : ArgumentsRendering names args ts) {rest : List Token} {stack : List Pending} :
    ofTokens names (ts ++ .closing :: rest) (.paren :: stack) =
      follow (Tree.postorders args) (ofTokens names (.closing :: rest) (.paren :: stack)) := by
  match h with
  | .none => rw [List.nil_append, Tree.postorders, follow_nil]
  | .one ht =>
    rw [ofTokens_rendering ht (closes_closing names 0 rest) (waits_paren 0 stack), Tree.postorders,
      Tree.postorders, List.append_nil]
  | .more ht hmore =>
    rw [List.append_assoc, List.cons_append,
      ofTokens_rendering ht (closes_comma names 0 _) (waits_paren 0 stack), ofTokens_comma,
      ofTokens_arguments hmore, follow_follow]
    rfl

end

mutual

/-- A tree passes the check as one value. -/
theorem check_postorder (t : Tree) (rest : List Step) (top : Nat) (below : List Nat) :
    check (t.postorder ++ rest) top below = check rest (top + 1) below := by
  match t with
  | .literal _ | .variable _ => simp only [Tree.postorder, List.singleton_append, check]
  | .negate t =>
    rw [Tree.postorder, List.append_assoc, check_postorder t, List.singleton_append, check,
      show Operator.neg.arity = 1 from rfl, if_neg (by omega), Nat.add_sub_cancel]
  | .binary op h l r =>
    rw [Tree.postorder, List.append_assoc, List.append_assoc, check_postorder l, check_postorder r,
      List.singleton_append, check, Operator.arity_eq_two h, if_neg (by omega)]
    congr 1
  | .call callee args =>
    rw [Tree.postorder, List.cons_append, List.cons_append, check, List.append_assoc,
      check_postorders args, List.singleton_append, check]

/-- Some trees pass the check as so many values. -/
theorem check_postorders (ts : List Tree) (rest : List Step) (top : Nat) (below : List Nat) :
    check (Tree.postorders ts ++ rest) top below = check rest (top + ts.length) below := by
  match ts with
  | [] => rfl
  | t :: ts =>
    rw [Tree.postorders, List.append_assoc, check_postorder t, check_postorders ts,
      List.length_cons]
    congr 1
    omega

end

/-- The tokens of a tree become its post-order. -/
theorem ofTokens_rendering_finish {names : Names} {t : Tree} {ts : List Token}
    (h : Rendering names 0 t ts) : ofTokens names (ts ++ [.finish]) [] = .ok t.postorder := by
  rw [ofTokens_rendering h (closes_finish names 0) (waits_nil 0)]
  simp [ofTokens, Pending.finish?, follow, Except.map]

end Step

/-- The post-order of a tree passes the check. -/
theorem Tree.check_eq_ok (t : Tree) : Step.check t.postorder 0 [] = .ok () := by
  have hvalue := Step.check_postorder t [] 0 []
  rwa [List.append_nil] at hvalue

namespace Expr

/-- A rendering of a tree compiles to the post-order of the tree, which passes the check. Running it
gives the value or the error of the tree and leaves the same state, and on the way it asks the
context for the same things in the same order. -/
theorem compiles_of_rendering {names : Names} {t : Tree} {ts : List Token}
    (h : Rendering names 0 t ts) :
    Step.ofTokens names (ts ++ [.finish]) [] = .ok t.postorder ∧
      Step.check t.postorder 0 [] = .ok () ∧
      ofTokens names (ts ++ [.finish]) = .ok ⟨t.postorder⟩ ∧
      ∀ {σ : Type} (ctx : Context σ) (s : σ),
        ctx.eval ⟨t.postorder⟩ s = t.eval ctx.surroundings s ∧
          ctx.recorder.eval ⟨t.postorder⟩ (s, []) = t.eval ctx.recorder (s, []) := by
  have hsteps := Step.ofTokens_rendering_finish h
  refine ⟨hsteps, t.check_eq_ok, ofTokens_eq_ok.2 ⟨hsteps, t.check_eq_ok⟩, fun ctx s => ⟨?_, ?_⟩⟩
  · rw [ctx.eval_eq_surroundings, ctx.surroundings.eval_postorder]
  · rw [ctx.recorder.eval_postorder]

/-- The case of `-x ^ 2 - f((3), o.m()) * (x - 1)`, where a sign stands in front of a power, a call
in the arguments of another one, and a number in parentheses that it does not need. -/
theorem compiles_of_rendering_nested :
    ofTokens ⟨fun name => name == "x" || name == "o", (· == "f")⟩
        [.operator .neg, .ident "x", .operator .pow, .number (.ofInt 2), .operator .sub, .ident "f",
          .opening, .opening, .number (.ofInt 3), .closing, .comma, .ident "o.m", .opening,
          .closing, .closing, .operator .mul, .opening, .ident "x", .operator .sub,
          .number (.ofInt 1), .closing, .finish] =
      .ok ⟨[.variable "x", .operator .neg, .literal (.number (.ofInt 2)), .operator .pow,
        .arguments, .literal (.number (.ofInt 3)), .arguments, .call (.method "o" "m"),
        .call (.function "f"), .variable "x", .literal (.number (.ofInt 1)), .operator .sub,
        .operator .mul, .operator .sub]⟩ := by
  let names : Names := ⟨fun name => name == "x" || name == "o", (· == "f")⟩
  have hx {p : Nat} : Rendering names p (.variable "x") [.ident "x"] := .variable (by decide)
  have hpower : Rendering names Operator.sub.leftTier
      (.binary .pow (by decide) (.negate (.variable "x")) (.literal (.number (.ofInt 2)))) _ :=
    .binary _ (by decide) (.negate (by decide) hx) (.number _)
  have hmethod :
      Rendering names 0 (.call (.method "o" "m") []) [.ident "o.m", .opening, .closing] :=
    .call (by decide) (by decide +kernel) .none
  have hcall : Rendering names Operator.mul.leftTier (.call (.function "f") _) (.ident "f" :: _) :=
    .call (by decide) (by decide) (.more (.group (.number (.ofInt 3))) (.one hmethod))
  have hdifference : Rendering names 0 (.binary .sub (by decide) _ _) _ :=
    .binary _ (by decide) hx (.number (.ofInt 1))
  have hproduct : Rendering names Operator.sub.rightTier (.binary .mul (by decide) _ _) _ :=
    .binary _ (by decide) hcall (.group hdifference)
  have hwhole : Rendering names 0 (.binary .sub (by decide) _ _) _ :=
    .binary _ (by decide) hpower hproduct
  exact (compiles_of_rendering hwhole).2.2.1

end Expr

end Narrative
