import Narrative.Expr.Builtin

/-!
# Inline directives

A text may hold directives in braces: the value of an expression, a text that depends on a
condition or an index, or a sequence that shows another option on each visit. Directives are
resolved from the last opening brace to the first, so inner ones come before outer ones, and the
text that replaces a directive is not looked at for further directives.
-/

namespace Narrative

/-- What stands between a pair of braces. -/
inductive Directive where
  /-- The first option when the condition holds, otherwise the second. -/
  | conditional (condition : List Char) (options : List (List Char))
  /-- The option at the index that the expression gives, brought into range. -/
  | indexed (index : List Char) (options : List (List Char))
  /-- The options in turn, over and over. -/
  | cycle (options : List (List Char))
  /-- The options in turn, then nothing. -/
  | once (options : List (List Char))
  /-- An option at random. -/
  | shuffle (options : List (List Char))
  /-- The options in turn, then the last one for ever. -/
  | stopping (options : List (List Char))
  /-- The value of an expression. -/
  | value (source : List Char)
deriving DecidableEq, Repr

namespace Directive

/-- The options of a directive, of which there is at least one. -/
def options (cs : List Char) : List (List Char) :=
  Text.splitOn '|' cs

/-- A directive with a condition; one that begins with a number sign or a question mark is an
index. -/
def guarded (condition body : List Char) : Directive :=
  match condition with
  | '#' :: index => indexed index (options body)
  | '?' :: index => indexed index (options body)
  | _ => conditional condition (options body)

/-- A directive without a condition. -/
def unguarded : List Char → Directive
  | '&' :: rest => cycle (options rest)
  | '!' :: rest => once (options rest)
  | '~' :: rest => shuffle (options rest)
  | cs => if cs.contains '|' then stopping (options cs) else value cs

/-- The directive written between braces. -/
def ofChars (inner : List Char) : Directive :=
  match Text.cut? ':' inner with
  | some (condition, body) => guarded (Text.trim condition) body
  | none => unguarded inner

/-- The index that a value stands for. -/
def indexOf : Value → Int
  | .number n => n.toInt64
  | .bool b => if b then 1 else 0
  | .null => 0
  | _ => 1

/-- The position nearest to an index in a list of options. -/
def nearest (index : Int) (count : Nat) : Nat :=
  (max 0 (min index ((count : Int) - 1))).toNat

/-- What stands in the text for an expression without a value. -/
def failure (source : List Char) : List Char :=
  "(ERROR:".toList ++ source ++ [')']

variable {σ : Type}

/-- The text a directive stands for on the visit with the given number of earlier ones. -/
def resolve (ctx : Context σ) (count : Nat) : Directive → Run σ (List Char)
  | conditional condition options => do
    match ← (ctx.evalText condition).run with
    | .ok v => return options.getD (if v.holds then 0 else 1) []
    | .error _ => return options.getD 1 []
  | indexed index options => do
    match ← (ctx.evalText index).run with
    | .ok v => return options.getD (nearest (indexOf v) options.length) []
    | .error _ => return options.getD (nearest 0 options.length) []
  | cycle options => return options.getD (count % options.length) []
  | once options => return options.getD count []
  | shuffle options => do
    let index ← ctx.draw options.length
    return options.getD (min index (options.length - 1)) []
  | stopping options => return options.getD (min count (options.length - 1)) []
  | value source => do
    match ← (ctx.evalText source).run with
    | .ok v => return v.text.toList
    | .error _ => return failure source

/-- Resolves the directives whose opening brace lies in the reversed text `left`, which is followed
by `right`. A brace that is not closed ends the expansion. -/
def expandBefore (ctx : Context σ) (count : Nat) : (left right : List Char) → Run σ (List Char)
  | [], right => return right
  | c :: left, right =>
    if c = '\x7b' then
      match Text.cut? '\x7d' right with
      | none => return left.reverse ++ c :: right
      | some (inner, after) => do
        let resolved ← (ofChars inner).resolve ctx count
        expandBefore ctx count left (resolved ++ after)
    else expandBefore ctx count left (c :: right)

/-- The text with all its directives resolved, on the visit with the given number of earlier
ones. -/
def expand (ctx : Context σ) (count : Nat) (text : List Char) : Run σ (List Char) :=
  expandBefore ctx count text.reverse []

end Directive

end Narrative
