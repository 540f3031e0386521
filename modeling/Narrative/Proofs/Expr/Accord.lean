import Narrative.Directive
import Narrative.Proofs.Coupling
import Narrative.Proofs.Expr.Acceptance
import Narrative.Story.Function

/-!
# Expressions in two contexts

An expression says the same in two contexts that answer alike. They need to answer alike about the
names only that the expression mentions, and about the values only that come up: nothing else is
asked of a context.
-/

namespace Narrative

variable {σ τ : Type}

/-- Whether all names that an expression mentions have a property. -/
def Token.Mentions (P : String → Prop) (source : List Char) : Prop :=
  ∀ name, Token.ident name ∈ Token.ofChars source → P name

/-- The name about which a callee asks: its own, or that of the object that has the method. -/
def Callee.name : Callee → String
  | function name => name
  | method object _ => object

/-- Whether a value refers to nothing outside of itself. -/
def Value.IsPlain (v : Value) : Prop :=
  (∀ id, v ≠ .container id) ∧ ∀ key, v ≠ .object key

/-- Whether the name about which a step asks has a property; a constant is to be plain. -/
def Step.Asks (P : String → Prop) : Step → Prop
  | .literal v => v.IsPlain
  | .variable name => P name
  | .call callee => P callee.name
  | _ => True

/-- Whether the name of a callee that waits for its arguments has a property. -/
def Pending.Asks (P : String → Prop) : Pending → Prop
  | .callee c => P c.name
  | _ => True

/-- The same value, which fits. -/
def Value.Same (V : Value → Prop) (v w : Value) : Prop :=
  V v ∧ w = v

/-- Two contexts answer alike: about names with the property `P`, and with values that have the
property `V`. -/
structure Context.Accords (K : Coupling σ τ) (E : ExprError → ExprError → Prop)
    (P : String → Prop) (V : Value → Prop) (ctx : Context σ) (ctx' : Context τ) : Prop where
  /-- With a dotted name one may name what stands in front of the last dot. -/
  object {name : String} {object member : List Char} :
    P name → Text.lastCut? '.' name.toList = some (object, member) → P (String.ofList object)
  /-- Values that refer to nothing fit. -/
  plain {v : Value} : v.IsPlain → V v
  /-- Each error corresponds to itself. -/
  error (e : ExprError) : E e e
  /-- The same names stand for a value. -/
  hasVariable {s : σ} {t : τ} {name : String} : K.Meets s t → P name →
    (ctx'.names t).hasVariable name = (ctx.names s).hasVariable name
  /-- The same names can be called. -/
  hasFunction {s : σ} {t : τ} {name : String} : K.Meets s t → P name →
    (ctx'.names t).hasFunction name = (ctx.names s).hasFunction name
  /-- A name has the same value. -/
  value {s : σ} {t : τ} {name : String} : K.Meets s t → P name →
    Value.Same V (ctx.value s name) (ctx'.value t name)
  /-- Calls correspond. -/
  call {name : String} {args : List Value} : P name → (∀ v ∈ args, V v) →
    K.CouplesAttempt E (Value.Same V) (ctx.call name args) (ctx'.call name args)
  /-- An object has the same methods, which give values that fit. -/
  method {key name : String} {args : List Value} : V (.object key) →
    ctx'.method key name args = ctx.method key name args ∧
      ∀ v, ctx.method key name args = some (.ok v) → V v
  /-- The same numbers are drawn. -/
  draw (bound : Nat) : K.Couples Eq (ctx.draw bound) (ctx'.draw bound)

/-! ## Compiled expressions -/

namespace Step

variable {names names' : Names} {P : String → Prop}

/-- Steps are followed by the rest just when there is one. -/
theorem follow_eq_ok_iff {steps more : List Step} {rest : Except ExprError (List Step)} :
    follow steps rest = .ok more ↔ ∃ behind, rest = .ok behind ∧ more = steps ++ behind := by
  cases rest with
  | error e => simp [follow, Except.map]
  | ok behind => simp [follow, Except.map, eq_comm]

variable (hobject : ∀ {name : String} {object member : List Char},
  P name → Text.lastCut? '.' name.toList = some (object, member) → P (String.ofList object))

include hobject

/-- A callee asks about names that have the property when its own one does. -/
theorem asks_of_ofName? {name : String} {callee : Callee} (hname : P name)
    (h : Callee.ofName? names name = some callee) : P callee.name := by
  unfold Callee.ofName? at h
  split at h
  · cases h
    exact hname
  · split at h
    · cases h
    · next object member hcut =>
      split at h
      · cases h
        exact hobject hname hcut
      · cases h

variable (hvariable : ∀ name, P name → names'.hasVariable name = names.hasVariable name)
  (hfunction : ∀ name, P name → names'.hasFunction name = names.hasFunction name)

include hvariable hfunction

/-- A name that means the same in both calls the same function. -/
theorem ofName?_congr {name : String} (hname : P name) :
    Callee.ofName? names' name = Callee.ofName? names name := by
  unfold Callee.ofName?
  rw [hfunction name hname]
  split
  · rfl
  · split
    · rfl
    · next object member hcut => rw [hvariable _ (hobject hname hcut)]

/-- Tokens are compiled alike against names that are alike. -/
theorem ofTokens_congr {tokens : List Token} (htokens : ∀ name, .ident name ∈ tokens → P name)
    (stack : List Pending) : ofTokens names' tokens stack = ofTokens names tokens stack := by
  induction tokens generalizing stack with
  | nil => rfl
  | cons token tokens ih =>
    have ih := ih fun name hname => htokens name (List.mem_cons_of_mem _ hname)
    cases token with
    | ident name =>
      have hname := htokens name List.mem_cons_self
      unfold ofTokens
      simp only [ih, hvariable name hname, ofName?_congr hobject hvariable hfunction hname]
    | _ => unfold ofTokens; simp only [ih]

end Step

namespace Pending

variable {P : String → Prop} {stack rest : List Pending} {steps : List Step}

/-- The operators that leave the stack ask for nothing new. -/
theorem asks_of_yielding {op : Operator} (h : yielding op stack = (steps, rest))
    (hstack : ∀ p ∈ stack, p.Asks P) : (∀ s ∈ steps, s.Asks P) ∧ ∀ p ∈ rest, p.Asks P := by
  induction stack generalizing steps with
  | nil =>
    cases h
    exact ⟨List.forall_mem_nil _, hstack⟩
  | cons p stack ih =>
    unfold yielding at h
    split at h
    · next top behind heq =>
      cases heq
      split at h
      · cases hbehind : yielding op stack with
        | mk steps' rest' =>
          rw [hbehind] at h
          cases h
          obtain ⟨hsteps, hrest⟩ := ih hbehind fun p hp => hstack p (List.mem_cons_of_mem _ hp)
          exact ⟨List.forall_mem_cons.2 ⟨trivial, hsteps⟩, hrest⟩
      · cases h
        exact ⟨List.forall_mem_nil _, hstack⟩
    · cases h
      exact ⟨List.forall_mem_nil _, hstack⟩

/-- The steps that a closing parenthesis takes from the stack ask for nothing new. -/
theorem asks_of_group? (h : group? stack = some (steps, rest))
    (hstack : ∀ p ∈ stack, p.Asks P) : (∀ s ∈ steps, s.Asks P) ∧ ∀ p ∈ rest, p.Asks P := by
  induction stack generalizing steps with
  | nil => cases h
  | cons p stack ih =>
    have htail : ∀ p ∈ stack, p.Asks P := fun p hp => hstack p (List.mem_cons_of_mem _ hp)
    cases p with
    | paren =>
      cases h
      exact ⟨List.forall_mem_nil _, htail⟩
    | operator op =>
      obtain ⟨⟨steps', rest'⟩, hbehind, heq⟩ := Option.map_eq_some_iff.1 h
      cases heq
      obtain ⟨hsteps, hrest⟩ := ih hbehind htail
      exact ⟨List.forall_mem_cons.2 ⟨trivial, hsteps⟩, hrest⟩
    | callee c => cases h

/-- The steps that are left on the stack at the end ask for nothing new. -/
theorem asks_of_finish? (h : finish? stack = some steps) : ∀ s ∈ steps, s.Asks P := by
  induction stack generalizing steps with
  | nil =>
    cases h
    exact List.forall_mem_nil _
  | cons p stack ih =>
    cases p with
    | operator op =>
      obtain ⟨steps', hbehind, rfl⟩ := Option.map_eq_some_iff.1 h
      exact List.forall_mem_cons.2 ⟨trivial, ih hbehind⟩
    | paren | callee => cases h

end Pending

namespace Step

variable {names : Names} {P : String → Prop}

/-- Steps in front of others ask for nothing new when neither do. -/
theorem asks_of_follow {before steps : List Step} {rest : Except ExprError (List Step)}
    (hbefore : ∀ s ∈ before, s.Asks P)
    (hrest : ∀ behind, rest = .ok behind → ∀ s ∈ behind, s.Asks P)
    (h : follow before rest = .ok steps) : ∀ s ∈ steps, s.Asks P := by
  obtain ⟨behind, hbehind, rfl⟩ := follow_eq_ok_iff.1 h
  exact List.forall_mem_append.2 ⟨hbefore, hrest behind hbehind⟩

/-- At the end of the tokens nothing new is asked for. -/
theorem asks_of_finished {stack : List Pending} {steps : List Step}
    (h : (Pending.finish? stack).elim (.error .mismatchedParens) .ok =
      (.ok steps : Except ExprError (List Step))) : ∀ s ∈ steps, s.Asks P := by
  cases hfinish : Pending.finish? stack with
  | none =>
    rw [hfinish] at h
    cases h
  | some steps' =>
    rw [hfinish] at h
    cases h
    exact Pending.asks_of_finish? hfinish

/-- Compiled tokens ask about the names only that are among the tokens. -/
theorem asks_of_ofTokens
    (hobject : ∀ {name : String} {object member : List Char},
      P name → Text.lastCut? '.' name.toList = some (object, member) → P (String.ofList object))
    {tokens : List Token} {stack : List Pending} {steps : List Step}
    (htokens : ∀ name, .ident name ∈ tokens → P name) (hstack : ∀ p ∈ stack, p.Asks P)
    (h : ofTokens names tokens stack = .ok steps) : ∀ s ∈ steps, s.Asks P := by
  induction tokens generalizing stack steps with
  | nil => exact asks_of_finished h
  | cons token tokens ih =>
    have hrest {stack : List Pending} (hstack : ∀ p ∈ stack, p.Asks P) (behind : List Step)
        (h : ofTokens names tokens stack = .ok behind) : ∀ s ∈ behind, s.Asks P :=
      ih (fun name hname => htokens name (List.mem_cons_of_mem _ hname)) hstack h
    cases token with
    | finish => exact asks_of_finished h
    | number n | str n =>
      refine asks_of_follow ?_ (hrest hstack) h
      exact List.forall_mem_singleton.2 ⟨nofun, nofun⟩
    | ident name =>
      have hname := htokens name List.mem_cons_self
      rw [ofTokens] at h
      split at h
      · refine asks_of_follow ?_ (hrest hstack) h
        exact List.forall_mem_singleton.2 hname
      · split at h
        · cases h
        · next callee hcallee =>
          have hasks := asks_of_ofName? hobject hname hcallee
          split at h
          · refine asks_of_follow ?_ (hrest ?_) h
            · exact List.forall_mem_singleton.2 trivial
            · exact List.forall_mem_cons.2 ⟨hasks, hstack⟩
          · refine asks_of_follow ?_ (hrest hstack) h
            exact List.forall_mem_cons.2 ⟨trivial, List.forall_mem_singleton.2 hasks⟩
    | operator op =>
      obtain ⟨hbefore, hleft⟩ := Pending.asks_of_yielding (rfl : Pending.yielding op stack = _) hstack
      refine asks_of_follow hbefore (hrest ?_) h
      exact List.forall_mem_cons.2 ⟨trivial, hleft⟩
    | opening =>
      refine hrest ?_ steps h
      exact List.forall_mem_cons.2 ⟨trivial, hstack⟩
    | comma =>
      rw [ofTokens] at h
      split at h
      · cases h
      · next hgroup =>
        obtain ⟨hbefore, hleft⟩ := Pending.asks_of_group? hgroup hstack
        refine asks_of_follow hbefore (hrest ?_) h
        exact List.forall_mem_cons.2 ⟨trivial, hleft⟩
    | closing =>
      rw [ofTokens] at h
      split at h
      · cases h
      · next hgroup =>
        obtain ⟨hbefore, hleft⟩ := Pending.asks_of_group? hgroup hstack
        obtain ⟨hcallee, hleft⟩ := List.forall_mem_cons.1 hleft
        refine asks_of_follow ?_ (hrest hleft) h
        exact List.forall_mem_append.2 ⟨hbefore, List.forall_mem_singleton.2 hcallee⟩
      · next hgroup =>
        obtain ⟨hbefore, hleft⟩ := Pending.asks_of_group? hgroup hstack
        exact asks_of_follow hbefore (hrest hleft) h
    | unknown c position => cases h

end Step

/-! ## Values -/

/-- The same stack, whose values fit. -/
def Slot.Same (V : Value → Prop) (stack stack' : List Slot) : Prop :=
  (∀ v, Slot.value v ∈ stack → V v) ∧ stack' = stack

/-- A result of expressions that do not touch the state corresponds to itself when its values fit. -/
theorem Outcomes.same {α ε : Type} {E : ε → ε → Prop} {Q : α → Prop} (hE : ∀ e, E e e)
    {r : Except ε α} (h : ∀ a, r = .ok a → Q a) :
    Outcomes E (fun a b => Q a ∧ b = a) r r := by
  cases r with
  | ok a => exact ⟨h a rfl, rfl⟩
  | error e => exact hE e

section Plain

variable {V : Value → Prop}
  (hplain : ∀ {v : Value}, v.IsPlain → V v)

include hplain

/-- The value of a unary operator fits. -/
theorem Operator.fits_of_applyUnary {op : Operator} {v w : Value} (h : op.applyUnary v = .ok w) :
    V w := by
  unfold applyUnary at h
  split at h
  · cases h
    exact hplain ⟨nofun, nofun⟩
  · cases h

/-- What an operator gives is a number or a text. -/
theorem Operator.fits_of_applyBinary {op : Operator} {v w x : Value}
    (h : op.applyBinary v w = .ok x) : V x := by
  have htruth (b : Bool) : V (.truth b) := hplain ⟨nofun, nofun⟩
  have htexts {s t : String} (h : op.applyTexts s t = .ok x) : V x := by
    unfold applyTexts at h
    split at h <;> cases h
    exact htruth _
  have hnumbers {m n : Decimal} (h : op.applyNumbers v w m n = .ok x) : V x := by
    unfold applyNumbers at h
    split at h <;> cases h
    · exact hplain ⟨nofun, nofun⟩
    · exact htruth _
  unfold applyBinary at h
  split at h
  · cases h
    exact htruth _
  · cases h
    exact htruth _
  · cases h
    exact htruth _
  · cases h
    exact htruth _
  · split at h
    · cases h
      exact hplain ⟨nofun, nofun⟩
    · split at h
      · exact htexts h
      · split at h
        · exact hnumbers h
        · cases h

end Plain

namespace Slot

variable {V : Value → Prop} {stack rest : List Slot}

/-- A value that is taken from the stack fits, and so does the rest. -/
theorem fits_of_pop {v : Value} (hstack : ∀ v, Slot.value v ∈ stack → V v)
    (h : pop stack = .ok (v, rest)) : V v ∧ ∀ v, Slot.value v ∈ rest → V v := by
  unfold pop at h
  split at h
  · cases h
    exact ⟨hstack v List.mem_cons_self, fun w hw => hstack w (List.mem_cons_of_mem _ hw)⟩
  · cases h

/-- Arguments that are taken from the stack fit, and so does the rest. -/
theorem fits_of_popArguments {args : List Value} (hstack : ∀ v, Slot.value v ∈ stack → V v)
    (h : popArguments stack = .ok (args, rest)) :
    (∀ v ∈ args, V v) ∧ ∀ v, Slot.value v ∈ rest → V v := by
  induction stack generalizing args with
  | nil => cases h
  | cons slot stack ih =>
    have htail : ∀ v, Slot.value v ∈ stack → V v := fun v hv => hstack v (List.mem_cons_of_mem _ hv)
    cases slot with
    | mark =>
      cases h
      exact ⟨List.forall_mem_nil _, htail⟩
    | value v =>
      unfold popArguments at h
      cases hbehind : popArguments stack with
      | error e =>
        rw [hbehind] at h
        cases h
      | ok r =>
        rw [hbehind] at h
        cases h
        obtain ⟨hargs, hrest⟩ := ih htail hbehind
        refine ⟨fun w hw => ?_, hrest⟩
        obtain rfl | hw := List.mem_cons.1 hw
        · exact hstack w List.mem_cons_self
        · exact hargs w hw

end Slot

/-! ## What is evaluated -/

namespace Directive

/-- The expression in a directive. -/
def source? : Directive → Option (List Char)
  | conditional source _ | indexed source _ | value source => some source
  | _ => none

/-- The texts for which a directive can stand: one of its options or nothing, or any text when it is
the value of an expression. -/
def Gives (shown : List Char) : Directive → Prop
  | conditional _ options | indexed _ options | cycle options | once options | shuffle options
  | stopping options => shown ∈ options ∨ shown = []
  | value _ => True

/-- What is taken from options is one of them, or nothing. -/
theorem getD_mem_or_eq_nil (options : List (List Char)) (i : Nat) :
    options.getD i [] ∈ options ∨ options.getD i [] = [] := by
  rw [List.getD_eq_getElem?_getD]
  cases hi : options[i]? with
  | none => exact .inr rfl
  | some shown => exact .inl (List.mem_of_getElem? hi)

/-- Whether the expressions have a property that are evaluated when the directives of a text are
resolved, whatever text takes the place of the directives inside of others. The text is given as for
`expandBefore`. -/
def AsksBefore (Q : List Char → Prop) : (left right : List Char) → Prop
  | [], _ => True
  | c :: left, right =>
    if c = '\x7b' then
      match Text.cut? '\x7d' right with
      | none => True
      | some (inner, after) =>
        (∀ source ∈ (ofChars inner).source?, Q source) ∧
          ∀ shown, (ofChars inner).Gives shown → AsksBefore Q left (shown ++ after)
    else AsksBefore Q left (c :: right)

/-- Whether the expressions in the directives of a text have a property. -/
def Asks (Q : List Char → Prop) (text : List Char) : Prop :=
  AsksBefore Q text.reverse []

/-- A text asks for what holds of every expression. -/
theorem asksBefore_of_all {Q : List Char → Prop} (h : ∀ source, Q source) (left right : List Char) :
    AsksBefore Q left right := by
  induction left generalizing right with
  | nil => trivial
  | cons c left ih =>
    unfold AsksBefore
    split
    · split
      · trivial
      · exact ⟨fun source _ => h source, fun shown _ => ih _⟩
    · exact ih _

end Directive

namespace Context.Accords

open Coupling

variable {K : Coupling σ τ} {E : ExprError → ExprError → Prop} {P : String → Prop}
  {V : Value → Prop} {ctx : Context σ} {ctx' : Context τ} (h : ctx.Accords K E P V ctx')

include h

/-- A function gives the same value in both contexts. -/
theorem invoke {callee : Callee} {args : List Value} (hcallee : P callee.name)
    (hargs : ∀ v ∈ args, V v) :
    K.CouplesAttempt E (Value.Same V) (ctx.invoke callee args) (ctx'.invoke callee args) := by
  cases callee with
  | function name => exact h.call hcallee hargs
  | method object name =>
    refine attempt_consult fun s t hst => attempt_result ?_
    obtain ⟨hfits, hsame⟩ := h.value hst hcallee
    simp only [Callee.name] at hsame hfits
    rw [hsame]
    have hmethods : ctx'.callMethod (ctx.value s object) object name args =
        ctx.callMethod (ctx.value s object) object name args := by
      unfold callMethod
      split
      · next key hkey => rw [(h.method (hkey ▸ hfits)).1]
      · rfl
      · rfl
      · rfl
    rw [hmethods]
    refine Outcomes.same h.error fun v hv => ?_
    unfold callMethod at hv
    split at hv
    · next key hkey =>
      split at hv
      · next heq =>
        cases hv
        exact (h.method (hkey ▸ hfits)).2 _ heq
      · cases hv
      · cases hv
    · cases hv
      exact h.plain ⟨nofun, nofun⟩
    · split at hv <;> cases hv
      exact h.plain ⟨nofun, nofun⟩
    · cases hv

/-- A step has the same effect on the stack. -/
theorem step {stack : List Slot} {s : Step} (hs : s.Asks P)
    (hstack : ∀ v, Slot.value v ∈ stack → V v) :
    K.CouplesAttempt E (Slot.Same V) (ctx.step stack s) (ctx'.step stack s) := by
  have hpush {v : Value} {rest : List Slot} (hv : V v) (hrest : ∀ v, Slot.value v ∈ rest → V v) :
      Slot.Same V (.value v :: rest) (.value v :: rest) := by
    refine ⟨fun w hw => ?_, rfl⟩
    obtain heq | hw := List.mem_cons.1 hw
    · cases heq
      exact hv
    · exact hrest w hw
  cases s with
  | literal v => exact attempt_pure (hpush (h.plain hs) hstack)
  | «variable» name =>
    refine attempt_consult fun s t hst => ?_
    obtain ⟨hfits, hsame⟩ := h.value hst hs
    rw [hsame]
    refine attempt_pure (hpush ?_ hstack)
    unfold Value.read
    split
    · exact h.plain ⟨nofun, nofun⟩
    · exact hfits
  | operator op =>
    refine attempt_bind (attempt_result (Outcomes.same (Q := fun r : Value × List Slot =>
      V r.1 ∧ ∀ v, Slot.value v ∈ r.2 → V v) h.error fun r hr => Slot.fits_of_pop hstack hr)) ?_
    rintro ⟨w, rest⟩ _ ⟨⟨-, hrest⟩, rfl⟩
    simp only
    split
    · refine attempt_bind (attempt_result (Outcomes.same h.error fun v hv =>
        Operator.fits_of_applyUnary h.plain hv)) ?_
      rintro v _ ⟨hv, rfl⟩
      exact attempt_pure (hpush hv hrest)
    · refine attempt_bind (attempt_result (Outcomes.same (Q := fun r : Value × List Slot =>
        V r.1 ∧ ∀ v, Slot.value v ∈ r.2 → V v) h.error fun r hr => Slot.fits_of_pop hrest hr)) ?_
      rintro ⟨v, rest'⟩ _ ⟨⟨-, hrest'⟩, rfl⟩
      refine attempt_bind (attempt_result (Outcomes.same h.error fun v hv =>
        Operator.fits_of_applyBinary h.plain hv)) ?_
      rintro v _ ⟨hv, rfl⟩
      exact attempt_pure (hpush hv hrest')
  | arguments =>
    refine attempt_pure ⟨fun v hv => ?_, rfl⟩
    obtain heq | hv := List.mem_cons.1 hv
    · cases heq
    · exact hstack v hv
  | call callee =>
    refine attempt_bind (attempt_result (Outcomes.same (Q := fun r : List Value × List Slot =>
      (∀ v ∈ r.1, V v) ∧ ∀ v, Slot.value v ∈ r.2 → V v) h.error fun r hr =>
        Slot.fits_of_popArguments hstack hr)) ?_
    rintro ⟨args, rest⟩ _ ⟨⟨hargs, hrest⟩, rfl⟩
    refine attempt_bind (h.invoke hs fun v hv => hargs v (List.mem_reverse.1 hv)) ?_
    rintro v _ ⟨hv, rfl⟩
    exact attempt_pure (hpush hv hrest)

/-- Several steps have the same effect on the stack. -/
theorem steps {steps : List Step} {stack : List Slot} (hsteps : ∀ s ∈ steps, s.Asks P)
    (hstack : ∀ v, Slot.value v ∈ stack → V v) :
    K.CouplesAttempt E (Slot.Same V) (ctx.steps steps stack) (ctx'.steps steps stack) := by
  induction steps generalizing stack with
  | nil => exact attempt_pure ⟨hstack, rfl⟩
  | cons s steps ih =>
    obtain ⟨hs, hrest⟩ := List.forall_mem_cons.1 hsteps
    refine attempt_bind (h.step hs hstack) ?_
    rintro stack' _ ⟨hstack', rfl⟩
    exact ih hrest hstack'

/-- An expression has the same value. -/
theorem eval {e : Expr} (he : ∀ s ∈ e.steps, s.Asks P) :
    K.CouplesAttempt E (Value.Same V) (ctx.eval e) (ctx'.eval e) := by
  refine attempt_bind (h.steps he fun v hv => absurd hv List.not_mem_nil) ?_
  rintro stack _ ⟨hstack, rfl⟩
  refine attempt_bind (attempt_result (Outcomes.same (Q := fun r : Value × List Slot => V r.1)
    h.error fun r hr => (Slot.fits_of_pop hstack hr).1)) ?_
  rintro ⟨v, rest⟩ _ ⟨hv, rfl⟩
  simp only
  split
  · exact attempt_pure ⟨hv, rfl⟩
  · exact attempt_throw (h.error _)

/-- An expression has the same value in contexts that answer alike about the names in it. -/
theorem evalText {source : List Char} (hsource : Token.Mentions P source) :
    K.CouplesAttempt E (Value.Same V) (ctx.evalText source) (ctx'.evalText source) := by
  refine attempt_consult fun s t hst => ?_
  have hcompile : Expr.compile (ctx'.names t) source = Expr.compile (ctx.names s) source := by
    unfold Expr.compile Expr.ofTokens
    rw [Step.ofTokens_congr h.object (fun _ => h.hasVariable hst) (fun _ => h.hasFunction hst)
      hsource]
  rw [hcompile]
  refine attempt_bind (attempt_result (Outcomes.same (Q := fun e : Expr =>
    ∀ s ∈ e.steps, s.Asks P) h.error fun e he => ?_)) ?_
  · unfold Expr.compile Expr.ofTokens at he
    cases hsteps : Step.ofTokens (ctx.names s) (Token.ofChars source) [] with
    | error e =>
      rw [hsteps] at he
      cases he
    | ok steps =>
      rw [hsteps] at he
      change (Step.check steps 0 [] >>= fun _ => pure ⟨steps⟩) = Except.ok e at he
      cases hcheck : Step.check steps 0 [] with
      | error e =>
        rw [hcheck] at he
        cases he
      | ok u =>
        rw [hcheck] at he
        cases he
        exact Step.asks_of_ofTokens h.object hsource (List.forall_mem_nil _) hsteps
  · rintro e _ ⟨he, rfl⟩
    exact h.eval he

/-- A condition holds in both, or in none. -/
theorem holds {source : String} (hsource : Token.Mentions P source.toList) :
    K.Couples Eq (ctx.holds source) (ctx'.holds source) := by
  refine K.bind (h.evalText hsource) fun _ _ hr => hr.elim ?_ fun _ _ _ => K.pure rfl
  rintro v _ ⟨-, rfl⟩
  exact K.pure rfl

/-- Conditions hold together in both, or in none. -/
theorem allHold {sources : List String}
    (hsources : ∀ source ∈ sources, Token.Mentions P source.toList) :
    K.Couples Eq (ctx.allHold sources) (ctx'.allHold sources) := by
  induction sources with
  | nil => exact K.pure rfl
  | cons source rest ih =>
    obtain ⟨hsource, hrest⟩ := List.forall_mem_cons.1 hsources
    refine K.bind (h.holds hsource) ?_
    rintro b _ rfl
    cases b with
    | true => exact ih hrest
    | false => exact K.pure rfl

/-- The first guard that holds is the same. -/
theorem firstHolding {guards : List (Option String)}
    (hguards : ∀ source, some source ∈ guards → Token.Mentions P source.toList) :
    K.Couples Eq (ctx.firstHolding guards) (ctx'.firstHolding guards) := by
  induction guards with
  | nil => exact K.pure rfl
  | cons guard rest ih =>
    cases guard with
    | none => exact K.pure rfl
    | some source =>
      refine K.bind (h.holds (hguards source List.mem_cons_self)) ?_
      rintro b _ rfl
      cases b with
      | true => exact K.pure rfl
      | false =>
        refine K.bind (ih fun source hsource => hguards source (List.mem_cons_of_mem _ hsource)) ?_
        rintro n _ rfl
        exact K.pure rfl

/-- The same option of a block is chosen. -/
theorem chooseOption {mode : BlockMode} {options options' : List BlockOption} {count : Nat}
    (hoptions : options'.map (·.guard) = options.map (·.guard))
    (hguards : ∀ o ∈ options, ∀ source ∈ o.guard, Token.Mentions P source.toList) :
    K.Couples Eq (ctx.chooseOption mode options count)
      (ctx'.chooseOption mode options' count) := by
  have hlength : options'.length = options.length := by
    simpa using congrArg List.length hoptions
  cases mode with
  | conditional =>
    change K.Couples Eq (ctx.firstHolding _) (ctx'.firstHolding _)
    rw [hoptions]
    refine h.firstHolding fun source hsource => ?_
    obtain ⟨o, ho, hguard⟩ := List.mem_map.1 hsource
    exact hguards o ho source hguard
  | shuffle =>
    change K.Couples Eq (if options.isEmpty then return 0 else ctx.draw options.length)
      (if options'.isEmpty then return 0 else ctx'.draw options'.length)
    have hempty : options'.isEmpty = options.isEmpty := by
      rw [Bool.eq_iff_iff, List.isEmpty_iff_length_eq_zero, List.isEmpty_iff_length_eq_zero, hlength]
    simp only [hempty, hlength]
    split
    · exact K.pure rfl
    · exact h.draw _
  | stopping | cycle | once =>
    refine K.pure ?_
    rw [hlength]

/-- A directive stands for the same text. -/
theorem resolve {d : Directive} (hd : ∀ source ∈ d.source?, Token.Mentions P source)
    (count : Nat) : K.Couples (fun shown shown' => d.Gives shown ∧ shown' = shown)
      (d.resolve ctx count) (d.resolve ctx' count) := by
  cases d with
  | conditional source options | indexed source options =>
    refine K.bind (h.evalText (hd source rfl)) fun _ _ hr => hr.elim ?_ fun _ _ _ =>
      K.pure ⟨Directive.getD_mem_or_eq_nil .., rfl⟩
    rintro v _ ⟨-, rfl⟩
    exact K.pure ⟨Directive.getD_mem_or_eq_nil .., rfl⟩
  | value source =>
    refine K.bind (h.evalText (hd source rfl)) fun _ _ hr => hr.elim ?_ fun _ _ _ =>
      K.pure ⟨trivial, rfl⟩
    rintro v _ ⟨-, rfl⟩
    exact K.pure ⟨trivial, rfl⟩
  | shuffle options =>
    refine K.bind (h.draw _) ?_
    rintro n _ rfl
    exact K.pure ⟨Directive.getD_mem_or_eq_nil .., rfl⟩
  | cycle options | once options | stopping options =>
    exact K.pure ⟨Directive.getD_mem_or_eq_nil .., rfl⟩

/-- The directives in front are replaced alike. -/
theorem expandBefore {left right : List Char}
    (hasks : Directive.AsksBefore (Token.Mentions P) left right) (count : Nat) :
    K.Couples Eq (Directive.expandBefore ctx count left right)
      (Directive.expandBefore ctx' count left right) := by
  induction left generalizing right with
  | nil => exact K.pure rfl
  | cons c left ih =>
    unfold Directive.AsksBefore at hasks
    unfold Directive.expandBefore
    split
    · next hc =>
      rw [if_pos hc] at hasks
      split
      · exact K.pure rfl
      · next inner after hcut =>
        rw [hcut] at hasks
        refine K.bind (h.resolve hasks.1 count) ?_
        rintro _ shown ⟨hshown, rfl⟩
        exact ih (hasks.2 shown hshown)
    · next hc =>
      rw [if_neg hc] at hasks
      exact ih hasks

/-- A text is shown alike. -/
theorem expand {text : List Char} (hasks : Directive.Asks (Token.Mentions P) text) (count : Nat) :
    K.Couples Eq (Directive.expand ctx count text) (Directive.expand ctx' count text) :=
  h.expandBefore hasks count

/-- A function of the language gives the same value. The one that asks for the container being
played needs contexts that agree about it. -/
theorem callBuiltin {name : String} {f : Builtin} {args : List Value}
    (hthis : f = .isKnot → ∀ s t, K.Meets s t → ctx'.value t "this" = ctx.value s "this") :
    K.CouplesAttempt E (Value.Same V) (f.call ctx name args) (f.call ctx' name args) := by
  unfold Builtin.call
  split
  · cases f with
    | isKnot =>
      refine attempt_consult fun s t hst => ?_
      rw [hthis rfl s t hst]
      exact attempt_pure ⟨h.plain ⟨nofun, nofun⟩, rfl⟩
    | random =>
      unfold Builtin.apply
      simp only
      split
      · exact attempt_pure ⟨h.plain ⟨nofun, nofun⟩, rfl⟩
      · refine attempt_bind (attempt_lift (h.draw _)) ?_
        rintro n _ rfl
        exact attempt_pure ⟨h.plain ⟨nofun, nofun⟩, rfl⟩
    | isNull | getNull | not | floor => exact attempt_pure ⟨h.plain ⟨nofun, nofun⟩, rfl⟩
  · exact attempt_throw (h.error _)

end Context.Accords

end Narrative
