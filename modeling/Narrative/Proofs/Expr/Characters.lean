import Narrative.Proofs.Decimal.Plain
import Narrative.Proofs.Expr.Acceptance

/-!
# Where the characters of a value come from

An expression puts into a value what is quoted in it, the notation of numbers, and what the context
answers. So a character that is in none of them is not in the text of its value.
-/

namespace Narrative

/-! ## Texts in tokens and steps -/

namespace Lexeme

/-- A number is no text. -/
theorem number_ne_str (position : Nat) (c : Char) (rest : List Char) (s : String) :
    (number position c rest).1 ≠ .str s := by
  unfold number
  dsimp only
  split <;> simp

/-- A name is no text. -/
theorem name_ne_str (c : Char) (rest : List Char) (s : String) : (name c rest).1 ≠ .str s := by
  unfold name word
  dsimp only
  split <;> simp

/-- A token of one character or two is one of those given. -/
theorem paired_all {P : Token → Prop} {single : Token} {pairs : List (Char × Token)}
    (rest : List Char) (hsingle : P single) (hpairs : ∀ p ∈ pairs, P p.2) :
    P (paired single pairs rest).1 := by
  unfold paired
  split
  · next found hfound =>
    obtain ⟨d, -, hd⟩ := Option.bind_eq_some_iff.1 hfound
    obtain ⟨before, after, rfl, -⟩ := List.lookup_eq_some_iff.1 hd
    exact hpairs (d, found) List.mem_append_cons_self
  · exact hsingle

/-- A token of one or two characters is none but those it may be. -/
theorem paired_ne {single token : Token} {pairs : List (Char × Token)} (rest : List Char)
    (hsingle : single ≠ token) (hpairs : ∀ p ∈ pairs, p.2 ≠ token) :
    (paired single pairs rest).1 ≠ token :=
  paired_all (P := (· ≠ token)) rest hsingle hpairs

/-- A text that is read is what stands up to the next quote. -/
theorem read_eq_str {operand : Bool} {position : Nat} {c : Char} {rest : List Char} {s : String}
    (h : (read operand position c rest).1 = .str s) :
    s = String.ofList (rest.takeWhile (· != '"')) := by
  unfold read at h
  dsimp only at h
  split at h
  · exact absurd h (number_ne_str _ _ _ _)
  split at h
  · exact absurd h (number_ne_str _ _ _ _)
  split at h
  · exact absurd h (number_ne_str _ _ _ _)
  split at h
  · exact absurd h (name_ne_str _ _ _)
  split at h
  case h_2 =>
    cases h
    rfl
  case h_8 | h_9 | h_10 | h_11 | h_12 | h_13 =>
    exact absurd h (paired_ne rest (by simp) (by simp))
  all_goals cases h

/-- Every lexeme of a text was read at a place of it. -/
theorem exists_read_of_mem_scan {operand : Bool} {position : Nat} {cs : List Char}
    {lexeme : Lexeme} (h : lexeme ∈ scan operand position cs) :
    ∃ operand c rest extent, read operand lexeme.position c rest = (lexeme.token, extent) ∧
      lexeme.chars = c :: rest.take extent ∧ c :: rest <:+ cs := by
  induction operand, position, cs using scan.induct with
  | case1 => simp [scan] at h
  | case2 operand position d rest hsep ih =>
    rw [scan, if_pos hsep] at h
    obtain ⟨operand, c, more, extent, hread, hchars, hsuffix⟩ := ih h
    exact ⟨operand, c, more, extent, hread, hchars, hsuffix.trans (List.suffix_cons _ _)⟩
  | case3 operand position d rest hsep token extent hread chars ih =>
    rw [scan, if_neg hsep, hread] at h
    rcases List.mem_cons.1 h with rfl | h
    · exact ⟨operand, d, rest, extent, hread, rfl, List.suffix_refl _⟩
    · obtain ⟨operand, c, more, extent', hread, hchars, hsuffix⟩ := ih h
      exact ⟨operand, c, more, extent', hread, hchars,
        (hsuffix.trans (List.drop_suffix _ _)).trans (List.suffix_cons _ _)⟩

/-- The characters of a text in an expression are characters of the expression. -/
theorem mem_of_mem_scan {operand : Bool} {position : Nat} {cs : List Char} {lexeme : Lexeme}
    {s : String} {c : Char} (h : lexeme ∈ scan operand position cs) (hs : lexeme.token = .str s)
    (hc : c ∈ s.toList) : c ∈ cs := by
  obtain ⟨operand, d, rest, extent, hread, -, hsuffix⟩ := exists_read_of_mem_scan h
  rw [read_eq_str ((congrArg Prod.fst hread).trans hs), String.toList_ofList] at hc
  exact hsuffix.subset (List.mem_cons_of_mem d ((List.takeWhile_sublist _).subset hc))

end Lexeme

/-- The characters of a text in quotes stand in the expression. -/
theorem Token.mem_of_mem_ofChars {cs : List Char} {s : String} {c : Char}
    (h : Token.str s ∈ Token.ofChars cs) (hc : c ∈ s.toList) : c ∈ cs := by
  rcases List.mem_append.1 h with h | h
  · obtain ⟨lexeme, hmem, hs⟩ := List.mem_map.1 h
    exact Lexeme.mem_of_mem_scan hmem hs hc
  · simp at h

/-- Steps that push no constants. -/
def Step.Plain (steps : List Step) : Prop :=
  ∀ v, Step.literal v ∉ steps

namespace Pending

open Step (Plain)

/-- One more operator quotes nothing. -/
theorem plain_cons {steps : List Step} (h : Plain steps) (op : Operator) :
    Plain (.operator op :: steps) := by
  simpa [Plain] using h

/-- The operators that leave the stack quote nothing. -/
theorem plain_yielding (op : Operator) (stack : List Pending) : Plain (yielding op stack).1 := by
  induction stack with
  | nil => exact fun _ => List.not_mem_nil
  | cons top stack ih =>
    cases top with
    | operator next =>
      rw [yielding]
      split
      · exact plain_cons ih next
      · exact fun _ => List.not_mem_nil
    | paren | callee => exact fun _ => List.not_mem_nil

/-- The operators that a closing parenthesis takes from the stack quote nothing. -/
theorem plain_group? {stack under : List Pending} {steps : List Step}
    (h : group? stack = some (steps, under)) : Plain steps := by
  induction stack generalizing steps under with
  | nil => cases h
  | cons top stack ih =>
    cases top with
    | paren =>
      cases h
      exact fun _ => List.not_mem_nil
    | callee => cases h
    | operator op =>
      obtain ⟨⟨inner, below⟩, hinner, heq⟩ := Option.map_eq_some_iff.1 h
      cases heq
      exact plain_cons (ih hinner) op

/-- The operators that are left on the stack at the end quote nothing. -/
theorem plain_finish? {stack : List Pending} {steps : List Step}
    (h : finish? stack = some steps) : Plain steps := by
  induction stack generalizing steps with
  | nil =>
    cases h
    exact fun _ => List.not_mem_nil
  | cons top stack ih =>
    cases top with
    | paren | callee => cases h
    | operator op =>
      obtain ⟨inner, hinner, rfl⟩ := Option.map_eq_some_iff.1 h
      exact plain_cons (ih hinner) op

end Pending

namespace Step

/-- A constant among the steps is a number, or a text that is quoted in the tokens. -/
def Quoting (tokens : List Token) (steps : List Step) : Prop :=
  ∀ v, Step.literal v ∈ steps → (∃ n, v = .number n) ∨ ∃ s, v = .str s ∧ .str s ∈ tokens

/-- Steps that quote nothing quote what tokens they may. -/
theorem Plain.quoting {steps : List Step} (h : Plain steps) (tokens : List Token) :
    Quoting tokens steps := fun v hv => absurd hv (h v)

/-- A number quotes nothing. -/
theorem quoting_number (n : Decimal) (tokens : List Token) :
    Quoting tokens [.literal (.number n)] := by
  intro v hv
  cases List.mem_singleton.1 hv
  exact .inl ⟨n, rfl⟩

/-- A text is quoted from its token. -/
theorem quoting_str (s : String) (tokens : List Token) :
    Quoting (.str s :: tokens) [.literal (.str s)] := by
  intro v hv
  cases List.mem_singleton.1 hv
  exact .inr ⟨s, rfl, List.mem_cons_self⟩

/-- What is quoted from tokens is quoted from more of them. -/
theorem Quoting.cons {tokens : List Token} {steps : List Step} (h : Quoting tokens steps)
    (t : Token) : Quoting (t :: tokens) steps := fun v hv =>
  (h v hv).imp_right fun ⟨s, hs, hmem⟩ => ⟨s, hs, List.mem_cons_of_mem t hmem⟩

/-- Steps for a token are followed by those for the tokens behind it. -/
theorem Quoting.follow {t : Token} {tokens : List Token} {front steps : List Step}
    {rest : Except ExprError (List Step)} (hfront : Quoting (t :: tokens) front)
    (hrest : ∀ more, rest = .ok more → Quoting tokens more)
    (h : Step.follow front rest = .ok steps) : Quoting (t :: tokens) steps := by
  obtain ⟨more, hmore⟩ := follow_eq_ok h
  rw [hmore] at h
  cases h
  exact fun v hv => (List.mem_append.1 hv).elim (hfront v) ((hrest more hmore).cons t v)

/-- What is left at the end pushes no constants. -/
theorem quoting_finish {tokens : List Token} {stack : List Pending} {steps : List Step}
    (h : (Pending.finish? stack).elim (.error .mismatchedParens) .ok =
      (.ok steps : Except ExprError (List Step))) : Quoting tokens steps := by
  cases hfinish : Pending.finish? stack with
  | none => simp [hfinish] at h
  | some left =>
    rw [hfinish] at h
    cases h
    exact (Pending.plain_finish? hfinish).quoting tokens

/-- The constants of a compiled expression are the numbers and texts of its tokens. -/
theorem quoting_ofTokens {names : Names} {tokens : List Token} {stack : List Pending}
    {steps : List Step} (h : ofTokens names tokens stack = .ok steps) : Quoting tokens steps := by
  induction tokens generalizing stack steps with
  | nil => exact quoting_finish h
  | cons t tokens ih =>
    have hrest {stack : List Pending} (more : List Step)
        (hmore : ofTokens names tokens stack = .ok more) : Quoting tokens more := ih hmore
    cases t with
    | finish => exact quoting_finish h
    | number n => exact (quoting_number n _).follow hrest h
    | str s => exact (quoting_str s tokens).follow hrest h
    | ident name =>
      rw [ofTokens] at h
      split at h
      · exact Quoting.follow (Plain.quoting (by simp [Plain]) _) hrest h
      · split at h
        · cases h
        · split at h
          · exact Quoting.follow (Plain.quoting (by simp [Plain]) _) hrest h
          · exact Quoting.follow (Plain.quoting (by simp [Plain]) _) hrest h
    | operator op => exact ((Pending.plain_yielding op stack).quoting _).follow hrest h
    | opening => exact (ih h).cons _
    | comma =>
      rw [ofTokens] at h
      split at h
      · cases h
      · next hgroup => exact ((Pending.plain_group? hgroup).quoting _).follow hrest h
    | closing =>
      rw [ofTokens] at h
      split at h
      · cases h
      · next steps callee under hgroup =>
        refine Quoting.follow (Plain.quoting (fun v hv => ?_) _) hrest h
        exact Pending.plain_group? hgroup v (by simpa using hv)
      · next hgroup => exact ((Pending.plain_group? hgroup).quoting _).follow hrest h
    | unknown => cases h

end Step

/-! ## Characters of values -/

/-- All characters of a value's text have a property. -/
def Value.Spelled (P : Char → Prop) (v : Value) : Prop :=
  ∀ c ∈ v.text.toList, P c

/-- The characters of the plain notation of numbers. -/
def Numeral (c : Char) : Prop :=
  c.isDigit = true ∨ c = '-' ∨ c = '.'

instance (c : Char) : Decidable (Numeral c) :=
  inferInstanceAs (Decidable (_ ∨ _))

section Spelled

variable {P : Char → Prop}

namespace Value

/-- A number is spelled with the characters of numbers. -/
theorem spelled_number (h : ∀ c, Numeral c → P c) (n : Decimal) : (number n).Spelled P := by
  intro c hc
  rw [text, Decimal.text, String.toList_ofList] at hc
  exact h c (Decimal.plain_of_mem_toChars hc)

/-- What a value is read as is spelled with its characters. -/
theorem Spelled.read (h : ∀ c, Numeral c → P c) {v : Value} (hv : v.Spelled P) :
    v.read.Spelled P := by
  cases v with
  | bool b => exact spelled_number h (.ofBool b)
  | null | number | str | container | object => exact hv

/-- An operator with two operands joins their texts or gives a number. -/
theorem Spelled.applyBinary (h : ∀ c, Numeral c → P c) {op : Operator} {u v w : Value}
    (hu : u.Spelled P) (hv : v.Spelled P) (hw : op.applyBinary u v = .ok w) : w.Spelled P := by
  unfold Operator.applyBinary at hw
  split at hw
  case h_5 =>
    split at hw
    · cases hw
      intro c hc
      rw [text, String.toList_append, List.mem_append] at hc
      exact hc.elim (hu c) (hv c)
    · split at hw
      · unfold Operator.applyTexts at hw
        split at hw <;> cases hw
        exact spelled_number h _
      · split at hw
        · unfold Operator.applyNumbers at hw
          split at hw <;> cases hw
          · exact spelled_number h _
          · exact spelled_number h _
        · cases hw
  all_goals
    cases hw
    exact spelled_number h _

/-- The value of a unary operator is spelled with the same characters. -/
theorem spelled_of_applyUnary (h : ∀ c, Numeral c → P c) {op : Operator} {v w : Value}
    (hw : op.applyUnary v = .ok w) : w.Spelled P := by
  unfold Operator.applyUnary at hw
  split at hw <;> cases hw
  exact spelled_number h _

end Value

namespace Context

variable {σ : Type} {ctx : Context σ}

/-- What a context answers is spelled with characters that have a property. -/
structure Answers (ctx : Context σ) (P : Char → Prop) : Prop where
  value (s : σ) (name : String) : (ctx.value s name).Spelled P
  invoke {callee : Callee} {args : List Value} {s s' : σ} {v : Value} :
    ctx.surroundings.invoke callee args s = some (.ok v, s') → v.Spelled P

/-- The value of a tree is spelled with the characters of its constants, those of numbers, and those
of the answers. -/
theorem Answers.spelled_eval (hctx : ctx.Answers P) (hplain : ∀ c, Numeral c → P c) {t : Tree}
    {s s' : σ} {v : Value} (ht : ∀ w, Step.literal w ∈ t.postorder → w.Spelled P)
    (h : t.eval ctx.surroundings s = some (.ok v, s')) : v.Spelled P := by
  match t with
  | .literal w =>
    cases h
    exact ht v List.mem_cons_self
  | .variable name =>
    cases h
    exact (hctx.value s name).read hplain
  | .negate t =>
    rw [Tree.eval] at h
    obtain ⟨u, s₁, -, hu⟩ := Attempt.bind_eq_ok.1 h
    exact Value.spelled_of_applyUnary hplain (congrArg Prod.fst (Option.some.inj hu))
  | .binary op _ l r =>
    rw [Tree.eval] at h
    obtain ⟨u, s₁, hl, h⟩ := Attempt.bind_eq_ok.1 h
    obtain ⟨w, s₂, hr, hw⟩ := Attempt.bind_eq_ok.1 h
    have hu := hctx.spelled_eval hplain (fun w hw => ht w (by simp [Tree.postorder, hw])) hl
    have hv := hctx.spelled_eval hplain (fun w hw => ht w (by simp [Tree.postorder, hw])) hr
    exact hu.applyBinary hplain hv (congrArg Prod.fst (Option.some.inj hw))
  | .call callee args =>
    rw [Tree.eval] at h
    obtain ⟨vs, s₁, -, hinvoke⟩ := Attempt.bind_eq_ok.1 h
    exact hctx.invoke hinvoke

/-- The value of an expression is spelled with the characters of the expression, those of numbers,
and those of the answers. -/
theorem Answers.spelled_evalText (hctx : ctx.Answers P) (hplain : ∀ c, Numeral c → P c)
    {source : List Char} {s s' : σ} {v : Value} (hsource : ∀ c ∈ source, P c)
    (h : ctx.evalText source s = some (.ok v, s')) : v.Spelled P := by
  rw [evalText, Attempt.get_bind_apply] at h
  obtain ⟨e, s₁, hcompile, heval⟩ := Attempt.bind_eq_ok.1 h
  have hcompile : Expr.compile (ctx.names s) source = .ok e :=
    congrArg Prod.fst (Option.some.inj hcompile)
  obtain ⟨t, rfl⟩ := Expr.exists_tree_of_ofTokens hcompile
  rw [eval_eq_surroundings, Surroundings.eval_postorder] at heval
  -- what is left are the constants of the tree, which the tokens quote
  refine hctx.spelled_eval hplain (fun w hw => ?_) heval
  rcases Step.quoting_ofTokens (Expr.ofTokens_eq_ok.1 hcompile).1 w hw with
    ⟨n, rfl⟩ | ⟨text, rfl, hmem⟩
  · exact Value.spelled_number hplain n
  · exact fun c hc => hsource c (Token.mem_of_mem_ofChars hmem hc)

/-- A context that refuses all calls answers with zeros only. -/
theorem answers_refusing (hplain : ∀ c, Numeral c → P c) : refusing.Answers P where
  value _ _ := Value.spelled_number hplain _
  invoke {callee args s s' v} h := by
    cases callee with
    | function name => cases h
    | method object name =>
      cases h
      exact Value.spelled_number hplain _

end Context

end Spelled

end Narrative
