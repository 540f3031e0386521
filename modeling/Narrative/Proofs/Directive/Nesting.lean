import Narrative.Proofs.Decimal.Plain
import Narrative.Proofs.Directive.Expansion
import Narrative.Proofs.Text.Words

/-!
# Values inside directives

An expression inside a conditional directive is resolved first, and its value is put into the text
of that directive before the options are told apart. A value with a bar or a closing brace is
therefore read as a part of the directive around it; all other values are copied. Numbers, truth
values and the marks of failed expressions have neither.
-/

namespace Narrative.Directive

/-- A text without any of the marks of a directive. -/
def Plain (cs : List Char) : Prop :=
  Braceless cs ∧ '|' ∉ cs ∧ ':' ∉ cs

instance (cs : List Char) : Decidable (Plain cs) :=
  inferInstanceAs (Decidable (_ ∧ _))

/-- What is shown in place of an expression. -/
def shown (source : List Char) : Except ExprError Value → List Char
  | .ok v => v.text.toList
  | .error _ => failure source

/-- A conditional directive with an expression in its first option. -/
def nested (condition before source after otherwise : List Char) : List Char :=
  braced (condition ++ ':' :: (before ++ braced source ++ after ++ '|' :: otherwise))

/-- The option that a conditional directive shows. -/
def chosen (holds : Bool) (body : List Char) : List Char :=
  (options body).getD (if holds then 0 else 1) []

/-- What a conditional directive shows once a value has been put into its body: the directive ends
at the first closing brace, and what stands behind that one is left over. -/
def spliced (holds : Bool) (body : List Char) : List Char :=
  match Text.cut? '\x7d' body with
  | none => chosen holds body
  | some (inner, rest) => chosen holds inner ++ rest ++ ['\x7d']

variable {σ : Type} {ctx : Context σ} {count : Nat} {m m' : σ} {source condition : List Char}

/-! ## Resolving expressions and conditions -/

/-- A value is replaced by its text. -/
theorem resolve_value {r : Except ExprError Value} (h : ctx.evalText source m = some (r, m')) :
    (value source).resolve ctx count m = some (shown source r, m') := by
  refine Run.bind_eq_some.2 ⟨r, m', h, ?_⟩
  cases r <;> rfl

/-- A condition is replaced by the option that it chooses. -/
theorem resolve_conditional {v : Value} (h : ctx.evalText condition m = some (.ok v, m'))
    (body : List Char) :
    (conditional condition (options body)).resolve ctx count m =
      some (chosen v.holds body, m') :=
  Run.bind_eq_some.2 ⟨.ok v, m', h, rfl⟩

/-- An expression between braces is neither a condition nor a sequence. -/
theorem ofChars_eq_value (h : Plain source) (hsign : ∀ c ∈ source.head?, c ∉ ['&', '!', '~']) :
    ofChars source = value source := by
  obtain ⟨-, hbar, hcolon⟩ := h
  rw [ofChars, Text.cut?_eq_none hcolon]
  unfold unguarded
  dsimp only
  split
  · exact absurd List.mem_cons_self (hsign '&' rfl)
  · exact absurd (by decide) (hsign '!' rfl)
  · exact absurd (by decide) (hsign '~' rfl)
  · rw [if_neg (mt List.contains_iff_mem.1 hbar)]

/-- An expression does not begin with a number sign or a question mark. -/
theorem evalText_mark {c : Char} (h : c = '#' ∨ c = '?') (rest : List Char) (m : σ) :
    ctx.evalText (c :: rest) m = some (.error (.unknownOperator c 0), m) := by
  have hcompile (names : Names) :
      Expr.compile names (c :: rest) = .error (.unknownOperator c 0) := by
    rw [Expr.compile, Token.ofChars, Lexeme.ofChars, Lexeme.scan]
    rcases h with rfl | rfl <;> rfl
  rw [Context.evalText, Attempt.get_bind_apply, hcompile]
  rfl

/-- A condition that has a value is not an index. -/
theorem guarded_eq_conditional {v : Value} (h : ctx.evalText condition m = some (.ok v, m'))
    (body : List Char) : guarded condition body = conditional condition (options body) := by
  unfold guarded
  split
  · rw [evalText_mark (.inl rfl)] at h
    cases h
  · rw [evalText_mark (.inr rfl)] at h
    cases h
  · rfl

/-! ## Putting a value into a directive -/

/-- The directive around a value is resolved as what has been put together. -/
theorem expandBefore_spliced {v : Value} (hplain : Plain condition)
    (h : ctx.evalText (Text.trim condition) m = some (.ok v, m')) (body : List Char) :
    expandBefore ctx count ['\x7b'] (condition ++ ':' :: (body ++ ['\x7d'])) m =
      some (spliced v.holds body, m') := by
  obtain ⟨⟨-, hclose⟩, -, hcolon⟩ := hplain
  have hresolve (inner after : List Char) (hinner : '\x7d' ∉ inner) :
      expandBefore ctx count ['\x7b'] (condition ++ ':' :: inner ++ '\x7d' :: after) m =
        some (chosen v.holds inner ++ after, m') := by
    have hskip : '\x7d' ∉ condition ++ ':' :: inner := by
      simp only [List.mem_append, List.mem_cons, not_or]
      exact ⟨hclose, by decide, hinner⟩
    rw [expandBefore_closed hskip, ofChars, Text.cut?_append hcolon]
    dsimp only
    rw [guarded_eq_conditional h]
    exact Run.bind_eq_some.2 ⟨_, m', resolve_conditional h inner, rfl⟩
  -- the first closing brace is one of the body, or the one that was written
  by_cases hbody : '\x7d' ∈ body
  · obtain ⟨inner, rest, rfl, hinner⟩ := List.eq_append_cons_of_mem hbody
    have hspliced := hresolve inner (rest ++ ['\x7d']) hinner
    rw [spliced, Text.cut?_append hinner]
    simpa using hspliced
  · have hspliced := hresolve body [] hbody
    rw [spliced, Text.cut?_eq_none hbody]
    simpa using hspliced

/-- The expression is resolved first, and then the directive around it with what it stands for. -/
theorem expand_nested {before after otherwise : List Char} (hcondition : Plain condition)
    (hsource : Plain source) (hbefore : Plain before) (hafter : Plain after)
    (hotherwise : Plain otherwise) :
    expand ctx count (nested condition before source after otherwise) = (do
      let resolved ← (ofChars source).resolve ctx count
      expandBefore ctx count ['\x7b']
        (condition ++ ':' :: (before ++ resolved ++ after ++ '|' :: otherwise ++ ['\x7d']))) := by
  have hright : '\x7b' ∉ after ++ '|' :: otherwise ++ ['\x7d'] := by
    simp only [List.mem_append, List.mem_cons, List.not_mem_nil, or_false, not_or]
    exact ⟨⟨hafter.1.1, by decide, hotherwise.1.1⟩, by decide⟩
  have hleft : '\x7b' ∉ condition ++ ':' :: before := by
    simp only [List.mem_append, List.mem_cons, not_or]
    exact ⟨hcondition.1.1, by decide, hbefore.1.1⟩
  have hreverse : (nested condition before source after otherwise).reverse =
      (after ++ '|' :: otherwise ++ ['\x7d']).reverse ++ ((braced source).reverse ++
        ((condition ++ ':' :: before).reverse ++ ['\x7b'])) := by
    simp [nested, braced]
  rw [expand, hreverse, expandBefore_append hright, expandBefore_braced hsource.1]
  refine bind_congr fun resolved => ?_
  rw [expandBefore_append hleft]
  simp

/-! ## Values that are copied -/

/-- Options are split at every bar. -/
theorem options_append (first rest : List Char) :
    options (first ++ '|' :: rest) = options first ++ options rest :=
  Text.splitWhere_append_cons rfl first rest

/-- Without a bar there is one option. -/
theorem options_eq_singleton {option : List Char} (h : '|' ∉ option) :
    options option = [option] := by
  refine Text.splitWhere_eq_singleton fun c hc => beq_eq_false_iff_ne.2 ?_
  rintro rfl
  exact h hc

/-- An option is a part of the text it was told apart from. -/
theorem infix_of_mem_options {option body : List Char} (h : option ∈ options body) :
    option <:+: body :=
  ((Text.splitWhere_parts body).1 option h).2

/-- Options without bars and closing braces are shown as they are. -/
theorem spliced_eq {first second : List Char} (hfirst : '|' ∉ first ∧ '\x7d' ∉ first)
    (hsecond : '|' ∉ second ∧ '\x7d' ∉ second) (holds : Bool) :
    spliced holds (first ++ '|' :: second) = if holds then first else second := by
  have hclose : '\x7d' ∉ first ++ '|' :: second := by
    simp only [List.mem_append, List.mem_cons, not_or]
    exact ⟨hfirst.2, by decide, hsecond.2⟩
  rw [spliced, Text.cut?_eq_none hclose, chosen, options_append, options_eq_singleton hfirst.1,
    options_eq_singleton hsecond.1]
  cases holds <;> rfl

/-- A closing brace among the options leaves one behind. -/
theorem getLast?_spliced {body : List Char} (h : '\x7d' ∈ body) (holds : Bool) :
    (spliced holds body).getLast? = some '\x7d' := by
  obtain ⟨inner, rest, rfl, hinner⟩ := List.eq_append_cons_of_mem h
  rw [spliced, Text.cut?_append hinner]
  exact List.getLast?_concat

/-- A text that is shown as it is, also with letters behind it and with a long other option, has no
bars and closing braces. A brace would be shown last, and a bar would leave less than there is in
either option. -/
theorem inert_of_spliced {text : List Char} {holds : Bool}
    (h : spliced holds (text ++ ['x'] ++ '|' :: List.replicate (text.length + 2) 'x') =
      if holds then text ++ ['x'] else List.replicate (text.length + 2) 'x') :
    '|' ∉ text ∧ '\x7d' ∉ text := by
  have hclose : '\x7d' ∉ text := by
    intro hmem
    have hbody : '\x7d' ∈ text ++ ['x'] ++ '|' :: List.replicate (text.length + 2) 'x' :=
      List.mem_append_left _ (List.mem_append_left _ hmem)
    have hlast := getLast?_spliced hbody holds
    rw [h] at hlast
    cases holds <;> simp [List.getLast?_replicate] at hlast
  refine ⟨fun hbar => ?_, hclose⟩
  -- the option in front of the bar and the one behind it are both too short
  obtain ⟨first, rest, htext, hfirst⟩ := List.eq_append_cons_of_mem hbar
  have hbody : '\x7d' ∉ text ++ ['x'] ++ '|' :: List.replicate (text.length + 2) 'x' := by
    simp [hclose]
  obtain ⟨second, more, hoptions⟩ := List.exists_cons_of_ne_nil
    (Text.splitWhere_ne_nil (· == '|') (rest ++ ['x']))
  have hsecond : second.length ≤ rest.length + 1 := by
    have hmem : second ∈ options (rest ++ ['x']) := by
      rw [options, Text.splitOn, hoptions]
      exact List.mem_cons_self
    simpa using (infix_of_mem_options hmem).length_le
  have hlength := congrArg List.length h
  rw [spliced, Text.cut?_eq_none hbody, chosen, options_append, htext, List.append_assoc,
    List.cons_append, options_append, options_eq_singleton hfirst, options, Text.splitOn, hoptions]
    at hlength
  cases holds with
  | true =>
    simp at hlength
  | false =>
    simp at hlength
    omega

/-- What is not in the expression is not in the text of its failure. -/
theorem not_mem_failure {c : Char} (hmark : c ∉ "(ERROR:".toList ∧ c ≠ ')') (h : c ∉ source) :
    c ∉ failure source := by
  unfold failure
  simp only [List.mem_append, List.mem_singleton, not_or]
  exact ⟨⟨hmark.1, h⟩, hmark.2⟩

/-- What is shown for a failed expression, and for a value that is neither a text nor a reference,
is copied. -/
theorem inert_shown {r : Except ExprError Value} (hsource : Plain source)
    (h : ∀ v, r = .ok v → v = .null ∨ (∃ b, v = .bool b) ∨ ∃ n, v = .number n) :
    '|' ∉ shown source r ∧ '\x7d' ∉ shown source r := by
  obtain ⟨⟨-, hclose⟩, hbar, -⟩ := hsource
  cases r with
  | error e =>
    exact ⟨not_mem_failure (by decide +kernel) hbar, not_mem_failure (by decide +kernel) hclose⟩
  | ok v =>
    rcases h v rfl with rfl | ⟨b, rfl⟩ | ⟨n, rfl⟩
    · exact ⟨List.not_mem_nil, List.not_mem_nil⟩
    · have hcopied (b : Bool) : '|' ∉ (Value.bool b).text.toList ∧
          '\x7d' ∉ (Value.bool b).text.toList := by
        cases b <;> decide +kernel
      exact hcopied b
    · rw [shown, Value.text, Decimal.text, String.toList_ofList]
      exact ⟨fun hmem => absurd (Decimal.plain_of_mem_toChars hmem) (by decide),
        fun hmem => absurd (Decimal.plain_of_mem_toChars hmem) (by decide)⟩

/-- What an expression inside a conditional directive stands for is copied into the option that is
shown, whatever the texts around it are, if and only if it has no bar and no closing brace. Other
values are read as a part of the directive. Numbers, truth values and the marks of failed
expressions are always copied. -/
theorem nested_shown_iff (ctx : Context σ) (count : Nat) {condition source : List Char}
    {r : Except ExprError Value} {v : Value} {m₀ m m' : σ} (hcondition : Plain condition)
    (hsource : Plain source) (hsign : ∀ c ∈ source.head?, c ∉ ['&', '!', '~'])
    (hinner : ctx.evalText source m₀ = some (r, m))
    (houter : ctx.evalText (Text.trim condition) m = some (.ok v, m')) :
    ((∀ before after otherwise, Plain before → Plain after → Plain otherwise →
        expand ctx count (nested condition before source after otherwise) m₀ =
          some (if v.holds then before ++ shown source r ++ after else otherwise, m')) ↔
      '|' ∉ shown source r ∧ '\x7d' ∉ shown source r) ∧
    (∀ before after otherwise, Plain before → Plain after → Plain otherwise →
      expand ctx count (nested condition before source after otherwise) m₀ =
        some (spliced v.holds (before ++ shown source r ++ after ++ '|' :: otherwise), m')) ∧
    ((∀ w, r = .ok w → w = .null ∨ (∃ b, w = .bool b) ∨ ∃ n, w = .number n) →
      '|' ∉ shown source r ∧ '\x7d' ∉ shown source r) := by
  have hrun (before after otherwise : List Char) (hbefore : Plain before) (hafter : Plain after)
      (hotherwise : Plain otherwise) :
      expand ctx count (nested condition before source after otherwise) m₀ =
        some (spliced v.holds (before ++ shown source r ++ after ++ '|' :: otherwise), m') := by
    rw [expand_nested hcondition hsource hbefore hafter hotherwise, ofChars_eq_value hsource hsign]
    refine Run.bind_eq_some.2 ⟨shown source r, m, resolve_value hinner, ?_⟩
    exact expandBefore_spliced hcondition houter _
  refine ⟨⟨fun hcopied => ?_, fun ⟨hbar, hclose⟩ before after otherwise hbefore hafter hotherwise =>
    ?_⟩, hrun, inert_shown hsource⟩
  · -- a letter behind the value, and another option that is longer than the first
    have hafter : Plain ['x'] := by decide
    have hotherwise : Plain (List.replicate ((shown source r).length + 2) 'x') := by
      simp [Plain, Braceless]
    have htold := hcopied [] ['x'] _ (by decide) hafter hotherwise
    rw [hrun [] ['x'] _ (by decide) hafter hotherwise] at htold
    exact inert_of_spliced (congrArg Prod.fst (Option.some.inj htold))
  · rw [hrun before after otherwise hbefore hafter hotherwise, spliced_eq ?_ ⟨hotherwise.2.1,
      hotherwise.1.2⟩]
    simp only [List.mem_append, not_or]
    exact ⟨⟨⟨hbefore.2.1, hbar⟩, hafter.2.1⟩, ⟨hbefore.1.2, hclose⟩, hafter.1.2⟩

/-- A context that knows the name of a player and nothing else. -/
def guestContext (name : String) : Context Unit where
  names _ := { hasVariable := (· == "name"), hasFunction := fun _ => false }
  value _ _ := .str name
  call f _ := throw (.unknownIdentifier f)
  method _ _ _ := none
  roll _ s := (0, s)

/-- A name is put into a greeting. -/
theorem nested_shown_name :
    expand (guestContext "Ann") 0 "\x7b1: Hi \x7bname\x7d!|Bye\x7d".toList () =
      some (" Hi Ann!".toList, ()) := by
  have hname : (guestContext "Ann").evalText "name".toList () = some (.ok (.str "Ann"), ()) := by
    decide +kernel
  have hone : (guestContext "Ann").evalText (Text.trim "1".toList) () =
      some (.ok (.int 1), ()) := by
    decide +kernel
  have hplain : Plain "1".toList ∧ Plain "name".toList ∧ Plain " Hi ".toList ∧ Plain "!".toList ∧
      Plain "Bye".toList := by
    decide +kernel
  obtain ⟨hcondition, hsource, hbefore, hafter, hotherwise⟩ := hplain
  have hsign : ∀ c ∈ "name".toList.head?, c ∉ ['&', '!', '~'] := by
    have hhead : "name".toList.head? = some 'n' := by decide +kernel
    rw [hhead]
    rintro c ⟨⟩
    decide
  have hshown := (nested_shown_iff (guestContext "Ann") 0 hcondition hsource hsign hname hone).1.2
    (by decide +kernel)
  exact hshown _ _ _ hbefore hafter hotherwise

/-- The part of a name behind a bar is taken for the other option. -/
theorem not_nested_shown :
    (guestContext "Ann|Bob").evalText "name".toList () = some (.ok (.str "Ann|Bob"), ()) ∧
    (guestContext "Ann|Bob").evalText "1".toList () = some (.ok (.int 1), ()) ∧
    (Value.int 1).holds = true ∧
    expand (guestContext "Ann|Bob") 0
      (nested "1".toList " Hi ".toList "name".toList "!".toList "Bye".toList) () =
        some (" Hi Ann".toList, ()) := by
  decide +kernel

end Narrative.Directive
