import Narrative.Proofs.Computation
import Narrative.Proofs.Text
import Narrative.Proofs.Decimal.Grammar
import Narrative.Proofs.Expr.Rendering

/-!
# Literals as expressions

A number alone is written in more ways than an expression has for it: with a plus sign, or with a
point that no digit follows. Where the expression is read at all, it stands for the same number. A
quoted text without quotes in it is an expression that stands for that text.
-/

namespace Narrative

/-! ## How numbers are written -/

namespace Decimal

/-- An exponent as it is written: nothing, or a mark, perhaps with a sign, and digits. -/
def IsExponent (cs : List Char) : Prop :=
  cs = [] ∨ ∃ mark rest, cs = mark :: rest ∧ isExponentMark mark = true ∧
    (signed rest).2 ≠ [] ∧ ∀ d ∈ (signed rest).2, d.isDigit = true

/-- What may follow the sign or the first character of a number: digits, perhaps a point and further
digits, and an exponent. -/
inductive Written : List Char → Prop
  /-- Without a point. -/
  | whole {digits exponent : List Char} : (∀ d ∈ digits, d.isDigit = true) →
      IsExponent exponent → Written (digits ++ exponent)
  /-- With a point. -/
  | point {digits fraction exponent : List Char} : (∀ d ∈ digits, d.isDigit = true) →
      (∀ d ∈ fraction, d.isDigit = true) → IsExponent exponent →
      Written (digits ++ '.' :: (fraction ++ exponent))

/-- A text begins like a number without a sign. -/
def Begins (cs : List Char) : Prop :=
  cs.head?.any Char.isDigit = true ∨ ∃ d rest, cs = '.' :: d :: rest ∧ d.isDigit = true

/-- A number is not empty. -/
theorem Begins.ne_nil {cs : List Char} (h : Begins cs) : cs ≠ [] := by
  rintro rfl
  rcases h with h | ⟨d, rest, h, -⟩ <;> cases h

/-- A text that begins with digits begins like a number. -/
theorem begins_append {digits : List Char} (hne : digits ≠ [])
    (h : ∀ d ∈ digits, d.isDigit = true) (rest : List Char) : Begins (digits ++ rest) := by
  obtain ⟨d, ds, rfl⟩ := List.exists_cons_of_ne_nil hne
  exact .inl (h d List.mem_cons_self)

namespace Literal

variable (l : Literal)

/-- The suffix of a literal is an exponent, or nothing. -/
theorem isExponent_suffix : IsExponent l.suffix := by
  unfold suffix
  split
  · exact .inl rfl
  · next e _ =>
    refine .inr ⟨e.mark, e.sign.chars ++ e.digits, rfl, e.isMark, ?_⟩
    rw [signed_digits e.sign e.isDigit]
    exact ⟨e.ne_nil, e.isDigit⟩

/-- The whole part consists of digits. -/
theorem isDigit_of_mem_whole {d : Char} (h : d ∈ l.whole) : d.isDigit = true :=
  l.isDigit d (List.mem_append_left _ h)

/-- A literal without its sign is written like a number. -/
theorem written : Written (l.mantissa ++ l.suffix) := by
  unfold mantissa pointed
  split
  · rw [List.append_nil]
    exact .whole (fun _ => l.isDigit_of_mem_whole) l.isExponent_suffix
  · next ds hds =>
    rw [List.append_assoc]
    refine .point (fun _ => l.isDigit_of_mem_whole) (fun d hd => l.isDigit d ?_) l.isExponent_suffix
    rw [hds]
    exact List.mem_append_right _ hd

/-- A literal without its sign begins like one. -/
theorem begins : Begins (l.mantissa ++ l.suffix) := by
  by_cases hwhole : l.whole = []
  · -- then there is a point, and a digit right behind it
    have hne := l.ne_nil
    have hdigits := l.isDigit
    unfold mantissa pointed
    cases hfraction : l.fraction with
    | none =>
      rw [hwhole, hfraction] at hne
      exact absurd rfl hne
    | some ds =>
      rw [hwhole, hfraction] at hne hdigits
      obtain ⟨d, rest, rfl⟩ := List.exists_cons_of_ne_nil hne
      rw [hwhole]
      exact .inr ⟨d, _, rfl, hdigits d List.mem_cons_self⟩
  · rw [mantissa, List.append_assoc]
    exact begins_append hwhole (fun _ => l.isDigit_of_mem_whole) _

end Literal

/-- A number that is read is written like one. -/
theorem written_of_parse? {cs : List Char} {n : Decimal} (htrim : Text.trim cs = cs)
    (h : parse? cs = some n) : Written (signed cs).2 ∧ Begins (signed cs).2 := by
  obtain ⟨l, hl⟩ := exists_literal_of_parse? h
  rw [← htrim, hl, l.signed_chars]
  exact ⟨l.written, l.begins⟩

end Decimal

/-! ## Numbers as tokens -/

namespace Lexeme

open Decimal

/-- What follows digits begins with none. -/
theorem afterDigits_append {digits rest : List Char} (h : ∀ d ∈ digits, d.isDigit = true)
    (hrest : rest.head?.any Char.isDigit = false) : afterDigits (digits ++ rest) = rest := by
  rw [afterDigits, List.dropWhile_append_of_pos h]
  cases rest with
  | nil => rfl
  | cons c rest => exact List.dropWhile_cons_of_neg (by simpa using hrest)

/-- An exponent begins with no digit and no point. -/
theorem head?_exponent {cs : List Char} (h : IsExponent cs) :
    cs.head?.any Char.isDigit = false ∧ cs.head? ≠ some '.' := by
  rcases h with rfl | ⟨mark, rest, rfl, hmark, -⟩
  · exact ⟨rfl, nofun⟩
  · rcases isExponentMark_iff.1 hmark with rfl | rfl <;> simp

/-- Exponents are signed alike in expressions and in numbers. -/
theorem afterExponent_cons (mark : Char) (rest : List Char) :
    afterExponent (mark :: rest) =
      if isExponentMark mark && (signed rest).2.head?.any Char.isDigit then
        afterDigits (signed rest).2
      else mark :: rest := by
  by_cases hplus : ∃ ds, rest = '+' :: ds
  · obtain ⟨ds, rfl⟩ := hplus
    rfl
  by_cases hminus : ∃ ds, rest = '-' :: ds
  · obtain ⟨ds, rfl⟩ := hminus
    rfl
  have hsigned : signed rest = (false, rest) := by
    rw [signed]
    · exact fun ds hds => hminus ⟨ds, hds⟩
    · exact fun ds hds => hplus ⟨ds, hds⟩
  rw [hsigned, afterExponent]
  · exact fun ds hds => hplus ⟨ds, hds⟩
  · exact fun ds hds => hminus ⟨ds, hds⟩

/-- An exponent is read to its end. -/
theorem afterExponent_eq_nil {cs : List Char} (h : IsExponent cs) : afterExponent cs = [] := by
  rcases h with rfl | ⟨mark, rest, rfl, hmark, hne, hdigits⟩
  · rfl
  · obtain ⟨d, ds, hds⟩ := List.exists_cons_of_ne_nil hne
    have hd : d.isDigit = true := hdigits d (by rw [hds]; exact List.mem_cons_self)
    rw [afterExponent_cons, hmark, hds, List.head?_cons, Option.any_some, hd, Bool.true_and,
      if_pos rfl, ← hds]
    have hall := @afterDigits_append _ [] hdigits rfl
    rwa [List.append_nil] at hall

/-- Without a point there is no fraction. -/
theorem afterFraction_of_ne {cs : List Char} (h : cs.head? ≠ some '.') : afterFraction cs = cs := by
  unfold afterFraction
  split
  · exact absurd rfl h
  · rfl

/-- A number is read to its end, unless it has a point without digits behind it. -/
theorem numberExtent_eq {rest : List Char} (h : Written rest) :
    numberExtent rest = rest.length ∨ ∃ exponent, IsExponent exponent ∧
      rest.drop (numberExtent rest) = '.' :: exponent := by
  unfold numberExtent
  cases h with
  | @whole digits exponent hdigits hexponent =>
    obtain ⟨hdigit, hpoint⟩ := head?_exponent hexponent
    rw [afterDigits_append hdigits hdigit, afterFraction_of_ne hpoint,
      afterExponent_eq_nil hexponent]
    exact .inl rfl
  | @point digits fraction exponent hdigits hfraction hexponent =>
    obtain ⟨hdigit, hpoint⟩ := head?_exponent hexponent
    rw [afterDigits_append hdigits rfl]
    cases fraction with
    | nil =>
      -- the point is left, and an exponent behind it is no exponent of the digits
      right
      refine ⟨exponent, hexponent, ?_⟩
      have hopen : afterFraction ('.' :: ([] ++ exponent)) = '.' :: exponent := by
        cases exponent with
        | nil => rfl
        | cons mark more =>
          rw [List.nil_append, afterFraction, if_neg]
          simpa using hdigit
      rw [hopen, afterExponent_cons, if_neg (by simp [isExponentMark])]
      simp
    | cons d ds =>
      left
      obtain ⟨hd, hds⟩ := List.forall_mem_cons.1 hfraction
      rw [List.cons_append, afterFraction, if_pos hd, afterDigits_append hds hdigit,
        afterExponent_eq_nil hexponent]
      rfl

/-- The first character of a number is followed by the rest of it. -/
theorem written_tail {c : Char} {rest : List Char} (hwritten : Written (c :: rest))
    (hbegins : Begins (c :: rest)) : Written rest := by
  generalize htext : c :: rest = text at hwritten
  cases hwritten with
  | @whole digits exponent hdigits hexponent =>
    cases digits with
    | nil =>
      rw [List.nil_append] at htext
      subst htext
      obtain ⟨hdigit, hpoint⟩ := head?_exponent hexponent
      rcases hbegins with h | ⟨d, more, h, -⟩
      · rw [hdigit] at h
        cases h
      · rw [h] at hpoint
        exact absurd rfl hpoint
    | cons d ds =>
      cases htext
      exact .whole (List.forall_mem_cons.1 hdigits).2 hexponent
  | @point digits fraction exponent hdigits hfraction hexponent =>
    cases digits with
    | nil =>
      cases htext
      exact .whole hfraction hexponent
    | cons d ds =>
      cases htext
      exact .point (List.forall_mem_cons.1 hdigits).2 hfraction hexponent

/-- The extent of a number does not depend on whether it can be read. -/
theorem number_snd (position : Nat) (c : Char) (rest : List Char) :
    (number position c rest).2 = numberExtent rest := by
  unfold number
  dsimp only
  split <;> rfl

/-- A token that is read from the characters of a number. -/
def IsNumeric (t : Token) : Prop :=
  (∃ n, t = .number n) ∨ ∃ c position, t = .unknown c position

/-- What is read as a number is one, or a number that is out of range. -/
theorem isNumeric_number (position : Nat) (c : Char) (rest : List Char) :
    IsNumeric (number position c rest).1 := by
  unfold number
  dsimp only
  split
  · exact .inl ⟨_, rfl⟩
  · exact .inr ⟨_, _, rfl⟩

/-- A text that is a number is read as that number. -/
theorem number_fst {position : Nat} {c : Char} {rest : List Char} {n : Decimal}
    (hextent : numberExtent rest = rest.length) (h : parse? (c :: rest) = some n) :
    (number position c rest).1 = .number n := by
  unfold number
  dsimp only
  rw [hextent, List.take_length, h]

/-- Where a number may begin, its first character is read as one of a number. -/
theorem read_number {c : Char} {rest : List Char} (position : Nat) (h : Begins (c :: rest)) :
    read true position c rest = number position c rest := by
  rcases h with h | ⟨d, more, h, hd⟩
  · exact if_pos h
  · cases h
    unfold read
    dsimp only
    rw [if_neg (by decide), if_pos (by simpa using hd)]

/-- A minus in front of a number belongs to it where an operand is due. -/
theorem read_minus {body : List Char} (position : Nat) (h : Begins body) :
    read true position '-' body = number position '-' body := by
  have hnext : (body.head?.any Char.isDigit || body.head? == some '.') = true := by
    rcases h with h | ⟨d, more, rfl, -⟩
    · rw [h, Bool.true_or]
    · rfl
  unfold read
  dsimp only
  rw [if_neg (by decide), if_neg (by simp), hnext, if_pos (by decide)]

/-- What is read as a number is one token, or it is followed by a point that is none. -/
theorem scan_number {operand : Bool} {position : Nat} {c : Char} {rest : List Char}
    (hseparator : isSeparator c = false)
    (hread : read operand position c rest = number position c rest) (hrest : Written rest) :
    (numberExtent rest = rest.length ∧
      (scan operand position (c :: rest)).map (·.token) = [(number position c rest).1]) ∨
    ∃ p more, (scan operand position (c :: rest)).map (·.token) =
      (number position c rest).1 :: .unknown '.' p :: more := by
  rw [scan, if_neg (by rw [hseparator]; exact Bool.false_ne_true), hread]
  dsimp only
  rw [number_snd, List.map_cons]
  rcases numberExtent_eq hrest with hextent | ⟨exponent, hexponent, hdrop⟩
  · left
    refine ⟨hextent, ?_⟩
    rw [hextent, List.drop_length, scan]
    rfl
  · right
    have hpoint (operand : Bool) (p : Nat) : read operand p '.' exponent = (.unknown '.' p, 0) := by
      unfold read
      dsimp only
      rw [(head?_exponent hexponent).1]
      rfl
    rw [hdrop, scan, if_neg (by decide), hpoint]
    exact ⟨_, _, rfl⟩

/-- What a number begins with is no separator. -/
theorem isSeparator_eq_false {c : Char} {rest : List Char} (h : Begins (c :: rest)) :
    isSeparator c = false := by
  rcases h with h | ⟨d, more, h, -⟩
  · have hne {d : Char} (hd : d.isDigit = false) : (c == d) = false := by
      refine beq_eq_false_iff_ne.2 fun hcd => ?_
      rw [List.head?_cons, Option.any_some, hcd, hd] at h
      cases h
    rw [isSeparator, hne (by decide), hne (by decide), hne (by decide), hne (by decide)]
    rfl
  · cases h
    rfl

end Lexeme

/-! ## Compiled literals -/

namespace Expr

open Lexeme Decimal

variable {names : Names} {cs : List Char} {e : Expr}

/-- Tokens with an unknown one right behind a number are not compiled. -/
theorem ofTokens_unknown {t : Token} (ht : IsNumeric t) (c : Char) (p : Nat) (more : List Token)
    (stack : List Pending) (steps : List Step) :
    Step.ofTokens names (t :: .unknown c p :: more) stack ≠ .ok steps := by
  rcases ht with ⟨n, rfl⟩ | ⟨c, position, rfl⟩
  · exact nofun
  · exact nofun

/-- A plus sign is an operator, and in front of a number it has no left operand. -/
theorem compile_plus {body : List Char} (hwritten : Written body) (hbegins : Begins body) :
    compile names ('+' :: body) ≠ .ok e := by
  intro h
  obtain ⟨c, rest, rfl⟩ := List.exists_cons_of_ne_nil hbegins.ne_nil
  have htokens : Token.ofChars ('+' :: c :: rest) =
      .operator .add :: ((scan true 1 (c :: rest)).map (·.token) ++ [.finish]) := by
    rw [Token.ofChars, Lexeme.ofChars, scan]
    rfl
  obtain ⟨hsteps, hcheck⟩ := ofTokens_eq_ok.1 h
  rw [htokens, Step.ofTokens] at hsteps
  change Step.follow [] (Step.ofTokens names _ [.operator .add]) = _ at hsteps
  rw [Step.follow_nil] at hsteps
  -- behind the sign an operand is expected, so that the number is read there as it would be alone
  have hnumeric := isNumeric_number 1 c rest
  rcases scan_number (isSeparator_eq_false hbegins) (read_number 1 hbegins)
    (written_tail hwritten hbegins) with ⟨-, hscan⟩ | ⟨p, more, hscan⟩
  · rw [hscan] at hsteps
    rcases hnumeric with ⟨n, hn⟩ | ⟨d, p, hd⟩
    · rw [hn] at hsteps
      rw [← Except.ok.inj hsteps] at hcheck
      cases hcheck
    · rw [hd] at hsteps
      cases hsteps
  · rw [hscan] at hsteps
    exact ofTokens_unknown hnumeric '.' p _ _ _ hsteps

/-- An expression that is written as a number with a minus sign or none stands for that number. -/
theorem compile_signed {c : Char} {rest : List Char} {n : Decimal}
    (hparse : parse? (c :: rest) = some n) (hseparator : isSeparator c = false)
    (hread : read true 0 c rest = Lexeme.number 0 c rest) (hrest : Written rest)
    (h : compile names (c :: rest) = .ok e) : e = ⟨[.literal (.number n)]⟩ := by
  rw [compile, Token.ofChars, Lexeme.ofChars] at h
  rcases scan_number hseparator hread hrest with ⟨hextent, hscan⟩ | ⟨p, more, hscan⟩
  · rw [hscan, number_fst hextent hparse] at h
    cases h
    rfl
  · rw [hscan] at h
    exact absurd (ofTokens_eq_ok.1 h).1 (ofTokens_unknown (isNumeric_number 0 c rest) '.' p _ _ _)

/-- An expression that is written as a number stands for that number. -/
theorem eq_of_compile_number {n : Decimal} (htrim : Text.trim cs = cs)
    (hparse : parse? cs = some n) (h : compile names cs = .ok e) :
    e = ⟨[.literal (.number n)]⟩ := by
  have hliteral := written_of_parse? htrim hparse
  unfold signed at hliteral
  split at hliteral
  · exact compile_signed hparse rfl (read_minus 0 hliteral.2) hliteral.1 h
  · exact absurd h (compile_plus hliteral.1 hliteral.2)
  · obtain ⟨hwritten, hbegins⟩ := hliteral
    obtain ⟨c, rest, rfl⟩ := List.exists_cons_of_ne_nil hbegins.ne_nil
    exact compile_signed hparse (isSeparator_eq_false hbegins) (read_number 0 hbegins)
      (written_tail hwritten hbegins) h

/-- A quoted text without quotes in it stands for itself. -/
theorem compile_quoted {body : List Char} (h : '"' ∉ body) :
    compile names ('"' :: (body ++ ['"'])) = .ok ⟨[.literal (.str (String.ofList body))]⟩ := by
  have hbody : (body ++ ['"']).takeWhile (· != '"') = body := by
    rw [List.takeWhile_append_of_pos fun c hc => ?_]
    · simp
    · exact bne_iff_ne.2 fun heq => h (heq ▸ hc)
  have hread : read true 0 '"' (body ++ ['"']) =
      (.str (String.ofList body), (body ++ ['"']).length) := by
    change Lexeme.quoted (body ++ ['"']) = _
    unfold Lexeme.quoted
    rw [hbody]
    simp
  have htokens : Token.ofChars ('"' :: (body ++ ['"'])) =
      [.str (String.ofList body), .finish] := by
    rw [Token.ofChars, Lexeme.ofChars, scan, if_neg (by decide), hread]
    dsimp only
    rw [List.drop_length, scan]
    rfl
  rw [compile, htokens]
  rfl

/-- The words for the truth values are numbers. -/
theorem compile_truth (b : Bool) :
    compile names (Value.bool b).text.toList = .ok ⟨[.literal (.number (.ofBool b))]⟩ := by
  have htokens : Token.ofChars (Value.bool b).text.toList = [.number (.ofBool b), .finish] := by
    revert b
    decide +kernel
  rw [compile, htokens]
  rfl

end Expr

/-- A constant is evaluated without a change. -/
theorem Context.evalText_literal {σ : Type} {ctx : Context σ} {m : σ} {cs : List Char} {v : Value}
    (h : Expr.compile (ctx.names m) cs = .ok ⟨[.literal v]⟩) :
    ctx.evalText cs m = some (.ok v, m) := by
  rw [evalText, Attempt.get_bind_apply, h]
  rfl

end Narrative
