import Narrative.Proofs.Decimal.Arithmetic

/-!
# How numbers are written

A literal is a number as it may be written: a sign, digits with at most one point among them, and an
exponent. It denotes a rational, whatever the number of its digits. Reading a text first takes it
apart into such a literal and fails when there is none, so that everything else about reading can be
said of literals.
-/

namespace Narrative.Decimal

/-! ## Literals -/

/-- What may stand in front of a number or of its exponent. -/
inductive Sign where
  /-- Nothing. -/
  | blank
  /-- A plus. -/
  | plus
  /-- A minus. -/
  | minus
deriving DecidableEq

namespace Sign

/-- The characters of a sign. -/
def chars : Sign → List Char
  | blank => []
  | plus => ['+']
  | minus => ['-']

/-- Whether the sign is a minus. -/
def isMinus : Sign → Bool
  | minus => true
  | _ => false

/-- A count with the sign in front of it. -/
def apply (s : Sign) (n : Nat) : Int :=
  if s.isMinus then -(n : Int) else n

end Sign

/-- An exponent as it is written. -/
structure Exponent where
  /-- The letter in front. -/
  mark : Char
  /-- The sign. -/
  sign : Sign
  /-- The digits. -/
  digits : List Char
  /-- The letter is one that introduces an exponent. -/
  isMark : isExponentMark mark = true
  /-- There is a digit. -/
  ne_nil : digits ≠ []
  /-- There are digits only. -/
  isDigit : ∀ d ∈ digits, d.isDigit = true

namespace Exponent

/-- The characters of an exponent. -/
def chars (e : Exponent) : List Char :=
  e.mark :: (e.sign.chars ++ e.digits)

/-- The power of ten that an exponent stands for. -/
def power (e : Exponent) : Int :=
  e.sign.apply (natOfDigits e.digits)

end Exponent

/-- A number as it is written, without blanks around it. -/
structure Literal where
  /-- The sign. -/
  sign : Sign
  /-- The digits in front of the point. -/
  whole : List Char
  /-- The digits behind the point, if there is one. -/
  fraction : Option (List Char)
  /-- The exponent, if there is one. -/
  exponent : Option Exponent
  /-- There is a digit in front of the point or behind it. -/
  ne_nil : whole ++ fraction.getD [] ≠ []
  /-- In front of the point and behind it there are digits only. -/
  isDigit : ∀ d ∈ whole ++ fraction.getD [], d.isDigit = true

namespace Literal

variable (l : Literal)

/-- The digits behind the point. -/
def places : List Char :=
  l.fraction.getD []

/-- All digits but those of the exponent. -/
def digits : List Char :=
  l.whole ++ l.places

/-- The point with the digits behind it. -/
def pointed : List Char :=
  match l.fraction with
  | none => []
  | some ds => '.' :: ds

/-- The digits with the point. -/
def mantissa : List Char :=
  l.whole ++ l.pointed

/-- The characters of the exponent. -/
def suffix : List Char :=
  match l.exponent with
  | none => []
  | some e => e.chars

/-- The characters of a literal. -/
def chars : List Char :=
  l.sign.chars ++ (l.mantissa ++ l.suffix)

/-- The power of ten that is written. -/
def power : Int :=
  match l.exponent with
  | none => 0
  | some e => e.power

/-- The rational that a literal denotes. -/
def value : ℚ :=
  l.sign.apply (natOfDigits l.digits) * 10 ^ (l.power - l.places.length)

end Literal

/-! ## Characters of literals -/

section Characters

variable {c : Char} {cs digits : List Char}

/-- An exponent begins with one of two letters. -/
theorem isExponentMark_iff : isExponentMark c = true ↔ c = 'e' ∨ c = 'E' := by
  rw [isExponentMark, Bool.or_eq_true, beq_iff_eq, beq_iff_eq]

/-- A sign is split off in front of anything that does not begin with one. -/
theorem signed_append (s : Sign) (h : ∀ c ∈ cs.head?, c ≠ '-' ∧ c ≠ '+') :
    signed (s.chars ++ cs) = (s.isMinus, cs) := by
  cases s with
  | plus => rfl
  | minus => rfl
  | blank =>
    cases cs with
    | nil => rfl
    | cons c cs =>
      obtain ⟨hminus, hplus⟩ := h c rfl
      change signed (c :: cs) = _
      unfold signed
      split
      · next rest heq => exact absurd (List.cons.inj heq).1 hminus
      · next rest heq => exact absurd (List.cons.inj heq).1 hplus
      · rfl

/-- What is split off is a sign. -/
theorem exists_sign (cs : List Char) :
    ∃ s : Sign, cs = s.chars ++ (signed cs).2 ∧ s.isMinus = (signed cs).1 := by
  unfold signed
  split
  · exact ⟨.minus, rfl, rfl⟩
  · exact ⟨.plus, rfl, rfl⟩
  · exact ⟨.blank, rfl, rfl⟩

/-- The sign is taken from digits. -/
theorem signed_digits (s : Sign) (h : ∀ d ∈ digits, d.isDigit = true) :
    signed (s.chars ++ digits) = (s.isMinus, digits) := by
  refine signed_append s fun c hc => ?_
  have hdigit := h c (List.mem_of_mem_head? hc)
  exact ⟨fun heq => absurd (heq ▸ hdigit) (by decide), fun heq => absurd (heq ▸ hdigit) (by decide)⟩

/-- Digits are read as their number. -/
theorem digits?_eq (hne : digits ≠ []) (h : ∀ d ∈ digits, d.isDigit = true) :
    digits? digits = some (natOfDigits digits) := by
  rw [digits?, if_pos]
  rw [Bool.and_eq_true, Bool.not_eq_true', List.isEmpty_eq_false_iff, List.all_eq_true]
  exact ⟨hne, h⟩

/-- What is read as digits are digits. -/
theorem digits?_eq_some {n : Nat} (h : digits? cs = some n) :
    cs ≠ [] ∧ (∀ d ∈ cs, d.isDigit = true) ∧ n = natOfDigits cs := by
  unfold digits? at h
  split at h
  · next hcs =>
    rw [Bool.and_eq_true, Bool.not_eq_true', List.isEmpty_eq_false_iff, List.all_eq_true] at hcs
    exact ⟨hcs.1, hcs.2, (Option.some.inj h).symm⟩
  · cases h

end Characters

namespace Exponent

/-- An exponent is read as its power of ten where that is available. -/
theorem exponent?_eq (e : Exponent) : exponent? (e.sign.chars ++ e.digits) = exp? e.power := by
  rw [exponent?, signed_digits e.sign e.isDigit]
  dsimp only
  rw [digits?_eq e.ne_nil e.isDigit, Option.bind_some, power, Sign.apply]

/-- What is read behind a mark is an exponent. -/
theorem exists_of_exponent? {mark : Char} {rest : List Char} {p : Int}
    (hmark : isExponentMark mark = true) (h : exponent? rest = some p) :
    ∃ e : Exponent, e.chars = mark :: rest ∧ exp? e.power = some p := by
  obtain ⟨s, hrest, hminus⟩ := exists_sign rest
  unfold exponent? at h
  obtain ⟨n, hn, hp⟩ := Option.bind_eq_some_iff.1 h
  obtain ⟨hne, hdigits, rfl⟩ := digits?_eq_some hn
  refine ⟨⟨mark, s, (signed rest).2, hmark, hne, hdigits⟩, congrArg (mark :: ·) hrest.symm, ?_⟩
  rw [power, Sign.apply, hminus]
  exact hp

end Exponent

namespace Literal

variable (l : Literal)

/-- The digits of a literal are digits. -/
theorem isDigit_of_mem {c : Char} (h : c ∈ l.digits) : c.isDigit = true :=
  l.isDigit c h

/-- Digits and the point are neither signs nor marks. -/
theorem of_mem_mantissa {c : Char} (h : c ∈ l.mantissa) : c.isDigit = true ∨ c = '.' := by
  rcases List.mem_append.1 h with h | h
  · exact .inl (l.isDigit c (List.mem_append_left _ h))
  · unfold pointed at h
    split at h
    · cases h
    · next ds hds =>
      rcases List.mem_cons.1 h with rfl | h
      · exact .inr rfl
      · refine .inl (l.isDigit c (List.mem_append_right _ ?_))
        rwa [hds]

/-- A literal has digits in front of its exponent. -/
theorem mantissa_ne_nil : l.mantissa ≠ [] := by
  intro h
  obtain ⟨hwhole, hpointed⟩ := List.append_eq_nil_iff.1 h
  have hne := l.ne_nil
  unfold pointed at hpointed
  split at hpointed
  · next hnone =>
    rw [hwhole, hnone] at hne
    exact hne rfl
  · cases hpointed

/-- The sign of a literal is split off. -/
theorem signed_chars : signed l.chars = (l.sign.isMinus, l.mantissa ++ l.suffix) := by
  refine signed_append l.sign fun c hc => ?_
  rw [List.head?_append_of_ne_nil _ l.mantissa_ne_nil] at hc
  rcases l.of_mem_mantissa (List.mem_of_mem_head? hc) with hdigit | rfl
  · exact ⟨fun heq => absurd (heq ▸ hdigit) (by decide),
      fun heq => absurd (heq ▸ hdigit) (by decide)⟩
  · decide

/-- No exponent begins among them. -/
theorem isExponentMark_of_mem_mantissa {c : Char} (h : c ∈ l.mantissa) :
    (!isExponentMark c) = true := by
  rw [(plain_of_isDigit ((l.of_mem_mantissa h).imp_right .inr)).2]
  rfl

/-- What stands in front of the exponent is the mantissa. -/
theorem takeWhile_body :
    (l.mantissa ++ l.suffix).takeWhile (!isExponentMark ·) = l.mantissa := by
  rw [List.takeWhile_append_of_pos fun c hc => l.isExponentMark_of_mem_mantissa hc]
  unfold suffix
  split
  · exact List.append_nil _
  · next e he =>
    rw [Exponent.chars, List.takeWhile_cons_of_neg (by simp [e.isMark]), List.append_nil]

/-- What is left is the exponent. -/
theorem dropWhile_body :
    (l.mantissa ++ l.suffix).dropWhile (!isExponentMark ·) = l.suffix := by
  rw [List.dropWhile_append_of_pos fun c hc => l.isExponentMark_of_mem_mantissa hc]
  unfold suffix
  split
  · rfl
  · next e he => exact List.dropWhile_cons_of_neg (by simp [e.isMark])

/-- The digits are cut at the point. -/
theorem cut?_mantissa :
    (Text.cut? '.' l.mantissa).getD (l.mantissa, []) = (l.whole, l.places) := by
  have hpoint : '.' ∉ l.whole := by
    intro hc
    exact absurd (l.isDigit '.' (List.mem_append_left _ hc)) (by decide)
  unfold mantissa pointed places
  split
  · next hnone =>
    rw [hnone, List.append_nil, Text.cut?_eq_none hpoint]
    rfl
  · next ds hds =>
    rw [hds, Text.cut?_append hpoint]
    rfl

/-- The exponent is read off its characters. -/
theorem power_eq {l m : Literal} (h : l.suffix = m.suffix) : l.power = m.power := by
  unfold suffix at h
  unfold power
  cases hl : l.exponent with
  | none =>
    cases hm : m.exponent with
    | none => rfl
    | some f =>
      rw [hl, hm] at h
      cases h
  | some e =>
    cases hm : m.exponent with
    | none =>
      rw [hl, hm] at h
      cases h
    | some f =>
      rw [hl, hm] at h
      have hsigned := congrArg signed (List.cons.inj h).2
      rw [signed_digits e.sign e.isDigit, signed_digits f.sign f.isDigit, Prod.mk.injEq] at hsigned
      simp only [Exponent.power, Sign.apply, hsigned.1, hsigned.2]

/-- A text is a literal in one way: it denotes one rational. -/
theorem value_eq {l m : Literal} (h : l.chars = m.chars) : l.value = m.value := by
  have hsigned := congrArg signed h
  rw [l.signed_chars, m.signed_chars, Prod.mk.injEq] at hsigned
  obtain ⟨hminus, hbody⟩ := hsigned
  have hmantissa : l.mantissa = m.mantissa := by
    rw [← l.takeWhile_body, hbody, m.takeWhile_body]
  have hpower : l.power = m.power := by
    refine power_eq ?_
    rw [← l.dropWhile_body, hbody, m.dropWhile_body]
  have hcut := l.cut?_mantissa
  rw [hmantissa, m.cut?_mantissa, Prod.mk.injEq] at hcut
  simp only [value, digits, Sign.apply, hminus, hpower, hcut.1, hcut.2]

end Literal

/-! ## Reading literals -/

/-- The power of ten of a literal, zero when none is written. -/
def writtenPower? (body : List Char) : Option Int :=
  match body.dropWhile (!isExponentMark ·) with
  | [] => some 0
  | _ :: rest => exponent? rest

/-- The power of a literal is what its exponent says, within the bounds. -/
theorem Literal.writtenPower?_eq (l : Literal) :
    writtenPower? (l.mantissa ++ l.suffix) = exp? l.power := by
  rw [writtenPower?, l.dropWhile_body]
  unfold suffix power
  cases l.exponent with
  | none => rfl
  | some e => exact e.exponent?_eq

/-- A literal is read from its digits when its exponent is not too large. -/
theorem parse?_of_chars {cs : List Char} {l : Literal} (h : Text.trim cs = l.chars) :
    parse? cs = (exp? l.power).bind fun e =>
      if isExcessive e then none else ofDigits? l.sign.isMinus l.whole l.places e := by
  have hpower := l.writtenPower?_eq
  have hempty : (l.whole ++ l.places).isEmpty = false := List.isEmpty_eq_false_iff.2 l.ne_nil
  have hdigits : (l.whole ++ l.places).all Char.isDigit = true := List.all_eq_true.2 l.isDigit
  unfold parse?
  simp only [h, l.signed_chars, l.takeWhile_body, l.cut?_mantissa, hempty, hdigits, Bool.or_false,
    Bool.not_true]
  exact congrArg (Option.bind · _) hpower

/-- What is read as a number is a literal. -/
theorem exists_literal_of_parse? {cs : List Char} {x : Decimal} (h : parse? cs = some x) :
    ∃ l : Literal, Text.trim cs = l.chars := by
  obtain ⟨s, hsign, -⟩ := exists_sign (Text.trim cs)
  unfold parse? at h
  generalize signed (Text.trim cs) = parts at h hsign
  obtain ⟨negative, body⟩ := parts
  dsimp only at h hsign
  obtain ⟨p, hpower, h⟩ := Option.bind_eq_some_iff.1 h
  have hbody := List.takeWhile_append_dropWhile (p := (!isExponentMark ·)) (l := body)
  -- the exponent, or nothing behind the digits
  obtain ⟨exponent, hexponent⟩ : ∃ exponent : Option Exponent,
      body.dropWhile (!isExponentMark ·) = (exponent.map Exponent.chars).getD [] := by
    cases hdrop : body.dropWhile (!isExponentMark ·) with
    | nil => exact ⟨none, rfl⟩
    | cons mark rest =>
      have hhead := List.head?_dropWhile_not (!isExponentMark ·) body
      rw [hdrop] at hhead hpower
      obtain ⟨e, he, -⟩ := Exponent.exists_of_exponent? (by simpa using hhead) hpower
      exact ⟨some e, he.symm⟩
  split at h
  · cases h
  next hdigits =>
  simp only [Bool.or_eq_true, not_or, Bool.not_eq_true, List.isEmpty_eq_false_iff,
    Bool.not_eq_false', List.all_eq_true] at hdigits
  obtain ⟨⟨-, hne⟩, hdigits⟩ := hdigits
  generalize body.takeWhile (!isExponentMark ·) = mantissa at hbody hne hdigits
  -- the point, or digits only
  obtain ⟨whole, fraction, hmantissa, hcut⟩ : ∃ (whole : List Char) (fraction : Option (List Char)),
      mantissa = whole ++ (fraction.map ('.' :: ·)).getD [] ∧
        (Text.cut? '.' mantissa).getD (mantissa, []) = (whole, fraction.getD []) := by
    by_cases hpoint : '.' ∈ mantissa
    · obtain ⟨whole, fraction, rfl, hwhole⟩ := List.eq_append_cons_of_mem hpoint
      exact ⟨whole, some fraction, rfl, by rw [Text.cut?_append hwhole]; rfl⟩
    · exact ⟨mantissa, none, (List.append_nil _).symm, by rw [Text.cut?_eq_none hpoint]; rfl⟩
  rw [hcut] at hne hdigits
  refine ⟨⟨s, whole, fraction, exponent, hne, hdigits⟩, ?_⟩
  rw [hsign, ← hbody, hexponent, hmantissa]
  cases fraction <;> cases exponent <;> rfl

end Narrative.Decimal
