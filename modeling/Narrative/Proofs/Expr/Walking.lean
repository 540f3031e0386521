import Narrative.Proofs.Expr.Literals
import Narrative.Proofs.Text.Bytes

/-!
# Tokens are found by walking over bytes

The tokens of an expression can be found in its bytes, since they are told apart by ASCII characters
only. The texts of names, numbers and quoted texts are cut out of the expression, between byte
positions that were reached on the way. None of these cuts goes through a character, and the walk
finds the same lexemes as reading character by character.
-/

namespace Narrative.Lexeme

open Text (units Skips IsAscii)

/-! ## The walk -/

namespace Walk

section Tokens

variable (text : List Char) (position : Nat)

/-- The number that begins with `c` at a position of a text, given the units behind it, and how many
of these it takes. -/
def number? (c : Char) (next : List Char) : Option (Token × Nat) :=
  let extent := numberExtent next
  (Text.slice? text position (position + 1 + extent)).map fun literal =>
    match Decimal.parse? literal with
    | some n => (.number n, extent)
    | none => (.unknown c position, extent)

/-- The quoted text behind a quote at a position. -/
def quoted? (next : List Char) : Option (Token × Nat) :=
  let extent := (next.takeWhile (· != '"')).length
  let closing := if extent < next.length then 1 else 0
  (Text.slice? text (position + 1) (position + 1 + extent)).map fun body =>
    (.str (String.ofList body), extent + closing)

/-- The name or word at a position. -/
def name? (next : List Char) : Option (Token × Nat) :=
  let extent := (next.takeWhile continuesName).length
  (Text.slice? text position (position + 1 + extent)).map fun cs => (word cs, extent)

/-- A character that begins no token. All of its bytes are taken. -/
def unknown? : Option (Token × Nat) :=
  (Text.behind? position text).bind fun rest =>
    rest.head?.map fun c => (.unknown c position, c.utf8Size - 1)

/-- The operator of two characters when the second one follows, or else an unknown character. -/
def joined? (second : Char) (op : Operator) (next : List Char) : Option (Token × Nat) :=
  if next.head? = some second then some (.operator op, 1) else unknown? text position

/-- The token that begins with the unit `c`, and how many of the next units it takes. -/
def read? (operand : Bool) (c : Char) (next : List Char) : Option (Token × Nat) :=
  let digitNext := next.head?.any Char.isDigit
  if c.isDigit then number? text position c next
  else if c == '.' && digitNext then number? text position c next
  else if c == '-' && operand && (digitNext || next.head? == some '.') then
    number? text position c next
  else if startsName c then name? text position next
  else
    match c with
    | '"' => quoted? text position next
    | '+' => some (.operator .add, 0)
    | '-' => some (.operator (if operand then .neg else .sub), 0)
    | '*' => some (.operator .mul, 0)
    | '/' => some (.operator .div, 0)
    | '%' => some (.operator .rem, 0)
    | '^' => some (.operator .pow, 0)
    | '&' => joined? text position '&' .and next
    | '|' => joined? text position '|' .or next
    | '!' => joined? text position '=' .ne next
    | '<' => some (paired (.operator .lt) [('=', .operator .le), ('>', .operator .ne)] next)
    | '>' => some (paired (.operator .gt) [('=', .operator .ge)] next)
    | '=' => some (paired (.operator .eq) [('=', .operator .eq)] next)
    | '(' => some (.opening, 0)
    | ')' => some (.closing, 0)
    | ',' => some (.comma, 0)
    | _ => unknown? text position

end Tokens

/-- The lexemes that a walk over the units of a text finds from a position on. There are none when a
cut goes through a character. -/
def scan? (text : List Char) (operand : Bool) (position : Nat) :
    List Char → Option (List Lexeme)
  | [] => some []
  | c :: next =>
    if isSeparator c then scan? text operand (position + 1) next
    else do
      let (token, extent) ← read? text position operand c next
      let chars ← Text.slice? text position (position + 1 + extent)
      let more ← scan? text token.expectsOperand (position + 1 + extent) (next.drop extent)
      return ⟨position, chars, token⟩ :: more
termination_by next => next.length
decreasing_by
  · simp
  · simp only [List.length_drop, List.length_cons]; omega

end Walk

/-! ## Classes of ASCII characters -/

/-- A test that accepts nothing behind the letter z is one for ASCII characters. -/
theorem isAscii_of_le {p : Char → Bool} (h : ∀ c, p c = true → c ≤ 'z') : IsAscii p := fun c hc =>
  Nat.lt_of_le_of_lt (UInt32.le_iff_toNat_le.1 (h c hc)) (by decide)

/-- Digits are ASCII characters. -/
theorem isAscii_isDigit : IsAscii Char.isDigit :=
  isAscii_of_le fun _ hc =>
    UInt32.le_trans (of_decide_eq_true (Bool.and_eq_true_iff.1 hc).2) (by decide)

/-- Letters are ASCII characters. -/
theorem isAscii_isAlpha : IsAscii Char.isAlpha := by
  refine isAscii_of_le fun c hc => ?_
  rcases Bool.or_eq_true_iff.1 hc with hupper | hlower
  · exact UInt32.le_trans (of_decide_eq_true hupper).2 (by decide)
  · exact of_decide_eq_true (Bool.and_eq_true_iff.1 hlower).2

/-- A name begins with an ASCII character. -/
theorem isAscii_startsName : IsAscii startsName :=
  IsAscii.or_beq isAscii_isAlpha (by decide)

/-- A name goes on with ASCII characters. -/
theorem isAscii_continuesName : IsAscii continuesName := by
  refine IsAscii.or_beq (IsAscii.or_beq (fun c hc => ?_) (by decide)) (by decide)
  exact (Bool.or_eq_true_iff.1 hc).elim (isAscii_isAlpha c) (isAscii_isDigit c)

/-- Separators are ASCII characters. -/
theorem isAscii_isSeparator : IsAscii isSeparator := by
  have hspace : IsAscii (· == ' ') := Text.isAscii_beq (by decide)
  exact ((hspace.or_beq (by decide)).or_beq (by decide)).or_beq (by decide)

/-- An exponent is marked by an ASCII character. -/
theorem isAscii_isExponentMark : IsAscii Decimal.isExponentMark :=
  IsAscii.or_beq (Text.isAscii_beq (a := 'e') (by decide)) (by decide)

/-! ## Numbers -/

/-- Skipping digits skips the same bytes. -/
theorem skips_afterDigits : Skips afterDigits :=
  Text.skips_dropWhile isAscii_isDigit

/-- Behind a point a fraction begins where a digit follows. -/
theorem afterFraction_point (rest : List Char) :
    afterFraction ('.' :: rest) =
      if rest.head?.any Char.isDigit then afterDigits rest else '.' :: rest := by
  cases rest with
  | nil => rfl
  | cons d rest =>
    rw [afterFraction, List.head?_cons, Option.any_some]
    split
    · next hd => exact (List.dropWhile_cons_of_pos hd).symm
    · rfl

/-- Skipping a fraction skips the same bytes. -/
theorem skips_afterFraction : Skips afterFraction where
  units cs := by
    by_cases hpoint : cs.head? = some '.'
    · obtain ⟨rest, rfl⟩ := List.head?_eq_some_iff.1 hpoint
      rw [Text.units_cons_of_ascii (by decide), afterFraction_point, afterFraction_point,
        Text.any_head?_units isAscii_isDigit]
      split
      · exact skips_afterDigits.units rest
      · rw [Text.units_cons_of_ascii (by decide)]
    · rw [afterFraction_of_ne hpoint,
        afterFraction_of_ne (mt (Text.head?_units (by decide) cs).1 hpoint)]
  suffix cs := by
    by_cases hpoint : cs.head? = some '.'
    · obtain ⟨rest, rfl⟩ := List.head?_eq_some_iff.1 hpoint
      rw [afterFraction_point]
      split
      · exact (skips_afterDigits.suffix rest).trans (List.suffix_cons _ _)
      · exact List.suffix_refl _
    · rw [afterFraction_of_ne hpoint]

/-- A text without a sign in front has none to split off. -/
theorem signed_of_ne {cs : List Char} (hminus : cs.head? ≠ some '-') (hplus : cs.head? ≠ some '+') :
    Decimal.signed cs = (false, cs) := by
  rw [Decimal.signed]
  · rintro rest rfl
    exact hminus rfl
  · rintro rest rfl
    exact hplus rfl

/-- Skipping a sign skips the same byte. -/
theorem skips_signed : Skips fun cs => (Decimal.signed cs).2 where
  units cs := by
    by_cases hminus : cs.head? = some '-'
    · obtain ⟨rest, rfl⟩ := List.head?_eq_some_iff.1 hminus
      rw [Text.units_cons_of_ascii (by decide)]
      rfl
    by_cases hplus : cs.head? = some '+'
    · obtain ⟨rest, rfl⟩ := List.head?_eq_some_iff.1 hplus
      rw [Text.units_cons_of_ascii (by decide)]
      rfl
    rw [signed_of_ne hminus hplus, signed_of_ne (mt (Text.head?_units (by decide) cs).1 hminus)
      (mt (Text.head?_units (by decide) cs).1 hplus)]
  suffix cs := by
    rw [Decimal.signed.eq_def]
    split
    · exact List.suffix_cons _ _
    · exact List.suffix_cons _ _
    · exact List.suffix_refl _

/-- Without a mark there is no exponent. -/
theorem afterExponent_of_ne {cs : List Char} (h : cs.head?.any Decimal.isExponentMark = false) :
    afterExponent cs = cs := by
  cases cs with
  | nil => rfl
  | cons mark rest =>
    rw [List.head?_cons, Option.any_some] at h
    rw [afterExponent_cons, h, Bool.false_and, if_neg Bool.false_ne_true]

/-- Skipping an exponent skips the same bytes. -/
theorem skips_afterExponent : Skips afterExponent where
  units cs := by
    by_cases hmark : cs.head?.any Decimal.isExponentMark = true
    · obtain ⟨mark, rest, rfl⟩ : ∃ mark rest, cs = mark :: rest := by
        cases cs with
        | nil => cases hmark
        | cons mark rest => exact ⟨mark, rest, rfl⟩
      have hcode := isAscii_isExponentMark mark hmark
      rw [Text.units_cons_of_ascii hcode, afterExponent_cons, afterExponent_cons,
        skips_signed.units, Text.any_head?_units isAscii_isDigit]
      split
      · exact skips_afterDigits.units _
      · rw [Text.units_cons_of_ascii hcode]
    · rw [Bool.not_eq_true] at hmark
      rw [afterExponent_of_ne hmark, afterExponent_of_ne]
      rwa [Text.any_head?_units isAscii_isExponentMark]
  suffix cs := by
    cases cs with
    | nil => exact List.suffix_refl _
    | cons mark rest =>
      rw [afterExponent_cons]
      split
      · exact ((skips_afterDigits.suffix _).trans (skips_signed.suffix rest)).trans
          (List.suffix_cons _ _)
      · exact List.suffix_refl _

/-- A number has as many bytes among the units as its characters have. -/
theorem numberExtent_units (rest : List Char) :
    numberExtent (units rest) = Text.byteSize (rest.take (numberExtent rest)) :=
  (skips_afterExponent.comp (skips_afterFraction.comp skips_afterDigits)).length_sub rest

/-! ## Tokens -/

namespace Walk

/-- What a walk reads is a token, and it takes the bytes of the characters that belong to it. -/
def Agrees (rest : List Char) (found : Option (Token × Nat)) (expected : Token × Nat) : Prop :=
  found = some (expected.1, Text.byteSize (rest.take expected.2))

section Agrees

variable {front rest : List Char} {c : Char}

/-- Both branches agree. -/
theorem Agrees.ite {p : Prop} [Decidable p] {found found' : Option (Token × Nat)}
    {expected expected' : Token × Nat} (h : p → Agrees rest found expected)
    (h' : ¬ p → Agrees rest found' expected') :
    Agrees rest (if p then found else found') (if p then expected else expected') := by
  split
  · next hp => exact h hp
  · next hp => exact h' hp

/-- A token of one character has nothing beyond it. -/
theorem agrees_single (token : Token) : Agrees rest (some (token, 0)) (token, 0) :=
  rfl

/-- An ASCII character and the text behind it can be cut out of the text. -/
theorem slice?_cons (front : List Char) (hc : c.toNat < 128) (rest : List Char) (extent : Nat) :
    Text.slice? (front ++ c :: rest) (Text.byteSize front)
        (Text.byteSize front + 1 + Text.byteSize (rest.take extent)) =
      some (c :: rest.take extent) := by
  have hslice := Text.slice?_append front (c :: rest.take extent) (rest.drop extent)
  rw [List.cons_append, List.take_append_drop, Text.byteSize_cons, Text.utf8Size_of_ascii hc,
    ← Nat.add_assoc] at hslice
  exact hslice

/-- Numbers are walked over as they are read. -/
theorem agrees_number (hc : c.toNat < 128) :
    Agrees rest (number? (front ++ c :: rest) (Text.byteSize front) c (units rest))
      (number (Text.byteSize front) c rest) := by
  unfold Agrees number? number
  dsimp only
  rw [numberExtent_units, slice?_cons front hc, Option.map_some]
  cases Decimal.parse? (c :: rest.take (numberExtent rest)) <;> rfl

/-- Names are walked over as they are read. -/
theorem agrees_name (hc : c.toNat < 128) :
    Agrees rest (name? (front ++ c :: rest) (Text.byteSize front) (units rest)) (name c rest) := by
  have htake : rest.take (rest.takeWhile continuesName).length = rest.takeWhile continuesName :=
    (List.prefix_iff_eq_take.1 (List.takeWhile_prefix _)).symm
  have hsize : Text.byteSize (rest.takeWhile continuesName) =
      (rest.takeWhile continuesName).length :=
    Text.byteSize_of_ascii fun d hd => isAscii_continuesName d (List.mem_takeWhile_imp hd)
  have hslice := slice?_cons front hc rest (rest.takeWhile continuesName).length
  rw [htake, hsize] at hslice
  unfold Agrees name? name
  dsimp only
  rw [Text.takeWhile_units isAscii_continuesName, hslice, htake, hsize, Option.map_some]

/-- A quoted text ends at a quote or at the end of the expression. -/
theorem agrees_quoted :
    Agrees rest (quoted? (front ++ '"' :: rest) (Text.byteSize front) (units rest))
      (quoted rest) := by
  have hunits : (units rest).takeWhile (· != '"') = units (rest.takeWhile (· != '"')) :=
    Text.takeWhile_not_units (Text.isAscii_beq (by decide)) rest
  have hhead := List.head?_dropWhile_not (· != '"') rest
  have hsplit : rest.takeWhile (· != '"') ++ rest.dropWhile (· != '"') = rest :=
    List.takeWhile_append_dropWhile
  unfold Agrees quoted? quoted
  dsimp only
  rw [hunits, Text.length_units, Text.length_units]
  -- what stands behind the body begins with the closing quote, or there is nothing
  generalize rest.takeWhile (· != '"') = body at hsplit ⊢
  generalize rest.dropWhile (· != '"') = after at hsplit hhead
  subst hsplit
  have hslice := Text.slice?_append (front ++ ['"']) body after
  rw [Text.byteSize_append, List.append_assoc, List.singleton_append] at hslice
  have hquote : Text.byteSize ['"'] = 1 := rfl
  rw [hquote] at hslice
  rw [hslice, Option.map_some, Text.byteSize_append, List.length_append]
  cases after with
  | nil => simp [Text.byteSize]
  | cons d more =>
    have hd : d = '"' := by simpa using hhead
    subst hd
    have hpos := Text.byteSize_pos (List.cons_ne_nil '"' more)
    rw [if_pos (by omega), if_pos (by simp), List.take_length_add_append, Text.byteSize_append]
    rfl

/-- A character that begins no token is taken with all of its bytes. -/
theorem unknown?_eq (front : List Char) (c : Char) (rest : List Char) :
    unknown? (front ++ c :: rest) (Text.byteSize front) =
      some (.unknown c (Text.byteSize front), c.utf8Size - 1) := by
  rw [unknown?, Text.behind?_append]
  rfl

/-- Tokens of one or two characters are walked over as they are read. -/
theorem agrees_paired {single : Token} {pairs : List (Char × Token)}
    (hpairs : ∀ p ∈ pairs, p.1.toNat < 128) :
    Agrees rest (some (paired single pairs (units rest))) (paired single pairs rest) := by
  have hnone {d : Char} (hd : 128 ≤ d.toNat) : pairs.lookup d = none := by
    refine List.lookup_eq_none_iff.2 fun p hp => bne_iff_ne.2 ?_
    rintro rfl
    exact absurd (hpairs p hp) (Nat.not_lt.2 hd)
  unfold Agrees paired
  cases rest with
  | nil => rfl
  | cons d more =>
    rcases Nat.lt_or_ge d.toNat 128 with hd | hd
    · rw [Text.units_cons_of_ascii hd, List.head?_cons, List.head?_cons, Option.bind_some]
      cases pairs.lookup d with
      | none => rfl
      | some token =>
        have hone : Text.byteSize ((d :: more).take 1) = 1 := by
          rw [List.take_succ_cons, List.take_zero, Text.byteSize_cons, Text.utf8Size_of_ascii hd]
          rfl
        dsimp only
        rw [hone]
    · obtain ⟨u, units', heq, hunits, -⟩ := Text.exists_units_cons hd
      rw [heq, List.cons_append, List.head?_cons, List.head?_cons, Option.bind_some,
        Option.bind_some, hnone hd, hnone (hunits u List.mem_cons_self)]
      rfl

/-- With one pair there are two cases. -/
theorem paired_singleton (single token : Token) (second : Char) (rest : List Char) :
    paired single [(second, token)] rest =
      if rest.head? = some second then (token, 1) else (single, 0) := by
  unfold paired
  cases rest with
  | nil => rfl
  | cons d more =>
    rw [List.head?_cons, Option.bind_some, List.lookup_cons]
    by_cases hd : d = second
    · rw [if_pos (congrArg some hd), hd, beq_self_eq_true]
    · rw [if_neg (mt Option.some.inj hd), beq_eq_false_iff_ne.2 hd]
      rfl

/-- Operators that are written twice are walked over as they are read. -/
theorem agrees_joined (hc : c.toNat < 128) {second : Char} (hsecond : second.toNat < 128)
    (op : Operator) :
    Agrees rest (joined? (front ++ c :: rest) (Text.byteSize front) second op (units rest))
      (paired (.unknown c (Text.byteSize front)) [(second, .operator op)] rest) := by
  rw [joined?, paired_singleton]
  simp only [Text.head?_units hsecond]
  refine .ite (fun hnext => ?_) fun _ => ?_
  · obtain ⟨more, rfl⟩ := List.head?_eq_some_iff.1 hnext
    rw [Agrees, List.take_succ_cons, List.take_zero, Text.byteSize_cons,
      Text.utf8Size_of_ascii hsecond]
    rfl
  · rw [Agrees, unknown?_eq, Text.utf8Size_of_ascii hc]
    rfl

/-- At an ASCII character a walk reads the token that begins there. -/
theorem agrees_read (hc : c.toNat < 128) (operand : Bool) :
    Agrees rest
      (read? (front ++ c :: rest) (Text.byteSize front) operand c (units rest))
      (read operand (Text.byteSize front) c rest) := by
  have hpoint : ((units rest).head? == some '.') = (rest.head? == some '.') := by
    rw [Bool.eq_iff_iff, beq_iff_eq, beq_iff_eq, Text.head?_units (by decide)]
  unfold read? read
  dsimp only
  rw [Text.any_head?_units isAscii_isDigit, hpoint]
  refine .ite (fun _ => agrees_number hc) fun _ => .ite (fun _ => agrees_number hc) fun _ =>
    .ite (fun _ => agrees_number hc) fun _ => .ite (fun _ => agrees_name hc) fun _ => ?_
  split
  case h_1 => exact agrees_quoted
  case h_8 | h_9 | h_10 => exact agrees_joined hc (by decide) _
  case h_11 | h_12 | h_13 => exact agrees_paired (by decide)
  case h_17 =>
    have hunknown : Agrees rest (unknown? (front ++ c :: rest) (Text.byteSize front))
        (.unknown c (Text.byteSize front), 0) := by
      rw [Agrees, unknown?_eq, Text.utf8Size_of_ascii hc]
      rfl
    split
    case h_17 => exact hunknown
    all_goals contradiction
  all_goals exact agrees_single _

/-- A character that is not ASCII begins no token. -/
theorem read_of_not_ascii (hc : 128 ≤ c.toNat) (operand : Bool) (position : Nat)
    (rest : List Char) : read operand position c rest = (.unknown c position, 0) := by
  have hpoint : (c == '.') = false := (Text.isAscii_beq (by decide)).eq_false hc
  have hminus : (c == '-') = false := (Text.isAscii_beq (by decide)).eq_false hc
  unfold read
  dsimp only
  rw [isAscii_isDigit.eq_false hc, hpoint, hminus, isAscii_startsName.eq_false hc, Bool.false_and,
    Bool.false_and, Bool.false_and]
  simp only [Bool.false_eq_true, if_false]
  split
  case h_17 => rfl
  all_goals exact absurd hc (by decide)

/-- What is not ASCII is unknown. -/
theorem read?_of_not_ascii (hc : 128 ≤ c.toNat) (text : List Char) (position : Nat)
    (operand : Bool) (next : List Char) :
    read? text position operand c next = unknown? text position := by
  have hpoint : (c == '.') = false := (Text.isAscii_beq (by decide)).eq_false hc
  have hminus : (c == '-') = false := (Text.isAscii_beq (by decide)).eq_false hc
  unfold read?
  dsimp only
  rw [isAscii_isDigit.eq_false hc, hpoint, hminus, isAscii_startsName.eq_false hc, Bool.false_and,
    Bool.false_and, Bool.false_and]
  simp only [Bool.false_eq_true, if_false]
  split
  case h_17 => rfl
  all_goals exact absurd hc (by decide)

end Agrees

/-- At any character a walk reads the token that begins there, and takes the bytes of its
characters. -/
theorem exists_read? (front : List Char) (c : Char) (rest : List Char) (operand : Bool) :
    ∃ u next, units (c :: rest) = u :: next ∧ isSeparator u = isSeparator c ∧
      read? (front ++ c :: rest) (Text.byteSize front) operand u next =
        some ((read operand (Text.byteSize front) c rest).1,
          Text.byteSize (c :: rest.take (read operand (Text.byteSize front) c rest).2) - 1) := by
  rcases Nat.lt_or_ge c.toNat 128 with hc | hc
  · refine ⟨c, units rest, Text.units_cons_of_ascii hc rest, rfl, ?_⟩
    rw [agrees_read hc operand, Text.byteSize_cons, Text.utf8Size_of_ascii hc,
      Nat.add_sub_cancel_left]
  · obtain ⟨u, more, heq, hunits, -⟩ := Text.exists_units_cons hc
    have hu := hunits u List.mem_cons_self
    refine ⟨u, more ++ units rest, heq rest, ?_, ?_⟩
    · rw [isAscii_isSeparator.eq_false hu, isAscii_isSeparator.eq_false hc]
    · rw [read?_of_not_ascii hu, unknown?_eq, read_of_not_ascii hc, List.take_zero,
        Text.byteSize_singleton]

/-- A walk over the bytes of a text from a place on finds the lexemes behind it. -/
theorem scan?_units (front : List Char) (operand : Bool) (cs : List Char) :
    scan? (front ++ cs) operand (Text.byteSize front) (units cs) =
      some (scan operand (Text.byteSize front) cs) := by
  -- a position is how many bytes the text in front has, which grows by what each step takes
  generalize hposition : Text.byteSize front = position
  induction operand, position, cs using scan.induct generalizing front with
  | case1 operand position => rw [scan, units, Text.bytes, List.flatMap_nil, List.map_nil, scan?]
  | case2 operand position c rest hsep ih =>
    subst hposition
    have hc := isAscii_isSeparator c hsep
    have hsize : Text.byteSize (front ++ [c]) = Text.byteSize front + c.utf8Size := by
      rw [Text.byteSize_append, Text.byteSize_singleton]
    have hrest := ih (front ++ [c]) hsize
    rw [List.append_assoc, List.singleton_append, Text.utf8Size_of_ascii hc] at hrest
    rw [Text.units_cons_of_ascii hc, scan?, if_pos hsep, scan, if_pos hsep, hrest,
      Text.utf8Size_of_ascii hc]
  | case3 operand position c rest hsep token extent hread chars ih =>
    subst hposition
    -- one byte has been passed when the token is read, the others of its characters follow
    obtain ⟨u, next, hunits, hu, hread?⟩ := exists_read? front c rest operand
    have hsplit : c :: rest = chars ++ rest.drop extent := by
      rw [List.cons_append, List.take_append_drop]
    have hpos := Text.byteSize_pos (show chars ≠ [] from List.cons_ne_nil _ _)
    have hstop : Text.byteSize front + 1 + (Text.byteSize chars - 1) =
        Text.byteSize front + Text.byteSize chars := by omega
    have hslice := Text.slice?_append front chars (rest.drop extent)
    have hnext : next.drop (Text.byteSize chars - 1) = units (rest.drop extent) := by
      have hdrop := congrArg (List.drop (Text.byteSize chars)) hunits
      rw [hsplit, Text.units_append, ← Text.length_units, List.drop_left,
        Text.length_units] at hdrop
      rw [hdrop, ← Nat.sub_add_cancel hpos, List.drop_succ_cons]
      rfl
    have hmore := ih (front ++ chars) (Text.byteSize_append _ _)
    rw [List.append_assoc] at hmore
    rw [hread] at hread?
    rw [hunits, scan?, hu, if_neg hsep, hread?, scan, if_neg hsep, hread]
    dsimp only [Option.bind_eq_bind, Option.bind_some]
    rw [hstop, hsplit, hslice, hnext, Option.bind_some, hmore]
    rfl

end Walk

end Narrative.Lexeme
