import Narrative.Proofs.Decimal.Reading

/-!
# Reading in machine words

Reading is written a second time with every value in the machine word it is kept in. A power of ten
that does not fit its word of 32 bits refuses the literal, but for one: the magnitude of a written
exponent is computed before it is compared, and that of the least one has no word. Without that
exponent no value leaves its word, and both forms read the same.
-/

namespace Narrative.Decimal

/-! ## Reading in words -/

/-- The number with the given sign, digits and power of ten. -/
def roundSignedWords? (negative : Bool) (n e : Int) : Option (Option (Int × Int)) := do
  let c ← signed? (if negative then -n else n)
  (roundWords? c e).map some

/-- The number written with the given digits and the given exponent, if it is not refused. -/
def ofDigitsWords? (negative : Bool) (whole fraction : List Char) (e : Int) :
    Option (Option (Int × Int)) :=
  let significant := (whole ++ fraction).dropWhile (· == '0')
  let kept := significant.take keptDigits
  let dropped := significant.drop keptDigits
  match exp? (e - wordOfCount fraction.length) with
  | none => some none
  | some e =>
    match exp? (e + wordOfCount dropped.length) with
    | none => some none
    | some e => do
      let n ← signed? (natOfDigits kept)
      if dropped.any (· != '0') then
        let shifted ← signed? (n * 10)
        let sticky ← signed? (shifted + 1)
        match exp? (e - 1) with
        | none => some none
        | some e => roundSignedWords? negative sticky e
      else roundSignedWords? negative n e

/-- The number that is read, if the text is not refused. The magnitude of the exponent is put into a
word of 32 bits. -/
def parseWords? (cs : List Char) : Option (Option (Int × Int)) :=
  let (negative, body) := signed (Text.trim cs)
  let mantissa := body.takeWhile (!isExponentMark ·)
  let (whole, fraction) := (Text.cut? '.' mantissa).getD (mantissa, [])
  match writtenPower? body with
  | none => some none
  | some e => do
    let magnitude ← exp? e.natAbs
    if decide (maxWrittenExp < magnitude) || (whole ++ fraction).isEmpty ||
        !(whole ++ fraction).all Char.isDigit then
      some none
    else ofDigitsWords? negative whole fraction e

/-- The exponent of a text is the least power of ten, whatever stands in front of it. -/
def HasLeastExponent (cs : List Char) : Prop :=
  writtenPower? (signed (Text.trim cs)).2 = some minExp

/-! ## No value but one leaves its word -/

section Words

variable {negative : Bool} {whole fraction body : List Char} {e : Int}

/-- Rounding with a sign in words gives the same. -/
theorem roundSignedWords?_eq {n : Nat} (h : n < tenTo 37) :
    roundSignedWords? negative n e =
      some (some (round (if negative then -(n : Int) else n) e).parts) := by
  unfold roundSignedWords?
  generalize hc : (if negative then -(n : Int) else n) = c
  have habs : c.natAbs = n := by
    rw [← hc]
    split <;> simp
  have hword : c.natAbs < tenTo 37 := by rwa [habs]
  rw [signed?_eq (hword.trans (by decide)), Option.bind_eq_bind, Option.bind_some,
    roundWords?_eq e hword]
  rfl

/-- The digits that are kept leave room for one more. -/
theorem natOfDigits_take_lt {digits : List Char} (h : ∀ d ∈ digits, d.isDigit = true) :
    natOfDigits (digits.take keptDigits) < tenTo 30 := by
  have hlt : natOfDigits (digits.take keptDigits) < _ :=
    natOfDigits_lt fun d hd => h d (List.mem_of_mem_take hd)
  have hlength : (digits.take keptDigits).length ≤ 30 := List.length_take_le keptDigits digits
  exact hlt.trans_le (tenTo_le_tenTo hlength)

/-- Reading digits in words gives the same. -/
theorem ofDigitsWords?_eq (h : ∀ d ∈ whole ++ fraction, d.isDigit = true) :
    ofDigitsWords? negative whole fraction e =
      some ((ofDigits? negative whole fraction e).map parts) := by
  have hkept : natOfDigits (((whole ++ fraction).dropWhile (· == '0')).take keptDigits) < _ :=
    natOfDigits_take_lt fun d hd => h d ((List.dropWhile_sublist _).subset hd)
  unfold ofDigitsWords? ofDigits?
  dsimp only
  generalize natOfDigits (((whole ++ fraction).dropWhile (· == '0')).take keptDigits) = n at hkept ⊢
  generalize ((whole ++ fraction).dropWhile (· == '0')).drop keptDigits = dropped
  have hsticky : n * 10 + 1 < tenTo 37 := by
    have hthirty : tenTo 30 = 1000000000000000000000000000000 := rfl
    have hlast : tenTo 37 = 10000000000000000000000000000000000000 := rfl
    omega
  have hword {m : Nat} (hm : m ≤ n * 10 + 1) : signed? m = some (m : Int) :=
    signed?_eq (by rw [Int.natAbs_natCast]; exact (hm.trans_lt hsticky).trans (by decide))
  cases exp? (e - wordOfCount fraction.length) with
  | none => rfl
  | some e =>
    dsimp only [Option.bind_eq_bind, Option.bind_some]
    cases exp? (e + wordOfCount dropped.length) with
    | none => rfl
    | some e =>
      have hshifted : signed? ((n : Int) * 10) = some ((n * 10 : Nat) : Int) := by
        exact_mod_cast hword (m := n * 10) (by omega)
      have hlast : signed? (((n * 10 : Nat) : Int) + 1) = some ((n * 10 + 1 : Nat) : Int) := by
        exact_mod_cast hword (m := n * 10 + 1) (by omega)
      rw [hword (m := n) (by omega)]
      dsimp only [Option.bind_some]
      rw [hshifted, Option.bind_some, hlast, Option.bind_some]
      split
      · cases exp? (e - 1) with
        | none => rfl
        | some e => exact roundSignedWords?_eq hsticky
      · exact roundSignedWords?_eq (by omega)

/-- An exponent is read into a word of 32 bits. -/
theorem mem_of_writtenPower? (h : writtenPower? body = some e) : minExp ≤ e ∧ e ≤ maxExp := by
  unfold writtenPower? at h
  split at h
  · cases h
    decide
  · obtain ⟨n, -, hn⟩ := Option.bind_eq_some_iff.1 h
    obtain ⟨hmem, rfl⟩ := Literal.exp?_eq_some.1 hn
    exact hmem

/-- A text is read from its sign, its exponent and its digits. -/
theorem parse?_eq (cs : List Char) :
    parse? cs =
      (writtenPower? (signed (Text.trim cs)).2).bind fun e =>
        let mantissa := (signed (Text.trim cs)).2.takeWhile (!isExponentMark ·)
        let (whole, fraction) := (Text.cut? '.' mantissa).getD (mantissa, [])
        if isExcessive e || (whole ++ fraction).isEmpty || !(whole ++ fraction).all Char.isDigit then
          none
        else ofDigits? (signed (Text.trim cs)).1 whole fraction e :=
  rfl

/-- The exponent that is the least power of ten has no magnitude in a word. -/
theorem parseWords?_of_least {cs : List Char} (h : HasLeastExponent cs) :
    parseWords? cs = none := by
  unfold HasLeastExponent at h
  unfold parseWords?
  simp only [h]
  rfl

/-- With any other exponent, or with none, the same is read in words. -/
theorem parseWords?_eq {cs : List Char} (h : ¬HasLeastExponent cs) :
    parseWords? cs = some ((parse? cs).map parts) := by
  rw [parse?_eq]
  unfold parseWords?
  dsimp only
  cases hpower : writtenPower? (signed (Text.trim cs)).2 with
  | none => rfl
  | some e =>
    have hmem := mem_of_writtenPower? hpower
    have hne : e ≠ minExp := fun heq => h (hpower.trans (congrArg some heq))
    have hmagnitude : exp? e.natAbs = some (e.natAbs : Int) := by
      refine exp?_of_mem ?_
      simp only [minExp, maxExp] at hmem hne ⊢
      omega
    have hexcessive : isExcessive e = decide ((maxWrittenExp : Int) < e.natAbs) := by
      rw [isExcessive, bne_iff_ne.2 hne, Bool.and_true]
      exact decide_eq_decide.2 Int.ofNat_lt.symm
    dsimp only [Option.bind_some, Option.bind_eq_bind]
    rw [hmagnitude, Option.bind_some, hexcessive]
    split
    · rfl
    · next hdigits =>
      simp only [Bool.or_eq_true, not_or, Bool.not_eq_true, Bool.not_eq_false',
        List.all_eq_true] at hdigits
      exact ofDigitsWords?_eq hdigits.2

end Words

end Narrative.Decimal
