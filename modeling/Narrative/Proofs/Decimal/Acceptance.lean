import Narrative.Proofs.Decimal.Overflow
import Narrative.Proofs.Expr.Characters
import Narrative.SavedGame.Restore
import Narrative.Settings

/-!
# Which numbers are accepted

A text is read as a number when it is a literal with an exponent of at most 400 in magnitude, up to
the length at which its places are no longer counted by a word of 32 bits. One exponent more passes:
the least power of ten. Expressions, declarations, settings and saved games get their numbers from
this reading only.
-/

namespace Narrative

/-! ## Literals that are accepted -/

namespace Decimal

section Acceptance

variable {cs : List Char} {l : Literal}

/-- A literal is read just when its exponent is allowed and its powers are available. -/
theorem isSome_parse?_iff (hl : Text.trim cs = l.chars) :
    (parse? cs).isSome = true ↔ l.Allowed ∧ l.Fits := by
  rw [Option.isSome_iff_exists]
  constructor
  · rintro ⟨x, hx⟩
    obtain ⟨hallowed, hfits, -⟩ := (parse?_eq_some_of_chars hl).1 hx
    exact ⟨hallowed, hfits⟩
  · rintro ⟨hallowed, hfits⟩
    exact ⟨l.rounded, (parse?_eq_some_of_chars hl).2 ⟨hallowed, hfits, rfl⟩⟩

/-- The exponent that is read is the power of ten of the literal. -/
theorem hasLeastExponent_iff (hl : Text.trim cs = l.chars) :
    HasLeastExponent cs ↔ l.power = minExp := by
  rw [HasLeastExponent, hl, l.signed_chars, l.writtenPower?_eq, Literal.exp?_eq_some,
    eq_comm (a := minExp), and_iff_right_iff_imp]
  intro h
  rw [h]
  decide

namespace Literal

/-- The powers of ten of a literal with an exponent of at most 400 are available, unless it has more
digits than a word counts. -/
theorem fits_of_power_le (hlength : l.chars.length ≤ 2147483247)
    (h : l.power.natAbs ≤ maxWrittenExp) : l.Fits := by
  have hdigits := l.length_digits_le
  have hdropped := l.length_dropped_le
  have hplaces := l.length_places_le
  rw [maxWrittenExp] at h
  refine (counted_of_length_lt (by omega)).fits ?_ ?_
  · rw [minExp]
    omega
  · rw [maxExp]
    omega

/-- The least power of ten has room for no place. -/
theorem fits_of_power_eq_minExp (hlength : l.chars.length ≤ 2147483247) (h : l.power = minExp) :
    l.Fits ↔ l.places = [] := by
  have hdigits := l.length_digits_le
  have hdropped := l.length_dropped_le
  have hcounted := counted_of_length_lt (l := l) (by omega)
  rw [← List.length_eq_zero_iff]
  constructor
  · intro hfits
    have hlowest := hfits.lowest.1
    rw [hcounted.lowestPower_eq] at hlowest
    omega
  · intro hzero
    refine hcounted.fits (by omega) ?_
    rw [h, minExp, maxExp]
    omega

end Literal

/-- Up to a length, and but for one exponent, an exponent of at most 400 is all that a literal has to
have. -/
theorem isSome_parse?_iff_of_short (hlength : cs.length ≤ 2147483247) (h : ¬HasLeastExponent cs) :
    (parse? cs).isSome = true ↔
      ∃ l : Literal, Text.trim cs = l.chars ∧ l.power.natAbs ≤ maxWrittenExp := by
  constructor
  · intro hsome
    obtain ⟨x, hx⟩ := Option.isSome_iff_exists.1 hsome
    obtain ⟨l, hl, hallowed, -⟩ := parse?_eq_some_iff.1 hx
    exact ⟨l, hl, hallowed.resolve_right (mt (hasLeastExponent_iff hl).2 h)⟩
  · rintro ⟨l, hl, hpower⟩
    have hchars : l.chars.length ≤ 2147483247 := hl ▸ (Text.length_trim_le cs).trans hlength
    exact (isSome_parse?_iff hl).2 ⟨.inl hpower, Literal.fits_of_power_le hchars hpower⟩

/-- With the least power of ten for an exponent a literal is accepted when it has no places. -/
theorem isSome_parse?_iff_of_least (hlength : cs.length ≤ 2147483247)
    (hl : Text.trim cs = l.chars) (h : HasLeastExponent cs) :
    (parse? cs).isSome = true ↔ l.places = [] := by
  have hpower := (hasLeastExponent_iff hl).1 h
  have hchars : l.chars.length ≤ 2147483247 := hl ▸ (Text.length_trim_le cs).trans hlength
  rw [isSome_parse?_iff hl, Literal.fits_of_power_eq_minExp hchars hpower]
  exact and_iff_right (.inr hpower)

end Acceptance

end Decimal

/-! ## Numbers in expressions -/

namespace Lexeme

/-- What may stand for a number in an expression. -/
inductive Denotes : List Char → Decimal → Prop
  /-- A literal. -/
  | literal {cs : List Char} {n : Decimal} : Decimal.parse? cs = some n → Denotes cs n
  /-- The word for one. -/
  | true : Denotes "true".toList .one
  /-- The word for zero. -/
  | false : Denotes "false".toList .zero

section Reading

variable {operand : Bool} {position extent : Nat} {c : Char} {cs rest : List Char} {n : Decimal}

/-- A number that is read from characters is denoted by them. -/
theorem denotes_of_number (h : number position c rest = (.number n, extent)) :
    Denotes (c :: rest.take extent) n := by
  unfold number at h
  dsimp only at h
  split at h
  · next hparse =>
    cases h
    exact .literal hparse
  · cases h

/-- A number that is read from a word is denoted by it. -/
theorem denotes_of_word (h : word cs = .number n) : Denotes cs n := by
  unfold word at h
  split at h
  all_goals cases h
  · next heq =>
    rw [← String.toList_ofList (l := cs), heq]
    exact .true
  · next heq =>
    rw [← String.toList_ofList (l := cs), heq]
    exact .false

/-- A number that is read from a name is denoted by it. -/
theorem denotes_of_name (h : name c rest = (.number n, extent)) :
    Denotes (c :: rest.take extent) n := by
  obtain ⟨hword, rfl⟩ := Prod.mk.inj h
  rw [← List.prefix_iff_eq_take.1 (List.takeWhile_prefix continuesName)]
  exact denotes_of_word hword

/-- The characters that a number is read from denote it. -/
theorem denotes_of_read (h : read operand position c rest = (.number n, extent)) :
    Denotes (c :: rest.take extent) n := by
  unfold read at h
  dsimp only at h
  split at h
  · exact denotes_of_number h
  split at h
  · exact denotes_of_number h
  split at h
  · exact denotes_of_number h
  split at h
  · exact denotes_of_name h
  split at h
  case h_2 =>
    unfold quoted at h
    cases h
  case h_8 | h_9 | h_10 | h_11 | h_12 | h_13 =>
    exact absurd (congrArg Prod.fst h) (paired_ne rest (by simp) (by simp))
  all_goals cases h

/-- The characters of every number of an expression denote it. -/
theorem denotes_of_mem_scan {lexeme : Lexeme} (h : lexeme ∈ scan operand position cs)
    (hn : lexeme.token = .number n) : Denotes lexeme.chars n := by
  obtain ⟨operand, c, rest, extent, hread, hchars, -⟩ := exists_read_of_mem_scan h
  rw [hn] at hread
  rw [hchars]
  exact denotes_of_read hread

end Reading

end Lexeme

/-! ## Numbers in declarations, settings and saved games -/

section Sources

variable {name raw text : String} {line value : List Char} {n : Decimal} {host : Host}

/-- A value that is read as a number is no other kind of value before. -/
theorem ne_of_parse? (h : Decimal.parse? value = some n) :
    value ≠ [] ∧ value ≠ "true".toList ∧ value ≠ "false".toList := by
  refine ⟨?_, ?_, ?_⟩ <;> rintro rfl <;> revert h <;> exact nofun

/-- A declaration is of a number just when its text is read as one. -/
theorem Statement.initializer_eq_number_iff :
    initializer name value = .ok (.number n) ↔ Decimal.parse? value = some n := by
  constructor
  · intro h
    unfold initializer at h
    split at h
    · cases h
    split at h
    · cases h
    split at h
    · cases h
    split at h
    · next hparse =>
      cases h
      exact hparse
    · split at h <;> cases h
    · cases h
    · cases h
  · intro h
    obtain ⟨hempty, htrue, hfalse⟩ := ne_of_parse? h
    rw [initializer, if_neg (by simpa using hempty), if_neg htrue, if_neg hfalse, h]

/-- The text of a declared number stands behind the name and is read. -/
theorem Statement.ofLine_eq_number_iff :
    ofLine line = .ok (.declare name (.number n)) ↔
      ∃ rest value, Text.after? "VAR ".toList line = some rest ∧
        assignment? (Text.trim rest) = some (name, value) ∧ Decimal.parse? value = some n := by
  constructor
  · intro h
    unfold ofLine at h
    split at h
    · next rest hrest =>
      unfold declaration at h
      split at h
      · cases h
      · next name' value hvalue =>
        cases hinitializer : initializer name' value with
        | error fault =>
          rw [hinitializer] at h
          cases h
        | ok init =>
          rw [hinitializer] at h
          cases h
          exact ⟨rest, value, hrest, hvalue, initializer_eq_number_iff.1 hinitializer⟩
    · unfold action at h
      split at h
      · cases h
      split at h
      · cases h
      split at h <;> cases h
  · rintro ⟨rest, value, hrest, hvalue, hn⟩
    rw [ofLine, hrest]
    dsimp only
    rw [declaration, hvalue]
    dsimp only
    rw [initializer_eq_number_iff.2 hn]
    rfl

/-- A setting is a number just when its text is read as one. -/
theorem Settings.valueOf_eq_number_iff :
    valueOf raw = .number n ↔ Decimal.parse? raw.toList = some n := by
  unfold valueOf
  split
  · exact iff_of_false nofun nofun
  · exact iff_of_false nofun nofun
  · cases Decimal.parse? raw.toList <;> simp

/-- A saved value is a number just when its text is read as one. -/
theorem SavedValue.toValue_eq_number_iff :
    toValue host (.number text) = .ok (.number n) ↔ Decimal.parse? text.toList = some n := by
  rw [toValue, Except.ok.injEq]
  cases Decimal.parse? text.toList <;> simp

end Sources

/-! ## Guarded reading -/

section Guards

open Decimal

/-- What the reading of numbers promises of a text. -/
structure ReadingIsGuarded (cs : List Char) : Prop where
  /-- A number is read of a literal with an exponent that is allowed and powers of ten that are
  available. -/
  literals (n : Decimal) : parse? cs = some n ↔
    ∃ l : Literal, Text.trim cs = l.chars ∧ l.Allowed ∧ l.Fits ∧ n = l.rounded
  /-- Up to a length these are the literals with an exponent of at most 400, unless the exponent is
  the least power of ten. -/
  accepted : cs.length ≤ 2147483247 → ¬HasLeastExponent cs →
    ((parse? cs).isSome = true ↔
      ∃ l : Literal, Text.trim cs = l.chars ∧ l.power.natAbs ≤ maxWrittenExp)
  /-- The least power of ten passes as well, in a literal without places. -/
  least (l : Literal) : cs.length ≤ 2147483247 → Text.trim cs = l.chars → HasLeastExponent cs →
    ((parse? cs).isSome = true ↔ l.places = [])
  /-- Without that exponent no value leaves its word, and the same is read in words. -/
  words : ¬HasLeastExponent cs → parseWords? cs = some ((parse? cs).map parts)
  /-- With it a value does. -/
  overflow : HasLeastExponent cs → parseWords? cs = none
  /-- The numbers of an expression are read, but for the words for the truth values. -/
  expression (lexeme : Lexeme) (n : Decimal) : lexeme ∈ Lexeme.ofChars cs →
    lexeme.token = .number n → Lexeme.Denotes lexeme.chars n
  /-- The number of a declaration is read. -/
  declaration (name : String) (n : Decimal) :
    Statement.ofLine cs = .ok (.declare name (.number n)) ↔
      ∃ rest value, Text.after? "VAR ".toList cs = some rest ∧
        Statement.assignment? (Text.trim rest) = some (name, value) ∧ parse? value = some n
  /-- The number of a setting is read. -/
  setting (n : Decimal) :
    Settings.valueOf (String.ofList cs) = .number n ↔ parse? cs = some n
  /-- The number of a saved game is read. -/
  savedGame (host : Host) (n : Decimal) :
    SavedValue.toValue host (.number (String.ofList cs)) = .ok (.number n) ↔ parse? cs = some n

/-- Numbers are read of literals only, wherever they are read. -/
theorem readingIsGuarded (cs : List Char) : ReadingIsGuarded cs where
  literals _ := parse?_eq_some_iff
  accepted := isSome_parse?_iff_of_short
  least _ := isSome_parse?_iff_of_least
  words := parseWords?_eq
  overflow := parseWords?_of_least
  expression _ _ := Lexeme.denotes_of_mem_scan
  declaration _ _ := Statement.ofLine_eq_number_iff
  setting n := by rw [Settings.valueOf_eq_number_iff, String.toList_ofList]
  savedGame host n := by rw [SavedValue.toValue_eq_number_iff, String.toList_ofList]

/-- A zero with the least power of ten is accepted, and its exponent is larger than 400. -/
theorem least_exponent_accepted :
    (parse? "0e-2147483648".toList).isSome = true ∧
      ¬∃ l : Literal, Text.trim "0e-2147483648".toList = l.chars ∧
        l.power.natAbs ≤ maxWrittenExp := by
  refine ⟨by decide, ?_⟩
  rintro ⟨l, hl, hpower⟩
  have hleast : HasLeastExponent "0e-2147483648".toList := rfl
  rw [(hasLeastExponent_iff hl).1 hleast] at hpower
  exact absurd hpower (by decide)

end Guards

end Narrative
