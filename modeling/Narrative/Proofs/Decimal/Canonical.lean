import Narrative.Proofs.Decimal.Reading

/-!
# Canonical plain notation

A number is printed as a literal of one form only: without a plus, an exponent or a zero that could
be left out. The literal denotes the number exactly, so that two numbers are printed alike only when
they are equal, and a number is read back from what is printed.
-/

namespace Narrative.Decimal

/-- Plain notation with nothing in it that could be left out. -/
structure Literal.IsCanonical (l : Literal) : Prop where
  /-- There is no plus. -/
  sign : l.sign ≠ .plus
  /-- There is no exponent. -/
  exponent : l.exponent = none
  /-- There is a digit in front of the point, and a zero only when it is the only one. -/
  whole : l.whole = ['0'] ∨ ∃ d ds, l.whole = d :: ds ∧ d ≠ '0'
  /-- There is a digit behind a point, and the last one is not a zero. -/
  fraction : ∀ ds, l.fraction = some ds → ∃ front d, ds = front ++ [d] ∧ d ≠ '0'
  /-- A minus is not written in front of zeros only. -/
  minus : l.sign = .minus → ∃ d ∈ l.digits, d ≠ '0'

section Layouts

variable {x : Decimal} {n : Nat}

/-- The last digit of a number that ten does not divide is not a zero. -/
theorem toDigits_last (h : n % 10 ≠ 0) :
    ∃ front d, Nat.toDigits 10 n = front ++ [d] ∧ d ≠ '0' := by
  have hlast : (n % 10).digitChar ≠ '0' := by
    have hvalue := Nat.toNat_digitChar_sub_48_of_lt_ten (Nat.mod_lt n (by decide : 0 < 10))
    intro hzero
    rw [hzero] at hvalue
    exact h hvalue.symm
  by_cases hn : n < 10
  · refine ⟨[], (n % 10).digitChar, ?_, hlast⟩
    rw [Nat.toDigits_of_lt_base hn, Nat.mod_eq_of_lt hn, List.nil_append]
  · exact ⟨_, _, Nat.toDigits_of_base_le (by decide) (not_lt.1 hn), hlast⟩

/-- The sign in front of a number. -/
def writtenSign (x : Decimal) : Sign :=
  if x.coeff < 0 then .minus else .blank

/-- Only a negative number is written with a sign. -/
theorem chars_writtenSign (x : Decimal) :
    x.writtenSign.chars = if x.coeff < 0 then ['-'] else [] :=
  apply_ite Sign.chars _ _ _

/-- The sign that is written is the sign of the coefficient. -/
theorem apply_writtenSign (x : Decimal) (n : Nat) :
    x.writtenSign.apply (x.coeff.natAbs * n) = x.coeff * n := by
  unfold writtenSign
  split
  · next hneg =>
    change -((x.coeff.natAbs * n : Nat) : Int) = x.coeff * n
    rw [Int.natCast_mul, Int.ofNat_natAbs_of_nonpos hneg.le, neg_mul, neg_neg]
  · next hpos =>
    change ((x.coeff.natAbs * n : Nat) : Int) = x.coeff * n
    rw [Int.natCast_mul, Int.natAbs_of_nonneg (not_lt.1 hpos)]

/-- The canonical notation of a number. -/
structure NotationOf (x : Decimal) (l : Literal) : Prop where
  /-- Nothing could be left out. -/
  canonical : l.IsCanonical
  /-- The literal denotes the number. -/
  value : l.value = x.value
  /-- There are as many digits behind the point as the power of ten says. -/
  places : l.places.length = (-x.exp).toNat
  /-- Besides the digits of the coefficient there is hardly more than the zeros of the power of ten.
  -/
  length : l.digits.length ≤ 7 + x.exp.natAbs

/-- Characters are the canonical notation of a number. -/
def IsNotation (x : Decimal) (cs : List Char) : Prop :=
  ∃ l : Literal, cs = l.chars ∧ x.NotationOf l

/-- Digits around a point are a number's canonical notation when they are worth its coefficient with
the zeros of its power of ten, and there is no zero among them that could be left out. -/
theorem isNotation_of_digits (whole : List Char) (fraction : Option (List Char))
    (hdigits : ∀ d ∈ whole ++ fraction.getD [], d.isDigit = true)
    (hwhole : whole = ['0'] ∨ ∃ d ds, whole = d :: ds ∧ d ≠ '0')
    (hfraction : ∀ ds, fraction = some ds → ∃ front d, ds = front ++ [d] ∧ d ≠ '0')
    (hvalue : natOfDigits (whole ++ fraction.getD []) = x.coeff.natAbs * tenTo x.exp.toNat)
    (hplaces : (fraction.getD []).length = (-x.exp).toNat)
    (hlength : (whole ++ fraction.getD []).length ≤ 7 + x.exp.natAbs) :
    x.IsNotation (x.writtenSign.chars ++ (whole ++ (fraction.map ('.' :: ·)).getD [])) := by
  have hne : whole ++ fraction.getD [] ≠ [] := by
    obtain rfl | ⟨d, ds, rfl, -⟩ := hwhole <;> exact List.cons_ne_nil _ _
  have hminus (h : x.writtenSign = .minus) : ∃ d ∈ whole ++ fraction.getD [], d ≠ '0' := by
    have hneg : x.coeff < 0 := by_contra fun hpos => by
      rw [writtenSign, if_neg hpos] at h
      cases h
    rw [← natOfDigits_pos_iff hdigits, hvalue]
    exact Nat.mul_pos (Int.natAbs_pos.2 hneg.ne) (tenTo_pos _)
  have hsign : x.writtenSign ≠ .plus := by
    unfold writtenSign
    split <;> exact nofun
  refine ⟨⟨x.writtenSign, whole, fraction, none, hne, hdigits⟩, ?_,
    ⟨hsign, rfl, hwhole, hfraction, hminus⟩, ?_, hplaces, hlength⟩
  · rw [Literal.chars, Literal.suffix, List.append_nil]
    cases fraction <;> rfl
  · have hplace := place_add (0 - (fraction.getD []).length : Int) x.exp.toNat
    rw [show (0 - (fraction.getD []).length : Int) + x.exp.toNat = x.exp by omega] at hplace
    change ((x.writtenSign.apply (natOfDigits (whole ++ fraction.getD [])) : Int) : ℚ) *
      10 ^ (0 - (fraction.getD []).length : Int) = x.coeff * 10 ^ x.exp
    rw [hvalue, apply_writtenSign, hplace]
    push_cast
    ring

/-- A number is written in digits. -/
theorem isDigit_of_mem_toDigits {d : Char} (h : d ∈ Nat.toDigits 10 n) : d.isDigit = true :=
  Nat.isDigit_of_mem_toDigits (by decide) (by decide) h

/-- Zeros are digits. -/
theorem isDigit_of_mem_replicate {d : Char} (h : d ∈ List.replicate n '0') : d.isDigit = true := by
  rw [List.eq_of_mem_replicate h]
  rfl

/-- A coefficient has at most seven digits. -/
theorem length_toDigits_le (x : Decimal) : (Nat.toDigits 10 x.coeff.natAbs).length ≤ 7 :=
  (digitCount_le_iff (by decide)).2 x.natAbs_coeff_lt

/-- Nothing can be left out of the digits of a number without a fraction. -/
theorem isNotation_zerosBehind (hexp : 0 ≤ x.exp) :
    x.IsNotation (x.writtenSign.chars ++
      (Nat.toDigits 10 x.coeff.natAbs ++ List.replicate x.exp.toNat '0')) := by
  rw [← List.append_nil (Nat.toDigits 10 x.coeff.natAbs ++ _)]
  refine isNotation_of_digits _ none ?_ ?_ nofun ?_ ?_ ?_
  · intro d hd
    rw [Option.getD_none, List.append_nil] at hd
    exact (List.mem_append.1 hd).elim isDigit_of_mem_toDigits isDigit_of_mem_replicate
  · by_cases hx : x.coeff = 0
    · rw [eq_zero_of_coeff hx]
      exact .inl rfl
    · obtain ⟨d, ds, hds, hne⟩ := toDigits_head (Int.natAbs_pos.2 hx)
      rw [hds]
      exact .inr ⟨d, _, rfl, hne⟩
  · rw [Option.getD_none, List.append_nil, natOfDigits_toDigits_append]
  · rw [Option.getD_none, List.length_nil]
    omega
  · have hlength := x.length_toDigits_le
    rw [Option.getD_none, List.append_nil, List.length_append, List.length_replicate]
    omega

/-- A number with a fraction is not zero, so that its digits begin and end with others than zero. -/
theorem toDigits_of_exp_neg (hexp : x.exp < 0) :
    (∃ d ds, Nat.toDigits 10 x.coeff.natAbs = d :: ds ∧ d ≠ '0') ∧
      ∃ front d, Nat.toDigits 10 x.coeff.natAbs = front ++ [d] ∧ d ≠ '0' := by
  have hx : x.coeff ≠ 0 := fun hx => by
    rw [eq_zero_of_coeff hx] at hexp
    cases hexp
  exact ⟨toDigits_head (Int.natAbs_pos.2 hx), toDigits_last (x.normal_of_ne_zero hx).1⟩

/-- Without zeros behind them the digits are those of the coefficient. -/
theorem natOfDigits_toDigits (hexp : x.exp < 0) :
    natOfDigits (Nat.toDigits 10 x.coeff.natAbs) = x.coeff.natAbs * tenTo x.exp.toNat := by
  have hzeros := natOfDigits_toDigits_append x.coeff.natAbs x.exp.toNat
  rwa [Int.toNat_of_nonpos hexp.le, List.replicate_zero, List.append_nil,
    ← Int.toNat_of_nonpos hexp.le] at hzeros

/-- Nothing can be left out of digits with the point among them. -/
theorem isNotation_pointAmong (hexp : x.exp < 0) {whole : Nat} (hwhole : 0 < whole)
    (hplaces : ((Nat.toDigits 10 x.coeff.natAbs).length : Int) - whole = -x.exp) :
    x.IsNotation (x.writtenSign.chars ++ ((Nat.toDigits 10 x.coeff.natAbs).take whole ++
      '.' :: (Nat.toDigits 10 x.coeff.natAbs).drop whole)) := by
  obtain ⟨⟨c, cs, hhead, hc⟩, front, d, hlast, hd⟩ := toDigits_of_exp_neg hexp
  refine isNotation_of_digits _ (some _) ?_ ?_ ?_ ?_ ?_ ?_
  · intro d hd
    rw [Option.getD_some, List.take_append_drop] at hd
    exact isDigit_of_mem_toDigits hd
  · obtain ⟨whole, rfl⟩ := Nat.exists_eq_add_one.2 hwhole
    rw [hhead, List.take_succ_cons]
    exact .inr ⟨c, _, rfl, hc⟩
  · rintro ds ⟨rfl⟩
    have hlength : whole ≤ front.length := by
      rw [hlast, List.length_append, List.length_singleton] at hplaces
      omega
    rw [hlast, List.drop_append_of_le_length hlength]
    exact ⟨_, d, rfl, hd⟩
  · rw [Option.getD_some, List.take_append_drop, natOfDigits_toDigits hexp]
  · rw [Option.getD_some, List.length_drop]
    omega
  · rw [Option.getD_some, List.take_append_drop]
    exact x.length_toDigits_le.trans (Nat.le_add_right _ _)

/-- Nothing can be left out of digits with zeros in front of them, as the point is behind the first
zero. -/
theorem isNotation_zerosBetween (hexp : x.exp < 0) {zeros : Nat}
    (hplaces : (zeros : Int) + (Nat.toDigits 10 x.coeff.natAbs).length = -x.exp) :
    x.IsNotation (x.writtenSign.chars ++
      '0' :: '.' :: (List.replicate zeros '0' ++ Nat.toDigits 10 x.coeff.natAbs)) := by
  obtain ⟨-, front, d, hlast, hd⟩ := toDigits_of_exp_neg hexp
  refine isNotation_of_digits ['0'] (some _) ?_ (.inl rfl) ?_ ?_ ?_ ?_
  · intro d hd
    rw [Option.getD_some, List.mem_append, List.mem_append, List.mem_singleton] at hd
    rcases hd with rfl | hd | hd
    · rfl
    · exact isDigit_of_mem_replicate hd
    · exact isDigit_of_mem_toDigits hd
  · rintro ds ⟨rfl⟩
    rw [hlast, ← List.append_assoc]
    exact ⟨_, d, rfl, hd⟩
  · rw [Option.getD_some, natOfDigits_append, natOfDigits_append, natOfDigits_toDigits hexp,
      natOfDigits_eq_zero fun d => List.eq_of_mem_replicate, show natOfDigits ['0'] = 0 from rfl]
    omega
  · rw [Option.getD_some, List.length_append, List.length_replicate]
    omega
  · rw [Option.getD_some, List.length_append, List.length_append, List.length_replicate,
      List.length_singleton]
    omega

/-- A number is printed as the canonical literal of its value. -/
theorem isNotation_toChars (x : Decimal) : x.IsNotation x.toChars := by
  have hdigits : 0 < (Nat.toDigits 10 x.coeff.natAbs).length := Nat.length_toDigits_pos
  unfold toChars
  simp only [← chars_writtenSign, List.append_assoc]
  split
  · next hexp => exact isNotation_zerosBehind hexp
  · next hexp =>
    split
    · exact isNotation_pointAmong (not_le.1 hexp) (by omega) (by omega)
    · exact isNotation_zerosBetween (not_le.1 hexp) (by omega)

end Layouts

/-! ## Reading back -/

section ReadingBack

variable {x y : Decimal} {l : Literal}

/-- The canonical notation of a number is read as that number. Only at the least power of ten it has
more places than a word counts. -/
theorem NotationOf.parse?_eq {cs : List Char} (h : x.NotationOf l) (hexp : x.exp ≠ minExp)
    (htrim : Text.trim cs = l.chars) : parse? cs = some x := by
  obtain ⟨hlower, hupper⟩ := x.exp_mem
  have hplaces := h.places
  have hlength := h.length
  have hpower : l.power = 0 := by
    rw [Literal.power, h.canonical.exponent]
  have hdropped := l.length_dropped_le_sub
  rw [minExp] at hlower hexp
  rw [maxExp] at hupper
  rw [keptDigits] at hdropped
  have hcounted : l.Counted := ⟨by omega, by omega⟩
  have hfits : l.Fits := by
    refine hcounted.fits ?_ ?_
    · rw [minExp]
      omega
    · rw [maxExp]
      omega
  have hnearest : RoundsTo l.value x.value := by
    rw [h.value]
    exact roundsTo_value x
  refine (parse?_eq_some_of_chars htrim).2 ⟨.inl (by rw [hpower]; decide), hfits, ?_⟩
  exact ((Literal.readAs_rounded hcounted hfits).nearest x hnearest).symm

/-- A number is read back from its plain notation. -/
theorem parse?_toChars (h : x.exp ≠ minExp) : parse? x.toChars = some x := by
  obtain ⟨l, hl, hnotation⟩ := isNotation_toChars x
  refine hnotation.parse?_eq h ?_
  rw [← hl]
  exact Text.trim_eq_self fun c hc => (plain_of_isDigit (plain_of_mem_toChars hc)).1

/-- A number is read back from its text. -/
theorem parse?_text (x : Decimal) (h : x.exp ≠ minExp) : parse? x.text.toList = some x := by
  rw [text, String.toList_ofList]
  exact parse?_toChars h

/-- Numbers with the same text are equal. -/
theorem text_injective (h : x.text = y.text) : x = y := by
  obtain ⟨l, hl, hx⟩ := isNotation_toChars x
  obtain ⟨m, hm, hy⟩ := isNotation_toChars y
  have hchars : l.chars = m.chars := by
    rw [← hl, ← hm]
    exact String.ofList_injective h
  refine eq_of_value_eq ?_
  rw [← hx.value, ← hy.value, Literal.value_eq hchars]

end ReadingBack

/-- What printing a number promises. -/
structure SurvivesPrinting (x : Decimal) : Prop where
  /-- The number is read back. -/
  readBack : parse? x.text.toList = some x
  /-- The text is a canonical literal of the number's value. -/
  canonical : ∃ l : Literal, x.text.toList = l.chars ∧ l.IsCanonical ∧ l.value = x.value
  /-- No other number is printed alike, whatever its power of ten. -/
  alone (y : Decimal) : y.text = x.text → y = x

/-- Every number above the least power of ten is read back from its canonical notation, which is that
of no other number. -/
theorem survivesPrinting {x : Decimal} (h : minExp < x.exp) : x.SurvivesPrinting where
  readBack := x.parse?_text h.ne'
  canonical := by
    obtain ⟨l, hl, hnotation⟩ := isNotation_toChars x
    rw [text, String.toList_ofList]
    exact ⟨l, hl, hnotation.canonical, hnotation.value⟩
  alone _ := text_injective

/-- The digits of a number below one are printed behind zeros. -/
theorem survivesPrinting_below_one :
    minExp < (⟨-25, -7, by decide⟩ : Decimal).exp ∧
      (⟨-25, -7, by decide⟩ : Decimal).SurvivesPrinting ∧
      (⟨-25, -7, by decide⟩ : Decimal).text = "-0.0000025" :=
  ⟨by decide, survivesPrinting (by decide), rfl⟩

end Narrative.Decimal
