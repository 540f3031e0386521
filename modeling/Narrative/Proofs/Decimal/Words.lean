import Mathlib.Tactic.Linarith
import Narrative.Proofs.Decimal.Plain

/-!
# Arithmetic in machine words

The operations are written a second time, with every value they compute put into the machine word it
is kept in: 128 bits for what comes before the rounding and 64 bits for the rounded coefficient. No
value leaves its word, so that both forms have the same results.
-/

namespace Narrative.Decimal

/-! ## Words -/

/-- The integer in a signed word of 128 bits. -/
def signed? (n : Int) : Option Int :=
  if minInt128 ≤ n ∧ n ≤ maxInt128 then some n else none

/-- The number in an unsigned word of 128 bits. -/
def unsigned? (n : Nat) : Option Nat :=
  if n < 340282366920938463463374607431768211456 then some n else none

/-- The number in a signed word of 64 bits. -/
def short? (n : Nat) : Option Int :=
  if (n : Int) ≤ maxInt64 then some n else none

/-- A number of 38 digits fits a signed word. -/
theorem signed?_eq {n : Int} (h : n.natAbs < tenTo 38) : signed? n = some n := by
  refine if_pos ?_
  have hpow : tenTo 38 = 100000000000000000000000000000000000000 := rfl
  simp only [minInt128, maxInt128]
  omega

/-- A number of 38 digits fits an unsigned word. -/
theorem unsigned?_eq {n : Nat} (h : n < tenTo 38) : unsigned? n = some n := by
  refine if_pos ?_
  have hpow : tenTo 38 = 100000000000000000000000000000000000000 := rfl
  omega

/-- A number of 18 digits fits a short word. -/
theorem short?_eq {n : Nat} (h : n < tenTo 18) : short? n = some (n : Int) := by
  refine if_pos ?_
  have hpow : tenTo 18 = 1000000000000000000 := rfl
  simp only [maxInt64]
  omega

/-! ## The operations in words -/

/-- The coefficient and the power of ten of a number. -/
def parts (x : Decimal) : Int × Int :=
  (x.coeff, x.exp)

/-- The quotient of digits by a power of ten, rounded half to even. -/
def roundHalfEvenWords? (n drop : Nat) : Option Nat :=
  if drop = 0 then some n
  else do
    let unit ← unsigned? (tenTo drop)
    let half := unit / 2
    if half < n % unit ∨ (n % unit = half ∧ n / unit % 2 = 1) then unsigned? (n / unit + 1)
    else some (n / unit)

/-- The coefficient and the power of ten of the number nearest to `coeff * 10 ^ exp`. -/
def roundWords? (coeff exp : Int) : Option (Int × Int) :=
  if coeff = 0 then some (0, 0)
  else do
    let n ← unsigned? coeff.natAbs
    let drop := digitCount n - precision
    let kept ← roundHalfEvenWords? n drop
    let digits := stripZeros precision kept (exp + drop)
    let c ← short? digits.1
    some (if coeff < 0 then -c else c, clampExp digits.2)

/-- The sum. -/
def addWords? (x y : Decimal) : Option (Int × Int) :=
  if x.isZero then some y.parts
  else if y.isZero then some x.parts
  else
    let (hi, lo) := if y.exp ≤ x.exp then (x, y) else (y, x)
    let shift := (hi.exp - lo.exp).toNat
    if 20 < shift then some hi.parts
    else do
      let scale ← signed? (tenTo shift)
      let aligned ← signed? (hi.coeff * scale)
      let sum ← signed? (aligned + lo.coeff)
      roundWords? sum lo.exp

/-- The product. -/
def mulWords? (x y : Decimal) : Option (Int × Int) := do
  let product ← signed? (x.coeff * y.coeff)
  roundWords? product (clampExp (x.exp + y.exp))

/-- The digits of the quotient of two counts with the power of ten `e`. -/
def quotientDigitsWords? (num den : Nat) (e : Int) : Option (Nat × Int) :=
  if num % den = 0 then some (num / den, e)
  else do
    let shifted ← unsigned? (num / den * 10)
    let last ← unsigned? (shifted + 1)
    some (last, e - 1)

/-- The quotient. -/
def divWords? (x y : Decimal) : Option (Except Fault (Int × Int)) :=
  if y.isZero then some (.error .divisionByZero)
  else if x.isZero then some (.ok (0, 0))
  else do
    let scale ← unsigned? (tenTo quotientScale)
    let num ← unsigned? (x.coeff.natAbs * scale)
    let digits ← quotientDigitsWords? num y.coeff.natAbs (x.exp - y.exp - quotientScale)
    match exp? digits.2 with
    | none => some (.error (.overflow "/"))
    | some e => do
      let magnitude ← signed? digits.1
      let negative : Bool := (x.coeff < 0) != (y.coeff < 0)
      let coeff ← signed? (if negative then -magnitude else magnitude)
      let rounded ← roundWords? coeff e
      some (.ok rounded)

/-! ## No value leaves its word -/

/-- The unit is even, so its half is exact. -/
theorem roundsUpWords_iff (n k : Nat) :
    (tenTo (k + 1) / 2 < n % tenTo (k + 1) ∨
      (n % tenTo (k + 1) = tenTo (k + 1) / 2 ∧ n / tenTo (k + 1) % 2 = 1)) ↔
    (tenTo (k + 1) < 2 * (n % tenTo (k + 1)) ∨
      (2 * (n % tenTo (k + 1)) = tenTo (k + 1) ∧ n / tenTo (k + 1) % 2 = 1)) := by
  have heven : tenTo (k + 1) = 2 * (5 * tenTo k) := by
    rw [tenTo_succ]
    omega
  omega

/-- A quotient that stays in its word is the one rounded half to even. -/
theorem eq_of_roundHalfEvenWords? {n drop kept : Nat} (h : roundHalfEvenWords? n drop = some kept) :
    kept = roundHalfEven n drop := by
  cases drop with
  | zero =>
    have hexact := roundHalfEven_mul_tenTo n 0
    rw [tenTo_zero, Nat.mul_one] at hexact
    rw [roundHalfEvenWords?, if_pos rfl, Option.some.injEq] at h
    rw [hexact, h]
  | succ k =>
    rw [roundHalfEvenWords?, if_neg (Nat.succ_ne_zero k)] at h
    obtain ⟨unit, hunit, h⟩ := Option.bind_eq_some_iff.1 h
    obtain ⟨-, heq⟩ := Option.ite_none_right_eq_some.1 hunit
    cases heq
    dsimp only at h
    rw [roundHalfEven]
    split at h
    · next hup =>
      obtain ⟨-, heq⟩ := Option.ite_none_right_eq_some.1 h
      cases heq
      exact (if_pos ((roundsUpWords_iff n k).1 hup)).symm
    · next hdown =>
      cases h
      exact (if_neg (mt (roundsUpWords_iff n k).2 hdown)).symm

/-- Rounding in words gives the same. -/
theorem roundHalfEvenWords?_eq {n drop : Nat} (hn : n < tenTo 37) (hdrop : drop ≤ 37) :
    roundHalfEvenWords? n drop = some (roundHalfEven n drop) := by
  cases drop with
  | zero =>
    have hexact := roundHalfEven_mul_tenTo n 0
    rw [tenTo_zero, Nat.mul_one] at hexact
    rw [roundHalfEvenWords?, if_pos rfl, hexact]
  | succ k =>
    have hunit : tenTo (k + 1) < tenTo 38 := Nat.pow_lt_pow_right (by decide) (by omega)
    have hnext : n / tenTo (k + 1) + 1 < tenTo 38 := by
      have hle : n / tenTo (k + 1) ≤ n := Nat.div_le_self _ _
      have hgap : tenTo 37 + 1 ≤ tenTo 38 := by decide
      omega
    simp only [roundHalfEvenWords?, if_neg (Nat.succ_ne_zero k), roundHalfEven, unsigned?_eq hunit,
      unsigned?_eq hnext, Option.bind_eq_bind, Option.bind_some, roundsUpWords_iff n k]
    split <;> rfl

/-- Rounding a coefficient in words gives the same. -/
theorem roundWords?_eq {coeff : Int} (exp : Int) (h : coeff.natAbs < tenTo 37) :
    roundWords? coeff exp = some (round coeff exp).parts := by
  by_cases hzero : coeff = 0
  · rw [roundWords?, if_pos hzero, hzero]
    rfl
  have hpos : 0 < coeff.natAbs := Int.natAbs_pos.2 hzero
  have hword : coeff.natAbs < tenTo 38 := h.trans (by decide)
  have hcount : digitCount coeff.natAbs ≤ 37 := (digitCount_le_iff (by decide)).2 h
  have hkept := roundHalfEvenWords?_eq h ((Nat.sub_le _ precision).trans hcount)
  have hshort := short?_eq ((roundDigits_spec exp hpos).2.trans (by decide))
  simp only [roundDigits] at hshort
  simp only [roundWords?, if_neg hzero, unsigned?_eq hword, Option.bind_eq_bind, Option.bind_some,
    hkept, hshort, parts, round, dif_neg hzero, roundDigits]

/-- Whatever is rounded in words arrives at the rounded number. -/
theorem eq_of_roundWords? {coeff exp : Int} {p : Int × Int} (h : roundWords? coeff exp = some p) :
    p = (round coeff exp).parts := by
  by_cases hzero : coeff = 0
  · rw [roundWords?, if_pos hzero] at h
    cases h
    rw [hzero]
    rfl
  · rw [roundWords?, if_neg hzero] at h
    obtain ⟨n, hn, h⟩ := Option.bind_eq_some_iff.1 h
    obtain ⟨-, heq⟩ := Option.ite_none_right_eq_some.1 hn
    cases heq
    obtain ⟨kept, hkept, h⟩ := Option.bind_eq_some_iff.1 h
    obtain ⟨c, hc, h⟩ := Option.bind_eq_some_iff.1 h
    obtain ⟨-, heq⟩ := Option.ite_none_right_eq_some.1 hc
    cases heq
    cases h
    rw [eq_of_roundHalfEvenWords? hkept]
    simp only [parts, round, dif_neg hzero, roundDigits]

/-- The sum has its value in words. -/
theorem addWords?_eq (x y : Decimal) : addWords? x y = some (x.add y).parts := by
  unfold addWords? add
  split
  · rfl
  split
  · rfl
  generalize (if y.exp ≤ x.exp then (x, y) else (y, x)) = operands
  obtain ⟨hi, lo⟩ := operands
  have hhi := hi.natAbs_coeff_lt
  have hlo := lo.natAbs_coeff_lt
  dsimp only
  split
  · rfl
  next hnear =>
  have hscale : tenTo (hi.exp - lo.exp).toNat ≤ tenTo 20 := tenTo_le_tenTo (by omega)
  have haligned : (hi.coeff * tenTo (hi.exp - lo.exp).toNat).natAbs < tenTo 27 := by
    rw [Int.natAbs_mul, Int.natAbs_natCast, tenTo_add 7 20]
    exact Nat.mul_lt_mul_of_lt_of_le hhi hscale (tenTo_pos 20)
  have hsum : (hi.coeff * tenTo (hi.exp - lo.exp).toNat + lo.coeff).natAbs < tenTo 37 := by
    have hroom : tenTo 27 + tenTo precision ≤ tenTo 37 := by decide
    omega
  rw [signed?_eq (hscale.trans_lt (by decide)), Option.bind_eq_bind, Option.bind_some,
    signed?_eq (haligned.trans (by decide)), Option.bind_some,
    signed?_eq (hsum.trans (by decide)), Option.bind_some]
  exact roundWords?_eq lo.exp hsum

/-- A product of two coefficients has at most fourteen digits. -/
theorem natAbs_mul_lt (x y : Decimal) : (x.coeff * y.coeff).natAbs < tenTo 14 := by
  rw [Int.natAbs_mul, tenTo_add 7 7]
  exact Nat.mul_lt_mul'' x.natAbs_coeff_lt y.natAbs_coeff_lt

/-- The product has its value in words. -/
theorem mulWords?_eq (x y : Decimal) : mulWords? x y = some (x.mul y).parts := by
  have hproduct := natAbs_mul_lt x y
  rw [mulWords?, signed?_eq (hproduct.trans (by decide)), Option.bind_eq_bind, Option.bind_some]
  exact roundWords?_eq _ (hproduct.trans (by decide))

/-- Dividing for digits in words gives the same. -/
theorem quotientDigitsWords?_eq {num : Nat} (den : Nat) (e : Int) (h : num < tenTo 27) :
    quotientDigitsWords? num den e = some (quotientDigits num den e) := by
  have hle : num / den ≤ num := Nat.div_le_self num den
  have hshifted : num / den * 10 < tenTo 38 := by
    have hroom : tenTo 27 * 10 ≤ tenTo 38 := by decide
    omega
  have hlast : num / den * 10 + 1 < tenTo 38 := by
    have hroom : tenTo 27 * 10 + 1 ≤ tenTo 38 := by decide
    omega
  unfold quotientDigitsWords? quotientDigits
  split
  · rfl
  · rw [unsigned?_eq hshifted, Option.bind_eq_bind, Option.bind_some, unsigned?_eq hlast,
      Option.bind_some]

/-- A quotient has no more than 37 digits. -/
theorem quotientDigits_lt {num : Nat} (den : Nat) (e : Int) (h : num < tenTo 27) :
    (quotientDigits num den e).1 < tenTo 37 := by
  have hle : num / den ≤ num := Nat.div_le_self num den
  have hroom : tenTo 27 * 10 + 1 ≤ tenTo 37 := by decide
  unfold quotientDigits
  split
  · dsimp only
    omega
  · dsimp only
    omega

/-- The quotient has its value in words, and fails as it does in words. -/
theorem divWords?_eq (x y : Decimal) : divWords? x y = some ((x.div y).map parts) := by
  have hnum : x.coeff.natAbs * tenTo quotientScale < tenTo 27 := by
    rw [tenTo_add 7 20]
    exact Nat.mul_lt_mul_of_lt_of_le x.natAbs_coeff_lt le_rfl (tenTo_pos 20)
  unfold divWords? div
  split
  · rfl
  split
  · rfl
  have hquotient :=
    quotientDigitsWords?_eq y.coeff.natAbs (x.exp - y.exp - quotientScale) hnum
  have hlt := quotientDigits_lt y.coeff.natAbs (x.exp - y.exp - quotientScale) hnum
  rw [unsigned?_eq (show tenTo quotientScale < tenTo 38 by decide), Option.bind_eq_bind,
    Option.bind_some, unsigned?_eq (hnum.trans (by decide)), Option.bind_eq_bind, Option.bind_some,
    hquotient, Option.bind_eq_bind, Option.bind_some]
  generalize quotientDigits _ _ _ = digits at hlt ⊢
  conv_rhs => dsimp only
  cases exp? digits.2 with
  | none => rfl
  | some e =>
    generalize (decide (x.coeff < 0) != decide (y.coeff < 0)) = negative
    have hmagnitude : (digits.1 : Int).natAbs < tenTo 37 := by rwa [Int.natAbs_natCast]
    have hcoeff : (if negative then -(digits.1 : Int) else digits.1).natAbs < tenTo 37 := by
      split
      · rwa [Int.natAbs_neg]
      · exact hmagnitude
    simp only [signed?_eq (hmagnitude.trans (by decide)), signed?_eq (hcoeff.trans (by decide)),
      roundWords?_eq e hcoeff, Option.bind_eq_bind, Option.bind_some]
    rfl

end Narrative.Decimal
