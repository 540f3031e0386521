import Narrative.Expr.Builtin
import Narrative.Proofs.Decimal.Remainder

/-!
# Dropping fractions

A number without its fraction is read from a signed 64-bit word, which holds the nearest integer
toward zero brought into its range. Every integer of at most seven digits is found there, and so is
every whole number up to the one that the greatest word is rounded to. Beyond that number, which has
nineteen digits, whole numbers are changed: they are all brought down to it.
-/

namespace Narrative.Decimal

/-! ## The nearest integer toward zero -/

section Rationals

variable {q p : ℚ}

/-- An integer has no fraction to drop. -/
@[simp] theorem truncate_intCast (n : Int) : truncate n = n := by
  simp [truncate]

/-- Truncation does not go beyond the rational. -/
theorem abs_truncate_le (q : ℚ) : |(truncate q : ℚ)| ≤ |q| := by
  unfold truncate
  split
  · next hq =>
    have hfloor : (0 : ℚ) ≤ ⌊q⌋ := by exact_mod_cast Int.floor_nonneg.2 hq
    rw [abs_of_nonneg hq, abs_of_nonneg hfloor]
    exact Int.floor_le q
  · next hq =>
    have hneg := not_le.1 hq
    have hceil : (⌈q⌉ : ℚ) ≤ 0 := by exact_mod_cast Int.ceil_le.2 (by exact_mod_cast hneg.le)
    rw [abs_of_neg hneg, abs_of_nonpos hceil]
    exact neg_le_neg (Int.le_ceil q)

/-- Truncation leaves out less than one. -/
theorem abs_lt_abs_truncate_add_one (q : ℚ) : |q| < |(truncate q : ℚ)| + 1 := by
  unfold truncate
  split
  · next hq =>
    rw [abs_of_nonneg hq]
    linarith [Int.lt_floor_add_one q, le_abs_self (⌊q⌋ : ℚ)]
  · next hq =>
    rw [abs_of_neg (not_le.1 hq)]
    linarith [Int.ceil_lt_add_one q, neg_le_abs (⌈q⌉ : ℚ)]

/-- A number that is not negative is not negative without its fraction. -/
theorem truncate_nonneg (hq : 0 ≤ q) : 0 ≤ truncate q := by
  rw [truncate, if_pos hq]
  exact Int.floor_nonneg.2 hq

/-- A negative number is not above zero without its fraction. -/
theorem truncate_nonpos (hq : q < 0) : truncate q ≤ 0 := by
  rw [truncate, if_neg (not_le.2 hq)]
  exact Int.ceil_le.2 (by exact_mod_cast hq.le)

/-- Truncation keeps the order. -/
theorem truncate_mono (h : q ≤ p) : truncate q ≤ truncate p := by
  rcases lt_or_ge q 0 with hq | hq
  · rcases lt_or_ge p 0 with hp | hp
    · rw [truncate, truncate, if_neg (not_le.2 hq), if_neg (not_le.2 hp)]
      exact Int.ceil_le_ceil h
    · exact (truncate_nonpos hq).trans (truncate_nonneg hp)
  · rw [truncate, truncate, if_pos hq, if_pos (hq.trans h)]
    exact Int.floor_le_floor h

end Rationals

/-! ## Words of 64 bits -/

section Words

variable {x y d : Decimal} {n m : Int}

/-- An integer brought into the signed 64-bit range. -/
def saturate (n : Int) : Int :=
  max minInt64 (min maxInt64 n)

/-- An integer that fits a word stays. -/
theorem saturate_of_mem (h : minInt64 ≤ n ∧ n ≤ maxInt64) : saturate n = n := by
  unfold saturate
  omega

/-- One below becomes the least word. -/
theorem saturate_of_lt (h : n < minInt64) : saturate n = minInt64 := by
  unfold saturate
  simp only [minInt64, maxInt64] at *
  omega

/-- One above becomes the greatest word. -/
theorem saturate_of_gt (h : maxInt64 < n) : saturate n = maxInt64 := by
  unfold saturate
  simp only [minInt64, maxInt64] at *
  omega

/-- A number has no fraction when its power of ten is not negative. -/
theorem value_eq_intCast (h : 0 ≤ x.exp) : x.value = x.coeffOver 0 := by
  rw [value_eq_coeffOver h, zpow_zero, mul_one]

/-- A number with places behind the point is its coefficient over a power of ten. -/
theorem value_eq_div (h : x.exp < 0) : x.value = x.coeff / (tenTo (-x.exp).toNat : Int) := by
  have hplace := place_add x.exp (-x.exp).toNat
  rw [Int.toNat_of_nonneg (by omega), add_neg_cancel, zpow_zero] at hplace
  have hne : ((tenTo (-x.exp).toNat : Nat) : ℚ) ≠ 0 := by
    intro hzero
    rw [hzero, mul_zero] at hplace
    exact one_ne_zero hplace
  rw [value, eq_div_iff (by exact_mod_cast hne), mul_assoc]
  push_cast
  rw [← hplace, mul_one]

/-- Without places behind the point nothing is dropped. -/
theorem truncate_value_of_nonneg (h : 0 ≤ x.exp) : truncate x.value = x.coeffOver 0 := by
  rw [value_eq_intCast h, truncate_intCast]

/-- With places behind the point the coefficient is divided toward zero. -/
theorem truncate_value_of_neg (h : x.exp < 0) :
    truncate x.value = x.coeff.tdiv (tenTo (-x.exp).toNat) := by
  have hne : ((tenTo (-x.exp).toNat : Nat) : Int) ≠ 0 := by
    have hpos := tenTo_pos (-x.exp).toNat
    omega
  rw [value_eq_div h, truncate_div hne]

/-- What is left of a number with a fraction has at most seven digits. -/
theorem natAbs_truncate_value_lt (h : x.exp < 0) :
    (truncate x.value).natAbs < tenTo precision := by
  rw [truncate_value_of_neg h]
  exact (Int.natAbs_tdiv_le_natAbs _ _).trans_lt x.natAbs_coeff_lt

/-- Above a power of ten of 18 a coefficient other than zero leaves the range. -/
theorem saturate_coeffOver (h : 18 < x.exp) :
    saturate (x.coeffOver 0) = if x.coeff < 0 then minInt64 else maxInt64 := by
  have hcoeff : x.coeff ≠ 0 := by
    intro hzero
    rw [eq_zero_of_coeff hzero] at h
    exact absurd h (by decide)
  have hscale : tenTo 19 ≤ tenTo x.exp.toNat := tenTo_le_tenTo (by omega)
  have hword : tenTo 19 = 10000000000000000000 := by decide
  rw [coeffOver, sub_zero]
  split
  · next hneg =>
    apply saturate_of_lt
    have hwide : x.coeff * tenTo x.exp.toNat ≤ -1 * tenTo x.exp.toNat :=
      Int.mul_le_mul_of_nonneg_right (by omega) (by omega)
    rw [minInt64]
    omega
  · next hpos =>
    apply saturate_of_gt
    have hwide : 1 * (tenTo x.exp.toNat : Int) ≤ x.coeff * tenTo x.exp.toNat :=
      Int.mul_le_mul_of_nonneg_right (by omega) (by omega)
    rw [maxInt64]
    omega

/-- The word of a number is the nearest integer toward zero brought into the range. -/
theorem toInt64_eq (x : Decimal) : x.toInt64 = saturate (truncate x.value) := by
  rw [toInt64]
  split
  · next hnonneg =>
    rw [truncate_value_of_nonneg hnonneg]
    split
    · rw [coeffOver, sub_zero, saturate]
    · next hlarge =>
      rw [saturate_coeffOver (by omega)]
  · next hneg =>
    have hdigits := natAbs_truncate_value_lt (x := x) (by omega)
    have hrange : minInt64 ≤ truncate x.value ∧ truncate x.value ≤ maxInt64 := by
      have hseven : tenTo precision = 10000000 := rfl
      simp only [minInt64, maxInt64]
      omega
    rw [saturate_of_mem hrange, truncate_value_of_neg (by omega)]
    split
    · next hsmall =>
      have hscale : tenTo 19 ≤ tenTo (-x.exp).toNat := tenTo_le_tenTo (by omega)
      have hcoeff : x.coeff.natAbs < tenTo 19 := x.natAbs_coeff_lt.trans (by decide)
      have hquotient : (x.coeff.tdiv (tenTo (-x.exp).toNat)).natAbs = 0 :=
        (Int.natAbs_tdiv _ _).trans (Nat.div_eq_of_lt (by omega))
      exact (Int.natAbs_eq_zero.1 hquotient).symm
    · rfl

/-- The integer of a number fits a word. -/
theorem toInt64_mem (x : Decimal) : minInt64 ≤ x.toInt64 ∧ x.toInt64 ≤ maxInt64 := by
  rw [toInt64_eq, saturate]
  simp only [minInt64, maxInt64]
  omega

/-! ## Integers as numbers -/

/-- The number of an integer is that number when there is one. -/
theorem ofInt_eq (h : d.value = n) : ofInt n = d := by
  apply round_eq_of_roundsTo
  rw [zpow_zero, mul_one, ← h]
  exact roundsTo_value d

/-- The number of a word is the rounded word. -/
theorem roundsTo_ofInt (h : minInt64 ≤ n ∧ n ≤ maxInt64) : RoundsTo n (ofInt n).value := by
  obtain ⟨v, hround, hstands⟩ := exists_roundsTo_round n (by decide : minExp ≤ 0)
  rw [zpow_zero, mul_one] at hround
  have hword : |(n : ℚ)| ≤ 10 ^ (19 : Int) := by
    have hint : |n| ≤ 10 ^ 19 := by
      apply abs_le.2
      simp only [minInt64, maxInt64] at h
      constructor <;> omega
    exact_mod_cast hint
  have hbound := hround.abs_le_of_abs_le (roundsTo_place 19) hword
  have hvalue := hstands.value_eq (hbound.trans_lt (place_lt_place.2 (by decide)))
  rw [ofInt, hvalue]
  exact hround

/-- An integer of at most seven digits is a number. -/
theorem value_ofInt (h : n.natAbs < tenTo precision) : (ofInt n).value = n := by
  have hself := roundsTo_self (e := 0) h
  rw [zpow_zero, mul_one] at hself
  have hrange : minInt64 ≤ n ∧ n ≤ maxInt64 := by
    have hseven : tenTo precision = 10000000 := rfl
    simp only [minInt64, maxInt64]
    omega
  exact (roundsTo_ofInt hrange).unique hself

/-- The nearest integer toward zero is a number. -/
theorem exists_value_eq_truncate (x : Decimal) : ∃ d : Decimal, d.value = truncate x.value := by
  rcases lt_or_ge x.exp 0 with hneg | hnonneg
  · exact ⟨_, value_ofInt (natAbs_truncate_value_lt hneg)⟩
  · refine ⟨x, ?_⟩
    rw [truncate_value_of_nonneg hnonneg]
    exact value_eq_intCast hnonneg

/-- The whole number that the greatest word is rounded to. -/
def greatestWhole : Int := 9223372000000000000

/-- An integer brought between the whole numbers that the least and the greatest word are rounded
to. -/
def clampWhole (n : Int) : Int :=
  max (-greatestWhole) (min greatestWhole n)

/-- Bringing integers between the bounds keeps their order. -/
theorem clampWhole_mono (h : n ≤ m) : clampWhole n ≤ clampWhole m := by
  unfold clampWhole
  omega

/-- An integer stays just when it is between the bounds. -/
theorem clampWhole_eq_iff : clampWhole n = n ↔ |n| ≤ greatestWhole := by
  rw [clampWhole, abs_le, greatestWhole]
  omega

/-- What is brought between the bounds is between them. -/
theorem abs_clampWhole_le (n : Int) : |clampWhole n| ≤ greatestWhole := by
  apply abs_le.2
  unfold clampWhole
  rw [greatestWhole]
  omega

/-- What is brought between the bounds comes nearer to zero, if it changes. -/
theorem abs_clampWhole_le_abs (n : Int) : |clampWhole n| ≤ |n| := by
  have habove := le_abs_self n
  have hbelow := neg_abs_le n
  have hpos := abs_nonneg n
  apply abs_le.2
  unfold clampWhole
  rw [greatestWhole]
  omega

/-- The greatest word is rounded to the greatest whole number. -/
theorem value_ofInt_maxInt64 : (ofInt maxInt64).value = greatestWhole := by
  rw [show ofInt maxInt64 = ⟨9223372, 12, by decide⟩ by decide, value, greatestWhole]
  norm_num

/-- The least word is rounded to the least whole number. -/
theorem value_ofInt_minInt64 : (ofInt minInt64).value = -greatestWhole := by
  rw [show ofInt minInt64 = ⟨-9223372, 12, by decide⟩ by decide, value, greatestWhole]
  norm_num

/-- A whole number in the range of a word is no greater than the one that the greatest word is
rounded to. -/
theorem abs_le_greatestWhole (h : minInt64 ≤ n ∧ n ≤ maxInt64) (hd : d.value = n) :
    |n| ≤ greatestWhole := by
  have hn : RoundsTo n n := by
    rw [← hd]
    exact roundsTo_value d
  have hleast := (roundsTo_ofInt (n := minInt64) (by decide)).mono hn (by exact_mod_cast h.1)
  have hgreatest := hn.mono (roundsTo_ofInt (n := maxInt64) (by decide)) (by exact_mod_cast h.2)
  rw [value_ofInt_minInt64] at hleast
  rw [value_ofInt_maxInt64] at hgreatest
  apply abs_le.2
  constructor
  · exact_mod_cast hleast
  · exact_mod_cast hgreatest

/-- The number without its fraction is the nearest integer toward zero, brought between the whole
numbers that the least and the greatest word are rounded to. -/
theorem value_trunc (x : Decimal) : x.trunc.value = clampWhole (truncate x.value) := by
  obtain ⟨d, hd⟩ := x.exists_value_eq_truncate
  rw [trunc, toInt64_eq]
  generalize truncate x.value = n at hd ⊢
  rcases lt_or_ge n minInt64 with hlow | hlow
  · have hclamp : clampWhole n = -greatestWhole := by
      simp only [clampWhole, greatestWhole, minInt64] at *
      omega
    rw [saturate_of_lt hlow, hclamp, value_ofInt_minInt64, Int.cast_neg]
  rcases lt_or_ge maxInt64 n with hhigh | hhigh
  · have hclamp : clampWhole n = greatestWhole := by
      simp only [clampWhole, greatestWhole, maxInt64] at *
      omega
    rw [saturate_of_gt hhigh, hclamp, value_ofInt_maxInt64]
  · have hkept := clampWhole_eq_iff.2 (abs_le_greatestWhole ⟨hlow, hhigh⟩ hd)
    rw [saturate_of_mem ⟨hlow, hhigh⟩, hkept, ofInt_eq hd, hd]

/-! ## Whole numbers -/

/-- A number is whole when its power of ten is not negative. -/
theorem isInteger_iff : x.isInteger = true ↔ ∃ n : Int, x.value = n := by
  rw [isInteger, decide_eq_true_iff]
  constructor
  · intro h
    exact ⟨_, value_eq_intCast h⟩
  · rintro ⟨n, hn⟩
    by_contra hneg
    obtain ⟨k, hk⟩ : ∃ k, (-x.exp).toNat = k + 1 := ⟨(-x.exp).toNat - 1, by omega⟩
    have hne : x.coeff ≠ 0 := by
      intro hzero
      rw [eq_zero_of_coeff hzero] at hneg
      exact hneg (by decide)
    rw [value_eq_div (by omega), div_eq_iff (by exact_mod_cast (tenTo_pos _).ne')] at hn
    have hcoeff : x.coeff = n * tenTo (-x.exp).toNat := by exact_mod_cast hn
    rw [hk, tenTo_succ, Nat.cast_mul, ← mul_assoc] at hcoeff
    have hlast := emod_ten_ne_zero hne
    omega

/-- A number with eight digits before the point has no fraction. -/
theorem isInteger_of_le (h : (10 : ℚ) ^ 7 ≤ |x.value|) : x.isInteger = true := by
  rw [isInteger, decide_eq_true_iff]
  by_contra hneg
  have hplace : (10 : ℚ) ^ x.exp ≤ 10 ^ (0 : Int) :=
    zpow_le_zpow_right₀ (by norm_num) (by omega)
  rw [zpow_zero] at hplace
  linarith [x.abs_value_lt]

/-- A number beyond the greatest whole number that words are rounded to has no fraction. -/
theorem isInteger_of_gt (h : (greatestWhole : ℚ) < |x.value|) : x.isInteger = true := by
  apply isInteger_of_le
  rw [greatestWhole] at h
  norm_num at h ⊢
  linarith

/-- A whole number has no fraction to drop. -/
theorem truncate_value_of_isInteger (h : x.isInteger = true) :
    (truncate x.value : ℚ) = x.value := by
  obtain ⟨n, hn⟩ := isInteger_iff.1 h
  rw [hn, truncate_intCast]

/-- The fraction alone is dropped up to the greatest whole number that words are rounded to. -/
theorem value_trunc_eq_iff : x.trunc.value = truncate x.value ↔ |x.value| ≤ greatestWhole := by
  rw [value_trunc, Int.cast_inj, clampWhole_eq_iff]
  constructor
  · intro h
    by_contra hgt
    have hvalue := truncate_value_of_isInteger (isInteger_of_gt (not_le.1 hgt))
    rw [← hvalue] at hgt
    exact hgt (by exact_mod_cast h)
  · intro h
    exact_mod_cast (abs_truncate_le x.value).trans h

/-- The number without its fraction is between the bounds. -/
theorem abs_value_trunc_le_greatestWhole (x : Decimal) : |x.trunc.value| ≤ greatestWhole := by
  rw [value_trunc]
  exact_mod_cast abs_clampWhole_le _

/-- Dropping the fraction does not go beyond the number. -/
theorem abs_value_trunc_le (x : Decimal) : |x.trunc.value| ≤ |x.value| := by
  rw [value_trunc]
  refine le_trans ?_ (abs_truncate_le x.value)
  exact_mod_cast abs_clampWhole_le_abs _

/-- Less than one is dropped up to the greatest whole number that words are rounded to. -/
theorem abs_value_lt_iff : |x.value| < |x.trunc.value| + 1 ↔ |x.value| ≤ greatestWhole := by
  constructor
  · intro h
    by_contra hgt
    obtain ⟨n, hn⟩ := isInteger_iff.1 (isInteger_of_gt (not_le.1 hgt))
    have hbound := h.trans_le (add_le_add_left x.abs_value_trunc_le_greatestWhole 1)
    rw [hn] at hgt hbound
    have hgt' : ¬|n| ≤ greatestWhole := by exact_mod_cast hgt
    have hbound' : |n| < greatestWhole + 1 := by exact_mod_cast hbound
    exact hgt' (Int.lt_add_one_iff.1 hbound')
  · intro h
    rw [value_trunc_eq_iff.2 h]
    exact abs_lt_abs_truncate_add_one x.value

/-- The number without its fraction is whole. -/
theorem isInteger_trunc (x : Decimal) : x.trunc.isInteger = true :=
  isInteger_iff.2 ⟨_, x.value_trunc⟩

/-- Up to the greatest whole number that words are rounded to the word is not saturated. -/
theorem toInt64_eq_truncate (hx : |x.value| ≤ greatestWhole) : x.toInt64 = truncate x.value := by
  have hwhole : |truncate x.value| ≤ greatestWhole := by
    exact_mod_cast (abs_truncate_le x.value).trans hx
  have hrange := abs_le.1 hwhole
  rw [toInt64_eq]
  apply saturate_of_mem
  rw [greatestWhole] at hrange
  simp only [minInt64, maxInt64]
  omega

/-- A whole number between the bounds is its own integer. -/
theorem toInt64_of_isInteger (hx : |x.value| ≤ greatestWhole) (hwhole : x.isInteger = true) :
    (x.toInt64 : ℚ) = x.value := by
  rw [toInt64_eq_truncate hx, truncate_value_of_isInteger hwhole]

/-- The word of a number is positive from one on. -/
theorem toInt64_pos_iff : 0 < x.toInt64 ↔ 1 ≤ x.value := by
  have hsaturate (n : Int) : 0 < saturate n ↔ 0 < n := by
    simp only [saturate, minInt64, maxInt64]
    omega
  rw [toInt64_eq, hsaturate]
  rcases lt_or_ge x.value 0 with hneg | hnonneg
  · have htruncate := truncate_nonpos hneg
    constructor
    · intro h
      omega
    · intro h
      linarith
  · rw [truncate, if_pos hnonneg]
    exact Int.floor_pos

/-- A rounded word has no fraction. -/
theorem isInteger_ofInt (h : minInt64 ≤ n ∧ n ≤ maxInt64) : (ofInt n).isInteger = true := by
  by_cases hn : n = 0
  · rw [hn]
    decide
  · have hround := roundsTo_ofInt h
    rw [← mul_one (n : ℚ), ← zpow_zero 10] at hround
    rw [isInteger, decide_eq_true_iff]
    exact (exp_of_roundsTo hn hround).1

end Words

/-- What dropping the fraction of a number promises. -/
structure DropsFraction (x : Decimal) : Prop where
  /-- The nearest integer toward zero is brought between two whole numbers. -/
  value : x.trunc.value = clampWhole (truncate x.value)
  /-- They are those that the least and the greatest word are rounded to. -/
  greatest : (ofInt maxInt64).value = greatestWhole ∧ (ofInt minInt64).value = -greatestWhole
  /-- The result is the nearest integer toward zero up to them, and only there. -/
  nearest : x.trunc.value = truncate x.value ↔ |x.value| ≤ greatestWhole
  /-- The result has no fraction. -/
  isInteger : x.trunc.isInteger = true
  /-- A whole number is kept up to them, and only there. -/
  fixed : x.isInteger = true → (x.trunc = x ↔ |x.value| ≤ greatestWhole)
  /-- A number is whole when its power of ten is not negative. -/
  whole : x.isInteger = true ↔ ∃ n : Int, x.value = n
  /-- The result is never further from zero. -/
  within : |x.trunc.value| ≤ |x.value|
  /-- Less than one is dropped up to them, and only there. -/
  close : |x.value| < |x.trunc.value| + 1 ↔ |x.value| ≤ greatestWhole
  /-- The order is kept. -/
  mono (y : Decimal) : x.value ≤ y.value → x.trunc.value ≤ y.trunc.value
  /-- A result is kept. -/
  idempotent : x.trunc.trunc = x.trunc
  /-- The function of stories returns the number without its fraction. -/
  floor {σ : Type} (ctx : Context σ) (name : String) : Builtin.ofName? name = some .floor →
    ctx.callBuiltin? name [.number x] = some (pure (.number x.trunc))

/-- Dropping the fraction of a number brings it between two whole numbers besides. -/
theorem dropsFraction (x : Decimal) : DropsFraction x where
  value := x.value_trunc
  greatest := ⟨value_ofInt_maxInt64, value_ofInt_minInt64⟩
  nearest := value_trunc_eq_iff
  isInteger := x.isInteger_trunc
  fixed h := by
    rw [← value_trunc_eq_iff, truncate_value_of_isInteger h]
    constructor
    · exact congrArg Decimal.value
    · exact eq_of_value_eq
  whole := isInteger_iff
  within := x.abs_value_trunc_le
  close := abs_value_lt_iff
  mono y h := by
    rw [value_trunc, value_trunc]
    exact_mod_cast clampWhole_mono (truncate_mono h)
  idempotent := by
    apply eq_of_value_eq
    have hwhole := truncate_value_of_isInteger x.isInteger_trunc
    rw [← hwhole]
    exact value_trunc_eq_iff.2 x.abs_value_trunc_le_greatestWhole
  floor ctx name h := by
    simp [Context.callBuiltin?, h, Builtin.call, Builtin.arity, Builtin.apply, Builtin.numberOf,
      Value.number?]

/-- The fraction of a negative number is dropped toward zero. -/
example : (⟨-75, -1, by decide⟩ : Decimal).trunc = ⟨-7, 0, by decide⟩ := by
  decide

/-- A one with twenty zeros is a whole number, and is brought down to one of nineteen digits. -/
theorem trunc_changes_integer :
    let x : Decimal := ⟨1, 20, by decide⟩
    x.isInteger = true ∧ x.trunc = ⟨9223372, 12, by decide⟩ ∧ x.trunc ≠ x := by
  decide

end Narrative.Decimal
