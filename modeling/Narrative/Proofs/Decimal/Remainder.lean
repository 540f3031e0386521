import Narrative.Proofs.Decimal.Order

/-!
# Exact remainders

Both operands of a remainder are brought to the lower one of their powers of ten. The digits of one
of them stay as they are, so that the remainder has at most seven and none of them is rounded away.
Only its power of ten can be beyond the greatest one, as the zeros at its end raise it.
-/

namespace Narrative.Decimal

/-! ## Truncated division -/

section Truncation

variable {a b n : Int} {q : ℚ}

/-- A rational without its fraction, the nearest integer toward zero. -/
def truncate (q : ℚ) : Int :=
  if 0 ≤ q then ⌊q⌋ else ⌈q⌉

/-- What is left of a dividend after taking the divisor off as often as the quotient toward zero
says. -/
def exactRemainder (p q : ℚ) : ℚ :=
  p - q * truncate (p / q)

/-- An integer within one of a rational, and no further from zero, is the rational truncated. -/
theorem truncate_eq (hnear : |q - n| < 1) (hsign : 0 ≤ (q - n) * q) : truncate q = n := by
  obtain ⟨hlower, hupper⟩ := abs_lt.1 hnear
  unfold truncate
  split
  · next hq =>
    have hle : (n : ℚ) ≤ q := by
      rcases hq.eq_or_lt with rfl | hpos
      · have hn : n < 1 := by
          rw [zero_sub] at hlower
          exact_mod_cast neg_lt_neg_iff.1 hlower
        exact_mod_cast Int.lt_add_one_iff.1 hn
      · exact sub_nonneg.1 (nonneg_of_mul_nonneg_left hsign hpos)
    exact Int.floor_eq_iff.2 ⟨hle, by linarith⟩
  · next hq =>
    have hle : q ≤ n := sub_nonpos.1 (nonpos_of_mul_nonneg_left hsign (not_le.1 hq))
    exact Int.ceil_eq_iff.2 ⟨by linarith, hle⟩

/-- A remainder has the sign of what is divided. -/
theorem tmod_mul_self_nonneg (a b : Int) : 0 ≤ a.tmod b * a := by
  rcases Int.le_total 0 a with ha | ha
  · exact mul_nonneg (Int.tmod_nonneg b ha) ha
  · have hneg := Int.tmod_nonneg b (neg_nonneg.2 ha)
    rw [Int.neg_tmod] at hneg
    exact mul_nonneg_of_nonpos_of_nonpos (neg_nonneg.1 hneg) ha

/-- A remainder is smaller than the divisor. -/
theorem natAbs_tmod_lt (a : Int) (hb : b ≠ 0) : (a.tmod b).natAbs < b.natAbs := by
  rw [Int.natAbs_tmod]
  exact Nat.mod_lt _ (Int.natAbs_pos.2 hb)

/-- The same for absolute values. -/
theorem abs_tmod_lt (a : Int) (hb : b ≠ 0) : |a.tmod b| < |b| := by
  rw [Int.abs_eq_natAbs, Int.abs_eq_natAbs]
  exact Int.ofNat_lt.2 (natAbs_tmod_lt a hb)

/-- A remainder is no greater than what is divided. -/
theorem natAbs_tmod_le (a b : Int) : (a.tmod b).natAbs ≤ a.natAbs := by
  rw [Int.natAbs_tmod]
  exact Nat.mod_le _ _

/-- Integers are divided toward zero. -/
theorem truncate_div (hb : b ≠ 0) : truncate (a / b) = a.tdiv b := by
  have hb' : (b : ℚ) ≠ 0 := Int.cast_ne_zero.2 hb
  have hrest : (a : ℚ) / b - a.tdiv b = a.tmod b / b := by
    rw [Int.tmod_def]
    push_cast
    field_simp
  refine truncate_eq ?_ ?_
  · rw [hrest, abs_div, div_lt_one (abs_pos.2 hb')]
    exact_mod_cast abs_tmod_lt a hb
  · rw [hrest, div_mul_div_comm]
    exact div_nonneg (by exact_mod_cast tmod_mul_self_nonneg a b) (mul_self_nonneg _)

/-- The remainder over a common power of ten is that of the coefficients. -/
theorem exactRemainder_mul_place (hb : b ≠ 0) (e : Int) :
    exactRemainder (a * 10 ^ e) (b * 10 ^ e) = a.tmod b * 10 ^ e := by
  rw [exactRemainder, mul_div_mul_right _ _ (place_pos e).ne', truncate_div hb, Int.tmod_def]
  push_cast
  ring

end Truncation

/-! ## A common power of ten -/

section Alignment

variable {x y r : Decimal} {e : Int}

/-- The coefficient of a number over a power of ten that is no higher than its own. -/
def coeffOver (x : Decimal) (e : Int) : Int :=
  x.coeff * tenTo (x.exp - e).toNat

/-- Whether a word of 128 bits holds that coefficient, and the power of ten in it. -/
def FitsOver (x : Decimal) (e : Int) : Prop :=
  (x.exp - e).toNat ≤ 38 ∧ minInt128 ≤ x.coeffOver e ∧ x.coeffOver e ≤ maxInt128

instance (x : Decimal) (e : Int) : Decidable (x.FitsOver e) :=
  inferInstanceAs (Decidable (_ ∧ _ ∧ _))

/-- The lower one of two powers of ten. -/
def commonExp (x y : Decimal) : Int :=
  min x.exp y.exp

/-- Whether words of 128 bits hold both coefficients over the lower power of ten. -/
def RemainderFits (x y : Decimal) : Prop :=
  x.FitsOver (x.commonExp y) ∧ y.FitsOver (x.commonExp y)

instance (x y : Decimal) : Decidable (x.RemainderFits y) :=
  inferInstanceAs (Decidable (_ ∧ _))

/-- The remainder of both coefficients over the lower power of ten. -/
def remainderCoeff (x y : Decimal) : Int :=
  (x.coeffOver (x.commonExp y)).tmod (y.coeffOver (x.commonExp y))

/-- A number is its coefficient over a power of ten, times that power. -/
theorem value_eq_coeffOver (h : e ≤ x.exp) : x.value = x.coeffOver e * 10 ^ e := by
  have hplace := place_add e (x.exp - e).toNat
  rw [Int.toNat_of_nonneg (by omega), add_sub_cancel] at hplace
  rw [value, coeffOver, hplace]
  push_cast
  ring

/-- The coefficient is zero over every power, or over none. -/
theorem coeffOver_eq_zero : x.coeffOver e = 0 ↔ x.coeff = 0 := by
  have hpos : ((tenTo (x.exp - e).toNat : Nat) : Int) ≠ 0 :=
    Int.natCast_ne_zero.2 (tenTo_pos _).ne'
  rw [coeffOver, mul_eq_zero, or_iff_left hpos]

/-- The common power is no higher than that of the first number. -/
theorem commonExp_le_left (x y : Decimal) : x.commonExp y ≤ x.exp :=
  min_le_left _ _

/-- The common power is no higher than that of the second number. -/
theorem commonExp_le_right (x y : Decimal) : x.commonExp y ≤ y.exp :=
  min_le_right _ _

/-- The common power is no lower than the least exponent. -/
theorem minExp_le_commonExp (x y : Decimal) : minExp ≤ x.commonExp y :=
  le_min x.exp_mem.1 y.exp_mem.1

/-- Powers of ten that differ by at most 31 leave room for seven digits. -/
theorem fitsOver_of_le (h : x.exp ≤ e + 31) : x.FitsOver e := by
  have hcoeff : x.coeff.natAbs < tenTo 7 := x.natAbs_coeff_lt
  have hscale : tenTo (x.exp - e).toNat ≤ tenTo 31 := tenTo_le_tenTo (by omega)
  have hlt : (x.coeffOver e).natAbs ≤ tenTo 7 * tenTo 31 := by
    rw [coeffOver, Int.natAbs_mul, Int.natAbs_natCast]
    exact Nat.mul_le_mul hcoeff.le hscale
  have hword : tenTo 7 * tenTo 31 = 100000000000000000000000000000000000000 := rfl
  refine ⟨by omega, ?_⟩
  simp only [minInt128, maxInt128]
  omega

/-- A number over its own power of ten has at most seven digits. -/
theorem natAbs_coeffOver_self_lt (x : Decimal) : (x.coeffOver x.exp).natAbs < tenTo precision := by
  rw [coeffOver, sub_self, Int.toNat_zero, tenTo_zero, Nat.cast_one, mul_one]
  exact x.natAbs_coeff_lt

/-- The remainder has at most seven digits, as one of the operands has. -/
theorem natAbs_remainderCoeff_lt (hy : y.coeff ≠ 0) :
    (x.remainderCoeff y).natAbs < tenTo precision := by
  unfold remainderCoeff
  rcases min_choice x.exp y.exp with hmin | hmin
  · rw [commonExp, hmin]
    exact (natAbs_tmod_le _ _).trans_lt x.natAbs_coeffOver_self_lt
  · rw [commonExp, hmin]
    exact (natAbs_tmod_lt _ (mt coeffOver_eq_zero.1 hy)).trans y.natAbs_coeffOver_self_lt

/-- A coefficient that fits over a power is brought to it. -/
theorem scaled?_of_fits (h : x.FitsOver e) :
    scaled? x.coeff (x.exp - e).toNat = some (x.coeffOver e) := by
  obtain ⟨hshift, hrange⟩ := h
  rw [scaled?, if_pos hshift]
  exact if_pos hrange

/-- A coefficient that does not fit is refused. -/
theorem scaled?_of_not_fits (h : ¬x.FitsOver e) : scaled? x.coeff (x.exp - e).toNat = none := by
  unfold scaled?
  split
  · next hshift => exact if_neg fun hrange => h ⟨hshift, hrange⟩
  · rfl

/-- There is no remainder of a division by zero. -/
theorem rem_of_divisor_zero (hy : y.coeff = 0) : x.rem y = .error .divisionByZero :=
  if_pos (isZero_iff.2 hy)

/-- Otherwise both coefficients are brought to the common power first. -/
theorem rem_of_divisor_ne_zero (hy : y.coeff ≠ 0) :
    x.rem y =
      match scaled? x.coeff (x.exp - x.commonExp y).toNat,
        scaled? y.coeff (y.exp - x.commonExp y).toNat with
      | some a, some b => .ok (round (a.tmod b) (x.commonExp y))
      | _, _ => .error (.overflow "%") :=
  if_neg (mt isZero_iff.1 hy)

/-- The remainder is that of the coefficients over the lower power of ten. -/
theorem rem_of_fits (hy : y.coeff ≠ 0) (h : x.RemainderFits y) :
    x.rem y = .ok (round (x.remainderCoeff y) (x.commonExp y)) := by
  rw [rem_of_divisor_ne_zero hy, scaled?_of_fits h.1, scaled?_of_fits h.2]
  rfl

/-- Where a remainder does not fit, one of the coefficients is refused. -/
theorem scaled?_eq_none (h : ¬x.RemainderFits y) :
    scaled? x.coeff (x.exp - x.commonExp y).toNat = none ∨
      scaled? y.coeff (y.exp - x.commonExp y).toNat = none := by
  by_cases hfits : x.FitsOver (x.commonExp y)
  · exact .inr (scaled?_of_not_fits fun hfits' => h ⟨hfits, hfits'⟩)
  · exact .inl (scaled?_of_not_fits hfits)

/-- That is an overflow. -/
theorem rem_of_not_fits (hy : y.coeff ≠ 0) (h : ¬x.RemainderFits y) :
    x.rem y = .error (.overflow "%") := by
  rw [rem_of_divisor_ne_zero hy]
  rcases scaled?_eq_none h with hnone | hnone
  · rw [hnone]
  · rw [hnone]
    cases scaled? x.coeff _ <;> rfl

/-- A remainder fails in one of two ways. -/
theorem rem_eq_error_iff {fault : Fault} :
    x.rem y = .error fault ↔
      (y.coeff = 0 ∧ fault = .divisionByZero) ∨
        (y.coeff ≠ 0 ∧ ¬x.RemainderFits y ∧ fault = .overflow "%") := by
  by_cases hy : y.coeff = 0
  · rw [rem_of_divisor_zero hy]
    simp [hy, eq_comm]
  by_cases hfits : x.RemainderFits y
  · rw [rem_of_fits hy hfits]
    simp [hy, hfits]
  · rw [rem_of_not_fits hy hfits]
    simp [hy, hfits, eq_comm]

/-- A remainder that there is comes from coefficients that fit. -/
theorem rem_eq_ok_iff :
    x.rem y = .ok r ↔ y.coeff ≠ 0 ∧ x.RemainderFits y ∧
      r = round (x.remainderCoeff y) (x.commonExp y) := by
  by_cases hy : y.coeff = 0
  · rw [rem_of_divisor_zero hy]
    simp [hy]
  by_cases hfits : x.RemainderFits y
  · rw [rem_of_fits hy hfits]
    simp [hy, hfits, eq_comm]
  · rw [rem_of_not_fits hy hfits]
    simp [hfits]

/-- The exact remainder is the remainder of the coefficients over the common power. -/
theorem exactRemainder_value (hy : y.coeff ≠ 0) :
    exactRemainder x.value y.value = x.remainderCoeff y * 10 ^ x.commonExp y := by
  rw [value_eq_coeffOver (x.commonExp_le_left y), value_eq_coeffOver (x.commonExp_le_right y),
    exactRemainder_mul_place (mt coeffOver_eq_zero.1 hy), remainderCoeff]

/-- The remainder has the sign of the dividend unless it is zero. -/
theorem remainderCoeff_sign :
    x.remainderCoeff y = 0 ∨ 0 < x.remainderCoeff y ∧ 0 < x.coeff ∨
      x.remainderCoeff y < 0 ∧ x.coeff < 0 := by
  have hscale : (0 : Int) < tenTo (x.exp - x.commonExp y).toNat := Int.natCast_pos.2 (tenTo_pos _)
  have hsame : 0 ≤ x.remainderCoeff y * x.coeff * tenTo (x.exp - x.commonExp y).toNat := by
    rw [mul_assoc]
    exact tmod_mul_self_nonneg _ _
  by_cases hx : x.coeff = 0
  · left
    rw [remainderCoeff, coeffOver_eq_zero.2 hx, Int.zero_tmod]
  · rcases mul_nonneg_iff.1 (nonneg_of_mul_nonneg_left hsame hscale) with ⟨h, h'⟩ | ⟨h, h'⟩ <;>
      omega

/-- The rounded remainder stands for the exact one, as its digits are its own rounding. -/
theorem standsFor_round_remainderCoeff (hy : y.coeff ≠ 0) :
    (round (x.remainderCoeff y) (x.commonExp y)).StandsFor (exactRemainder x.value y.value) := by
  obtain ⟨v, hround, hstands⟩ :=
    exists_roundsTo_round (x.remainderCoeff y) (x.minExp_le_commonExp y)
  have hself := roundsTo_self (e := x.commonExp y) (natAbs_remainderCoeff_lt (x := x) hy)
  rw [exactRemainder_value hy, ← hround.unique hself]
  exact hstands

end Alignment

/-! ## Remainders in words -/

section Words

variable {x y : Decimal} {e : Int}

/-- The remainder. A word is divided with its quotient, which has to fit a word as well. -/
def remWords? (x y : Decimal) : Option (Except Fault (Int × Int)) :=
  if y.isZero then some (.error .divisionByZero)
  else
    match scaled? x.coeff (x.exp - x.commonExp y).toNat,
      scaled? y.coeff (y.exp - x.commonExp y).toNat with
    | some a, some b => do
      let _ ← signed? (a.tdiv b)
      let rest ← signed? (a.tmod b)
      let rounded ← roundWords? rest (x.commonExp y)
      some (.ok rounded)
    | _, _ => some (.error (.overflow "%"))

/-- The least word, of which no opposite fits a word, does not end in a zero. -/
theorem coeffOver_ne_minInt128 : x.coeffOver e ≠ minInt128 := by
  have hcoeff : x.coeff.natAbs < tenTo 7 := x.natAbs_coeff_lt
  have hseven : tenTo 7 = 10000000 := rfl
  unfold coeffOver
  cases (x.exp - e).toNat with
  | zero =>
    rw [tenTo_zero, minInt128]
    omega
  | succ shift =>
    rw [tenTo_succ, minInt128]
    push_cast
    rw [← mul_assoc]
    omega

/-- In words of 128 bits the same remainder is found, with no overflow that goes unnoticed. -/
theorem remWords?_eq (x y : Decimal) : remWords? x y = some ((x.rem y).map parts) := by
  by_cases hy : y.coeff = 0
  · rw [rem_of_divisor_zero hy]
    exact if_pos (isZero_iff.2 hy)
  by_cases hfits : x.RemainderFits y
  · obtain ⟨-, hlower, hupper⟩ := hfits.1
    have hmin := coeffOver_ne_minInt128 (x := x) (e := x.commonExp y)
    have hquotient := Int.natAbs_tdiv_le_natAbs (x.coeffOver (x.commonExp y)) (y.coeffOver (x.commonExp y))
    have hrest := natAbs_remainderCoeff_lt (x := x) hy
    have hword : signed? ((x.coeffOver (x.commonExp y)).tdiv (y.coeffOver (x.commonExp y))) =
        some ((x.coeffOver (x.commonExp y)).tdiv (y.coeffOver (x.commonExp y))) := by
      refine if_pos ?_
      simp only [minInt128, maxInt128] at *
      omega
    have hrestWord := signed?_eq (hrest.trans (by decide))
    have hrounded := roundWords?_eq (x.commonExp y) (hrest.trans (by decide))
    unfold remainderCoeff at hrestWord hrounded
    rw [rem_of_fits hy hfits, remWords?, if_neg (mt isZero_iff.1 hy), scaled?_of_fits hfits.1,
      scaled?_of_fits hfits.2]
    simp only [hword, hrestWord, hrounded, Option.bind_eq_bind, Option.bind_some]
    rfl
  · rw [rem_of_not_fits hy hfits, remWords?, if_neg (mt isZero_iff.1 hy)]
    rcases scaled?_eq_none hfits with hnone | hnone
    · rw [hnone]
      rfl
    · rw [hnone]
      cases scaled? x.coeff _ <;> rfl

end Words

/-- What a remainder promises. -/
structure RemainderIsExact (x y : Decimal) : Prop where
  /-- Division by zero is refused. -/
  divisionByZero : x.rem y = .error .divisionByZero ↔ y.value = 0
  /-- A remainder overflows when the coefficients over the lower power of ten do not fit, and only
  then. -/
  overflow : x.rem y = .error (.overflow "%") ↔ y.value ≠ 0 ∧ ¬x.RemainderFits y
  /-- They fit when the powers of ten are not far apart. -/
  near : x.exp ≤ y.exp + 31 → y.exp ≤ x.exp + 31 → x.RemainderFits y
  /-- When they fit there is a remainder. -/
  result : y.value ≠ 0 → x.RemainderFits y → ∃ r, x.rem y = .ok r
  /-- The remainder stands for the exact one: none of its digits is rounded. -/
  digits (r : Decimal) : x.rem y = .ok r → r.StandsFor (exactRemainder x.value y.value)
  /-- The remainder is the exact one wherever that is a number. -/
  exact (r d : Decimal) : x.rem y = .ok r → d.value = exactRemainder x.value y.value →
    r.value = exactRemainder x.value y.value
  /-- The remainder is zero or has the sign of the dividend. -/
  sign (r : Decimal) : x.rem y = .ok r →
    r.value = 0 ∨ 0 < r.value ∧ 0 < x.value ∨ r.value < 0 ∧ x.value < 0
  /-- The remainder is closer to zero than the divisor. -/
  magnitude (r : Decimal) : x.rem y = .ok r → |r.value| < |y.value|
  /-- In words of 128 bits the remainder is the same. -/
  words : remWords? x y = some ((x.rem y).map parts)

/-- The remainder of any two numbers is exact. -/
theorem remainderIsExact (x y : Decimal) : RemainderIsExact x y where
  divisionByZero := by
    simp [rem_eq_error_iff, value_eq_zero]
  overflow := by
    simp [rem_eq_error_iff, value_eq_zero]
  near hleft hright := by
    refine ⟨fitsOver_of_le ?_, fitsOver_of_le ?_⟩
    · unfold commonExp
      omega
    · unfold commonExp
      omega
  result hy hfits := ⟨_, rem_of_fits (mt value_eq_zero.2 hy) hfits⟩
  digits r h := by
    obtain ⟨hy, -, rfl⟩ := rem_eq_ok_iff.1 h
    exact standsFor_round_remainderCoeff hy
  exact r d h hd := by
    obtain ⟨hy, -, rfl⟩ := rem_eq_ok_iff.1 h
    have hstands := standsFor_round_remainderCoeff (x := x) hy
    rw [← hd] at hstands
    rw [← hd, hstands.eq]
  sign r h := by
    obtain ⟨hy, -, rfl⟩ := rem_eq_ok_iff.1 h
    have hcompare := (compare_value_zero _).trans
      (compare_coeff_round (x.remainderCoeff y) (x.commonExp y))
    rcases x.remainderCoeff_sign (y := y) with hzero | ⟨hpos, hx⟩ | ⟨hneg, hx⟩
    · left
      rw [hzero, round_zero]
      exact value_eq_zero.2 rfl
    · right; left
      rw [← compare_gt_iff_gt, ← compare_gt_iff_gt, hcompare, compare_value_zero]
      exact ⟨compare_gt_iff_gt.2 hpos, compare_gt_iff_gt.2 hx⟩
    · right; right
      rw [← compare_lt_iff_lt, ← compare_lt_iff_lt, hcompare, compare_value_zero]
      exact ⟨compare_lt_iff_lt.2 hneg, compare_lt_iff_lt.2 hx⟩
  magnitude r h := by
    obtain ⟨hy, -, rfl⟩ := rem_eq_ok_iff.1 h
    refine (standsFor_round_remainderCoeff hy).abs_value_le.trans_lt ?_
    rw [exactRemainder_value hy, value_eq_coeffOver (x.commonExp_le_right y), abs_mul, abs_mul]
    refine mul_lt_mul_of_pos_right ?_ (abs_pos.2 (place_pos _).ne')
    exact_mod_cast abs_tmod_lt _ (mt coeffOver_eq_zero.1 hy)
  words := remWords?_eq x y

/-- A remainder follows the sign of the dividend. -/
example : (⟨-75, -1, by decide⟩ : Decimal).rem ⟨2, 0, by decide⟩ = .ok ⟨-15, -1, by decide⟩ := by
  decide

/-- Ten times the greatest power of ten is what `21` times that power leaves over `11` times it, and
is no number: one times the power stands for it. -/
theorem rem_ne_exact :
    let x : Decimal := ⟨21, maxExp, by decide⟩
    let y : Decimal := ⟨11, maxExp, by decide⟩
    let r : Decimal := ⟨1, maxExp, by decide⟩
    y.value ≠ 0 ∧ x.rem y = .ok r ∧ r.value ≠ exactRemainder x.value y.value := by
  intro x y r
  have hexact : exactRemainder x.value y.value = (Int.tmod 21 11 : Int) * 10 ^ maxExp :=
    exactRemainder_mul_place (by decide) maxExp
  have hplace := place_pos maxExp
  refine ⟨mt value_eq_zero.1 (by decide), by decide, ?_⟩
  rw [hexact, show r.value = (1 : Int) * 10 ^ maxExp from rfl, show Int.tmod 21 11 = 10 from rfl]
  intro heq
  push_cast at heq
  linarith

end Narrative.Decimal
