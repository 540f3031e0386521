import Mathlib.Order.Compare
import Narrative.Proofs.Decimal.Arithmetic

/-!
# The order of numbers

Two numbers are compared by the sign of their rounded difference, in which a number far below the
other one is dropped. Neither the rounding nor the dropping changes a sign, so that the order is
that of the rationals which the numbers denote. It is a total order, and numbers that compare as
equal are equal, because a rational has at most one normal form.
-/

namespace Narrative.Decimal

variable {x y : Decimal} {c e : Int}

/-! ## Signs -/

/-- A power of ten does not change the sign of its coefficient. -/
theorem compare_mul_place (c e : Int) : Ord.compare ((c : ℚ) * 10 ^ e) 0 = Ord.compare c 0 := by
  have hplace := place_pos e
  rcases lt_trichotomy c 0 with hneg | rfl | hpos
  · have hvalue : (c : ℚ) * 10 ^ e < 0 := mul_neg_of_neg_of_pos (Int.cast_lt_zero.2 hneg) hplace
    rw [compare_lt_iff_lt.2 hneg, compare_lt_iff_lt.2 hvalue]
  · rw [Int.cast_zero, zero_mul]
    rfl
  · have hvalue : 0 < (c : ℚ) * 10 ^ e := mul_pos (Int.cast_pos.2 hpos) hplace
    rw [compare_gt_iff_gt.2 hpos, compare_gt_iff_gt.2 hvalue]

/-- A number is compared with zero like its coefficient. -/
theorem compare_value_zero (x : Decimal) : Ord.compare x.value 0 = Ord.compare x.coeff 0 :=
  compare_mul_place x.coeff x.exp

/-- A sign is compared with zero like the number. -/
theorem compare_sign (c : Int) : Ord.compare c.sign 0 = Ord.compare c 0 := by
  rcases lt_trichotomy c 0 with hneg | rfl | hpos
  · rw [Int.sign_eq_neg_one_of_neg hneg, compare_lt_iff_lt.2 hneg]
    rfl
  · rfl
  · rw [Int.sign_eq_one_of_pos hpos, compare_gt_iff_gt.2 hpos]
    rfl

/-- Rounding does not change the sign. -/
theorem compare_coeff_round (c e : Int) : Ord.compare (round c e).coeff 0 = Ord.compare c 0 := by
  by_cases hc : c = 0
  · rw [hc, round_zero]
    rfl
  · have hdigits := (roundDigits_spec e (Int.natAbs_pos.2 hc)).1
    have hpos : 0 < (roundDigits c.natAbs e).1 := by omega
    simp only [round, dif_neg hc]
    by_cases hneg : c < 0
    · rw [if_pos hneg, compare_lt_iff_lt.2 hneg, compare_lt_iff_lt]
      omega
    · have hpos' : 0 < c := by omega
      rw [if_neg hneg, compare_gt_iff_gt.2 hpos', compare_gt_iff_gt]
      omega

/-- A number other than zero reaches its last place. -/
theorem place_le_abs_value (hx : x.coeff ≠ 0) : 10 ^ x.exp ≤ |x.value| := by
  have hone : (1 : ℚ) ≤ x.coeff.natAbs := by exact_mod_cast Int.natAbs_pos.2 hx
  rw [abs_value]
  exact le_mul_of_one_le_left (place_pos x.exp).le hone

/-- A number far below another one does not change its sign. -/
theorem compare_add_of_far (hx : x.coeff ≠ 0) (hfar : y.exp + 20 < x.exp) :
    Ord.compare (x.value + y.value) 0 = Ord.compare x.value 0 := by
  have hplace : (10 : ℚ) ^ 7 * 10 ^ y.exp ≤ 10 ^ x.exp := by
    rw [← zpow_natCast, ← zpow_add₀ (by norm_num)]
    exact zpow_le_zpow_right₀ (by norm_num) (by push_cast; omega)
  have hsmall : |y.value| < |x.value| :=
    lt_of_lt_of_le y.abs_value_lt (hplace.trans (place_le_abs_value hx))
  obtain ⟨hbelow, habove⟩ := abs_lt.1 hsmall
  rcases le_or_gt x.value 0 with hneg | hpos
  · rw [abs_of_nonpos hneg] at hbelow habove
    have hneg' : x.value < 0 := lt_of_le_of_ne hneg (mt value_eq_zero.1 hx)
    rw [compare_lt_iff_lt.2 hneg', compare_lt_iff_lt]
    linarith
  · rw [abs_of_pos hpos] at hbelow habove
    rw [compare_gt_iff_gt.2 hpos, compare_gt_iff_gt]
    linarith

/-- The sign of a sum over the lower power of ten, the first number having the higher one. -/
theorem compare_aligned_sum (hx : x.coeff ≠ 0) (hle : y.exp ≤ x.exp) :
    Ord.compare (if 20 < (x.exp - y.exp).toNat then x
      else round (x.coeff * tenTo (x.exp - y.exp).toNat + y.coeff) y.exp).coeff 0 =
      Ord.compare (x.value + y.value) 0 := by
  split
  · rw [compare_add_of_far hx (by omega), compare_value_zero]
  · rw [compare_coeff_round, value_add_value hle, compare_mul_place]

/-- A rounded sum has the sign of the exact one. -/
theorem compare_coeff_add (x y : Decimal) :
    Ord.compare (x.add y).coeff 0 = Ord.compare (x.value + y.value) 0 := by
  unfold add
  simp only [isZero_iff]
  by_cases hx : x.coeff = 0
  · rw [if_pos hx, value_eq_zero.2 hx, zero_add, compare_value_zero]
  rw [if_neg hx]
  by_cases hy : y.coeff = 0
  · rw [if_pos hy, value_eq_zero.2 hy, add_zero, compare_value_zero]
  rw [if_neg hy]
  by_cases hle : y.exp ≤ x.exp
  · rw [if_pos hle]
    exact compare_aligned_sum hx hle
  · have hge : x.exp ≤ y.exp := by omega
    rw [if_neg hle, add_comm x.value]
    exact compare_aligned_sum hy hge

/-! ## Normal forms -/

/-- Rounding in machine words arrives at a normal form. -/
theorem isNormal_of_roundWords? {p : Int × Int} (h : roundWords? c e = some p) :
    IsNormal p.1 p.2 := by
  rw [eq_of_roundWords? h]
  exact (round c e).normal

/-! ## The order -/

/-- Numbers are ordered as the rationals that they denote. -/
theorem compare_eq (x y : Decimal) : x.compare y = Ord.compare x.value y.value := by
  have hdifference : Ord.compare (x.value - y.value) 0 = Ord.compare x.value y.value := by
    rcases lt_trichotomy x.value y.value with hlt | heq | hgt
    · rw [compare_lt_iff_lt.2 hlt, compare_lt_iff_lt]
      exact sub_neg.2 hlt
    · rw [compare_eq_iff_eq.2 heq, compare_eq_iff_eq]
      exact sub_eq_zero.2 heq
    · rw [compare_gt_iff_gt.2 hgt, compare_gt_iff_gt]
      exact sub_pos.2 hgt
  rw [compare, signum, compare_sign, sub, compare_coeff_add, value_neg, ← sub_eq_add_neg,
    hdifference]

instance : Std.OrientedCmp compare where
  eq_swap := by
    intro x y
    rw [compare_eq, compare_eq]
    exact Std.OrientedCmp.eq_swap

instance : Std.TransCmp compare where
  isLE_trans := by
    intro x y z hxy hyz
    rw [compare_eq] at *
    exact Std.TransCmp.isLE_trans hxy hyz

instance : Std.LawfulEqCmp compare where
  compare_self := by
    intro x
    rw [compare_eq]
    exact Std.ReflCmp.compare_self
  eq_of_compare := by
    intro x y h
    rw [compare_eq] at h
    exact eq_of_value_eq (compare_eq_iff_eq.1 h)

/-- What comparing two numbers promises. -/
structure ExactlyOrdered (x y : Decimal) : Prop where
  /-- The number is in normal form. -/
  normal : IsNormal x.coeff x.exp
  /-- Numbers are equal exactly when they denote the same rational. -/
  eq_iff : x = y ↔ x.value = y.value
  /-- They are ordered as the rationals are, whatever their powers of ten. -/
  order : x.compare y = Ord.compare x.value y.value
  /-- The difference that is compared stays in its machine words. -/
  words : ∃ p, addWords? x y.neg = some p ∧ x.compare y = Ord.compare p.1 0

/-- Any two numbers are compared exactly. -/
theorem exactlyOrdered (x y : Decimal) : ExactlyOrdered x y where
  normal := x.normal
  eq_iff := ⟨congrArg value, eq_of_value_eq⟩
  order := compare_eq x y
  words := ⟨(x.sub y).parts, addWords?_eq x y.neg, compare_sign _⟩

end Narrative.Decimal
