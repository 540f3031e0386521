import Narrative.Proofs.Decimal.Rounding
import Narrative.Proofs.Decimal.Words

/-!
# Correctly rounded arithmetic

A sum and a difference are the rounded exact ones. A product is too, unless its operands' powers of
ten add up to less than the least one: their sum is raised to the least before the product is
rounded, and what the rounding would have added to it stays on top. A quotient is the rounded exact
one, or an overflow when the power of ten of its twenty digits is not available.
-/

namespace Narrative.Decimal

/-! ## Numbers in normal form -/

section Normal

variable {x y d : Decimal} {c e j : Int} {q : ℚ}

/-- A coefficient ends in no zero. -/
theorem emod_ten_ne_zero (h : x.coeff ≠ 0) : x.coeff % 10 ≠ 0 := by
  have := (x.normal_of_ne_zero h).1
  omega

/-- There is one form for each number. -/
theorem eq_of_value_eq (h : x.value = y.value) : x = y := by
  have hzero : x.coeff = 0 ↔ y.coeff = 0 := by
    rw [← value_eq_zero, h, value_eq_zero]
  by_cases hx : x.coeff = 0
  · rw [eq_zero_of_coeff hx, eq_zero_of_coeff (hzero.1 hx)]
  · obtain ⟨hcoeff, hexp⟩ :=
      eq_of_mul_place_eq (emod_ten_ne_zero hx) (emod_ten_ne_zero fun hy => hx (hzero.2 hy)) h
    cases x
    cases y
    simp_all

/-- The value of a coefficient is that of its digits, up to the sign. -/
theorem mul_place_eq_natAbs (c e : Int) :
    0 ≤ c ∧ (c : ℚ) * 10 ^ e = c.natAbs * 10 ^ e ∨
      c < 0 ∧ (c : ℚ) * 10 ^ e = -(c.natAbs * 10 ^ e) := by
  obtain ⟨n, rfl | rfl⟩ := Int.eq_nat_or_neg c
  · exact .inl ⟨Int.natCast_nonneg n, by simp⟩
  · rcases Nat.eq_zero_or_pos n with rfl | hn
    · exact .inl (by simp)
    · exact .inr ⟨by omega, by simp⟩

/-- At most seven digits are their own rounding. -/
theorem roundsTo_self (h : c.natAbs < tenTo precision) : RoundsTo (c * 10 ^ e) (c * 10 ^ e) := by
  by_cases hc : c = 0
  · rw [hc, Int.cast_zero, zero_mul]
    exact .inl ⟨rfl, rfl⟩
  · have hround : RoundsTo (c.natAbs * 10 ^ e) (c.natAbs * 10 ^ e) := by
      refine roundsTo_of_very_close (Int.natAbs_pos.2 hc) h ?_
      rw [sub_self, abs_zero]
      linarith [place_pos (e - 6)]
    rcases mul_place_eq_natAbs c e with ⟨-, hvalue⟩ | ⟨-, hvalue⟩
    · rwa [hvalue]
    · rw [hvalue]
      exact hround.neg

/-- A power of ten is its own rounding. -/
theorem roundsTo_place (e : Int) : RoundsTo (10 ^ e) (10 ^ e) := by
  simpa using roundsTo_self (c := 1) (e := e) (by decide)

/-- A rational far closer to a number than its last place is rounded to it. -/
theorem roundsTo_value_of_close (hx : x.coeff ≠ 0)
    (hclose : |q - x.value| < 10 ^ (x.exp - 6) / 20) : RoundsTo q x.value := by
  obtain ⟨-, hlt, -, -⟩ := x.normal_of_ne_zero hx
  have hpos : 0 < x.coeff.natAbs := Int.natAbs_pos.2 hx
  rw [value] at hclose ⊢
  rcases mul_place_eq_natAbs x.coeff x.exp with ⟨-, hvalue⟩ | ⟨-, hvalue⟩
  · rw [hvalue] at hclose ⊢
    exact roundsTo_of_very_close hpos hlt hclose
  · rw [hvalue] at hclose ⊢
    have hround : RoundsTo (-q) (x.coeff.natAbs * 10 ^ x.exp) := by
      refine roundsTo_of_very_close hpos hlt ?_
      rwa [← abs_neg, neg_sub, sub_neg_eq_add, add_comm, ← sub_neg_eq_add]
    simpa only [neg_neg] using hround.neg

/-- A number is its own rounding. -/
theorem roundsTo_value (x : Decimal) : RoundsTo x.value x.value :=
  roundsTo_self x.natAbs_coeff_lt

/-! ## Rounding a coefficient and a power of ten -/

/-- The digits and the power of ten of a number that a positive coefficient is rounded to. -/
theorem roundDigits_eq_of_roundsTo {c : Nat} (hc : 0 < c) (h : RoundsTo (c * 10 ^ e) d.value) :
    ((roundDigits c e).1 : Int) = d.coeff ∧ (roundDigits c e).2 = d.exp := by
  have hmod := (roundDigits_spec e hc).1
  have hvalue := (roundsTo_roundDigits hc e).unique h
  have hd : d.coeff ≠ 0 := by
    intro hzero
    rw [value_eq_zero.2 hzero, mul_eq_zero, or_iff_left (place_pos _).ne', Nat.cast_eq_zero]
      at hvalue
    rw [hvalue] at hmod
    exact hmod rfl
  exact eq_of_mul_place_eq (by omega) (emod_ten_ne_zero hd) hvalue

/-- The signed digits and the power of ten of the number that a coefficient is rounded to. -/
theorem roundDigits_natAbs_eq (hc : c ≠ 0) (h : RoundsTo (c * 10 ^ e) d.value) :
    (if c < 0 then -((roundDigits c.natAbs e).1 : Int) else (roundDigits c.natAbs e).1) = d.coeff ∧
      (roundDigits c.natAbs e).2 = d.exp := by
  have hpos : 0 < c.natAbs := Int.natAbs_pos.2 hc
  rcases mul_place_eq_natAbs c e with ⟨hsign, hvalue⟩ | ⟨hsign, hvalue⟩
  · rw [hvalue] at h
    rw [if_neg (by omega)]
    exact roundDigits_eq_of_roundsTo hpos h
  · rw [hvalue] at h
    have hneg : RoundsTo (c.natAbs * 10 ^ e) d.neg.value := by
      rw [value_neg]
      simpa only [neg_neg] using h.neg
    obtain ⟨hcoeff, hexp⟩ := roundDigits_eq_of_roundsTo hpos hneg
    rw [if_pos hsign, hcoeff]
    exact ⟨Int.neg_neg d.coeff, hexp⟩

/-- Rounding with the power of ten shifted gives the rounded digits and the shifted power. -/
theorem round_add_eq (hc : c ≠ 0) (h : RoundsTo (c * 10 ^ e) d.value) (j : Int) :
    (round c (e + j)).coeff = d.coeff ∧ (round c (e + j)).exp = clampExp (d.exp + j) := by
  obtain ⟨hcoeff, hexp⟩ := roundDigits_natAbs_eq hc h
  simp only [round, dif_neg hc, roundDigits_add, hcoeff, hexp, and_self]

/-- The power of ten of the rounded number is that of the coefficient, raised by the digits dropped
and the zeros moved. -/
theorem exp_of_roundsTo (hc : c ≠ 0) (h : RoundsTo (c * 10 ^ e) d.value) :
    e ≤ d.exp ∧ d.exp ≤ e + (digitCount c.natAbs - precision : Nat) + precision := by
  rw [← (roundDigits_natAbs_eq hc h).2]
  exact roundDigits_exp c.natAbs e

/-- The exponent is within the bounds. -/
theorem exp_mem (d : Decimal) : minExp ≤ d.exp ∧ d.exp ≤ maxExp := by
  obtain ⟨-, hexp⟩ | ⟨-, -, hmin, hmax⟩ := d.normal
  · rw [hexp]
    decide
  · exact ⟨hmin, hmax⟩

/-- An exponent within the bounds is not clamped. -/
theorem clampExp_eq (h : minExp ≤ e ∧ e ≤ maxExp) : clampExp e = e := by
  unfold clampExp
  omega

/-- Zero stays zero. -/
theorem round_zero (e : Int) : round 0 e = zero :=
  dif_pos rfl

/-- A coefficient with a power of ten is rounded to the number its value is rounded to. -/
theorem round_eq_of_roundsTo (h : RoundsTo (c * 10 ^ e) d.value) : round c e = d := by
  by_cases hc : c = 0
  · subst hc
    have hzero : RoundsTo ((0 : Int) * 10 ^ e) 0 := .inl ⟨by simp, rfl⟩
    rw [eq_zero_of_coeff (value_eq_zero.1 (h.unique hzero)), round_zero]
  · obtain ⟨hcoeff, hexp⟩ := round_add_eq hc h 0
    rw [add_zero] at hcoeff hexp
    rw [add_zero, clampExp_eq d.exp_mem] at hexp
    exact eq_of_value_eq (by rw [value, value, hcoeff, hexp])

/-! ## Beyond the greatest power of ten -/

/-- The number has the digits of `v`, and its power of ten or, where that is not available, the
greatest one. -/
def StandsFor (x : Decimal) (v : ℚ) : Prop :=
  ∃ e : Int, v = x.coeff * 10 ^ e ∧ x.exp = min maxExp e

/-- A number that stands for the value of a number is that number. -/
theorem StandsFor.eq (h : x.StandsFor d.value) : x = d := by
  obtain ⟨e, hvalue, hexp⟩ := h
  have hcoeff : x.coeff = 0 ↔ d.coeff = 0 := by
    rw [← value_eq_zero (x := d), hvalue, mul_eq_zero, or_iff_left (place_pos e).ne', Int.cast_eq_zero]
  by_cases hx : x.coeff = 0
  · rw [eq_zero_of_coeff hx, eq_zero_of_coeff (hcoeff.1 hx)]
  · obtain ⟨-, he⟩ :=
      eq_of_mul_place_eq (emod_ten_ne_zero hx) (emod_ten_ne_zero (mt hcoeff.2 hx)) hvalue.symm
    have hmax := d.exp_mem.2
    refine eq_of_value_eq ?_
    rw [hvalue, value, hexp, he, min_eq_right hmax]

/-- It has the value it stands for when that is below the power of ten after the greatest one. -/
theorem StandsFor.value_eq (h : x.StandsFor q) (hq : |q| < 10 ^ (maxExp + 1)) : x.value = q := by
  obtain ⟨e, rfl, hexp⟩ := h
  by_cases hx : x.coeff = 0
  · rw [value, hx, Int.cast_zero, zero_mul, zero_mul]
  · have hone : (1 : ℚ) ≤ |(x.coeff : ℚ)| := by
      exact_mod_cast Int.one_le_abs hx
    rw [abs_mul, abs_of_pos (place_pos e)] at hq
    have hplace : (10 : ℚ) ^ e < 10 ^ (maxExp + 1) :=
      (le_mul_of_one_le_left (place_pos e).le hone).trans_lt hq
    have he : e ≤ maxExp := Int.lt_add_one_iff.1 (place_lt_place.1 hplace)
    rw [value, hexp, min_eq_right he]

/-- It is no greater than what it stands for. -/
theorem StandsFor.abs_value_le (h : x.StandsFor q) : |x.value| ≤ |q| := by
  obtain ⟨e, rfl, hexp⟩ := h
  rw [value, abs_mul, abs_mul, abs_of_pos (place_pos x.exp), abs_of_pos (place_pos e)]
  refine mul_le_mul_of_nonneg_left (zpow_le_zpow_right₀ (by norm_num) ?_) (abs_nonneg _)
  rw [hexp]
  exact min_le_right maxExp e

/-- Rounding a coefficient and an available power of ten gives the digits of the rounded value. -/
theorem exists_roundsTo_round (c : Int) (he : minExp ≤ e) :
    ∃ v, RoundsTo (c * 10 ^ e) v ∧ (round c e).StandsFor v := by
  by_cases hc : c = 0
  · refine ⟨0, .inl ⟨by rw [hc, Int.cast_zero, zero_mul], rfl⟩, 0, ?_, ?_⟩
    · rw [hc, round_zero]
      exact (zero_mul _).symm
    · rw [hc, round_zero]
      decide
  · have hround := roundsTo_roundDigits (Int.natAbs_pos.2 hc) e
    have hclamp : clampExp (roundDigits c.natAbs e).2 = min maxExp (roundDigits c.natAbs e).2 := by
      have hraised := (roundDigits_exp c.natAbs e).1
      unfold clampExp
      simp only [minExp, maxExp] at *
      omega
    have hexp : (round c e).exp = min maxExp (roundDigits c.natAbs e).2 := by
      rw [← hclamp, round, dif_neg hc]
    rcases mul_place_eq_natAbs c e with ⟨hsign, hvalue⟩ | ⟨hsign, hvalue⟩
    · have hcoeff : (round c e).coeff = (roundDigits c.natAbs e).1 := by
        rw [round, dif_neg hc]
        exact if_neg (not_lt.2 hsign)
      refine ⟨_, hvalue ▸ hround, (roundDigits c.natAbs e).2, ?_, hexp⟩
      rw [hcoeff, Int.cast_natCast]
    · have hcoeff : (round c e).coeff = -((roundDigits c.natAbs e).1 : Int) := by
        rw [round, dif_neg hc]
        exact if_pos hsign
      refine ⟨_, hvalue ▸ hround.neg, (roundDigits c.natAbs e).2, ?_, hexp⟩
      rw [hcoeff, Int.cast_neg, Int.cast_natCast, neg_mul]

/-! ## Sums and differences -/

/-- A number lies below the place before its first digit. -/
theorem abs_value_lt (y : Decimal) : |y.value| < 10 ^ 7 * 10 ^ y.exp := by
  have hlt : y.coeff.natAbs < 10 ^ 7 := y.natAbs_coeff_lt
  have hcast : |(y.coeff : ℚ)| < 10 ^ 7 := by
    rw [← Int.cast_abs, Int.abs_eq_natAbs]
    exact_mod_cast hlt
  rw [value, abs_mul, abs_of_pos (place_pos y.exp)]
  exact mul_lt_mul_of_pos_right hcast (place_pos y.exp)

/-- A number whose power of ten is more than twenty lower lies far below the last digit kept. -/
theorem roundsTo_add_of_far (hx : x.coeff ≠ 0) (hfar : y.exp + 20 < x.exp) :
    RoundsTo (x.value + y.value) x.value := by
  refine roundsTo_value_of_close hx ?_
  have hplace : (10 : ℚ) ^ (x.exp - 6) = 10 ^ (x.exp - 21) * tenTo 15 := by
    rw [← place_add]
    congr 1
    omega
  have hlow : (10 : ℚ) ^ y.exp ≤ 10 ^ (x.exp - 21) := zpow_le_zpow_right₀ (by norm_num) (by omega)
  rw [add_sub_cancel_left, hplace, cast_tenTo]
  linarith [y.abs_value_lt, place_pos (x.exp - 21)]

/-- The sum over the lower power of ten. -/
theorem value_add_value (h : y.exp ≤ x.exp) :
    x.value + y.value =
      (x.coeff * tenTo (x.exp - y.exp).toNat + y.coeff : Int) * 10 ^ y.exp := by
  have hplace := place_add y.exp (x.exp - y.exp).toNat
  rw [Int.toNat_of_nonneg (by omega), add_sub_cancel] at hplace
  rw [value, value, hplace]
  push_cast
  ring

/-- The rounded sum of two numbers other than zero, the first with the higher power of ten. -/
theorem aligned_sum_eq (hx : x.coeff ≠ 0) (hle : y.exp ≤ x.exp)
    (h : RoundsTo (x.value + y.value) d.value) :
    (if 20 < (x.exp - y.exp).toNat then x
      else round (x.coeff * tenTo (x.exp - y.exp).toNat + y.coeff) y.exp) = d := by
  split
  · exact eq_of_value_eq ((roundsTo_add_of_far hx (by omega)).unique h)
  · rw [value_add_value hle] at h
    exact round_eq_of_roundsTo h

/-- The number is zero just when its coefficient is. -/
theorem isZero_iff : x.isZero = true ↔ x.coeff = 0 :=
  beq_iff_eq

/-- The sum is the rounded exact sum. -/
theorem add_eq_of_roundsTo (h : RoundsTo (x.value + y.value) d.value) : x.add y = d := by
  unfold add
  simp only [isZero_iff]
  by_cases hx : x.coeff = 0
  · rw [value_eq_zero.2 hx, zero_add] at h
    rw [if_pos hx]
    exact eq_of_value_eq ((roundsTo_value y).unique h)
  rw [if_neg hx]
  by_cases hy : y.coeff = 0
  · rw [value_eq_zero.2 hy, add_zero] at h
    rw [if_pos hy]
    exact eq_of_value_eq ((roundsTo_value x).unique h)
  rw [if_neg hy]
  by_cases hle : y.exp ≤ x.exp
  · rw [if_pos hle]
    exact aligned_sum_eq hx hle h
  · have hge : x.exp ≤ y.exp := by omega
    rw [add_comm] at h
    rw [if_neg hle]
    exact aligned_sum_eq hy hge h

/-- The difference is the rounded exact difference. -/
theorem sub_eq_of_roundsTo (h : RoundsTo (x.value - y.value) d.value) : x.sub y = d := by
  refine add_eq_of_roundsTo ?_
  rwa [value_neg, ← sub_eq_add_neg]

/-! ## Products -/

/-- A product has the coefficients multiplied and the exponents added. -/
theorem value_mul_value (x y : Decimal) :
    x.value * y.value = (x.coeff * y.coeff : Int) * 10 ^ (x.exp + y.exp) := by
  rw [value, value, zpow_add₀ (by norm_num)]
  push_cast
  ring

/-- The product has the digits of the rounded exact product. Its power of ten is too high by what
the powers of ten of the operands lack together of the least one. -/
theorem mul_eq_of_roundsTo (h : RoundsTo (x.value * y.value) d.value) :
    (x.mul y).coeff = d.coeff ∧ (x.mul y).exp = d.exp + max 0 (minExp - (x.exp + y.exp)) := by
  have hx := x.exp_mem
  have hy := y.exp_mem
  have hd := d.exp_mem
  rw [value_mul_value] at h
  by_cases hc : x.coeff * y.coeff = 0
  · have hsum : minExp ≤ x.exp + y.exp := by
      rcases Int.mul_eq_zero.1 hc with hzero | hzero
      · rw [eq_zero_of_coeff hzero]
        exact hy.1.trans (le_of_eq (zero_add _).symm)
      · rw [eq_zero_of_coeff hzero]
        exact hx.1.trans (le_of_eq (add_zero _).symm)
    have hmul : x.mul y = d := by
      rw [hc] at h
      rw [mul, hc, round_zero, ← round_eq_of_roundsTo h, round_zero]
    rw [hmul, max_eq_left (by omega), add_zero]
    exact ⟨rfl, rfl⟩
  · obtain ⟨hlower, hupper⟩ := exp_of_roundsTo hc h
    have hdigits : digitCount (x.coeff * y.coeff).natAbs ≤ 14 :=
      (digitCount_le_iff (by decide)).2 (natAbs_mul_lt x y)
    obtain ⟨hcoeff, hexp⟩ := round_add_eq hc h (clampExp (x.exp + y.exp) - (x.exp + y.exp))
    rw [add_sub_cancel] at hcoeff hexp
    refine ⟨hcoeff, hexp.trans ?_⟩
    simp only [precision] at hupper
    unfold clampExp
    simp only [minExp, maxExp] at *
    omega

/-! ## Quotients -/

/-- The digits of the quotient of two numbers before they are rounded, with their power of ten. -/
def quotient (x y : Decimal) : Nat × Int :=
  quotientDigits (x.coeff.natAbs * tenTo quotientScale) y.coeff.natAbs
    (x.exp - y.exp - quotientScale)

/-- An exponent within the bounds is taken. -/
theorem exp?_of_mem (h : minExp ≤ e ∧ e ≤ maxExp) : exp? e = some e :=
  if_pos h

/-- Any other one is refused. -/
theorem exp?_of_not_mem (h : ¬(minExp ≤ e ∧ e ≤ maxExp)) : exp? e = none :=
  if_neg h

/-- The quotient rounds its digits when their power of ten is available. -/
theorem div_of_mem (hx : x.coeff ≠ 0) (hy : y.coeff ≠ 0)
    (h : minExp ≤ (x.quotient y).2 ∧ (x.quotient y).2 ≤ maxExp) :
    x.div y = .ok (round (if (x.coeff < 0 : Bool) != (y.coeff < 0 : Bool)
      then -((x.quotient y).1 : Int) else (x.quotient y).1) (x.quotient y).2) := by
  unfold div quotient at *
  rw [if_neg (mt isZero_iff.1 hy), if_neg (mt isZero_iff.1 hx)]
  generalize quotientDigits _ _ _ = digits at h ⊢
  dsimp only
  rw [exp?_of_mem h]

/-- There is an overflow when the power of ten of the digits of a quotient is not available. -/
theorem div_of_not_mem (hx : x.coeff ≠ 0) (hy : y.coeff ≠ 0)
    (h : ¬(minExp ≤ (x.quotient y).2 ∧ (x.quotient y).2 ≤ maxExp)) :
    x.div y = .error (.overflow "/") := by
  unfold div quotient at *
  rw [if_neg (mt isZero_iff.1 hy), if_neg (mt isZero_iff.1 hx)]
  generalize quotientDigits _ _ _ = digits at h ⊢
  dsimp only
  rw [exp?_of_not_mem h]

/-- The digits of a quotient stand for it exactly, or with a one at the end for a quotient strictly
between two neighbours. -/
theorem roundsTo_quotientDigits {num den : Nat} {e : Int} (hden : 0 < den) (hlt : den < 10 ^ 7)
    (hnum : 10 ^ 20 ≤ num) (h : RoundsTo ((num : ℚ) / den * 10 ^ e) q) :
    RoundsTo ((quotientDigits num den e).1 * 10 ^ (quotientDigits num den e).2) q := by
  have hpos : (0 : ℚ) < den := by exact_mod_cast hden
  have hsplit : ((num / den : Nat) : ℚ) * den + (num % den : Nat) = num := by
    exact_mod_cast Nat.div_add_mod' num den
  rw [quotientDigits]
  by_cases hmod : num % den = 0
  · have hexact : (num : ℚ) / den = (num / den : Nat) := by
      rw [hmod, Nat.cast_zero, add_zero] at hsplit
      rw [div_eq_iff hpos.ne', hsplit]
    rw [if_pos hmod, ← hexact]
    exact h
  · have hrest : (0 : ℚ) < (num % den : Nat) := by exact_mod_cast Nat.pos_of_ne_zero hmod
    have hrest' : ((num % den : Nat) : ℚ) < den := by exact_mod_cast Nat.mod_lt num hden
    have hdigits : 10 ^ 7 ≤ num / den := by
      rw [Nat.le_div_iff_mul_le hden]
      calc 10 ^ 7 * den ≤ 10 ^ 7 * 10 ^ 7 := Nat.mul_le_mul_left _ hlt.le
        _ ≤ num := le_trans (by norm_num) hnum
    have hplace : (10 : ℚ) ^ e = 10 ^ (e - 1) * 10 := by
      rw [← place_succ, sub_add_cancel]
    have hlow := place_pos (e - 1)
    rw [if_neg hmod]
    generalize num / den = m at hsplit hdigits ⊢
    refine h.of_between (j := e) (N := m) (by exact_mod_cast hdigits) ?_ ?_ ?_ ?_
    · refine mul_lt_mul_of_pos_right ?_ (place_pos e)
      rw [lt_div_iff₀ hpos, Int.cast_natCast]
      linarith
    · refine mul_lt_mul_of_pos_right ?_ (place_pos e)
      rw [div_lt_iff₀ hpos, Int.cast_natCast]
      linarith
    · rw [hplace, Int.cast_natCast]
      push_cast
      linarith
    · rw [hplace, Int.cast_natCast]
      push_cast
      linarith

/-- The absolute value is that of the coefficient. -/
theorem abs_value (x : Decimal) : |x.value| = x.coeff.natAbs * 10 ^ x.exp := by
  rw [value, abs_mul, abs_of_pos (place_pos x.exp), ← Int.cast_abs, Int.abs_eq_natAbs,
    Int.cast_natCast]

/-- The digits of a quotient are rounded as the exact quotient is. -/
theorem roundsTo_quotient (hx : x.coeff ≠ 0) (hy : y.coeff ≠ 0)
    (h : RoundsTo |x.value / y.value| q) :
    RoundsTo ((x.quotient y).1 * 10 ^ (x.quotient y).2) q := by
  have hquotient : |x.value / y.value| =
      ((x.coeff.natAbs * tenTo quotientScale : Nat) : ℚ) / y.coeff.natAbs *
        10 ^ (x.exp - y.exp - quotientScale) := by
    have hplace := place_add (x.exp - y.exp - quotientScale) quotientScale
    rw [sub_add_cancel, zpow_sub₀ (by norm_num)] at hplace
    rw [abs_div, abs_value, abs_value, mul_div_mul_comm, hplace]
    push_cast
    ring
  rw [hquotient] at h
  exact roundsTo_quotientDigits (Int.natAbs_pos.2 hy) (y.normal_of_ne_zero hy).2.1
    (Nat.le_mul_of_pos_left _ (Int.natAbs_pos.2 hx)) h

/-- A number is negative just when its coefficient is. -/
theorem value_lt_zero : x.value < 0 ↔ x.coeff < 0 := by
  have hcast : (x.coeff : ℚ) < 0 ↔ x.coeff < 0 := Int.cast_lt_zero
  rw [value, ← hcast]
  exact ⟨fun h => neg_of_mul_neg_left h (place_pos x.exp).le,
    fun h => mul_neg_of_neg_of_pos h (place_pos x.exp)⟩

/-- A quotient is negative when the signs of its operands differ. -/
theorem value_div_value_lt_zero (hx : x.coeff ≠ 0) (hy : y.coeff ≠ 0) :
    x.value / y.value < 0 ↔ ((x.coeff < 0 : Bool) != (y.coeff < 0 : Bool)) = true := by
  have hx' := mt value_eq_zero.1 hx
  have hy' := mt value_eq_zero.1 hy
  rw [div_neg_iff, bne_iff_ne, ne_eq, decide_eq_decide, ← value_lt_zero, ← value_lt_zero]
  grind

/-- The quotient of numbers other than zero is the rounded exact quotient when the power of ten of
its digits is available. -/
theorem div_eq_of_roundsTo (hx : x.coeff ≠ 0) (hy : y.coeff ≠ 0)
    (hrange : minExp ≤ (x.quotient y).2 ∧ (x.quotient y).2 ≤ maxExp)
    (h : RoundsTo (x.value / y.value) d.value) : x.div y = .ok d := by
  have hsign := value_div_value_lt_zero hx hy
  rw [div_of_mem hx hy hrange]
  refine congrArg Except.ok (round_eq_of_roundsTo ?_)
  split
  · next hneg =>
    have habs : |x.value / y.value| = -(x.value / y.value) := abs_of_neg (hsign.2 hneg)
    have hdigits := (roundsTo_quotient hx hy (habs ▸ h.neg)).neg
    simpa using hdigits
  · next hpos =>
    have habs : |x.value / y.value| = x.value / y.value :=
      abs_of_nonneg (not_lt.1 fun hlt => hpos (hsign.1 hlt))
    have hdigits := roundsTo_quotient hx hy (habs.symm ▸ h)
    simpa using hdigits

/-- Whether the power of ten of the digits of a quotient is available. -/
def QuotientFits (x y : Decimal) : Prop :=
  minExp ≤ (x.quotient y).2 ∧ (x.quotient y).2 ≤ maxExp

instance (x y : Decimal) : Decidable (x.QuotientFits y) :=
  inferInstanceAs (Decidable (_ ∧ _))

/-- There is no quotient of a division by zero. -/
theorem div_of_divisor_zero (hy : y.coeff = 0) : x.div y = .error .divisionByZero :=
  if_pos (isZero_iff.2 hy)

/-- Zero is divided into zero. -/
theorem div_of_dividend_zero (hx : x.coeff = 0) (hy : y.coeff ≠ 0) : x.div y = .ok zero := by
  rw [div, if_neg (mt isZero_iff.1 hy), if_pos (isZero_iff.2 hx)]

/-- A quotient fails in one of two ways. -/
theorem div_eq_error_iff {fault : Fault} :
    x.div y = .error fault ↔
      (y.coeff = 0 ∧ fault = .divisionByZero) ∨
        (x.coeff ≠ 0 ∧ y.coeff ≠ 0 ∧ ¬x.QuotientFits y ∧ fault = .overflow "/") := by
  by_cases hy : y.coeff = 0
  · rw [div_of_divisor_zero hy]
    simp [hy, eq_comm]
  by_cases hx : x.coeff = 0
  · rw [div_of_dividend_zero hx hy]
    simp [hx, hy]
  by_cases hfits : x.QuotientFits y
  · rw [div_of_mem hx hy hfits]
    simp [hy, hfits]
  · rw [div_of_not_mem hx hy hfits]
    simp [hx, hy, hfits, eq_comm]

end Normal

/-! ## Correct rounding -/

/-- What the arithmetic of two numbers promises. Wherever the exact result is rounded to a number
that there is, it is rounded correctly. -/
structure CorrectlyRounded (x y : Decimal) : Prop where
  /-- The sum is the rounded exact sum, also when the lower operand is dropped. -/
  sum (d : Decimal) : RoundsTo (x.value + y.value) d.value → x.add y = d
  /-- The difference is the rounded exact difference. -/
  difference (d : Decimal) : RoundsTo (x.value - y.value) d.value → x.sub y = d
  /-- The product has the digits of the rounded exact product. It has its power of ten too unless
  the powers of ten of the operands add up to less than the least one: the power of ten is too high
  by what is missing. -/
  product (d : Decimal) : RoundsTo (x.value * y.value) d.value →
    (x.mul y).coeff = d.coeff ∧ (x.mul y).exp = d.exp + max 0 (minExp - (x.exp + y.exp))
  /-- The quotient is the rounded exact quotient when the power of ten of its digits, twenty or
  twenty-one places behind those of the operands, is available. -/
  quotient (d : Decimal) : y.value ≠ 0 → RoundsTo (x.value / y.value) d.value →
    x.value = 0 ∨ x.QuotientFits y → x.div y = .ok d
  /-- A quotient overflows when that power of ten is not available, and only then. -/
  overflow : x.div y = .error (.overflow "/") ↔
    x.value ≠ 0 ∧ y.value ≠ 0 ∧ ¬x.QuotientFits y
  /-- Division by zero is refused. -/
  divisionByZero : x.div y = .error .divisionByZero ↔ y.value = 0
  /-- In words of 128 bits the operations have the same results, in normal form. -/
  words : addWords? x y = some (x.add y).parts ∧ addWords? x y.neg = some (x.sub y).parts ∧
    mulWords? x y = some (x.mul y).parts ∧ divWords? x y = some ((x.div y).map parts)

/-- The arithmetic of any two numbers is correctly rounded. -/
theorem correctlyRounded (x y : Decimal) : CorrectlyRounded x y where
  sum _ h := add_eq_of_roundsTo h
  difference _ h := sub_eq_of_roundsTo h
  product _ h := mul_eq_of_roundsTo h
  quotient d hy h hfits := by
    have hy' := mt value_eq_zero.2 hy
    by_cases hx : x.coeff = 0
    · rw [value_eq_zero.2 hx, zero_div] at h
      have hzero : RoundsTo 0 zero.value := .inl ⟨rfl, value_eq_zero.2 rfl⟩
      rw [div_of_dividend_zero hx hy', eq_of_value_eq (hzero.unique h)]
    · have hx' := mt value_eq_zero.1 hx
      exact div_eq_of_roundsTo hx hy' (hfits.resolve_left hx') h
  overflow := by
    simp [div_eq_error_iff, value_eq_zero]
  divisionByZero := by
    simp [div_eq_error_iff, value_eq_zero]
  words := ⟨addWords?_eq x y, addWords?_eq x y.neg, mulWords?_eq x y, divWords?_eq x y⟩

/-- A sum half-way between two numbers of seven digits goes to the even one, with a carry into an
eighth digit, and the digit one at the end of the digits of two thirds makes its last digit a seven.
-/
theorem correctlyRounded_of_tie :
    ((⟨9999999, 0, by decide⟩ : Decimal).add ⟨5, -1, by decide⟩ = ⟨1, 7, by decide⟩) ∧
      (⟨2, 0, by decide⟩ : Decimal).div ⟨3, 0, by decide⟩ = .ok ⟨6666667, -7, by decide⟩ := by
  constructor
  · refine (correctlyRounded _ _).sum _ (.inr ⟨0, 10 ^ 7, ⟨?_, ?_, ?_, fun _ => ?_⟩, ?_⟩)
    · norm_num [value]
    · norm_num [value]
    · norm_num [value]
    · decide
    · norm_num [value]
  · refine (correctlyRounded _ _).quotient _ ?_
      (.inr ⟨-7, 6666667, ⟨?_, ?_, ?_, fun htie => ?_⟩, ?_⟩) (.inr ?_)
    · norm_num [value]
    · norm_num [value]
    · norm_num [value]
    · norm_num [value]
    · norm_num [value] at htie
    · norm_num [value]
    · decide

/-- The product of `5 * 10 ^ -1073741824` and `2 * 10 ^ -1073741825` is a number, and the operands'
powers of ten add up to one less than the least one. -/
theorem mul_ne_rounded :
    let x : Decimal := ⟨5, -1073741824, by decide⟩
    let y : Decimal := ⟨2, -1073741825, by decide⟩
    let d : Decimal := ⟨1, -2147483648, by decide⟩
    RoundsTo (x.value * y.value) d.value ∧ x.mul y ≠ d := by
  intro x y d
  have hvalue : x.value * y.value = d.value := by
    have hplace := place_succ (-2147483649)
    rw [value_mul_value]
    change ((5 * 2 : Int) : ℚ) * 10 ^ (-2147483649 : Int) =
      ((1 : Int) : ℚ) * 10 ^ (-2147483649 + 1 : Int)
    rw [hplace]
    generalize (10 : ℚ) ^ (-2147483649 : Int) = place
    push_cast
    ring
  exact ⟨hvalue ▸ roundsTo_value d, by decide⟩

end Narrative.Decimal
