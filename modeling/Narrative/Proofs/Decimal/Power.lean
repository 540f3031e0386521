import Mathlib.Data.Nat.Prime.Basic
import Narrative.Proofs.Decimal.Arithmetic

/-!
# Exact powers

A power is computed by squaring the base and multiplying up the squares that the exponent asks for.
When the whole power is a number, then so are all lower powers, and each of them is computed without
rounding: its digits do not end in a zero and its power of ten is between zero and that of the whole
power. The one square that may be rounded is the last, and it is not used. A negative power divides
one by the opposite power, and is the rounded exact quotient wherever that division has a result.
-/

namespace Narrative.Decimal

variable {x y z d p : Decimal} {m n : Nat}

/-! ## Powers that are numbers -/

/-- Whether the power has at most seven digits and an available power of ten. -/
def PowerFits (x : Decimal) (n : Nat) : Prop :=
  x.coeff.natAbs ^ n < tenTo precision ∧ minExp ≤ n * x.exp ∧ n * x.exp ≤ maxExp

instance (x : Decimal) (n : Nat) : Decidable (x.PowerFits n) :=
  inferInstanceAs (Decidable (_ ∧ _ ∧ _))

/-- Digits that do not end in a zero have powers that do not either, as ten is not a square. -/
theorem pow_mod_ten {c : Nat} (hc : c % 10 ≠ 0) (n : Nat) : c ^ n % 10 ≠ 0 := by
  intro hmod
  have hten : 10 ∣ c ^ n := Nat.dvd_of_mod_eq_zero hmod
  have htwo : 2 ∣ c := Nat.prime_two.dvd_of_dvd_pow ((by decide : 2 ∣ 10).trans hten)
  have hfive : 5 ∣ c := Nat.prime_five.dvd_of_dvd_pow ((by decide : 5 ∣ 10).trans hten)
  omega

/-- A power that fits is normal. -/
theorem PowerFits.isNormal (h : x.PowerFits n) : IsNormal (x.coeff ^ n) (n * x.exp) := by
  obtain ⟨hdigits, hmin, hmax⟩ := h
  by_cases hx : x.coeff = 0
  · rw [eq_zero_of_coeff hx]
    cases n with
    | zero => decide
    | succ n => exact .inl ⟨zero_pow (Nat.succ_ne_zero n), mul_zero _⟩
  · right
    rw [Int.natAbs_pow]
    exact ⟨pow_mod_ten (x.normal_of_ne_zero hx).1 n, hdigits, hmin, hmax⟩

/-- The power as a number. -/
def power (x : Decimal) (n : Nat) (h : x.PowerFits n) : Decimal :=
  ⟨x.coeff ^ n, n * x.exp, h.isNormal⟩

/-- A power has the power of the coefficient, and the exponent as many times. -/
theorem value_pow (x : Decimal) (n : Nat) :
    x.value ^ n = (x.coeff ^ n : Int) * 10 ^ (n * x.exp) := by
  rw [value, mul_pow, ← zpow_natCast (10 ^ x.exp : ℚ), ← zpow_mul, mul_comm x.exp, Int.cast_pow]

/-- The power has its value. -/
theorem value_power (h : x.PowerFits n) : (x.power n h).value = x.value ^ n :=
  (value_pow x n).symm

/-- A power that is a number has at most seven digits and an available power of ten. -/
theorem powerFits_of_value_eq (h : d.value = x.value ^ n) : x.PowerFits n := by
  by_cases hx : x.coeff = 0
  · have hexp : (n : Int) * x.exp = 0 := by
      rw [eq_zero_of_coeff hx]
      exact mul_zero _
    rw [PowerFits, hx, hexp]
    exact ⟨(pow_le_one₀ (Nat.zero_le _) (by decide)).trans_lt (by decide), by decide, by decide⟩
  · have hlast := pow_mod_ten (x.normal_of_ne_zero hx).1 n
    rw [← Int.natAbs_pow] at hlast
    have hd : d.coeff ≠ 0 := by
      apply mt value_eq_zero.2
      rw [h]
      exact pow_ne_zero n (mt value_eq_zero.1 hx)
    rw [value_pow, value] at h
    obtain ⟨hcoeff, hexp⟩ := eq_of_mul_place_eq (emod_ten_ne_zero hd) (by omega) h
    rw [PowerFits, ← Int.natAbs_pow, ← hcoeff, ← hexp]
    exact ⟨d.natAbs_coeff_lt, d.exp_mem⟩

/-- A power fits just when a number has its value. -/
theorem powerFits_iff : x.PowerFits n ↔ ∃ d : Decimal, d.value = x.value ^ n := by
  constructor
  · intro h
    exact ⟨x.power n h, value_power h⟩
  · rintro ⟨d, h⟩
    exact powerFits_of_value_eq h

/-- Only the power itself has its value. -/
theorem eq_power (h : x.PowerFits n) (hd : d.value = x.value ^ n) : d = x.power n h :=
  eq_of_value_eq (hd.trans (value_power h).symm)

/-- Lower powers of a number have no more digits, and a power of ten closer to zero. -/
theorem PowerFits.mono (h : x.PowerFits n) (hle : m ≤ n) : x.PowerFits m := by
  obtain ⟨hdigits, hmin, hmax⟩ := h
  have hcast : (m : Int) ≤ n := Int.ofNat_le.2 hle
  have hbetween : min 0 (n * x.exp) ≤ m * x.exp ∧ m * x.exp ≤ max 0 (n * x.exp) := by
    rcases Int.le_total 0 x.exp with hexp | hexp
    · have hlower := Int.mul_nonneg (Int.natCast_nonneg m) hexp
      have hupper := Int.mul_le_mul_of_nonneg_right hcast hexp
      omega
    · have hlower := Int.mul_le_mul_of_nonpos_right hcast hexp
      have hupper := Int.mul_nonpos_of_nonneg_of_nonpos (Int.natCast_nonneg m) hexp
      omega
  refine ⟨?_, ?_⟩
  · rcases Nat.eq_zero_or_pos x.coeff.natAbs with hzero | hpos
    · rw [hzero]
      exact (pow_le_one₀ (Nat.zero_le _) (by decide)).trans_lt (by decide)
    · exact (Nat.pow_le_pow_right hpos hle).trans_lt hdigits
  · simp only [minExp, maxExp] at *
    omega

/-! ## Squaring and multiplying -/

/-- The product of two powers is not rounded when the power that it is fits. -/
theorem PowerFits.mul_value (h : x.PowerFits (m + n)) (hy : y.value = x.value ^ m)
    (hz : z.value = x.value ^ n) : (y.mul z).value = x.value ^ (m + n) := by
  have hyx := eq_power (h.mono (Nat.le_add_right m n)) hy
  have hzx := eq_power (h.mono (Nat.le_add_left n m)) hz
  have hproduct : y.value * z.value = (x.power (m + n) h).value := by
    rw [value_power, hy, hz, pow_add]
  have hexp : y.exp + z.exp = (x.power (m + n) h).exp := by
    rw [hyx, hzx]
    simp only [power, Nat.cast_add]
    ring
  have hround : RoundsTo (y.value * z.value) (x.power (m + n) h).value := by
    rw [hproduct]
    exact roundsTo_value _
  obtain ⟨hcoeff, hexp'⟩ := mul_eq_of_roundsTo hround
  have hmin := (x.power (m + n) h).exp_mem.1
  rw [hexp, max_eq_left (by omega), add_zero] at hexp'
  rw [← value_power h, value, value, hcoeff, hexp']

/-- The loop has multiplied up the power `m` and goes on with the power `b` of the number as its
base. It needs no base when no digits of the exponent are left, where the base is a square too
much. -/
theorem powerLoop_value {budget k b : Nat} {acc base : Decimal} (hk : k < 2 ^ budget)
    (h : x.PowerFits (m + b * k)) (hacc : acc.value = x.value ^ m)
    (hbase : 0 < k → base.value = x.value ^ b) :
    (powerLoop budget k acc base).value = x.value ^ (m + b * k) := by
  induction budget generalizing m k b acc base with
  | zero =>
    obtain rfl : k = 0 := by omega
    rw [powerLoop, Nat.mul_zero, Nat.add_zero]
    exact hacc
  | succ budget ih =>
    rw [powerLoop]
    split
    · next hzero =>
      rw [hzero, Nat.mul_zero, Nat.add_zero]
      exact hacc
    · next hne =>
      have hpos : 0 < k := Nat.pos_of_ne_zero hne
      have hsplit : m + b * k = m + b * (k % 2) + (b + b) * (k / 2) := by
        rw [Nat.add_assoc, ← Nat.two_mul, Nat.mul_comm 2 b, Nat.mul_assoc, ← Nat.mul_add,
          Nat.mod_add_div]
      rw [hsplit] at h ⊢
      refine ih (by omega) h ?_ fun hhalf => ?_
      · have hacc' := h.mono (Nat.le_add_right _ _)
        split
        · next hodd =>
          rw [hodd, Nat.mul_one] at hacc' ⊢
          exact hacc'.mul_value hacc (hbase hpos)
        · next heven =>
          obtain heven : k % 2 = 0 := by omega
          rw [heven, Nat.mul_zero, Nat.add_zero]
          exact hacc
      · -- another digit is left, so that the square is no higher than the whole power
        have hsquare : b + b ≤ m + b * (k % 2) + (b + b) * (k / 2) :=
          (Nat.le_mul_of_pos_right _ hhalf).trans (Nat.le_add_left _ _)
        exact (h.mono hsquare).mul_value (hbase hpos) (hbase hpos)

/-- What the loop makes of an exponent in range when the power is a number. -/
theorem powerLoop_eq (hn : n ≤ maxPower) (hd : d.value = x.value ^ n) :
    powerLoop 10 n one x = d := by
  have hrange : n < 2 ^ 10 := Nat.lt_of_le_of_lt hn (by decide)
  have hone : one.value = x.value ^ 0 := by
    rw [pow_zero, value]
    simp [one]
  have hfits : x.PowerFits (0 + 1 * n) := by
    rw [Nat.zero_add, Nat.one_mul]
    exact powerFits_of_value_eq hd
  have hloop := powerLoop_value hrange hfits hone fun _ => (pow_one _).symm
  rw [Nat.zero_add, Nat.one_mul, ← hd] at hloop
  exact eq_of_value_eq hloop

/-! ## Powers and their reciprocals -/

/-- An exponent beyond the greatest is an overflow. -/
theorem pow_of_excessive {k : Int} (hk : maxPower < k.natAbs) : x.pow k = .error (.overflow "^") :=
  if_pos hk

/-- An exponent that is not negative is counted down by the loop. -/
theorem pow_natCast (hn : n ≤ maxPower) : x.pow n = .ok (powerLoop 10 n one x) := by
  rw [pow, Int.natAbs_natCast, if_neg (by omega)]
  exact if_neg (by omega)

/-- A negative one divides by what the loop gives. -/
theorem pow_neg_natCast (hpos : 0 < n) (hn : n ≤ maxPower) :
    x.pow (-n) = one.div (powerLoop 10 n one x) := by
  rw [pow, Int.natAbs_neg, Int.natAbs_natCast, if_neg (by omega)]
  exact if_pos (by omega)

/-- A quotient that has a result stands for the rounded exact quotient. -/
theorem exists_div_standsFor (hx : x.coeff ≠ 0) (hy : y.coeff ≠ 0) (hfits : x.QuotientFits y) :
    ∃ r v, x.div y = .ok r ∧ RoundsTo (x.value / y.value) v ∧ r.StandsFor v := by
  have hsign := value_div_value_lt_zero hx hy
  obtain ⟨q, hq, -⟩ := existsUnique_roundsTo |x.value / y.value|
  have hdigits := roundsTo_quotient hx hy hq
  rw [div_of_mem hx hy hfits]
  split
  · next hneg =>
    obtain ⟨v, hv, hstands⟩ := exists_roundsTo_round (-((x.quotient y).1 : Int)) hfits.1
    have habs : |x.value / y.value| = -(x.value / y.value) := abs_of_neg (hsign.2 hneg)
    have hvalue : v = -q := by
      apply hv.unique
      push_cast
      rw [neg_mul]
      exact hdigits.neg
    refine ⟨_, v, rfl, ?_, hstands⟩
    rw [hvalue, ← neg_neg (x.value / y.value), ← habs]
    exact hq.neg
  · next hpos =>
    obtain ⟨v, hv, hstands⟩ := exists_roundsTo_round ((x.quotient y).1 : Int) hfits.1
    have habs : |x.value / y.value| = x.value / y.value :=
      abs_of_nonneg (not_lt.1 fun hlt => hpos (hsign.1 hlt))
    have hvalue : v = q := by
      apply hv.unique
      push_cast
      exact hdigits
    refine ⟨_, v, rfl, ?_, hstands⟩
    rw [hvalue, ← habs]
    exact hq

/-- One has the value one. -/
theorem one_value : one.value = 1 := by
  simp [value, one]

/-- One is not zero. -/
theorem one_coeff_ne_zero : one.coeff ≠ 0 :=
  one_ne_zero

/-- A number other than zero that is not the least power of ten is at least twice that power. -/
theorem two_mul_place_le_abs_value (hp : p.coeff ≠ 0) (hleast : |p.value| ≠ 10 ^ minExp) :
    2 * 10 ^ minExp ≤ |p.value| := by
  have hone : 1 ≤ p.coeff.natAbs := Int.natAbs_pos.2 hp
  have hmin := p.exp_mem.1
  have hpos := place_pos p.exp
  rw [abs_value] at hleast ⊢
  rcases hmin.eq_or_lt with hexp | hlt
  · rw [← hexp] at hleast ⊢
    have htwo : 2 ≤ p.coeff.natAbs := by
      refine Nat.lt_of_le_of_ne hone fun heq => hleast ?_
      rw [← heq, Nat.cast_one, one_mul]
    exact mul_le_mul_of_nonneg_right (by exact_mod_cast htwo) (place_pos minExp).le
  · have hstep : (10 : ℚ) ^ (minExp + 1) ≤ 10 ^ p.exp :=
      zpow_le_zpow_right₀ (by norm_num) (by omega)
    have hcast : (1 : ℚ) ≤ p.coeff.natAbs := by exact_mod_cast hone
    have hwide := mul_le_mul_of_nonneg_right hcast hpos.le
    rw [place_succ] at hstep
    linarith [place_pos minExp]

/-- One has a quotient by a number unless the power of ten of the number is close to the greatest
one: the quotient is computed to twenty places, and to one more when they leave a remainder. -/
theorem one_quotientFits_iff :
    one.QuotientFits p ↔
      p.exp ≤ 2147483627 ∨ p.exp = 2147483628 ∧ tenTo quotientScale % p.coeff.natAbs = 0 := by
  have hexp := p.exp_mem
  have hnum : one.coeff.natAbs * tenTo quotientScale = tenTo quotientScale := Nat.one_mul _
  have hplaces : one.exp - p.exp - quotientScale = -p.exp - 20 := by
    rw [quotientScale, show one.exp = 0 from rfl]
    omega
  rw [QuotientFits, quotient, quotientDigits, hnum, hplaces]
  simp only [minExp, maxExp] at *
  split
  · omega
  · omega

/-- One divided by a number is a number when that division has a result, unless it is one divided by
the least power of ten. -/
theorem exists_reciprocal (hp : p.coeff ≠ 0) (hfits : one.QuotientFits p)
    (hleast : |p.value| ≠ 10 ^ minExp) :
    ∃ d : Decimal, one.div p = .ok d ∧ RoundsTo (1 / p.value) d.value := by
  obtain ⟨r, v, hdiv, hround, hstands⟩ := exists_div_standsFor one_coeff_ne_zero hp hfits
  rw [one_value] at hround
  refine ⟨r, hdiv, ?_⟩
  have hhalf : |1 / p.value| ≤ (5 : Int) * 10 ^ maxExp := by
    have hdouble := two_mul_place_le_abs_value hp hleast
    have hplace : (10 : ℚ) ^ minExp * 10 ^ maxExp * 10 = 1 := by
      rw [← zpow_add₀ (by norm_num), ← place_succ]
      exact zpow_zero 10
    rw [abs_div, abs_one, div_le_iff₀ (abs_pos.2 (mt value_eq_zero.1 hp))]
    have hwide := mul_le_mul_of_nonneg_left hdouble (place_pos maxExp).le
    push_cast
    linarith
  have hfive : RoundsTo ((5 : Int) * 10 ^ maxExp) ((5 : Int) * 10 ^ maxExp) :=
    roundsTo_self (by decide)
  have hbelow : ((5 : Int) : ℚ) * 10 ^ maxExp < 10 ^ (maxExp + 1) := by
    rw [place_succ]
    push_cast
    linarith [place_pos maxExp]
  rw [hstands.value_eq ((hround.abs_le_of_abs_le hfive hhalf).trans_lt hbelow)]
  exact hround

/-- The least power of ten with a sign. -/
theorem eq_of_abs_value_eq_least (hleast : |p.value| = 10 ^ minExp) :
    p = ⟨1, minExp, by decide⟩ ∨ p = ⟨-1, minExp, by decide⟩ := by
  rcases (abs_eq (place_pos minExp).le).1 hleast with hvalue | hvalue
  · left
    apply eq_of_value_eq
    rw [hvalue, value]
    simp
  · right
    apply eq_of_value_eq
    rw [hvalue, value]
    simp

/-- The greatest power of ten stands for one divided by the least power of ten. -/
theorem div_least (hleast : |p.value| = 10 ^ minExp) :
    one.div p = .ok (if p.value < 0 then ⟨-1, maxExp, by decide⟩ else ⟨1, maxExp, by decide⟩) := by
  simp only [value_lt_zero]
  rcases eq_of_abs_value_eq_least hleast with rfl | rfl
  · decide
  · decide

/-- What the powers of a number promise. -/
structure PowersAreExact (x : Decimal) : Prop where
  /-- A power that is a number is computed without any rounding. -/
  exact (n : Nat) (d : Decimal) : n ≤ maxPower → d.value = x.value ^ n → x.pow n = .ok d
  /-- It is a number just when it has at most seven digits and an available power of ten. -/
  fits (n : Nat) : x.PowerFits n ↔ ∃ d : Decimal, d.value = x.value ^ n
  /-- A negative power is one divided by such a power, rounded correctly when that division has a
  result and is not by the least power of ten. -/
  reciprocal (n : Nat) (p : Decimal) : 0 < n → n ≤ maxPower → x.value ≠ 0 →
    p.value = x.value ^ n → one.QuotientFits p → |p.value| ≠ 10 ^ minExp →
    ∃ d : Decimal, x.pow (-n) = .ok d ∧ RoundsTo (1 / x.value ^ n) d.value
  /-- One divided by the least power of ten is no number. The greatest power of ten stands for
  it. -/
  least (n : Nat) (p : Decimal) : 0 < n → n ≤ maxPower → p.value = x.value ^ n →
    |p.value| = 10 ^ minExp →
    x.pow (-n) = .ok (if p.value < 0 then ⟨-1, maxExp, by decide⟩ else ⟨1, maxExp, by decide⟩)
  /-- When that division has no result there is an overflow. -/
  quotientOverflow (n : Nat) (p : Decimal) : 0 < n → n ≤ maxPower → x.value ≠ 0 →
    p.value = x.value ^ n → ¬one.QuotientFits p → x.pow (-n) = .error (.overflow "/")
  /-- It has one unless the power of ten of the divisor is close to the greatest one. -/
  quotientFits (p : Decimal) : one.QuotientFits p ↔
    p.exp ≤ 2147483627 ∨ p.exp = 2147483628 ∧ tenTo quotientScale % p.coeff.natAbs = 0
  /-- Zero has no negative powers. -/
  divisionByZero (n : Nat) : 0 < n → n ≤ maxPower → x.value = 0 →
    x.pow (-n) = .error .divisionByZero
  /-- Exponents beyond 999 are refused. -/
  overflow (k : Int) : maxPower < k.natAbs → x.pow k = .error (.overflow "^")

/-- The powers of every number are exact. -/
theorem powersAreExact (x : Decimal) : PowersAreExact x where
  exact n d hn hd := by
    rw [pow_natCast hn, powerLoop_eq hn hd]
  fits n := powerFits_iff
  reciprocal n p hpos hn hx hp hfits hleast := by
    have hvalue : p.value ≠ 0 := hp ▸ pow_ne_zero n hx
    rw [pow_neg_natCast hpos hn, powerLoop_eq hn hp, ← hp]
    exact exists_reciprocal (mt value_eq_zero.2 hvalue) hfits hleast
  least n p hpos hn hp hleast := by
    rw [pow_neg_natCast hpos hn, powerLoop_eq hn hp]
    exact div_least hleast
  quotientOverflow n p hpos hn hx hp hfits := by
    have hvalue : p.value ≠ 0 := hp ▸ pow_ne_zero n hx
    rw [pow_neg_natCast hpos hn, powerLoop_eq hn hp]
    exact div_of_not_mem one_coeff_ne_zero (mt value_eq_zero.2 hvalue) hfits
  quotientFits p := one_quotientFits_iff
  divisionByZero n hpos hn hx := by
    have hzero : zero.value = x.value ^ n := by
      rw [hx, zero_pow hpos.ne']
      exact value_eq_zero.2 rfl
    rw [pow_neg_natCast hpos hn, powerLoop_eq hn hzero]
    exact div_of_divisor_zero rfl
  overflow k hk := pow_of_excessive hk

/-- The square of `2.5` and its reciprocal. -/
example : (⟨25, -1, by decide⟩ : Decimal).pow 2 = .ok ⟨625, -2, by decide⟩ ∧
    (⟨25, -1, by decide⟩ : Decimal).pow (-2) = .ok ⟨16, -2, by decide⟩ := by
  decide

/-- The reciprocal of the greatest power of ten is a number, and the twenty places to which it is
computed are not available. -/
theorem reciprocal_overflows :
    let x : Decimal := ⟨1, maxExp, by decide⟩
    let d : Decimal := ⟨1, -maxExp, by decide⟩
    x.value ≠ 0 ∧ x.value = x.value ^ 1 ∧ RoundsTo (1 / x.value ^ 1) d.value ∧
      x.pow (-1) = .error (.overflow "/") := by
  intro x d
  have hvalue : 1 / x.value ^ 1 = d.value := by
    change 1 / (((1 : Int) : ℚ) * 10 ^ maxExp) ^ 1 = ((1 : Int) : ℚ) * 10 ^ (-maxExp)
    rw [zpow_neg]
    simp
  refine ⟨mt value_eq_zero.1 (by decide), (pow_one _).symm, ?_, by decide⟩
  rw [hvalue]
  exact roundsTo_value d

end Narrative.Decimal
