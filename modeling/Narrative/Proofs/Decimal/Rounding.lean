import Mathlib.Algebra.Order.Field.Power
import Mathlib.Data.Int.Log
import Mathlib.Data.Rat.Floor
import Mathlib.Tactic.Linarith
import Mathlib.Tactic.NormNum
import Mathlib.Tactic.Positivity
import Mathlib.Tactic.Ring
import Narrative.Proofs.Decimal.Plain

/-!
# Rounding to seven significant digits

The number an exact rational is rounded to is defined without the digits it is computed from: it is
the multiple, nearest to the rational and even at a tie, of the place that leaves the rational seven
digits. There is at most one such number, and rounding keeps the order. The rounding of a
coefficient and a power of ten arrives at it, with its power of ten brought into range. Two
rationals strictly between the same two neighbouring multiples of a place below the seven digits are
rounded alike, and a rational close to a number of seven digits is rounded to it.
-/

namespace Narrative.Decimal

/-! ## The value of a number and its rounding -/

/-- The rational that a number denotes. -/
def value (x : Decimal) : ℚ :=
  x.coeff * 10 ^ x.exp

/-- The multiple `n * 10 ^ e` is nearest to `q`, and `10 ^ e` is the place that leaves `q` seven
digits before the point. At a tie the multiple is even. -/
structure RoundsAt (q : ℚ) (e n : Int) : Prop where
  /-- The place leaves at least seven digits. -/
  lower : 10 ^ 6 * 10 ^ e ≤ |q|
  /-- The place leaves at most seven digits. -/
  upper : |q| < 10 ^ 7 * 10 ^ e
  /-- The multiple is at most half a place away. -/
  near : |q - n * 10 ^ e| ≤ 10 ^ e / 2
  /-- Of two multiples half a place away the even one is taken. -/
  even : |q - n * 10 ^ e| = 10 ^ e / 2 → Even n

/-- The rational `v` is `q` rounded to seven significant digits, a tie going to the even neighbour.
-/
def RoundsTo (q v : ℚ) : Prop :=
  q = 0 ∧ v = 0 ∨ ∃ e n : Int, RoundsAt q e n ∧ v = n * 10 ^ e

section Places

variable {q p v w : ℚ} {e f n m : Int}

/-- A power of ten is above zero. -/
theorem place_pos (e : Int) : (0 : ℚ) < 10 ^ e :=
  zpow_pos (by norm_num) e

/-- The next power is ten times as high. -/
theorem place_succ (e : Int) : (10 : ℚ) ^ (e + 1) = 10 ^ e * 10 :=
  zpow_add_one₀ (by norm_num) e

/-- The power of ten among the rational numbers. -/
theorem cast_tenTo (k : Nat) : ((tenTo k : Nat) : ℚ) = 10 ^ k :=
  Nat.cast_pow 10 k

/-- Powers of ten multiply. -/
theorem place_add (e : Int) (k : Nat) : (10 : ℚ) ^ (e + k) = 10 ^ e * tenTo k := by
  rw [zpow_add₀ (by norm_num), zpow_natCast, cast_tenTo]

/-- Powers of ten are ordered like their exponents. -/
theorem place_lt_place : (10 : ℚ) ^ e < 10 ^ f ↔ e < f :=
  zpow_lt_zpow_iff_right₀ (by norm_num)

/-- Zero is rounded at no place. -/
theorem RoundsAt.ne_zero (h : RoundsAt q e n) : q ≠ 0 := by
  rintro rfl
  have hlower := h.lower
  rw [abs_zero] at hlower
  linarith [place_pos e]

/-- The negative number is rounded to the negative. -/
theorem RoundsAt.neg (h : RoundsAt q e n) : RoundsAt (-q) e (-n) := by
  have hdistance : |-q - (-n : Int) * 10 ^ e| = |q - n * 10 ^ e| := by
    rw [← abs_neg]
    push_cast
    ring_nf
  refine ⟨by rw [abs_neg]; exact h.lower, by rw [abs_neg]; exact h.upper, ?_, ?_⟩
  · rw [hdistance]
    exact h.near
  · rw [hdistance]
    exact fun htie => (h.even htie).neg

/-- Rounding does not depend on the sign. -/
theorem RoundsTo.neg (h : RoundsTo q v) : RoundsTo (-q) (-v) := by
  rcases h with ⟨rfl, rfl⟩ | ⟨e, n, h, rfl⟩
  · exact .inl ⟨neg_zero, neg_zero⟩
  · exact .inr ⟨e, -n, h.neg, by push_cast; ring⟩

/-! ## There is one rounding -/

/-- A number is rounded at one place only. -/
theorem RoundsAt.place_le (h : RoundsAt q e n) (k : RoundsAt q f m) : e ≤ f := by
  by_contra hlt
  have hstep : (10 : ℚ) ^ (f + 1) ≤ 10 ^ e := zpow_le_zpow_right₀ (by norm_num) (by omega)
  rw [place_succ] at hstep
  linarith [h.lower, k.upper]

/-- Of two neighbouring multiples at the same distance only one is even. -/
theorem RoundsAt.le (h : RoundsAt q e n) (k : RoundsAt q e m) : m ≤ n := by
  by_contra hlt
  have hpos := place_pos e
  have hgap : (n : ℚ) + 1 ≤ m := by exact_mod_cast (by omega : n + 1 ≤ m)
  have hwide : ((n : ℚ) + 1) * 10 ^ e ≤ m * 10 ^ e := mul_le_mul_of_nonneg_right hgap hpos.le
  have hbelow := (abs_le.1 h.near).2
  have habove := (abs_le.1 k.near).1
  have heven : Even n := by
    refine h.even (le_antisymm h.near ?_)
    exact le_trans (by linarith) (le_abs_self _)
  have heven' : Even m := by
    refine k.even (le_antisymm k.near ?_)
    exact le_trans (by linarith) (neg_le_abs _)
  have hnear : (m : ℚ) ≤ n + 1 := by
    refine le_of_mul_le_mul_right ?_ hpos
    linarith
  have hsucc : m = n + 1 := le_antisymm (by exact_mod_cast hnear) (by omega)
  rw [hsucc] at heven'
  exact Int.even_add_one.1 heven' heven

/-- A rational is rounded to at most one number. -/
theorem RoundsTo.unique (h : RoundsTo q v) (k : RoundsTo q w) : v = w := by
  rcases h with ⟨rfl, rfl⟩ | ⟨e, n, h, rfl⟩
  · rcases k with ⟨-, rfl⟩ | ⟨f, m, k, rfl⟩
    · rfl
    · exact absurd rfl k.ne_zero
  · rcases k with ⟨rfl, rfl⟩ | ⟨f, m, k, rfl⟩
    · exact absurd rfl h.ne_zero
    · obtain rfl : e = f := le_antisymm (h.place_le k) (k.place_le h)
      rw [le_antisymm (k.le h) (h.le k)]

/-! ## Rounding keeps the order -/

/-- A rounded multiple has at most seven digits, or is the next power of ten. -/
theorem RoundsAt.abs_multiple_le (h : RoundsAt q e n) : |n| ≤ 10 ^ 7 := by
  have hpos := place_pos e
  have htriangle : |(n : ℚ)| * 10 ^ e ≤ |q| + |q - n * 10 ^ e| := by
    rw [← abs_of_pos hpos, ← abs_mul, abs_of_pos hpos, abs_sub_comm]
    linarith [abs_sub_abs_le_abs_sub ((n : ℚ) * 10 ^ e) q]
  have hwide : |(n : ℚ)| < 10 ^ 7 + 1 := by
    apply lt_of_mul_lt_mul_right _ hpos.le
    linarith [h.upper, h.near]
  exact Int.lt_add_one_iff.1 (by exact_mod_cast hwide)

/-- The rounded multiple of a positive rational has at least seven digits. -/
theorem RoundsAt.le_multiple (h : RoundsAt q e n) (hq : 0 < q) : 10 ^ 6 ≤ n := by
  have hpos := place_pos e
  have hlower := h.lower
  have hbelow := (abs_le.1 h.near).2
  rw [abs_of_pos hq] at hlower
  have hwide : (10 : ℚ) ^ 6 < n + 1 := by
    apply lt_of_mul_lt_mul_right _ hpos.le
    linarith
  exact Int.lt_add_one_iff.1 (by exact_mod_cast hwide)

/-- Of two positive rationals the lower one is not rounded to a higher multiple. -/
theorem RoundsAt.mono (h : RoundsAt q e n) (k : RoundsAt p f m) (hq : 0 < q) (hle : q ≤ p) :
    (n : ℚ) * 10 ^ e ≤ m * 10 ^ f := by
  have hp : 0 < p := hq.trans_le hle
  rcases lt_trichotomy e f with hlt | rfl | hgt
  · have hn : (n : ℚ) ≤ 10 ^ 7 := by exact_mod_cast (le_abs_self n).trans h.abs_multiple_le
    have hm : (10 : ℚ) ^ 6 ≤ m := by exact_mod_cast k.le_multiple hp
    have hstep : (10 : ℚ) ^ (e + 1) ≤ 10 ^ f := zpow_le_zpow_right₀ (by norm_num) (by omega)
    rw [place_succ] at hstep
    have hleft := mul_le_mul_of_nonneg_right hn (place_pos e).le
    have hright := mul_le_mul_of_nonneg_right hm (place_pos f).le
    linarith
  · have hpos := place_pos e
    apply mul_le_mul_of_nonneg_right _ hpos.le
    by_contra hgap
    have hsucc : (m : ℚ) + 1 ≤ n := by
      exact_mod_cast Int.add_one_le_iff.2 (by exact_mod_cast not_le.1 hgap)
    have hwide := mul_le_mul_of_nonneg_right hsucc hpos.le
    have hbelow := (abs_le.1 h.near).1
    have habove := (abs_le.1 k.near).2
    -- only a tie leaves room between them, and then they are one and the same
    obtain rfl : q = p := by linarith
    exact hgap (by exact_mod_cast k.le h)
  · have hlower := h.lower
    have hupper := k.upper
    have hstep : (10 : ℚ) ^ (f + 1) ≤ 10 ^ e := zpow_le_zpow_right₀ (by norm_num) (by omega)
    rw [place_succ] at hstep
    rw [abs_of_pos hq] at hlower
    rw [abs_of_pos hp] at hupper
    linarith

/-- A number that is not negative is rounded to one that is not. -/
theorem RoundsTo.nonneg (h : RoundsTo q v) (hq : 0 ≤ q) : 0 ≤ v := by
  rcases h with ⟨-, rfl⟩ | ⟨e, n, h, rfl⟩
  · exact le_rfl
  · have hn := h.le_multiple (lt_of_le_of_ne hq h.ne_zero.symm)
    have hn' : (0 : ℚ) ≤ n := by exact_mod_cast (show (0 : Int) ≤ n by omega)
    exact mul_nonneg hn' (place_pos e).le

/-- Rounding keeps the order of numbers above zero. -/
theorem RoundsTo.mono_of_pos (h : RoundsTo q v) (k : RoundsTo p w) (hq : 0 < q) (hle : q ≤ p) :
    v ≤ w := by
  rcases h with ⟨rfl, -⟩ | ⟨e, n, h, rfl⟩
  · exact absurd hq (lt_irrefl _)
  rcases k with ⟨rfl, -⟩ | ⟨f, m, k, rfl⟩
  · exact absurd (hq.trans_le hle) (lt_irrefl _)
  exact h.mono k hq hle

/-- Rounding keeps the order. -/
theorem RoundsTo.mono (h : RoundsTo q v) (k : RoundsTo p w) (hle : q ≤ p) : v ≤ w := by
  rcases lt_or_ge 0 q with hq | hq
  · exact h.mono_of_pos k hq hle
  rcases lt_or_ge p 0 with hp | hp
  · have hflip := k.neg.mono_of_pos h.neg (neg_pos.2 hp) (neg_le_neg hle)
    linarith
  · have hv := h.neg.nonneg (neg_nonneg.2 hq)
    have hw := k.nonneg hp
    linarith

/-- A bound that is its own rounding bounds the rounding, too. -/
theorem RoundsTo.abs_le_of_abs_le (h : RoundsTo q v) (k : RoundsTo p p) (hle : |q| ≤ p) :
    |v| ≤ p := by
  obtain ⟨hbelow, habove⟩ := abs_le.1 hle
  apply abs_le.2
  constructor
  · exact k.neg.mono h hbelow
  · exact h.mono k habove

/-! ## Every rational has a rounding -/

/-- The nearest integer, even at a tie. -/
theorem exists_nearest (t : ℚ) : ∃ n : Int, |t - n| ≤ 1 / 2 ∧ (|t - n| = 1 / 2 → Even n) := by
  have hle := Int.floor_le t
  have hlt := Int.lt_floor_add_one t
  have hdown : |t - ⌊t⌋| = t - ⌊t⌋ := abs_of_nonneg (by linarith)
  have hup : |t - (⌊t⌋ + 1 : Int)| = ⌊t⌋ + 1 - t := by
    rw [abs_of_nonpos (by push_cast; linarith)]
    push_cast
    ring
  rcases lt_trichotomy (t - ⌊t⌋) (1 / 2) with hhalf | hhalf | hhalf
  · exact ⟨⌊t⌋, by rw [hdown]; exact hhalf.le, fun htie => absurd (hdown ▸ htie) hhalf.ne⟩
  · rcases Int.even_or_odd ⌊t⌋ with heven | hodd
    · exact ⟨⌊t⌋, by rw [hdown]; exact hhalf.le, fun _ => heven⟩
    · exact ⟨⌊t⌋ + 1, by rw [hup]; linarith, fun _ => hodd.add_one⟩
  · refine ⟨⌊t⌋ + 1, by rw [hup]; linarith, fun htie => ?_⟩
    rw [hup] at htie
    linarith

/-- Every rational is rounded to one number. -/
theorem existsUnique_roundsTo (q : ℚ) : ∃! v, RoundsTo q v := by
  refine existsUnique_of_exists_of_unique ?_ fun v w => RoundsTo.unique
  wlog hq : 0 < q generalizing q
  · rcases eq_or_lt_of_le (not_lt.1 hq) with rfl | hneg
    · exact ⟨0, .inl ⟨rfl, rfl⟩⟩
    · obtain ⟨v, hv⟩ := this (-q) (neg_pos.2 hneg)
      exact ⟨-v, neg_neg q ▸ hv.neg⟩
  obtain ⟨e, he⟩ : ∃ e, Int.log 10 q = e + 6 := ⟨Int.log 10 q - 6, by ring⟩
  have hpos := place_pos e
  have hlower : (10 : ℚ) ^ (e + 6) ≤ q := he ▸ Int.zpow_log_le_self (b := 10) (by norm_num) hq
  have hupper : q < (10 : ℚ) ^ (e + 6 + 1) :=
    he ▸ Int.lt_zpow_succ_log_self (b := 10) (by norm_num) q
  obtain ⟨n, hnear, heven⟩ := exists_nearest (q / 10 ^ e)
  have hdistance : |q - n * 10 ^ e| = |q / 10 ^ e - n| * 10 ^ e := by
    rw [← abs_of_pos hpos, ← abs_mul, abs_of_pos hpos, sub_mul, div_mul_cancel₀ _ hpos.ne']
  refine ⟨n * 10 ^ e, .inr ⟨e, n, ⟨?_, ?_, ?_, fun htie => ?_⟩, rfl⟩⟩
  · rw [abs_of_pos hq]
    rw [zpow_add₀ (by norm_num)] at hlower
    exact (mul_comm _ _).trans_le hlower
  · rw [abs_of_pos hq]
    rw [add_assoc, zpow_add₀ (by norm_num)] at hupper
    exact hupper.trans_eq (mul_comm _ _)
  · rw [hdistance]
    linarith [mul_le_mul_of_nonneg_right hnear hpos.le]
  · rw [hdistance] at htie
    exact heven (mul_right_cancel₀ hpos.ne' (by linarith))

/-! ## Neighbouring multiples and close numbers -/

/-- Between two neighbouring multiples of a place all rationals are above the same multiples. -/
theorem mul_place_lt_of_between {j N T : Int} (hp : p < (N + 1) * 10 ^ j)
    (hq : N * (10 : ℚ) ^ j < q) (h : T * 10 ^ j ≤ p) : T * 10 ^ j < q := by
  have hlt : (T : ℚ) < N + 1 := lt_of_mul_lt_mul_right (lt_of_le_of_lt h hp) (place_pos j).le
  have hle : (T : ℚ) ≤ N := by exact_mod_cast Int.lt_add_one_iff.1 (by exact_mod_cast hlt)
  exact lt_of_le_of_lt (mul_le_mul_of_nonneg_right hle (place_pos j).le) hq

/-- Between two neighbouring multiples of a place all rationals are below the same multiples. -/
theorem lt_mul_place_of_between {j N T : Int} (hp : N * (10 : ℚ) ^ j < p)
    (hq : q < (N + 1) * 10 ^ j) (h : p ≤ T * 10 ^ j) : q < T * 10 ^ j := by
  have hlt : (N : ℚ) < T := lt_of_mul_lt_mul_right (lt_of_lt_of_le hp h) (place_pos j).le
  have hle : (N : ℚ) + 1 ≤ T := by exact_mod_cast Int.add_one_le_iff.2 (by exact_mod_cast hlt)
  exact lt_of_lt_of_le hq (mul_le_mul_of_nonneg_right hle (place_pos j).le)

/-- Strictly between two neighbouring multiples of a place below the seven digits all rationals are
rounded alike: the bounds of the rounding and the ties are multiples of that place. -/
theorem RoundsTo.of_between {j N : Int} (hN : 10 ^ 7 ≤ N) (hp : N * (10 : ℚ) ^ j < p)
    (hp' : p < (N + 1) * 10 ^ j) (hq : N * (10 : ℚ) ^ j < q) (hq' : q < (N + 1) * 10 ^ j)
    (h : RoundsTo p v) : RoundsTo q v := by
  have hwide : (10 : ℚ) ^ 7 * 10 ^ j ≤ N * 10 ^ j :=
    mul_le_mul_of_nonneg_right (by exact_mod_cast hN) (place_pos j).le
  have hppos : 0 < p := by linarith [place_pos j]
  have hqpos : 0 < q := by linarith [place_pos j]
  rcases h with ⟨rfl, -⟩ | ⟨e, n, ⟨hlower, hupper, hnear, -⟩, rfl⟩
  · exact absurd hppos (lt_irrefl _)
  rw [abs_of_pos hppos] at hlower hupper
  obtain ⟨k, hk⟩ : ∃ k : Nat, e = j + (k + 1 : Nat) := by
    have hlt : (10 : ℚ) ^ j < 10 ^ e := by linarith
    have := place_lt_place.1 hlt
    exact ⟨(e - j - 1).toNat, by omega⟩
  have hmultiple (a b : Int) : (a : ℚ) * 10 ^ e + b * (10 ^ e / 2) =
      (a * (10 * tenTo k) + b * (5 * tenTo k) : Int) * 10 ^ j := by
    rw [hk, place_add, tenTo_succ]
    push_cast
    ring
  have hbelow (a b : Int) (h : (a : ℚ) * 10 ^ e + b * (10 ^ e / 2) ≤ p) :
      a * 10 ^ e + b * (10 ^ e / 2) < q := by
    rw [hmultiple] at h ⊢
    exact mul_place_lt_of_between hp' hq h
  have habove (a b : Int) (h : p ≤ (a : ℚ) * 10 ^ e + b * (10 ^ e / 2)) :
      q < a * 10 ^ e + b * (10 ^ e / 2) := by
    rw [hmultiple] at h ⊢
    exact lt_mul_place_of_between hp hq' h
  obtain ⟨hleft, hright⟩ := abs_le.1 hnear
  have hlower' := hbelow (10 ^ 6) 0 (by push_cast; linarith)
  have hupper' := habove (10 ^ 7) 0 (by push_cast; linarith)
  have hleft' := hbelow n (-1) (by push_cast; linarith)
  have hright' := habove n 1 (by push_cast; linarith)
  push_cast at hlower' hupper' hleft' hright'
  have hstrict : |q - n * 10 ^ e| < 10 ^ e / 2 := abs_lt.2 ⟨by linarith, by linarith⟩
  refine .inr ⟨e, n, ⟨?_, ?_, hstrict.le, fun htie => absurd htie hstrict.ne⟩, rfl⟩
  · rw [abs_of_pos hqpos]
    linarith
  · rw [abs_of_pos hqpos]
    linarith

/-- The least number of seven digits follows the greatest one of the place below. -/
theorem least_seven_digits_eq (e : Int) :
    ((10 ^ 6 : Int) : ℚ) * 10 ^ e = (10 ^ 7 : Int) * 10 ^ (e - 1) := by
  rw [← sub_add_cancel e 1, place_succ, add_sub_cancel_right]
  push_cast
  ring

/-- A rational within a twentieth of the place of a number of seven digits is rounded to it. Just
below the least such number the place is a tenth. -/
theorem roundsTo_of_close (hlower : 10 ^ 6 ≤ n) (hupper : n < 10 ^ 7)
    (hclose : |q - n * 10 ^ e| < 10 ^ e / 20) : RoundsTo q (n * 10 ^ e) := by
  have hpos := place_pos e
  obtain ⟨hleft, hright⟩ := abs_lt.1 hclose
  have hleast : (10 : ℚ) ^ 6 * 10 ^ e ≤ n * 10 ^ e :=
    mul_le_mul_of_nonneg_right (by exact_mod_cast hlower) hpos.le
  have hqpos : 0 < q := by linarith
  by_cases hplace : (10 : ℚ) ^ 6 * 10 ^ e ≤ q
  · have hgreatest : ((n : ℚ) + 1) * 10 ^ e ≤ 10 ^ 7 * 10 ^ e :=
      mul_le_mul_of_nonneg_right (by exact_mod_cast Int.add_one_le_iff.2 hupper) hpos.le
    refine .inr ⟨e, n, ⟨?_, ?_, by linarith, fun htie => by linarith⟩, rfl⟩
    · rw [abs_of_pos hqpos]
      exact hplace
    · rw [abs_of_pos hqpos]
      linarith
  · have hlt : (n : ℚ) < 10 ^ 6 + 1 := by
      refine lt_of_mul_lt_mul_right ?_ hpos.le
      linarith
    obtain rfl : n = 10 ^ 6 := le_antisymm (Int.lt_add_one_iff.1 (by exact_mod_cast hlt)) hlower
    have htenth : (10 : ℚ) ^ e = 10 ^ (e - 1) * 10 := by
      rw [← place_succ, sub_add_cancel]
    rw [least_seven_digits_eq] at hclose hleft hright ⊢
    refine .inr ⟨e - 1, 10 ^ 7, ⟨?_, ?_, by linarith, fun htie => by linarith⟩, rfl⟩
    · rw [abs_of_pos hqpos]
      push_cast at hleft
      linarith
    · rw [abs_of_pos hqpos]
      linarith

/-! ## Rounding digits -/

/-- A positive coefficient of at most seven digits has seven with enough zeros behind it. -/
theorem exists_seven_digits {c : Nat} (hc : 0 < c) (hlt : c < tenTo precision) :
    ∃ k, k ≤ 6 ∧ tenTo 6 ≤ c * tenTo k ∧ c * tenTo k < tenTo precision := by
  have hcount : 0 < digitCount c := Nat.length_toDigits_pos
  have hle : digitCount c ≤ precision := (digitCount_le_iff (by decide)).2 hlt
  have hdigits := digitCount_mul_tenTo hc (precision - digitCount c)
  have hseven : digitCount (c * tenTo (precision - digitCount c)) = precision := by omega
  refine ⟨precision - digitCount c, ?_, ?_, ?_⟩
  · rw [precision] at hle ⊢
    omega
  · exact tenTo_le_of_lt_digitCount (Nat.mul_pos hc (tenTo_pos _)) (by rw [hseven]; decide)
  · exact (digitCount_le_iff (by decide)).1 hseven.le

/-- Zeros may be moved from the power of ten to the coefficient. -/
theorem mul_place_eq_mul_tenTo (c k : Nat) (e : Int) :
    (c : ℚ) * 10 ^ e = (c * tenTo k : Nat) * 10 ^ (e - k) := by
  have hplace := place_add (e - k) k
  rw [sub_add_cancel] at hplace
  rw [hplace]
  push_cast
  ring

/-- A rational far closer to a number of at most seven digits than its last place is rounded to it.
-/
theorem roundsTo_of_very_close {c : Nat} (hc : 0 < c) (hlt : c < tenTo precision)
    (hclose : |q - c * 10 ^ e| < 10 ^ (e - 6) / 20) : RoundsTo q (c * 10 ^ e) := by
  obtain ⟨k, hk, hlower, hupper⟩ := exists_seven_digits hc hlt
  have hplace : (10 : ℚ) ^ (e - 6) ≤ 10 ^ (e - k) :=
    zpow_le_zpow_right₀ (by norm_num) (by omega)
  rw [mul_place_eq_mul_tenTo c k] at hclose ⊢
  exact roundsTo_of_close (n := (c * tenTo k : Nat)) (by exact_mod_cast hlower)
    (by exact_mod_cast hupper) (lt_of_lt_of_le hclose (by linarith))

/-- The quotient is within half a unit of the number, and even when it is half a unit away. -/
theorem roundHalfEven_near (n drop : Nat) :
    |(n : ℚ) - roundHalfEven n drop * tenTo drop| ≤ tenTo drop / 2 ∧
      (|(n : ℚ) - roundHalfEven n drop * tenTo drop| = tenTo drop / 2 →
        Even (roundHalfEven n drop : Int)) := by
  have hsplit : ((n / tenTo drop : Nat) : ℚ) * tenTo drop + (n % tenTo drop : Nat) = n := by
    exact_mod_cast Nat.div_add_mod' n (tenTo drop)
  have hmod : ((n % tenTo drop : Nat) : ℚ) < tenTo drop := by
    exact_mod_cast Nat.mod_lt n (tenTo_pos drop)
  have hnonneg : (0 : ℚ) ≤ (n % tenTo drop : Nat) := Nat.cast_nonneg _
  simp only [roundHalfEven]
  generalize n % tenTo drop = r at *
  generalize n / tenTo drop = m at *
  split
  · next hup =>
    have hhalf : (tenTo drop : ℚ) ≤ 2 * r := by
      exact_mod_cast (by omega : tenTo drop ≤ 2 * r)
    have hdistance : |(n : ℚ) - (m + 1 : Nat) * tenTo drop| = tenTo drop - r := by
      rw [abs_of_nonpos (by push_cast; linarith)]
      push_cast
      linarith
    rw [hdistance]
    refine ⟨by linarith, fun htie => ?_⟩
    have heq : 2 * r = tenTo drop := by exact_mod_cast (by linarith : (2 : ℚ) * r = tenTo drop)
    rw [Int.even_iff]
    omega
  · next hdown =>
    have hhalf : (2 : ℚ) * r ≤ tenTo drop := by
      exact_mod_cast (by omega : 2 * r ≤ tenTo drop)
    have hdistance : |(n : ℚ) - m * tenTo drop| = r := by
      rw [abs_of_nonneg (by linarith)]
      linarith
    rw [hdistance]
    refine ⟨by linarith, fun htie => ?_⟩
    have heq : 2 * r = tenTo drop := by exact_mod_cast (by linarith : (2 : ℚ) * r = tenTo drop)
    rw [Int.even_iff]
    omega

/-- Dropping all digits but seven rounds at the place of the seventh. -/
theorem roundsAt_roundHalfEven {c drop : Nat} (e : Int) (hlower : tenTo (6 + drop) ≤ c)
    (hupper : c < tenTo (precision + drop)) :
    RoundsAt (c * 10 ^ e) (e + drop) (roundHalfEven c drop) := by
  have hpos := place_pos e
  have habs : |(c : ℚ) * 10 ^ e| = c * 10 ^ e := abs_of_nonneg (by positivity)
  obtain ⟨hnear, heven⟩ := roundHalfEven_near c drop
  have hdistance : |(c : ℚ) * 10 ^ e - (roundHalfEven c drop : Int) * 10 ^ (e + drop)| =
      |(c : ℚ) - roundHalfEven c drop * tenTo drop| * 10 ^ e := by
    rw [← abs_of_pos hpos, ← abs_mul, abs_of_pos hpos, place_add]
    push_cast
    ring_nf
  have hhalf : (10 : ℚ) ^ (e + drop) / 2 = tenTo drop / 2 * 10 ^ e := by
    rw [place_add]
    ring
  refine ⟨?_, ?_, ?_, fun htie => ?_⟩
  · have hle : (10 : ℚ) ^ 6 * tenTo drop ≤ c := by
      rw [tenTo_add] at hlower
      exact_mod_cast hlower
    rw [habs, place_add]
    linarith [mul_le_mul_of_nonneg_right hle hpos.le]
  · have hlt : (c : ℚ) < 10 ^ 7 * tenTo drop := by
      rw [tenTo_add] at hupper
      exact_mod_cast hupper
    rw [habs, place_add]
    linarith [mul_lt_mul_of_pos_right hlt hpos]
  · rw [hdistance, hhalf]
    exact mul_le_mul_of_nonneg_right hnear hpos.le
  · rw [hdistance, hhalf] at htie
    exact heven (mul_right_cancel₀ hpos.ne' htie)

/-- Moving zeros into the power of ten keeps the value. -/
theorem stripZeros_value (budget c : Nat) (e : Int) :
    ((stripZeros budget c e).1 : ℚ) * 10 ^ (stripZeros budget c e).2 = c * 10 ^ e := by
  fun_induction stripZeros budget c e with
  | case1 => rfl
  | case2 budget c e hmod ih =>
    have hc : ((c / 10 : Nat) : ℚ) * 10 = c := by
      exact_mod_cast Nat.div_mul_cancel (Nat.dvd_of_mod_eq_zero hmod)
    rw [ih, place_succ, ← hc]
    ring
  | case3 => rfl

/-- The exponent grows by the zeros that are stripped. -/
theorem stripZeros_exp (budget c : Nat) (e : Int) :
    e ≤ (stripZeros budget c e).2 ∧ (stripZeros budget c e).2 ≤ e + budget := by
  fun_induction stripZeros budget c e with
  | case1 => omega
  | case2 budget c e hmod ih => omega
  | case3 => omega

/-- The zeros that are moved do not depend on the power of ten. -/
theorem stripZeros_add (budget c : Nat) (e j : Int) :
    stripZeros budget c (e + j) =
      ((stripZeros budget c e).1, (stripZeros budget c e).2 + j) := by
  fun_induction stripZeros budget c e with
  | case1 => rfl
  | case2 budget c e hmod ih =>
    rw [stripZeros, if_pos hmod, ← ih]
    congr 1
    omega
  | case3 budget c e hmod => rw [stripZeros, if_neg hmod]

/-- The digits kept and their power of ten are those of the rounded number. -/
theorem roundsTo_roundDigits {c : Nat} (hc : 0 < c) (e : Int) :
    RoundsTo (c * 10 ^ e) ((roundDigits c e).1 * 10 ^ (roundDigits c e).2) := by
  rw [roundDigits, stripZeros_value]
  by_cases hseven : precision ≤ digitCount c
  · refine .inr ⟨_, _, roundsAt_roundHalfEven e ?_ ?_, by push_cast; rfl⟩
    · refine tenTo_le_of_lt_digitCount hc ?_
      rw [precision] at hseven ⊢
      omega
    · rw [Nat.add_sub_cancel' hseven]
      exact lt_tenTo_digitCount c
  · have hdrop : digitCount c - precision = 0 := by omega
    have hlt : c < tenTo precision := (digitCount_le_iff (by decide)).1 (by omega)
    have hround := roundHalfEven_mul_tenTo c 0
    rw [tenTo_zero, Nat.mul_one] at hround
    rw [hdrop, hround, Nat.cast_zero, add_zero]
    refine roundsTo_of_very_close hc hlt ?_
    rw [sub_self, abs_zero]
    linarith [place_pos (e - 6)]

/-- Rounding shifts with the exponent. -/
theorem roundDigits_add (c : Nat) (e j : Int) :
    roundDigits c (e + j) = ((roundDigits c e).1, (roundDigits c e).2 + j) := by
  simp only [roundDigits]
  rw [← stripZeros_add]
  congr 1
  omega

/-- The power of ten rises by the digits dropped and the zeros moved. -/
theorem roundDigits_exp (c : Nat) (e : Int) :
    e ≤ (roundDigits c e).2 ∧
      (roundDigits c e).2 ≤ e + (digitCount c - precision : Nat) + precision := by
  have hbounds := stripZeros_exp precision (roundHalfEven c (digitCount c - precision))
    (e + (digitCount c - precision : Nat))
  simp only [roundDigits]
  omega

/-! ## Numbers in normal form -/

/-- Digits that do not end in a zero are told from their value. -/
theorem eq_of_mul_place_eq {c d : Int} (hc : c % 10 ≠ 0) (hd : d % 10 ≠ 0)
    (h : (c : ℚ) * 10 ^ e = d * 10 ^ f) : c = d ∧ e = f := by
  wlog hle : e ≤ f generalizing c d e f
  · obtain ⟨rfl, rfl⟩ := this hd hc h.symm (by omega)
    exact ⟨rfl, rfl⟩
  obtain ⟨k, rfl⟩ : ∃ k : Nat, f = e + k := ⟨(f - e).toNat, by omega⟩
  have hcast : (c : ℚ) = d * tenTo k := by
    refine mul_right_cancel₀ (place_pos e).ne' ?_
    rw [h, place_add]
    ring
  have hcoeff : c = d * tenTo k := by exact_mod_cast hcast
  cases k with
  | zero => exact ⟨by simpa using hcoeff, by simp⟩
  | succ k =>
    rw [tenTo_succ] at hcoeff
    push_cast at hcoeff
    rw [← Int.mul_assoc] at hcoeff
    omega

/-- A number is zero just when its coefficient is. -/
theorem value_eq_zero {x : Decimal} : x.value = 0 ↔ x.coeff = 0 := by
  rw [value, mul_eq_zero, or_iff_left (place_pos _).ne', Int.cast_eq_zero]

/-- The negative number has the negative value. -/
theorem value_neg (x : Decimal) : x.neg.value = -x.value := by
  simp [value, neg]

end Places

end Narrative.Decimal
