import Mathlib.Data.List.TakeWhile
import Mathlib.Tactic.Common
import Narrative.Decimal.Literal
import Narrative.Proofs.Text

/-!
# Numbers in plain notation

What rounding, reading and printing rest on: how many digits a number has, what its digits are worth
with zeros behind them, and that plain notation has no other characters than digits, a sign and a
point.
-/

namespace Narrative.Decimal

/-! ## Digits and zeros -/

/-- Dropping zeros is exact. -/
theorem roundHalfEven_mul_tenTo (m drop : Nat) : roundHalfEven (m * tenTo drop) drop = m := by
  have hpos : 0 < tenTo drop := tenTo_pos _
  have hdiv : m * tenTo drop / tenTo drop = m := Nat.mul_div_cancel m hpos
  have hmod : m * tenTo drop % tenTo drop = 0 := Nat.mul_mod_left m _
  simp only [roundHalfEven, hdiv, hmod]
  rw [if_neg]
  omega

/-- A number between two powers of ten has as many digits as the greater one has zeros. -/
theorem digitCount_eq {n k : Nat} (hle : tenTo k ≤ n) (hlt : n < tenTo (k + 1)) :
    digitCount n = k + 1 := by
  have hupper : digitCount n ≤ k + 1 :=
    (digitCount_le_iff (Nat.succ_pos k)).2 hlt
  have hlower : k < digitCount n := by
    refine Nat.lt_of_not_le fun h => ?_
    have := lt_tenTo_digitCount n
    have := tenTo_le_tenTo h
    omega
  omega

/-- Each zero at the end is a digit more. -/
theorem digitCount_mul_tenTo {c : Nat} (hc : 0 < c) (k : Nat) :
    digitCount (c * tenTo k) = digitCount c + k := by
  have hpos : 0 < digitCount c := Nat.length_toDigits_pos
  have hle := tenTo_le_of_lt_digitCount hc (show digitCount c - 1 < digitCount c by omega)
  have hlt := lt_tenTo_digitCount c
  have hcount : digitCount c - 1 + k + 1 = digitCount c + k := by omega
  rw [← hcount]
  refine digitCount_eq ?_ ?_
  · rw [tenTo_add]
    exact Nat.mul_le_mul_right _ hle
  · rw [hcount, tenTo_add]
    exact Nat.mul_lt_mul_of_pos_right hlt (tenTo_pos _)

/-- The digits and the power of ten of a number other than zero. -/
theorem normal_of_ne_zero (x : Decimal) (hx : x.coeff ≠ 0) :
    x.coeff.natAbs % 10 ≠ 0 ∧ x.coeff.natAbs < tenTo precision ∧ minExp ≤ x.exp ∧ x.exp ≤ maxExp :=
  x.normal.resolve_left fun hzero => hx hzero.1

/-- A number whose coefficient is zero is zero. -/
theorem eq_zero_of_coeff {x : Decimal} (h : x.coeff = 0) : x = zero := by
  obtain ⟨coeff, exp, hnormal⟩ := x
  obtain ⟨rfl, rfl⟩ | ⟨hmod, -⟩ := id hnormal
  · rfl
  · subst h
    exact absurd rfl hmod

/-- A number has at most seven digits. -/
theorem natAbs_coeff_lt (x : Decimal) : x.coeff.natAbs < tenTo precision := by
  obtain ⟨hcoeff, -⟩ | ⟨-, hlt, -⟩ := x.normal
  · rw [hcoeff]
    decide
  · exact hlt

/-! ## Reading digits -/

/-- Digits are read as in the library. -/
theorem natOfDigits_eq (cs : List Char) : natOfDigits cs = Nat.ofDigitChars 10 cs 0 := by
  rw [Nat.ofDigitChars_eq_foldl]
  rfl

/-- Zeros behind the digits multiply the number. -/
theorem natOfDigits_toDigits_append (n k : Nat) :
    natOfDigits (Nat.toDigits 10 n ++ List.replicate k '0') = n * tenTo k := by
  rw [natOfDigits_eq, Nat.ofDigitChars_append, Nat.ofDigitChars_ten_toDigits,
    Nat.ofDigitChars_replicate_zero, Nat.mul_comm]
  rfl

/-- A count below two to the power of 31 is its own word. -/
theorem wordOfCount_eq {n : Nat} (h : n < 2147483648) : wordOfCount n = n :=
  Int.bmod_eq_of_le (by omega) (by omega)

/-- A positive number does not begin with a zero. -/
theorem toDigits_head {n : Nat} (h : 0 < n) :
    ∃ c rest, Nat.toDigits 10 n = c :: rest ∧ c ≠ '0' := by
  induction n using Nat.strongRecOn with
  | ind n ih =>
    by_cases hn : n < 10
    · refine ⟨n.digitChar, [], Nat.toDigits_of_lt_base hn, ?_⟩
      intro hzero
      have hvalue : n.digitChar.toNat - 48 = 0 := by
        rw [hzero]
        rfl
      rw [Nat.toNat_digitChar_sub_48_of_lt_ten hn] at hvalue
      omega
    · obtain ⟨c, rest, hdigits, hc⟩ := ih (n / 10) (by omega) (by omega)
      refine ⟨c, rest ++ [(n % 10).digitChar], ?_, hc⟩
      rw [Nat.toDigits_of_base_le (by decide) (by omega), hdigits]
      rfl

/-- The characters of plain notation are neither blanks nor marks of an exponent. -/
theorem plain_of_isDigit {c : Char} (h : c.isDigit = true ∨ c = '-' ∨ c = '.') :
    Text.isBlank c = false ∧ isExponentMark c = false := by
  have hrange : 45 ≤ c.toNat ∧ c.toNat ≤ 57 := by
    rcases h with h | rfl | rfl
    · rw [Char.isDigit, Bool.and_eq_true, decide_eq_true_eq, decide_eq_true_eq] at h
      have hlower : 48 ≤ c.toNat := UInt32.le_iff_toNat_le.1 h.1
      have hupper : c.toNat ≤ 57 := UInt32.le_iff_toNat_le.1 h.2
      omega
    · decide
    · decide
  constructor
  · simp only [Text.isBlank, Bool.or_eq_false_iff, Bool.and_eq_false_iff, decide_eq_false_iff_not,
      beq_eq_false_iff_ne]
    omega
  · simp only [isExponentMark, Bool.or_eq_false_iff, beq_eq_false_iff_ne]
    constructor <;> rintro rfl <;> exact absurd hrange (by decide)

/-- Plain notation is written with digits, a sign and a point. -/
theorem plain_of_mem_toChars {x : Decimal} {c : Char} (h : c ∈ x.toChars) :
    c.isDigit = true ∨ c = '-' ∨ c = '.' := by
  have hdigits {d : Char} (hd : d ∈ Nat.toDigits 10 x.coeff.natAbs) : d.isDigit = true :=
    Nat.isDigit_of_mem_toDigits (by decide) (by decide) hd
  have hsign {d : Char} (hd : d ∈ if x.coeff < 0 then ['-'] else []) : d = '-' := by
    split at hd
    · exact List.mem_singleton.1 hd
    · cases hd
  have hzeros {d : Char} {n : Nat} (hd : d ∈ List.replicate n '0') : d.isDigit = true := by
    rw [List.eq_of_mem_replicate hd]
    rfl
  unfold toChars at h
  dsimp only at h
  split at h
  · simp only [List.mem_append] at h
    rcases h with (h | h) | h
    · exact .inr (.inl (hsign h))
    · exact .inl (hdigits h)
    · exact .inl (hzeros h)
  · split at h
    · simp only [List.mem_append, List.mem_cons] at h
      rcases h with (h | h) | h | h
      · exact .inr (.inl (hsign h))
      · exact .inl (hdigits (List.mem_of_mem_take h))
      · exact .inr (.inr h)
      · exact .inl (hdigits (List.mem_of_mem_drop h))
    · simp only [List.mem_append, List.mem_cons] at h
      rcases h with h | h | h | h | h
      · exact .inr (.inl (hsign h))
      · rw [h]
        exact .inl rfl
      · exact .inr (.inr h)
      · exact .inl (hzeros h)
      · exact .inl (hdigits h)

end Narrative.Decimal
