/-!
# Decimal numbers

The numbers of a story are decimal: a coefficient of at most seven significant digits and a power
of ten. Every arithmetic result is rounded to the nearest such number, a tie going to the even
neighbour, and is kept in normal form, without trailing zeros. Equality of numbers in normal form
is therefore equality of the values they denote.
-/

namespace Narrative

namespace Decimal

/-- Significant digits kept by every arithmetic result. -/
def precision : Nat := 7

/-- The least power of ten a number can have, that of a signed 32-bit word. -/
def minExp : Int := -2147483648

/-- The greatest power of ten a number can have. -/
def maxExp : Int := 2147483647

/-- Ten to the power of `k`. -/
def tenTo (k : Nat) : Nat :=
  Nat.pow 10 k

/-- The first power is one. -/
@[simp] theorem tenTo_zero : tenTo 0 = 1 := rfl

/-- The next power is ten times as great. -/
theorem tenTo_succ (k : Nat) : tenTo (k + 1) = tenTo k * 10 := rfl

/-- A power of ten is above zero. -/
theorem tenTo_pos (k : Nat) : 0 < tenTo k :=
  Nat.pow_pos (by decide)

/-- Powers of ten multiply. -/
theorem tenTo_add (j k : Nat) : tenTo (j + k) = tenTo j * tenTo k :=
  Nat.pow_add 10 j k

/-- A greater exponent gives a greater power. -/
theorem tenTo_le_tenTo {j k : Nat} (h : j ≤ k) : tenTo j ≤ tenTo k :=
  Nat.pow_le_pow_right (by decide) h

/-- The normal form of a number: at most seven digits, the last of them not zero, an available power
of ten, and zero only as `0 * 10 ^ 0`. -/
def IsNormal (coeff exp : Int) : Prop :=
  (coeff = 0 ∧ exp = 0) ∨
    (coeff.natAbs % 10 ≠ 0 ∧ coeff.natAbs < tenTo precision ∧ minExp ≤ exp ∧ exp ≤ maxExp)

instance (coeff exp : Int) : Decidable (IsNormal coeff exp) :=
  inferInstanceAs (Decidable (_ ∨ _))

end Decimal

/-- The number `coeff * 10 ^ exp` in normal form. -/
structure Decimal where
  /-- The signed significant digits. -/
  coeff : Int
  /-- The power of ten of the last digit. -/
  exp : Int
  /-- There is one form for each number. -/
  normal : Decimal.IsNormal coeff exp
deriving DecidableEq, Repr

namespace Decimal

/-- The nearest available power of ten. -/
def clampExp (e : Int) : Int :=
  max minExp (min maxExp e)

/-- The power of ten itself when it is available. -/
def exp? (e : Int) : Option Int :=
  if minExp ≤ e ∧ e ≤ maxExp then some e else none

/-- Why an operation on numbers has no result. -/
inductive Fault where
  /-- The divisor is zero. -/
  | divisionByZero
  /-- The result or an intermediate value leaves the range of the named operator. -/
  | overflow (operator : String)
deriving DecidableEq, Repr

/-- The text of a fault as the author of a story sees it. -/
def Fault.message : Fault → String
  | divisionByZero => "Division by zero"
  | overflow operator => "Numeric overflow in " ++ operator

/-- How many decimal digits a natural number is written with. -/
def digitCount (n : Nat) : Nat :=
  (Nat.toDigits 10 n).length

/-- `n / 10 ^ drop` rounded to the nearest integer, a tie going to the even neighbour. -/
def roundHalfEven (n drop : Nat) : Nat :=
  let unit := tenTo drop
  let q := n / unit
  let r := n % unit
  if unit < 2 * r ∨ (2 * r = unit ∧ q % 2 = 1) then q + 1 else q

/-- Moves up to `budget` trailing zeros from the digits `n` into the power of ten. -/
def stripZeros : (budget : Nat) → (n : Nat) → (e : Int) → Nat × Int
  | 0, n, e => (n, e)
  | budget + 1, n, e => if n % 10 = 0 then stripZeros budget (n / 10) (e + 1) else (n, e)

/-- A number has so many digits just when it is below the power of ten. -/
theorem digitCount_le_iff {n k : Nat} (hk : 0 < k) : digitCount n ≤ k ↔ n < tenTo k :=
  Nat.length_toDigits_le_iff (by decide) hk

/-- A number has a digit at every place below its length. -/
theorem tenTo_le_of_lt_digitCount {n k : Nat} (hn : 0 < n) (hk : k < digitCount n) :
    tenTo k ≤ n := by
  rcases Nat.eq_zero_or_pos k with rfl | hpos
  · exact hn
  · exact Nat.le_of_not_lt fun h => Nat.not_le_of_lt hk ((digitCount_le_iff hpos).2 h)

/-- A number is below the power of ten with as many zeros as it has digits. -/
theorem lt_tenTo_digitCount (n : Nat) : n < tenTo (digitCount n) :=
  (digitCount_le_iff Nat.length_toDigits_pos).1 (Nat.le_refl _)

/-- A number with more digits than are dropped is not rounded to zero. -/
theorem roundHalfEven_pos {n drop : Nat} (h : tenTo drop ≤ n) : 0 < roundHalfEven n drop := by
  have hq : 0 < n / tenTo drop := Nat.div_pos h (tenTo_pos drop)
  simp only [roundHalfEven]
  split <;> omega

/-- A rounded number has as many digits as are left, or is the next power of ten. -/
theorem roundHalfEven_le {n drop digits : Nat} (h : n < tenTo (digits + drop)) :
    roundHalfEven n drop ≤ tenTo digits := by
  have hq : n / tenTo drop < tenTo digits :=
    Nat.div_lt_of_lt_mul (by rwa [Nat.mul_comm, ← tenTo_add])
  simp only [roundHalfEven]
  split <;> omega

/-- Stripping zeros makes a number no greater. -/
theorem stripZeros_le (budget n : Nat) (e : Int) : (stripZeros budget n e).1 ≤ n := by
  fun_induction stripZeros budget n e with
  | case1 => exact Nat.le_refl _
  | case2 budget n e hmod ih => omega
  | case3 => exact Nat.le_refl _

/-- A budget of as many zeros as a number can have is enough to strip them all. -/
theorem stripZeros_mod_ten {budget n : Nat} (e : Int) (hpos : 0 < n) (hle : n ≤ tenTo budget) :
    (stripZeros budget n e).1 % 10 ≠ 0 := by
  fun_induction stripZeros budget n e with
  | case1 n e => rw [tenTo_zero] at hle; omega
  | case2 budget n e hmod ih => exact ih (by omega) (by rw [tenTo_succ] at hle; omega)
  | case3 budget n e hmod => exact hmod

/-- The digits and the power of ten of the number nearest to `n * 10 ^ e`. Rounding leaves at most
`10 ^ 7`, so there are at most seven zeros to strip. -/
def roundDigits (n : Nat) (e : Int) : Nat × Int :=
  let drop := digitCount n - precision
  stripZeros precision (roundHalfEven n drop) (e + drop)

/-- Rounded digits end in no zero and are no more than the precision. -/
theorem roundDigits_spec {n : Nat} (e : Int) (h : 0 < n) :
    (roundDigits n e).1 % 10 ≠ 0 ∧ (roundDigits n e).1 < tenTo precision := by
  have hcount : 0 < digitCount n := Nat.length_toDigits_pos
  have hpos := roundHalfEven_pos
    (tenTo_le_of_lt_digitCount h (show digitCount n - precision < digitCount n by
      simp only [precision]; omega))
  have hle : roundHalfEven n (digitCount n - precision) ≤ tenTo precision :=
    roundHalfEven_le (Nat.lt_of_lt_of_le (lt_tenTo_digitCount n) (tenTo_le_tenTo (by omega)))
  have hmod : (roundDigits n e).1 % 10 ≠ 0 := stripZeros_mod_ten _ hpos hle
  refine ⟨hmod, Nat.lt_of_le_of_ne (Nat.le_trans (stripZeros_le ..) hle) fun heq => hmod ?_⟩
  rw [heq]
  decide

/-- The number `0`. -/
def zero : Decimal := ⟨0, 0, by decide⟩

/-- The number `1`. -/
def one : Decimal := ⟨1, 0, by decide⟩

instance : Inhabited Decimal := ⟨zero⟩

/-- A clamped exponent is within the bounds. -/
theorem clampExp_mem (e : Int) : minExp ≤ clampExp e ∧ clampExp e ≤ maxExp := by
  simp only [clampExp, minExp, maxExp]
  omega

/-- What is rounded and clamped is normal. -/
theorem isNormal_round {n : Nat} (h : 0 < n) (e : Int) (negative : Prop) [Decidable negative] :
    IsNormal (if negative then -((roundDigits n e).1 : Int) else (roundDigits n e).1)
      (clampExp (roundDigits n e).2) := by
  refine .inr ?_
  have habs : (if negative then -((roundDigits n e).1 : Int) else (roundDigits n e).1).natAbs =
      (roundDigits n e).1 := by
    split <;> omega
  rw [habs]
  exact ⟨(roundDigits_spec e h).1, (roundDigits_spec e h).2, clampExp_mem _⟩

/-- The number in normal form nearest to `coeff * 10 ^ exp`. -/
def round (coeff exp : Int) : Decimal :=
  if h : coeff = 0 then zero
  else
    let digits := roundDigits coeff.natAbs exp
    ⟨if coeff < 0 then -(digits.1 : Int) else digits.1, clampExp digits.2,
      isNormal_round (Int.natAbs_pos.2 h) exp (coeff < 0)⟩

/-- The number nearest to an integer. -/
def ofInt (n : Int) : Decimal :=
  round n 0

/-- The numbers one and zero standing for truth and falsehood. -/
def ofBool (b : Bool) : Decimal :=
  if b then one else zero

/-- Whether the number is zero. -/
def isZero (x : Decimal) : Bool :=
  x.coeff == 0

/-- The sign of a number as `-1`, `0` or `1`. -/
def signum (x : Decimal) : Int :=
  x.coeff.sign

/-- Whether the number has no fraction; a number in normal form has one exactly when its power of
ten is negative. -/
def isInteger (x : Decimal) : Bool :=
  0 ≤ x.exp

/-- The least signed 64-bit integer. -/
def minInt64 : Int := -9223372036854775808

/-- The greatest signed 64-bit integer. -/
def maxInt64 : Int := 9223372036854775807

/-- The integer part of a number, brought into the signed 64-bit range. Above a power of ten of
18 a coefficient other than zero is out of that range, and below -18 nothing is left of it. -/
def toInt64 (x : Decimal) : Int :=
  if 0 ≤ x.exp then
    if x.exp ≤ 18 then max minInt64 (min maxInt64 (x.coeff * tenTo x.exp.toNat))
    else if x.coeff < 0 then minInt64
    else maxInt64
  else if x.exp < -18 then 0
  else x.coeff.tdiv (tenTo (-x.exp).toNat)

/-- The number without its fraction, as far as the signed 64-bit range and the precision allow. -/
def trunc (x : Decimal) : Decimal :=
  ofInt x.toInt64

/-- The negative of a normal number is normal. -/
theorem IsNormal.neg {coeff exp : Int} (h : IsNormal coeff exp) : IsNormal (-coeff) exp := by
  simpa only [IsNormal, Int.neg_eq_zero, Int.natAbs_neg] using h

/-- The number with its sign reversed. -/
def neg (x : Decimal) : Decimal :=
  ⟨-x.coeff, x.exp, x.normal.neg⟩

/-- The sum. When the powers of ten differ by more than twenty the smaller operand lies below the
rounding digit of the larger and is dropped. -/
def add (x y : Decimal) : Decimal :=
  if x.isZero then y
  else if y.isZero then x
  else
    let (hi, lo) := if y.exp ≤ x.exp then (x, y) else (y, x)
    let shift := (hi.exp - lo.exp).toNat
    if 20 < shift then hi
    else round (hi.coeff * tenTo shift + lo.coeff) lo.exp

/-- The difference. -/
def sub (x y : Decimal) : Decimal :=
  x.add y.neg

/-- The product. -/
def mul (x y : Decimal) : Decimal :=
  round (x.coeff * y.coeff) (clampExp (x.exp + y.exp))

/-- Digits of a quotient computed before it is rounded. -/
def quotientScale : Nat := 20

/-- The digits of the quotient of two counts with the power of ten `e`. A digit one at the end
stands for a remainder, which tells a quotient just above a tie from the tie itself. -/
def quotientDigits (num den : Nat) (e : Int) : Nat × Int :=
  if num % den = 0 then (num / den, e) else (num / den * 10 + 1, e - 1)

/-- The quotient. -/
def div (x y : Decimal) : Except Fault Decimal :=
  if y.isZero then .error .divisionByZero
  else if x.isZero then .ok zero
  else
    let digits := quotientDigits (x.coeff.natAbs * tenTo quotientScale) y.coeff.natAbs
      (x.exp - y.exp - quotientScale)
    let negative : Bool := (x.coeff < 0) != (y.coeff < 0)
    match exp? digits.2 with
    | none => .error (.overflow "/")
    | some e => .ok (round (if negative then -(digits.1 : Int) else digits.1) e)

/-- The least signed 128-bit integer. -/
def minInt128 : Int := -170141183460469231731687303715884105728

/-- The greatest signed 128-bit integer. -/
def maxInt128 : Int := 170141183460469231731687303715884105727

/-- `coeff * 10 ^ shift` when the power and the product fit a signed 128-bit word. -/
def scaled? (coeff : Int) (shift : Nat) : Option Int :=
  if shift ≤ 38 then
    let n := coeff * tenTo shift
    if minInt128 ≤ n ∧ n ≤ maxInt128 then some n else none
  else none

/-- The remainder of the division that rounds toward zero; it takes the sign of the dividend. -/
def rem (x y : Decimal) : Except Fault Decimal :=
  if y.isZero then .error .divisionByZero
  else
    let e := min x.exp y.exp
    match scaled? x.coeff (x.exp - e).toNat, scaled? y.coeff (y.exp - e).toNat with
    | some a, some b => .ok (round (a.tmod b) e)
    | _, _ => .error (.overflow "%")

/-- Multiplies `acc` by the power `k` of `base`, squaring `base` once for each binary digit of `k`
that the budget allows. -/
def powerLoop : (budget : Nat) → (k : Nat) → (acc base : Decimal) → Decimal
  | 0, _, acc, _ => acc
  | budget + 1, k, acc, base =>
    if k = 0 then acc
    else powerLoop budget (k / 2) (if k % 2 = 1 then acc.mul base else acc) (base.mul base)

/-- The greatest magnitude of the exponent of a power. -/
def maxPower : Nat := 999

/-- The integer power. An exponent of at most 999 has ten binary digits; a negative one divides
one by the opposite power. -/
def pow (x : Decimal) (n : Int) : Except Fault Decimal :=
  if maxPower < n.natAbs then .error (.overflow "^")
  else
    let power := powerLoop 10 n.natAbs one x
    if n < 0 then one.div power else .ok power

/-- The order of two numbers, read off the sign of their difference. -/
def compare (x y : Decimal) : Ordering :=
  Ord.compare (x.sub y).signum 0

end Decimal

end Narrative
