import Narrative.Decimal.Literal

/-!
# Numbers in double precision

A number that a document gives where another kind of value is wanted is shown in double precision.
It is read quickly rather than exactly: as many digits as a 64-bit word holds make a double, which
is then scaled by one power of ten, so that the result may miss the nearest double by a little. It
is shown with the fewest digits that read back as the same double, positional from a hundred
thousandth up to ten quadrillions and with a signed exponent elsewhere.
-/

namespace Narrative.Double

/-! ## Reading -/

/-- The greatest whole number that the digits of a number may make, that of an unsigned 64-bit
word. -/
def maxSignificand : Nat := 18446744073709551615

/-- The greatest exponent that is read, that of a signed 32-bit word. -/
def maxExponent : Nat := 2147483647

/-- The greatest power of ten within the range of doubles. -/
def maxPower : Nat := 308

/-- Puts digits behind a number up to the first with which it would exceed a limit. The result is
the number and the count of the digits that were left over. -/
def gather (limit : Nat) : (n : Nat) → List Char → Nat × Nat
  | n, [] => (n, 0)
  | n, digit :: rest =>
    if 10 * n + Decimal.digitValue digit ≤ limit then
      gather limit (10 * n + Decimal.digitValue digit) rest
    else (n, rest.length + 1)

/-- The significand and the power of ten that the digits before and behind the point make. Digits
that are left over before the point raise the power, and those behind it do not count. -/
def significand (whole fraction : List Char) : Nat × Int :=
  let (n, above) := gather maxSignificand 0 whole
  let (n, below) := gather maxSignificand n fraction
  (n, above - (fraction.length - below : Nat))

/-- The double nearest to `n * 10 ^ e`. -/
def nearest (n : Nat) (e : Int) : Float :=
  Float.ofScientific n (e < 0) e.natAbs

/-- A double divided by a power of ten, in steps of powers within the range of doubles. -/
def scaleDown (f : Float) (e : Nat) : Float :=
  if e ≤ maxPower then f / nearest 1 e
  else if f == 0 then f
  else scaleDown (f / nearest 1 maxPower) (e - maxPower)
termination_by e
decreasing_by unfold maxPower at *; omega

/-- A double scaled by a power of ten, if the result is finite. -/
def scale? (f : Float) (e : Int) : Option Float :=
  if e < 0 then some (scaleDown f e.natAbs)
  else if f == 0 then some f
  else if maxPower < e then none
  else
    let scaled := f * nearest 1 e
    if scaled.isFinite then some scaled else none

/-- The magnitude of a written number. If it is too large for a double, the result is the number of
digits that are left over once this is known. -/
def read (literal : List Char) : Except Nat Float :=
  let (_, body) := Decimal.signed literal
  let mantissa := body.takeWhile (!Decimal.isExponentMark ·)
  let (whole, fraction) := (Text.cut? '.' mantissa).getD (mantissa, [])
  let (n, e) := significand whole fraction
  let (down, digits) := Decimal.signed ((body.dropWhile (!Decimal.isExponentMark ·)).drop 1)
  match gather maxExponent 0 digits with
  | (shift, 0) =>
    match scale? (nearest n 0) (if down then e - shift else e + shift) with
    | some f => .ok f
    | none => .error 0
  | (_, left + 1) => if n = 0 ∨ down then .ok 0 else .error left

/-! ## Showing -/

/-- The values that the fraction of a double can take, one for each word of 52 bits. -/
def fractions : Nat := 4503599627370496

/-- The exact value of a finite double that is not negative, as digits and a power of ten. -/
def exact (f : Float) : Nat × Int :=
  let bits := f.toBits.toNat
  let fraction := bits % fractions
  let (m, q) : Nat × Int :=
    if bits < fractions then (fraction, -1074)
    else (fractions + fraction, (bits / fractions : Nat) - 1075)
  if 0 ≤ q then (m * Nat.pow 2 q.toNat, 0) else (m * Nat.pow 5 (-q).toNat, q)

/-- The values with at most the given number of digits on both sides of `n * 10 ^ e`, the nearer
one first. -/
def neighbours (n : Nat) (e : Int) (count : Nat) : List (Nat × Int) :=
  let drop := Decimal.digitCount n - count
  let below := n / Decimal.tenTo drop
  let near := Decimal.roundHalfEven n drop
  [(near, e + drop), (2 * below + 1 - near, e + drop)]

/-- Digits that are enough to tell any two doubles apart. -/
def enoughDigits : Nat := 17

/-- The fewest digits that read back as a double, without trailing zeros. -/
def shortest (f : Float) : Nat × Int :=
  let (n, e) := exact f
  let short := (List.range' 1 enoughDigits).flatMap (neighbours n e)
  let (n, e) := (short.find? fun (n, e) => nearest n e == f).getD (n, e)
  Decimal.stripZeros (Decimal.digitCount n) n e

/-- The greatest number of digits before the point in positional notation. -/
def maxWholeDigits : Int := 16

/-- The greatest number of zeros behind the point in positional notation. -/
def maxLeadingZeros : Int := 4

/-- The power of ten of scientific notation, always with a sign. -/
def exponentText (e : Int) : List Char :=
  'e' :: (if e < 0 then '-' else '+') :: Nat.toDigits 10 e.natAbs

/-- The number `n * 10 ^ e` as it is shown. -/
def layout (n : Nat) (e : Int) : List Char :=
  let digits := Nat.toDigits 10 n
  let point := digits.length + e
  if 0 ≤ e ∧ point ≤ maxWholeDigits then digits ++ List.replicate e.toNat '0' ++ ['.', '0']
  else if 0 < point ∧ point ≤ maxWholeDigits then
    digits.take point.toNat ++ '.' :: digits.drop point.toNat
  else if -maxLeadingZeros ≤ point ∧ point ≤ 0 then
    ['0', '.'] ++ List.replicate (-point).toNat '0' ++ digits
  else
    match digits with
    | [d] => d :: exponentText (point - 1)
    | ds => ds.take 1 ++ '.' :: ds.drop 1 ++ exponentText (point - 1)

/-- A written number within the range of doubles as it is shown. -/
def text (literal : List Char) : List Char :=
  let (negative, _) := Decimal.signed literal
  let (n, e) := shortest ((read literal).toOption.getD 0)
  (if negative then ['-'] else []) ++ (if n = 0 then ['0', '.', '0'] else layout n e)

end Narrative.Double
