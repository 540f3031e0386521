import Narrative.Decimal
import Narrative.Text

/-!
# Written numbers

Numbers are read from plain or exponent notation and written in plain notation only. A literal may
have any number of digits: those beyond the thirtieth only decide whether the number lies above a
tie.
-/

namespace Narrative.Decimal

/-- The value of a decimal digit. -/
def digitValue (c : Char) : Nat :=
  c.toNat - '0'.toNat

/-- The natural number that a sequence of decimal digits denotes. -/
def natOfDigits (cs : List Char) : Nat :=
  cs.foldl (fun n c => 10 * n + digitValue c) 0

/-- Reads a non-empty sequence of decimal digits. -/
def digits? (cs : List Char) : Option Nat :=
  if !cs.isEmpty && cs.all Char.isDigit then some (natOfDigits cs) else none

/-- Splits off a sign; the flag says whether it was a minus. -/
def signed : List Char → Bool × List Char
  | '-' :: rest => (true, rest)
  | '+' :: rest => (false, rest)
  | cs => (false, cs)

/-- Reads an optionally signed integer that is an available power of ten. -/
def exponent? (cs : List Char) : Option Int :=
  let (negative, rest) := signed cs
  (digits? rest).bind fun n => exp? (if negative then -(n : Int) else n)

/-- Whether a character introduces the exponent of a literal. -/
def isExponentMark (c : Char) : Bool :=
  c == 'e' || c == 'E'

/-- The largest magnitude of a written exponent. -/
def maxWrittenExp : Nat := 400

/-- Whether a written exponent is too large. The magnitude of the least power of ten does not fit
the word that holds it, and that one exponent passes. -/
def isExcessive (e : Int) : Bool :=
  maxWrittenExp < e.natAbs && e != minExp

/-- A count as a signed 32-bit word. -/
def wordOfCount (n : Nat) : Int :=
  (n : Int).bmod 4294967296

/-- Significant digits of a literal that are kept one by one. -/
def keptDigits : Nat := 30

/-- The number written with the given integer and fraction digits and the given exponent. Digits
beyond those kept are replaced by a digit one when any of them is not zero. -/
def ofDigits? (negative : Bool) (whole fraction : List Char) (e : Int) : Option Decimal := do
  let significant := (whole ++ fraction).dropWhile (· == '0')
  let e ← exp? (e - wordOfCount fraction.length)
  let kept := significant.take keptDigits
  let dropped := significant.drop keptDigits
  let e ← exp? (e + wordOfCount dropped.length)
  let n := natOfDigits kept
  let (n, e) ← if dropped.any (· != '0') then (exp? (e - 1)).map (n * 10 + 1, ·) else some (n, e)
  return round (if negative then -(n : Int) else n) e

/-- Reads a number: an optional sign, digits with at most one point and at least one digit, and an
optional exponent, with blanks around it. -/
def parse? (cs : List Char) : Option Decimal :=
  let (negative, body) := signed (Text.trim cs)
  let mantissa := body.takeWhile (!isExponentMark ·)
  let exponent := match body.dropWhile (!isExponentMark ·) with
    | [] => some 0
    | _ :: rest => exponent? rest
  let (whole, fraction) := (Text.cut? '.' mantissa).getD (mantissa, [])
  exponent.bind fun e =>
    if isExcessive e || (whole ++ fraction).isEmpty || !(whole ++ fraction).all Char.isDigit then
      none
    else ofDigits? negative whole fraction e

/-- The number in plain notation, without an exponent. -/
def toChars (x : Decimal) : List Char :=
  let sign := if x.coeff < 0 then ['-'] else []
  let digits := Nat.toDigits 10 x.coeff.natAbs
  if 0 ≤ x.exp then sign ++ digits ++ List.replicate x.exp.toNat '0'
  else
    let places := (-x.exp).toNat
    if places < digits.length then
      let whole := digits.length - places
      sign ++ digits.take whole ++ '.' :: digits.drop whole
    else sign ++ '0' :: '.' :: (List.replicate (places - digits.length) '0' ++ digits)

/-- The number in plain notation as a string. -/
def text (x : Decimal) : String :=
  String.ofList x.toChars

end Narrative.Decimal
