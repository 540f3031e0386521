import Narrative.Proofs.Decimal.Grammar
import Narrative.Proofs.Decimal.Order
import Narrative.Source.Line

/-!
# Reading literals

A literal of any length is read as the number nearest to the rational that it denotes. Only thirty
of its significant digits are kept. When one of the others is not zero a digit one stands for all of
them, which keeps the literal off the ties and away from the neighbouring multiples, so that it is
rounded as before. The places are counted in words of 32 bits; a literal with a power of ten that
does not fit such a word is refused.
-/

namespace Narrative.Decimal

/-! ## The value of digits -/

section Digits

variable {cs ds : List Char} {c : Char}

/-- The digits in front count for more by the places behind them. -/
theorem natOfDigits_append (cs ds : List Char) :
    natOfDigits (cs ++ ds) = natOfDigits cs * tenTo ds.length + natOfDigits ds := by
  rw [natOfDigits_eq, natOfDigits_eq, natOfDigits_eq, Nat.ofDigitChars_append,
    Nat.ofDigitChars_eq_ofDigitChars_zero, Nat.mul_comm]
  rfl

/-- The first digit counts as often as the power of ten of its place. -/
theorem natOfDigits_cons (c : Char) (ds : List Char) :
    natOfDigits (c :: ds) = digitValue c * tenTo ds.length + natOfDigits ds := by
  have hsingle : natOfDigits [c] = digitValue c := by
    rw [natOfDigits, List.foldl_cons, List.foldl_nil, Nat.mul_zero, Nat.zero_add]
  rw [← hsingle, ← natOfDigits_append]
  rfl

/-- A digit is less than ten. -/
theorem digitValue_lt (h : c.isDigit = true) : digitValue c < 10 := by
  rw [Char.isDigit, Bool.and_eq_true, decide_eq_true_eq, decide_eq_true_eq] at h
  have hupper : c.toNat ≤ 57 := UInt32.le_iff_toNat_le.1 h.2
  have hzero : '0'.toNat = 48 := rfl
  rw [digitValue, hzero]
  omega

/-- Only the digit zero is worth nothing. -/
theorem digitValue_pos (h : c.isDigit = true) (hc : c ≠ '0') : 0 < digitValue c := by
  rw [Char.isDigit, Bool.and_eq_true, decide_eq_true_eq, decide_eq_true_eq] at h
  have hlower : 48 ≤ c.toNat := UInt32.le_iff_toNat_le.1 h.1
  have hzero : '0'.toNat = 48 := rfl
  have hne : c.toNat ≠ 48 := fun heq => hc (Char.toNat_inj.1 heq)
  rw [digitValue, hzero]
  omega

/-- Digits are worth less than a one in front of them. -/
theorem natOfDigits_lt (h : ∀ d ∈ ds, d.isDigit = true) : natOfDigits ds < tenTo ds.length := by
  induction ds with
  | nil => decide
  | cons c ds ih =>
    obtain ⟨hc, hds⟩ := List.forall_mem_cons.1 h
    have hvalue := digitValue_lt hc
    have hrest := ih hds
    rw [natOfDigits_cons, List.length_cons, tenTo_succ]
    have hstep : digitValue c * tenTo ds.length ≤ 9 * tenTo ds.length :=
      Nat.mul_le_mul_right _ (by omega)
    omega

/-- Zeros make zero. -/
theorem natOfDigits_eq_zero (h : ∀ d ∈ ds, d = '0') : natOfDigits ds = 0 := by
  rw [List.eq_replicate_of_mem h, natOfDigits_eq, Nat.ofDigitChars_replicate_zero, Nat.mul_zero]

/-- Digits with one that is not zero make more than zero. -/
theorem natOfDigits_pos (h : ∀ d ∈ ds, d.isDigit = true) (hc : c ∈ ds) (hne : c ≠ '0') :
    0 < natOfDigits ds := by
  obtain ⟨front, back, rfl⟩ := List.append_of_mem hc
  have hpos := Nat.mul_pos (digitValue_pos (h c hc) hne) (tenTo_pos back.length)
  rw [natOfDigits_append, natOfDigits_cons]
  omega

/-- Digits make more than zero just when one of them is not zero. -/
theorem natOfDigits_pos_iff (h : ∀ d ∈ ds, d.isDigit = true) :
    0 < natOfDigits ds ↔ ∃ d ∈ ds, d ≠ '0' := by
  constructor
  · intro hpos
    by_contra hzeros
    exact hpos.ne' (natOfDigits_eq_zero fun d hd => by_contra fun hne => hzeros ⟨d, hd, hne⟩)
  · rintro ⟨d, hd, hne⟩
    exact natOfDigits_pos h hd hne

/-- Digits that do not begin with a zero are worth at least their first place. -/
theorem tenTo_le_natOfDigits (h : c.isDigit = true) (hc : c ≠ '0') (ds : List Char) :
    tenTo ds.length ≤ natOfDigits (c :: ds) := by
  have hpos := Nat.le_mul_of_pos_left (tenTo ds.length) (digitValue_pos h hc)
  rw [natOfDigits_cons]
  omega

/-- Zeros in front are worth nothing. -/
theorem natOfDigits_dropWhile (ds : List Char) :
    natOfDigits (ds.dropWhile (· == '0')) = natOfDigits ds := by
  have hzeros : natOfDigits (ds.takeWhile (· == '0')) = 0 := by
    refine natOfDigits_eq_zero fun d hd => ?_
    simpa using List.mem_takeWhile_imp hd
  have hsplit := natOfDigits_append (ds.takeWhile (· == '0')) (ds.dropWhile (· == '0'))
  rw [List.takeWhile_append_dropWhile, hzeros] at hsplit
  omega

end Digits

/-! ## What of a literal is rounded -/

namespace Literal

variable (l : Literal)

/-- The digits without the zeros in front. -/
def significant : List Char :=
  l.digits.dropWhile (· == '0')

/-- The significant digits that are kept one by one. -/
def kept : List Char :=
  l.significant.take keptDigits

/-- The significant digits that are not kept. -/
def dropped : List Char :=
  l.significant.drop keptDigits

/-- Whether a digit one stands for the digits that are not kept. -/
def isSticky : Bool :=
  l.dropped.any (· != '0')

/-- The digits that are rounded. -/
def coefficient : Nat :=
  if l.isSticky then natOfDigits l.kept * 10 + 1 else natOfDigits l.kept

/-- The power of ten behind the point, in words of 32 bits. -/
def lowestPower : Int :=
  l.power - wordOfCount l.places.length

/-- The power of ten of the last digit that is kept. -/
def keptPower : Int :=
  l.lowestPower + wordOfCount l.dropped.length

/-- The power of ten of the digits that are rounded. -/
def coefficientPower : Int :=
  if l.isSticky then l.keptPower - 1 else l.keptPower

/-- The exponent is one that may be written: of a magnitude of at most 400, or the least power of
ten, of which no magnitude fits its word. -/
def Allowed : Prop :=
  l.power.natAbs ≤ maxWrittenExp ∨ l.power = minExp

/-- Every power of ten on the way to the rounding is available. -/
structure Fits : Prop where
  /-- That of the last place. -/
  lowest : minExp ≤ l.lowestPower ∧ l.lowestPower ≤ maxExp
  /-- That of the last digit kept. -/
  kept : minExp ≤ l.keptPower ∧ l.keptPower ≤ maxExp
  /-- That of the digits that are rounded. -/
  coefficient : minExp ≤ l.coefficientPower ∧ l.coefficientPower ≤ maxExp

/-- The number that a literal is read as. -/
def rounded : Decimal :=
  round (l.sign.apply l.coefficient) l.coefficientPower

/-- An exponent is taken as it is where it is within the bounds. -/
theorem exp?_eq_some {e p : Int} : exp? e = some p ↔ (minExp ≤ e ∧ e ≤ maxExp) ∧ p = e := by
  rw [exp?, Option.ite_none_right_eq_some, Option.some.injEq, eq_comm (a := e)]

/-- The digits of a literal are read when all powers of ten are available. -/
theorem ofDigits?_eq_some {x : Decimal} :
    ofDigits? l.sign.isMinus l.whole l.places l.power = some x ↔ l.Fits ∧ x = l.rounded := by
  have hread : ofDigits? l.sign.isMinus l.whole l.places l.power =
      (exp? l.lowestPower).bind fun e => (exp? (e + wordOfCount l.dropped.length)).bind fun e =>
        if l.isSticky then
          ((exp? (e - 1)).map (natOfDigits l.kept * 10 + 1, ·)).bind fun p =>
            some (round (l.sign.apply p.1) p.2)
        else some (round (l.sign.apply (natOfDigits l.kept)) e) := rfl
  rw [hread]
  constructor
  · intro h
    obtain ⟨e, he, h⟩ := Option.bind_eq_some_iff.1 h
    obtain ⟨hlowest, rfl⟩ := exp?_eq_some.1 he
    obtain ⟨e, he, h⟩ := Option.bind_eq_some_iff.1 h
    obtain ⟨hkept, rfl⟩ := exp?_eq_some.1 he
    unfold rounded coefficient coefficientPower
    split at h
    · next hsticky =>
      obtain ⟨p, hp, h⟩ := Option.bind_eq_some_iff.1 h
      obtain ⟨e, he, rfl⟩ := Option.map_eq_some_iff.1 hp
      obtain ⟨hlast, rfl⟩ := exp?_eq_some.1 he
      have hcoefficient : l.coefficientPower = l.keptPower - 1 := if_pos hsticky
      rw [if_pos hsticky, if_pos hsticky]
      exact ⟨⟨hlowest, hkept, hcoefficient ▸ hlast⟩, (Option.some.inj h).symm⟩
    · next hsticky =>
      have hcoefficient : l.coefficientPower = l.keptPower := if_neg hsticky
      rw [if_neg hsticky, if_neg hsticky]
      exact ⟨⟨hlowest, hkept, hcoefficient ▸ hkept⟩, (Option.some.inj h).symm⟩
  · rintro ⟨⟨hlowest, hkept, hcoefficient⟩, rfl⟩
    have hkept' : exp? (l.lowestPower + wordOfCount l.dropped.length) = some l.keptPower :=
      exp?_of_mem hkept
    unfold coefficientPower at hcoefficient
    unfold rounded coefficient coefficientPower
    rw [exp?_of_mem hlowest, Option.bind_some, hkept', Option.bind_some]
    split
    · next hsticky =>
      rw [if_pos hsticky] at hcoefficient
      rw [exp?_of_mem hcoefficient]
      rfl
    · rfl

/-- An exponent passes when it is allowed. -/
theorem allowed_iff :
    l.Allowed ↔ exp? l.power = some l.power ∧ isExcessive l.power = false := by
  rw [exp?_eq_some, isExcessive, Bool.and_eq_false_iff, decide_eq_false_iff_not, bne_eq_false_iff_eq,
    Allowed]
  simp only [minExp, maxExp, maxWrittenExp, and_true]
  omega

end Literal

/-- A literal is read as a number when its exponent is allowed and its powers of ten fit. -/
theorem parse?_eq_some_of_chars {cs : List Char} {x : Decimal} {l : Literal}
    (hl : Text.trim cs = l.chars) :
    parse? cs = some x ↔ l.Allowed ∧ l.Fits ∧ x = l.rounded := by
  rw [parse?_of_chars hl]
  constructor
  · intro h
    obtain ⟨e, he, h⟩ := Option.bind_eq_some_iff.1 h
    obtain ⟨-, rfl⟩ := Literal.exp?_eq_some.1 he
    obtain ⟨hexcessive, h⟩ := Option.ite_none_left_eq_some.1 h
    exact ⟨l.allowed_iff.2 ⟨he, Bool.eq_false_iff.2 hexcessive⟩, l.ofDigits?_eq_some.1 h⟩
  · rintro ⟨hallowed, h⟩
    obtain ⟨hpower, hexcessive⟩ := l.allowed_iff.1 hallowed
    rw [hpower, Option.bind_some, if_neg (Bool.eq_false_iff.1 hexcessive)]
    exact l.ofDigits?_eq_some.2 h

/-- A text is read as a number exactly when it is such a literal. -/
theorem parse?_eq_some_iff {cs : List Char} {x : Decimal} :
    parse? cs = some x ↔
      ∃ l : Literal, Text.trim cs = l.chars ∧ l.Allowed ∧ l.Fits ∧ x = l.rounded := by
  constructor
  · intro h
    obtain ⟨l, hl⟩ := exists_literal_of_parse? h
    exact ⟨l, hl, (parse?_eq_some_of_chars hl).1 h⟩
  · rintro ⟨l, hl, h⟩
    exact (parse?_eq_some_of_chars hl).2 h

/-! ## Rounding literals -/

namespace Sign

/-- A sign does not change how a count is rounded. -/
theorem roundsTo_apply (s : Sign) {m n : Nat} {e f : Int}
    (h : ∀ v, RoundsTo (m * 10 ^ e) v → RoundsTo (n * 10 ^ f) v) (v : ℚ)
    (hv : RoundsTo (s.apply m * 10 ^ e) v) : RoundsTo (s.apply n * 10 ^ f) v := by
  unfold apply at hv ⊢
  split
  · next hminus =>
    rw [if_pos hminus, Int.cast_neg, Int.cast_natCast, neg_mul] at hv
    have hneg := h (-v) (by simpa only [neg_neg] using hv.neg)
    rw [Int.cast_neg, Int.cast_natCast, neg_mul]
    simpa only [neg_neg] using hneg.neg
  · next hplus =>
    rw [if_neg hplus, Int.cast_natCast] at hv
    rw [Int.cast_natCast]
    exact h v hv

/-- A sign leaves the absolute value. -/
theorem abs_apply (s : Sign) (n : Nat) : |(s.apply n : ℚ)| = n := by
  unfold apply
  split
  · rw [Int.cast_neg, abs_neg, Int.cast_natCast, Nat.abs_cast]
  · rw [Int.cast_natCast, Nat.abs_cast]

/-- Only the minus makes a number negative, and only one above zero. -/
theorem apply_lt_zero_iff {s : Sign} {n : Nat} : s.apply n < 0 ↔ s = .minus ∧ 0 < n := by
  cases s <;> simp [apply, isMinus]

/-- Every other sign leaves a number above zero there. -/
theorem apply_pos_iff {s : Sign} {n : Nat} : 0 < s.apply n ↔ s ≠ .minus ∧ 0 < n := by
  cases s <;> simp [apply, isMinus]

end Sign

namespace Literal

variable {l : Literal}

/-- No more digits are dropped than there are beyond the kept ones. -/
theorem length_dropped_le_sub : l.dropped.length ≤ l.digits.length - keptDigits := by
  rw [dropped, List.length_drop]
  exact Nat.sub_le_sub_right (List.dropWhile_sublist _).length_le _

/-- No more digits are dropped than there are. -/
theorem length_dropped_le : l.dropped.length ≤ l.digits.length :=
  length_dropped_le_sub.trans (Nat.sub_le _ _)

/-- A number has no more digits than characters. -/
theorem length_digits_le : l.digits.length ≤ l.chars.length := by
  have hplaces : l.places.length ≤ l.pointed.length := by
    unfold places pointed
    cases l.fraction with
    | none => exact Nat.le_refl _
    | some ds => exact Nat.le_succ _
  simp only [digits, chars, mantissa, List.length_append]
  omega

/-- No more digits stand behind the point than there are. -/
theorem length_places_le : l.places.length ≤ l.digits.length := by
  rw [digits, List.length_append]
  exact Nat.le_add_left _ _

/-- Words of 32 bits count the digits behind the point and those that are dropped. -/
structure Counted (l : Literal) : Prop where
  /-- Those behind the point. -/
  places : l.places.length < 2147483648
  /-- Those that are dropped. -/
  dropped : l.dropped.length < 2147483648

/-- A text shorter than the bound has digits that the words count. -/
theorem counted_of_length_lt (h : l.chars.length < 2147483648) : l.Counted where
  places := (l.length_places_le.trans l.length_digits_le).trans_lt h
  dropped := (l.length_dropped_le.trans l.length_digits_le).trans_lt h

/-- The power behind the point is exact where the digits are counted. -/
theorem Counted.lowestPower_eq (h : l.Counted) :
    l.lowestPower = l.power - l.places.length := by
  rw [lowestPower, wordOfCount_eq h.places]

/-- The power of the last kept digit is exact where the digits are counted. -/
theorem Counted.keptPower_eq (h : l.Counted) :
    l.keptPower = l.power - l.places.length + l.dropped.length := by
  rw [keptPower, h.lowestPower_eq, wordOfCount_eq h.dropped]

/-- The powers of ten are available when that of the last place is, and that of the last digit kept.
-/
theorem Counted.fits (h : l.Counted) (hlower : minExp ≤ l.power - l.places.length)
    (hupper : l.power - l.places.length + l.dropped.length ≤ maxExp) : l.Fits := by
  have hlowest := h.lowestPower_eq
  have hkept := h.keptPower_eq
  refine ⟨by omega, by omega, ?_⟩
  unfold coefficientPower
  split
  · next hsticky =>
    -- a digit one stands for at least one digit
    obtain ⟨d, hd, -⟩ := List.any_eq_true.1 hsticky
    have hpos := List.length_pos_of_mem hd
    omega
  · omega

/-- The significant digits are digits. -/
theorem isDigit_of_mem_significant {c : Char} (h : c ∈ l.significant) : c.isDigit = true :=
  l.isDigit_of_mem ((List.dropWhile_sublist _).subset h)

/-- A literal is worth the digits kept in front of the others. -/
theorem natOfDigits_digits :
    natOfDigits l.digits = natOfDigits l.kept * tenTo l.dropped.length + natOfDigits l.dropped := by
  rw [← natOfDigits_append, kept, dropped, List.take_append_drop, significant,
    natOfDigits_dropWhile]

/-- When digits are dropped, those kept are enough to round by. -/
theorem le_natOfDigits_kept (h : l.dropped ≠ []) : 10 ^ 7 ≤ natOfDigits l.kept := by
  have hlength : keptDigits < l.significant.length :=
    not_le.1 fun hle => h (List.drop_eq_nil_of_le hle)
  obtain ⟨c, rest, hrest⟩ := List.exists_cons_of_ne_nil
    (show l.significant ≠ [] from fun hnil => by rw [hnil] at hlength; cases hlength)
  have hzero : c ≠ '0' := by
    have hhead := List.head?_dropWhile_not (· == '0') l.digits
    rw [show l.digits.dropWhile (· == '0') = c :: rest from hrest] at hhead
    exact beq_eq_false_iff_ne.1 hhead
  have hdigit : c.isDigit = true := isDigit_of_mem_significant (hrest ▸ List.mem_cons_self)
  have hkept : l.kept = c :: rest.take 29 := by rw [kept, hrest, keptDigits, List.take_succ_cons]
  have hcount : (rest.take 29).length = 29 := by
    rw [hrest, keptDigits, List.length_cons] at hlength
    rw [List.length_take]
    omega
  rw [hkept]
  refine le_trans ?_ (tenTo_le_natOfDigits hdigit hzero _)
  rw [hcount]
  decide

/-- No digit stands for the dropped ones just when all of them are zero. -/
theorem not_isSticky_iff : l.isSticky = false ↔ ∀ d ∈ l.dropped, d = '0' := by
  rw [isSticky, List.any_eq_false]
  exact forall₂_congr fun d _ => by rw [bne_iff_ne, ne_eq, not_not]

/-- The digits that are rounded are rounded as the literal is. -/
theorem roundsTo_of_coefficient (hcounted : l.Counted) {v : ℚ}
    (h : RoundsTo (l.coefficient * 10 ^ l.coefficientPower) v) :
    RoundsTo (natOfDigits l.digits * 10 ^ (l.power - l.places.length)) v := by
  have hplace : (10 : ℚ) ^ l.keptPower =
      10 ^ (l.power - l.places.length) * tenTo l.dropped.length := by
    rw [hcounted.keptPower_eq, place_add]
  have hvalue := l.natOfDigits_digits
  have hpos := place_pos (l.power - l.places.length)
  unfold coefficient coefficientPower at h
  cases hsticky : l.isSticky with
  | false =>
    rw [natOfDigits_eq_zero (not_isSticky_iff.1 hsticky), add_zero] at hvalue
    rw [hsticky, if_neg Bool.false_ne_true, if_neg Bool.false_ne_true, hplace] at h
    rw [hvalue]
    push_cast
    convert h using 1
    ring
  | true =>
    rw [hsticky, if_pos rfl, if_pos rfl] at h
    -- a digit one and the digits dropped lie between the same two multiples
    obtain ⟨d, hd, hne⟩ := List.any_eq_true.1 hsticky
    have hrest : ∀ d ∈ l.dropped, d.isDigit = true := fun d hd =>
      isDigit_of_mem_significant (List.mem_of_mem_drop hd)
    have hlower : (0 : ℚ) < natOfDigits l.dropped := by
      exact_mod_cast natOfDigits_pos hrest hd (bne_iff_ne.1 hne)
    have hupper : (natOfDigits l.dropped : ℚ) < tenTo l.dropped.length := by
      exact_mod_cast natOfDigits_lt hrest
    have hkept := l.le_natOfDigits_kept (List.ne_nil_of_mem hd)
    have htenth : (10 : ℚ) ^ l.keptPower = 10 ^ (l.keptPower - 1) * 10 := by
      rw [← place_succ, sub_add_cancel]
    have hlow := place_pos (l.keptPower - 1)
    have hsplit : (natOfDigits l.digits : ℚ) * 10 ^ (l.power - l.places.length) =
        natOfDigits l.kept * 10 ^ l.keptPower +
          natOfDigits l.dropped * 10 ^ (l.power - l.places.length) := by
      rw [hvalue, hplace]
      push_cast
      ring
    refine h.of_between (j := l.keptPower) (N := natOfDigits l.kept) (by exact_mod_cast hkept)
      ?_ ?_ ?_ ?_
    · rw [htenth, Int.cast_natCast]
      push_cast
      linarith
    · rw [htenth, Int.cast_natCast]
      push_cast
      linarith
    · rw [hsplit, Int.cast_natCast]
      linarith [mul_pos hlower hpos]
    · rw [hsplit, hplace, Int.cast_natCast]
      linarith [mul_lt_mul_of_pos_right hupper hpos]

/-- There is something to round when a digit is not zero. -/
theorem coefficient_pos_iff : 0 < l.coefficient ↔ ∃ d ∈ l.digits, d ≠ '0' := by
  rw [← natOfDigits_pos_iff fun _ => l.isDigit_of_mem, coefficient]
  cases hsticky : l.isSticky with
  | false =>
    have hvalue := l.natOfDigits_digits
    rw [natOfDigits_eq_zero (not_isSticky_iff.1 hsticky), add_zero] at hvalue
    rw [if_neg Bool.false_ne_true, hvalue]
    exact (Nat.mul_pos_iff_of_pos_right (tenTo_pos _)).symm
  | true =>
    obtain ⟨d, hd, hne⟩ := List.any_eq_true.1 hsticky
    have hmem : d ∈ l.digits := (List.dropWhile_sublist _).subset (List.mem_of_mem_drop hd)
    rw [if_pos rfl]
    exact iff_of_true (Nat.succ_pos _)
      (natOfDigits_pos (fun _ => l.isDigit_of_mem) hmem (bne_iff_ne.1 hne))

/-- A literal is below the place in front of its first digit. -/
theorem abs_value_lt : |l.value| < 10 ^ (l.power + l.whole.length) := by
  have hlt : (natOfDigits l.digits : ℚ) < tenTo l.digits.length := by
    exact_mod_cast natOfDigits_lt l.isDigit
  have hplace := place_add (l.power - l.places.length) l.digits.length
  have hpower : l.power - l.places.length + l.digits.length = l.power + l.whole.length := by
    rw [digits, List.length_append]
    push_cast
    ring
  rw [hpower] at hplace
  rw [value, abs_mul, Sign.abs_apply, abs_of_pos (place_pos _), hplace, mul_comm]
  exact mul_lt_mul_of_pos_left hlt (place_pos _)

/-- What reading a literal as a number promises. -/
structure ReadAs (l : Literal) (x : Decimal) : Prop where
  /-- The number stands for the rational that is written, rounded to seven digits with a tie going to
  the even neighbour. -/
  rounded : ∃ v, RoundsTo l.value v ∧ x.StandsFor v
  /-- Wherever there is a number with the rounded value, it is that number. -/
  nearest (d : Decimal) : RoundsTo l.value d.value → x = d
  /-- There is one unless the digits in front of the point reach beyond the greatest power of ten. -/
  value : l.power + l.whole.length ≤ maxExp → RoundsTo l.value x.value
  /-- The number is negative when a minus is written and a digit is not zero. -/
  negative : x.coeff < 0 ↔ l.sign = .minus ∧ ∃ d ∈ l.digits, d ≠ '0'
  /-- The number is positive when no minus is written and a digit is not zero. -/
  positive : 0 < x.coeff ↔ l.sign ≠ .minus ∧ ∃ d ∈ l.digits, d ≠ '0'

/-- What is read is rounded correctly. -/
theorem readAs_rounded (hcounted : l.Counted) (hfits : l.Fits) :
    l.ReadAs l.rounded := by
  obtain ⟨w, hw, hstands⟩ :=
    exists_roundsTo_round (l.sign.apply l.coefficient) hfits.coefficient.1
  have hround : RoundsTo l.value w :=
    l.sign.roundsTo_apply (fun v => roundsTo_of_coefficient hcounted) w hw
  have hsign : Ord.compare l.rounded.coeff 0 = Ord.compare (l.sign.apply l.coefficient) 0 :=
    compare_coeff_round _ _
  refine ⟨⟨w, hround, hstands⟩, fun d hd => ?_, fun hrange => ?_, ?_, ?_⟩
  · exact StandsFor.eq (hround.unique hd ▸ hstands)
  · have hbound : |l.value| < 10 ^ maxExp :=
      lt_of_lt_of_le abs_value_lt (zpow_le_zpow_right₀ (by norm_num) hrange)
    have hle := hround.abs_le_of_abs_le (roundsTo_place maxExp) hbound.le
    rw [rounded, hstands.value_eq (hle.trans_lt (place_lt_place.2 (Int.lt_succ _)))]
    exact hround
  · rw [← coefficient_pos_iff, ← Sign.apply_lt_zero_iff, ← compare_lt_iff_lt, hsign,
      compare_lt_iff_lt]
  · rw [← coefficient_pos_iff, ← Sign.apply_pos_iff, ← compare_gt_iff_gt, hsign,
      compare_gt_iff_gt]

end Literal

/-- A text of less than `2 ^ 31` characters that is read as a number is a literal, with blanks
around it perhaps, and the number is the rounded value of the literal. -/
theorem literals_rounded {cs : List Char} {x : Decimal} (hlength : cs.length < 2147483648)
    (h : parse? cs = some x) :
    (∃ l : Literal, Text.trim cs = l.chars) ∧
      ∀ l : Literal, Text.trim cs = l.chars → l.ReadAs x := by
  refine ⟨exists_literal_of_parse? h, fun l hl => ?_⟩
  have hchars : l.chars.length < 2147483648 := hl ▸ (Text.length_trim_le cs).trans_lt hlength
  obtain ⟨-, hfits, rfl⟩ := (parse?_eq_some_of_chars hl).1 h
  exact Literal.readAs_rounded (Literal.counted_of_length_lt hchars) hfits

/-- A literal of forty characters lies above a tie by its last digit, and is rounded away from it. -/
theorem literals_rounded_above_tie :
    let l : Literal := ⟨.minus, ['1'], some (List.replicate 6 '0' ++ '5' ::
      (List.replicate 30 '0' ++ ['1'])), none, by decide, List.all_eq_true.1 rfl⟩
    let x : Decimal := ⟨-1000001, -6, by decide⟩
    l.chars.length < 2147483648 ∧ parse? l.chars = some x ∧ RoundsTo l.value x.value := by
  intro l x
  have hlength : l.chars.length < 2147483648 := by decide
  have hparse : parse? l.chars = some x := by decide
  have hread := (literals_rounded hlength hparse).2 l (by decide)
  exact ⟨hlength, hparse, hread.value (by decide)⟩

/-- A one with `n` zeros and the exponent nine. -/
def Literal.oneWithZeros (n : Nat) : Literal where
  sign := .blank
  whole := '1' :: List.replicate n '0'
  fraction := none
  exponent := some ⟨'e', .blank, ['9'], rfl, by decide, List.all_eq_true.1 rfl⟩
  ne_nil := List.cons_ne_nil _ _
  isDigit d hd := by
    rw [Option.getD_none, List.append_nil] at hd
    rcases List.mem_cons.1 hd with rfl | hd
    · rfl
    · rw [List.eq_of_mem_replicate hd]
      rfl

/-- The zeros and the exponent add up. -/
theorem Literal.value_oneWithZeros (n : Nat) : (oneWithZeros n).value = 10 ^ (n + 9 : Int) := by
  have hdigits : natOfDigits (oneWithZeros n).digits = tenTo n := by
    rw [show (oneWithZeros n).digits = '1' :: List.replicate n '0' from List.append_nil _,
      natOfDigits_cons, List.length_replicate, natOfDigits_eq_zero fun d => List.eq_of_mem_replicate,
      Nat.add_zero, show digitValue '1' = 1 from rfl, Nat.one_mul]
  have hpower : (oneWithZeros n).power - (oneWithZeros n).places.length = 9 := rfl
  have hsign : (oneWithZeros n).sign.apply (tenTo n) = (tenTo n : Nat) := rfl
  rw [value, hdigits, hpower, hsign, add_comm, place_add, Int.cast_natCast, mul_comm]

/-- The text of the literal. -/
theorem Literal.chars_oneWithZeros (n : Nat) :
    (oneWithZeros n).chars = '1' :: (List.replicate n '0' ++ ['e', '9']) := by
  rw [show (oneWithZeros n).chars = ('1' :: List.replicate n '0' ++ []) ++ ['e', '9'] from rfl,
    List.append_nil, List.cons_append]

/-- There is no blank in it. -/
theorem Literal.trim_oneWithZeros (n : Nat) :
    Text.trim (oneWithZeros n).chars = (oneWithZeros n).chars := by
  refine Text.trim_eq_self fun c hc => ?_
  rw [chars_oneWithZeros, List.mem_cons, List.mem_append] at hc
  rcases hc with rfl | hzero | hexponent
  · rfl
  · rw [List.eq_of_mem_replicate hzero]
    rfl
  · obtain rfl | hnine := List.mem_cons.1 hexponent
    · rfl
    · rw [List.mem_singleton.1 hnine]
      rfl

/-- The digits in front of the point can reach beyond the greatest power of ten only in a literal of
nearly `2 ^ 31` characters: it is read, and as the greatest power of ten. -/
theorem readAs_oneWithZeros {n : Nat} (hlower : maxExp < n + 9) (hupper : n ≤ maxExp + 20) :
    (Literal.oneWithZeros n).Fits ∧ (Literal.oneWithZeros n).rounded.parts = (1, maxExp) := by
  rw [maxExp] at hlower hupper
  have hdropped := Literal.length_dropped_le_sub (l := Literal.oneWithZeros n)
  have hlength : (Literal.oneWithZeros n).digits.length = n + 1 := by
    rw [show (Literal.oneWithZeros n).digits = '1' :: List.replicate n '0' from List.append_nil _,
      List.length_cons, List.length_replicate]
  rw [hlength, keptDigits] at hdropped
  have hcounted : (Literal.oneWithZeros n).Counted :=
    ⟨(by decide : 0 < 2147483648), by omega⟩
  have hplace : (Literal.oneWithZeros n).power - (Literal.oneWithZeros n).places.length = 9 := rfl
  have hfits : (Literal.oneWithZeros n).Fits := by
    refine hcounted.fits ?_ ?_
    · rw [hplace]
      decide
    · rw [hplace, maxExp]
      omega
  refine ⟨hfits, ?_⟩
  -- the power of ten is its own rounding, and its digit is kept with the greatest one
  obtain ⟨v, hround, e, hvalue, hexp⟩ := (Literal.readAs_rounded hcounted hfits).rounded
  have hself : RoundsTo ((1 : Int) * 10 ^ (n + 9 : Int)) ((1 : Int) * 10 ^ (n + 9 : Int)) :=
    roundsTo_self (by decide)
  rw [Literal.value_oneWithZeros, ← one_mul ((10 : ℚ) ^ (n + 9 : Int)), ← Int.cast_one] at hround
  rw [hround.unique hself] at hvalue
  have hne : (Literal.oneWithZeros n).rounded.coeff ≠ 0 := by
    intro hzero
    rw [hzero, Int.cast_zero, zero_mul, Int.cast_one, one_mul] at hvalue
    exact (place_pos _).ne' hvalue
  obtain ⟨hcoeff, rfl⟩ := eq_of_mul_place_eq (by decide) (emod_ten_ne_zero hne) hvalue
  rw [parts, ← hcoeff, hexp, min_eq_left (by rw [maxExp]; omega)]

/-- A number with these parts has the greatest power of ten for its value. -/
theorem value_eq_of_parts {x : Decimal} (h : x.parts = (1, maxExp)) : x.value = 10 ^ maxExp := by
  obtain ⟨hcoeff, hexp⟩ := Prod.mk.inj h
  rw [value, hcoeff, hexp, Int.cast_one, one_mul]

/-- Two literals that are not read as they are written. One has fewer than `2 ^ 31` characters and the
exponent nine, and is greater than every number: the exponent of the number that is read stays behind
its value. The other is a zero with a minus, which the number does not keep. -/
theorem not_read_as_written :
    ((Literal.oneWithZeros 2147483639).chars.length < 2147483648 ∧
      (Literal.oneWithZeros 2147483639).power = 9 ∧
      parse? (Literal.oneWithZeros 2147483639).chars =
        some (Literal.oneWithZeros 2147483639).rounded ∧
      ¬ RoundsTo (Literal.oneWithZeros 2147483639).value
        (Literal.oneWithZeros 2147483639).rounded.value) ∧
    (parse? ['-', '0']).map parts = some (0, 0) := by
  obtain ⟨hfits, hparts⟩ := readAs_oneWithZeros (n := 2147483639) (by decide) (by decide)
  refine ⟨⟨?_, rfl, ?_, fun hround => ?_⟩, by decide⟩
  · rw [Literal.chars_oneWithZeros, List.length_cons, List.length_append, List.length_replicate]
    decide
  · exact (parse?_eq_some_of_chars (Literal.trim_oneWithZeros _)).2 ⟨.inl (by decide), hfits, rfl⟩
  · have hself : RoundsTo ((1 : Int) * 10 ^ ((2147483639 : Nat) + 9 : Int))
        ((1 : Int) * 10 ^ ((2147483639 : Nat) + 9 : Int)) := roundsTo_self (by decide)
    rw [Literal.value_oneWithZeros, ← one_mul ((10 : ℚ) ^ _), ← Int.cast_one] at hround
    have hvalue := hround.unique hself
    rw [value_eq_of_parts hparts, Int.cast_one, one_mul] at hvalue
    exact absurd hvalue (place_lt_place.2 (by decide)).ne

end Narrative.Decimal
