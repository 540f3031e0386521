import Narrative.Expr.Eval
import Narrative.Proofs.Decimal.Order

/-!
# Comparing values

Two values are compared when both stand for numbers, or when both are texts. Then one of three
things holds of them: the first comes before the second, they are equal, or it comes after it. The
four comparison operators and the two of equality all speak of that one order. Other values are not
compared, but each of them is still equal to itself and to nothing else.
-/

namespace Narrative

/-- The operators that ask for the order of two values. -/
def Operator.comparisons : List Operator :=
  [lt, le, gt, ge]

namespace Value

variable {v w : Value} {x y : Decimal} {order : Ordering}

/-- The order of two values: that of their texts, or of the rationals that they stand for. -/
def order? (v w : Value) : Option Ordering :=
  match v, w with
  | .str s, .str t => some (Ord.compare s t)
  | v, w =>
    match v.number?, w.number? with
    | some x, some y => some (Ord.compare x.value y.value)
    | _, _ => none

/-- Values that are numbers are ordered like them. -/
theorem order?_of_number? (hv : v.number? = some x) (hw : w.number? = some y) :
    v.order? w = some (Ord.compare x.value y.value) := by
  unfold order?
  split
  · cases hv
  · rw [hv, hw]

/-- Values that are neither texts nor numbers have no order. -/
theorem order?_eq_none (htexts : ∀ s t, v = .str s → w = .str t → False)
    (hnumbers : v.number? = none ∨ w.number? = none) : v.order? w = none := by
  unfold order?
  split
  · exact (htexts _ _ rfl rfl).elim
  · split
    · next hv hw =>
      rw [hv, hw] at hnumbers
      rcases hnumbers with hnone | hnone <;> cases hnone
    · rfl

/-- The answers of the operators about two values in the given order. -/
structure Compares (v w : Value) (order : Ordering) : Prop where
  /-- The first value comes before the second. -/
  less : Operator.lt.applyBinary v w = .ok (.truth order.isLT)
  /-- They are equal. -/
  equal : Operator.eq.applyBinary v w = .ok (.truth order.isEq)
  /-- The first value comes after the second. -/
  greater : Operator.gt.applyBinary v w = .ok (.truth order.isGT)
  /-- The first value comes before the second or is equal to it. -/
  atMost : Operator.le.applyBinary v w = .ok (.truth (order.isLT || order.isEq))
  /-- The first value comes after the second or is equal to it. -/
  atLeast : Operator.ge.applyBinary v w = .ok (.truth (order.isGT || order.isEq))

/-! ## The four comparisons -/

/-- A comparison is judged by the order, and calculates nothing. -/
theorem judge?_of_mem {op : Operator} (h : op ∈ Operator.comparisons) (order : Ordering) :
    op.judge? order = some ((op.judge? order).getD false) ∧ ∀ x y, op.calculate? x y = none := by
  simp only [Operator.comparisons, List.mem_cons, List.not_mem_nil, or_false] at h
  rcases h with rfl | rfl | rfl | rfl <;> exact ⟨rfl, fun _ _ => rfl⟩

/-- A comparison reads its answer off the order of the values, and is refused when there is none. -/
theorem applyBinary_of_mem {op : Operator} (h : op ∈ Operator.comparisons) (v w : Value) :
    op.applyBinary v w = (v.order? w).elim (.error (op.mismatch v w))
      fun order => .ok (.truth ((op.judge? order).getD false)) := by
  have hadd : (op == .add) = false := by
    refine beq_eq_false_iff_ne.2 ?_
    rintro rfl
    exact absurd h (by decide)
  unfold Operator.applyBinary
  split
  · exact absurd h (by decide)
  · exact absurd h (by decide)
  · exact absurd h (by decide)
  · exact absurd h (by decide)
  rw [hadd, Bool.false_and, if_neg Bool.false_ne_true]
  split
  · next s t =>
    obtain ⟨hjudge, -⟩ := judge?_of_mem h (Ord.compare s t)
    rw [Operator.applyTexts, hjudge]
    rfl
  · next htexts =>
    cases hv : v.number? with
    | none =>
      rw [order?_eq_none htexts (.inl hv)]
      rfl
    | some x =>
      cases hw : w.number? with
      | none =>
        rw [order?_eq_none htexts (.inr hw)]
        rfl
      | some y =>
        obtain ⟨hjudge, hcalculate⟩ := judge?_of_mem h (x.compare y)
        simp only [Operator.applyNumbers, hcalculate]
        rw [hjudge, order?_of_number? hv hw, Decimal.compare_eq]
        rfl

/-! ## Equality -/

/-- Values are equal when reading variables that hold them yields the same. -/
theorem agree_iff : v.agree w = true ↔ v.read = w.read := by
  cases v <;> cases w <;> simp [agree, number?, read, truth]

/-- Agreement is an equivalence. -/
theorem equivalence_agree : Equivalence fun v w : Value => v.agree w = true := by
  constructor
  · intro v
    exact agree_iff.2 rfl
  · intro v w h
    exact agree_iff.2 (agree_iff.1 h).symm
  · intro u v w huv hvw
    exact agree_iff.2 ((agree_iff.1 huv).trans (agree_iff.1 hvw))

/-- Of two values with an order, equality says what the order says. -/
theorem agree_of_order? (h : v.order? w = some order) : v.agree w = order.isEq := by
  unfold order? at h
  split at h
  · next s t =>
    cases h
    rw [Bool.eq_iff_iff, agree_iff, Ordering.isEq_iff_eq_eq, Std.LawfulEqOrd.compare_eq_iff_eq]
    simp [read]
  · split at h
    · next x y hv hw =>
      cases h
      rw [← Decimal.compare_eq, agree, hv, hw, Bool.eq_iff_iff, beq_iff_eq, Ordering.isEq_iff_eq_eq,
        Std.LawfulEqCmp.compare_eq_iff_eq]
    · cases h

/-- The operators answer by the order of the values. -/
theorem compares_of_order? (h : v.order? w = some order) : v.Compares w order where
  less := by
    rw [applyBinary_of_mem (by decide), h]
    rfl
  equal := by
    rw [← agree_of_order? h]
    rfl
  greater := by
    rw [applyBinary_of_mem (by decide), h]
    rfl
  atMost := by
    rw [applyBinary_of_mem (by decide), h]
    cases order <;> rfl
  atLeast := by
    rw [applyBinary_of_mem (by decide), h]
    cases order <;> rfl

/-- Numbers are in normal form, equal when they denote the same rational, and ordered as the
rationals are; that order is total. The four comparisons of two values are all refused, or they
answer by one order, of which less, equal and greater each say one third. Equality is an equivalence
of all values, and inequality is its negation. -/
theorem comparison_total :
    (∀ c e p, Decimal.roundWords? c e = some p → Decimal.IsNormal p.1 p.2) ∧
    (∀ x y : Decimal, x.ExactlyOrdered y) ∧
    Std.TransCmp Decimal.compare ∧ Std.LawfulEqCmp Decimal.compare ∧
    (∀ v w : Value, (∀ op ∈ Operator.comparisons, op.applyBinary v w = .error (op.mismatch v w)) ∨
      ∃ order, v.Compares w order) ∧
    (Equivalence fun v w => Operator.eq.applyBinary v w = .ok (.truth true)) ∧
    ∀ v w, ∃ b, Operator.eq.applyBinary v w = .ok (.truth b) ∧
      Operator.ne.applyBinary v w = .ok (.truth !b) := by
  refine ⟨fun c e p => Decimal.isNormal_of_roundWords?, Decimal.exactlyOrdered, inferInstance,
    inferInstance, fun v w => ?_, ?_, fun v w => ⟨v.agree w, rfl, rfl⟩⟩
  · cases horder : v.order? w with
    | none =>
      left
      intro op hop
      rw [applyBinary_of_mem hop, horder]
      rfl
    | some order => exact .inr ⟨order, compares_of_order? horder⟩
  · have htruth (v w : Value) :
        Operator.eq.applyBinary v w = .ok (.truth true) ↔ v.agree w = true := by
      change Except.ok (truth (v.agree w)) = Except.ok (truth true) ↔ _
      cases v.agree w <;> decide
    simp only [htruth]
    exact equivalence_agree

end Value

end Narrative
