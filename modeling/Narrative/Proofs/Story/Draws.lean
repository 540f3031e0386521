import Narrative.Proofs.Computation
import Narrative.Proofs.Decimal.Truncation
import Narrative.Story.Stage

/-!
# Random numbers

A random number is an index that the source of random numbers answers with, below the bound that
the argument gives as a word. The index becomes a number, and is rounded to seven digits then. Up to
ten million nothing is rounded and all indexes below the argument are results. Beyond, the last
indexes are rounded up to the argument itself, until the argument is beyond all words.
-/

namespace Narrative

/-! ## Rounded indexes -/

namespace Decimal

variable {x n d : Decimal} {m e : Int} {k : Nat}

/-- A power of ten with a positive exponent is at least ten. -/
theorem ten_le_place (he : 1 ≤ e) : (10 : ℚ) ≤ 10 ^ e := by
  have hplace : (10 : ℚ) ^ (1 : Int) ≤ 10 ^ e := zpow_le_zpow_right₀ (by norm_num) he
  rwa [zpow_one] at hplace

/-- One less than a multiple of a place of at least ten is rounded up to the multiple when the place
leaves it seven digits. -/
theorem roundsTo_multiple_sub_one (hlower : 10 ^ 6 < m) (hupper : m ≤ 10 ^ 7) (he : 1 ≤ e) :
    RoundsTo (m * 10 ^ e - 1) (m * 10 ^ e) := by
  have hplace := ten_le_place he
  have hlow : ((10 : ℚ) ^ 6 + 1) * 10 ^ e ≤ m * 10 ^ e :=
    mul_le_mul_of_nonneg_right (by exact_mod_cast Int.add_one_le_iff.2 hlower) (place_pos e).le
  have hhigh : (m : ℚ) * 10 ^ e ≤ 10 ^ 7 * 10 ^ e :=
    mul_le_mul_of_nonneg_right (by exact_mod_cast hupper) (place_pos e).le
  have hpos : (0 : ℚ) < m * 10 ^ e - 1 := by linarith
  have hdistance : |(m : ℚ) * 10 ^ e - 1 - m * 10 ^ e| = 1 := by
    rw [sub_sub_cancel_left, abs_neg, abs_one]
  right
  refine ⟨e, m, ⟨?_, ?_, ?_, ?_⟩, rfl⟩
  · rw [abs_of_pos hpos]
    linarith
  · rw [abs_of_pos hpos]
    linarith
  · rw [hdistance]
    linarith
  · rw [hdistance]
    intro htie
    linarith

/-- A positive number is a multiple of the place that leaves it seven digits. -/
theorem exists_seven_digit_value (hx : 0 < x.value) :
    ∃ m e : Int, x.value = m * 10 ^ e ∧ 10 ^ 6 ≤ m ∧ m < 10 ^ 7 := by
  have hpos : 0 < x.coeff := by
    rw [value] at hx
    exact_mod_cast pos_of_mul_pos_left hx (place_pos x.exp).le
  obtain ⟨k, -, hlower, hupper⟩ :=
    exists_seven_digits (Int.natAbs_pos.2 hpos.ne') x.natAbs_coeff_lt
  refine ⟨(x.coeff.natAbs * tenTo k : Nat), x.exp - k, ?_, ?_, ?_⟩
  · have hsign : (x.coeff : ℚ) = x.coeff.natAbs := by
      rw [Nat.cast_natAbs, abs_of_pos hpos]
    rw [Int.cast_natCast, ← mul_place_eq_mul_tenTo, value, hsign]
  · exact_mod_cast hlower
  · exact_mod_cast hupper

/-- Beyond ten million one less than a number is rounded up to the number. -/
theorem roundsTo_value_sub_one (hx : (10 : ℚ) ^ 7 < x.value) : RoundsTo (x.value - 1) x.value := by
  obtain ⟨m, e, hvalue, hlower, hupper⟩ := exists_seven_digit_value (lt_trans (by norm_num) hx)
  rw [hvalue] at hx ⊢
  rcases hlower.eq_or_lt with rfl | hlt
  · have hplace : (10 : ℚ) ^ (1 : Int) < 10 ^ e := by
      push_cast at hx
      rw [zpow_one]
      linarith
    have he := place_lt_place.1 hplace
    rw [least_seven_digits_eq]
    exact roundsTo_multiple_sub_one (by decide) le_rfl (by omega)
  · have hplace : (10 : ℚ) ^ (0 : Int) < 10 ^ e := by
      have hcast : (m : ℚ) < 10 ^ 7 := by exact_mod_cast hupper
      have hprod := mul_lt_mul_of_pos_right hcast (place_pos e)
      rw [zpow_zero]
      linarith
    have he := place_lt_place.1 hplace
    exact roundsTo_multiple_sub_one hlt hupper.le (by omega)

/-! ## Indexes as results -/

/-- An index below the bound is a word. -/
theorem index_mem (hk : k < n.toInt64) : minInt64 ≤ (k : Int) ∧ (k : Int) ≤ maxInt64 := by
  have hbound := n.toInt64_mem.2
  rw [minInt64]
  omega

/-- An index below the bound becomes a whole number between zero and the argument. -/
theorem value_ofInt_index (hk : k < n.toInt64) :
    (ofInt k).isInteger = true ∧ 0 ≤ (ofInt k).value ∧ (ofInt k).value ≤ n.value := by
  have hround := roundsTo_ofInt (index_mem hk)
  have hone : 1 ≤ n.value := toInt64_pos_iff.1 (by omega)
  have hnonneg : (0 : ℚ) ≤ (k : Int) := by exact_mod_cast Nat.zero_le k
  refine ⟨isInteger_ofInt (index_mem hk), hround.nonneg hnonneg, ?_⟩
  calc (ofInt k).value
    _ ≤ n.trunc.value := hround.mono (roundsTo_ofInt n.toInt64_mem) (by exact_mod_cast hk.le)
    _ ≤ |n.trunc.value| := le_abs_self _
    _ ≤ |n.value| := n.abs_value_trunc_le
    _ = n.value := abs_of_nonneg (by linarith)

/-- Up to ten million the word is the argument without its fraction. -/
theorem toInt64_eq_truncate_of_le (hnonneg : 0 ≤ n.value) (hn : n.value ≤ 10 ^ 7) :
    n.toInt64 = truncate n.value := by
  apply toInt64_eq_truncate
  rw [abs_of_nonneg hnonneg, greatestWhole]
  norm_num at hn ⊢
  linarith

/-- Up to ten million no index is rounded. -/
theorem value_ofInt_index_eq (hk : k < n.toInt64) (hn : n.value ≤ 10 ^ 7) :
    (ofInt k).value = k ∧ (k : ℚ) < n.value := by
  have hnonneg : 0 ≤ n.value := zero_le_one.trans (toInt64_pos_iff.1 (by omega))
  have hindex : ((k : Int) : ℚ) < truncate n.value := by
    rw [toInt64_eq_truncate_of_le hnonneg hn] at hk
    exact_mod_cast hk
  have hfloor : (truncate n.value : ℚ) ≤ n.value := by
    rw [truncate, if_pos hnonneg]
    exact Int.floor_le _
  have hlt : ((k : Int) : ℚ) < n.value := hindex.trans_le hfloor
  have hdigits : (k : Int).natAbs < tenTo precision := by exact_mod_cast hlt.trans_le hn
  exact ⟨value_ofInt hdigits, hlt⟩

/-- An index is below the argument when it is not rounded, and when no word is as high as the
argument. -/
theorem value_ofInt_index_lt (hk : k < n.toInt64)
    (hn : n.value ≤ 10 ^ 7 ∨ greatestWhole < n.value) : (ofInt k).value < n.value := by
  rcases hn with hsmall | hlarge
  · obtain ⟨hvalue, hlt⟩ := value_ofInt_index_eq hk hsmall
    rwa [hvalue]
  · have hword := index_mem hk
    have hgreatest : RoundsTo maxInt64 (ofInt maxInt64).value := roundsTo_ofInt (by decide)
    rw [value_ofInt_maxInt64] at hgreatest
    exact ((roundsTo_ofInt hword).mono hgreatest (by exact_mod_cast hword.2)).trans_lt hlarge

/-- In between, the last index is rounded up to the argument. -/
theorem ofInt_last_index (hlow : (10 : ℚ) ^ 7 < n.value) (hhigh : n.value ≤ greatestWhole) :
    ofInt (n.toInt64 - 1) = n := by
  have habs : |n.value| = n.value := abs_of_nonneg (by linarith)
  have hword := toInt64_of_isInteger (by rwa [habs]) (isInteger_of_le (by linarith))
  apply round_eq_of_roundsTo
  rw [zpow_zero, mul_one, Int.cast_sub, hword, Int.cast_one]
  exact roundsTo_value_sub_one hlow

end Decimal

/-! ## Sources of random numbers -/

variable {σ : Type} {ctx : Context σ} {n d : Decimal} {k : Nat}

namespace Context

/-- The source of random numbers answers with indexes below the bounds. -/
def DrawsBelow (ctx : Context σ) : Prop :=
  ∀ bound s, 0 < bound → (ctx.roll bound s).1 < bound

/-- The same context with a source that answers with the index `k`, or with the last one when `k` is
not below the bound. -/
def answering (ctx : Context σ) (k : Nat) : Context σ :=
  { ctx with roll := fun bound s => (min k (bound - 1), s) }

/-- A context that gives a number below the bound draws below it. -/
theorem drawsBelow_answering (ctx : Context σ) (k : Nat) : (ctx.answering k).DrawsBelow := by
  intro bound s hbound
  change min k (bound - 1) < bound
  omega

/-- A story draws below the bounds, wherever its random numbers come from. -/
theorem drawsBelow_contextWith (s : Stage) (call : String → List Value → Eval Memory Value) :
    (s.contextWith call).DrawsBelow := by
  intro bound m hbound
  exact Dice.roll_lt s.host.random hbound m.dice

end Context

/-! ## The function -/

/-- What the function of stories does with a number. -/
def randomBelow (ctx : Context σ) (n : Decimal) : Eval σ Value :=
  Builtin.random.apply ctx (.number n)

/-- Below one nothing is drawn, and the number is zero. -/
theorem randomBelow_of_lt_one (h : n.value < 1) (s : σ) :
    randomBelow ctx n s = some (.ok (.number .zero), s) := by
  have hbound : n.toInt64 ≤ 0 := by
    rw [← not_lt, Decimal.toInt64_pos_iff]
    exact not_le.2 h
  exact congrFun (if_pos hbound) s

/-- From one on a number below the whole part is drawn. -/
theorem randomBelow_of_one_le (h : 1 ≤ n.value) (s : σ) :
    randomBelow ctx n s =
      some (.ok (.int (ctx.roll n.toInt64.toNat s).1), (ctx.roll n.toInt64.toNat s).2) := by
  have hbound : ¬n.toInt64 ≤ 0 := not_le.2 (Decimal.toInt64_pos_iff.2 h)
  exact congrFun (if_neg hbound) s

/-- Every number below the whole part may be drawn. -/
theorem randomBelow_answering (hk : k < n.toInt64) (s : σ) :
    randomBelow (ctx.answering k) n s = some (.ok (.int k), s) := by
  have hindex : min k (n.toInt64.toNat - 1) = k := by omega
  rw [randomBelow_of_one_le (Decimal.toInt64_pos_iff.1 (by omega))]
  change some (_, s) = _
  rw [show ((ctx.answering k).roll n.toInt64.toNat s).1 = k from hindex]

/-- A whole number below the bound is an index. -/
theorem exists_index (hd : d.isInteger = true) (hnonneg : 0 ≤ d.value) (hlt : d.value < n.toInt64) :
    ∃ k : Nat, k < n.toInt64 ∧ .ofInt k = d := by
  obtain ⟨m, hm⟩ := Decimal.isInteger_iff.1 hd
  rw [hm] at hnonneg hlt
  obtain ⟨k, rfl⟩ := Int.eq_ofNat_of_zero_le (by exact_mod_cast hnonneg : 0 ≤ m)
  refine ⟨k, by exact_mod_cast hlt, Decimal.ofInt_eq hm⟩

/-- What random numbers below a bound promise. -/
structure RandomStaysWithin (ctx : Context σ) (n : Decimal) : Prop where
  /-- Below one the result is zero, and nothing is drawn. -/
  zero (s : σ) : n.value < 1 → randomBelow ctx n s = some (.ok (.number .zero), s)
  /-- From one on the result is a whole number from zero to the bound, and is below the bound when
  that is at most ten million or beyond all words. -/
  drawn (s : σ) : 1 ≤ n.value → ∃ r t, randomBelow ctx n s = some (.ok (.number r), t) ∧
    r.isInteger = true ∧ 0 ≤ r.value ∧ r.value ≤ n.value ∧
    (n.value ≤ 10 ^ 7 ∨ Decimal.greatestWhole < n.value → r.value < n.value)
  /-- In between the bound itself is the result for an index below it. -/
  attained : 10 ^ 7 < n.value → n.value ≤ Decimal.greatestWhole →
    ∃ k : Nat, k < n.toInt64 ∧ ∀ s, randomBelow (ctx.answering k) n s = some (.ok (.number n), s)
  /-- Every whole number below the bound, and below the greatest word, is a result. -/
  reachable (d : Decimal) : d.isInteger = true → 0 ≤ d.value → d.value < n.toInt64 →
    ∃ k : Nat, k < n.toInt64 ∧ ∀ s, randomBelow (ctx.answering k) n s = some (.ok (.number d), s)
  /-- Up to ten million these are all integers below the bound. -/
  integers (k : Nat) : n.value ≤ 10 ^ 7 → k < Decimal.truncate n.value →
    ∃ d : Decimal, d.value = k ∧
      ∀ s, randomBelow (ctx.answering k) n s = some (.ok (.number d), s)
  /-- Those sources answer below their bounds. -/
  sources (k : Nat) : (ctx.answering k).DrawsBelow
  /-- The function is called under its name. -/
  call (name : String) : Builtin.ofName? name = some .random →
    ctx.callBuiltin? name [.number n] = some (randomBelow ctx n)

/-- Random numbers stay within their bound. -/
theorem randomStaysWithin (hctx : ctx.DrawsBelow) (n : Decimal) : RandomStaysWithin ctx n where
  zero s h := randomBelow_of_lt_one h s
  drawn s h := by
    have hbound := Decimal.toInt64_pos_iff.2 h
    have hindex := hctx n.toInt64.toNat s (by omega)
    have hlt : ((ctx.roll n.toInt64.toNat s).1 : Int) < n.toInt64 := by omega
    obtain ⟨hwhole, hnonneg, hle⟩ := Decimal.value_ofInt_index hlt
    refine ⟨_, _, randomBelow_of_one_le h s, hwhole, hnonneg, hle, ?_⟩
    exact Decimal.value_ofInt_index_lt hlt
  attained hlow hhigh := by
    have hpos := Decimal.toInt64_pos_iff.2 (show 1 ≤ n.value by linarith)
    obtain ⟨k, hk⟩ := Int.eq_ofNat_of_zero_le (show 0 ≤ n.toInt64 - 1 by omega)
    refine ⟨k, by omega, fun s => ?_⟩
    rw [randomBelow_answering (by omega), Value.int, ← hk, Decimal.ofInt_last_index hlow hhigh]
  reachable d hd hnonneg hlt := by
    obtain ⟨k, hk, rfl⟩ := exists_index hd hnonneg hlt
    exact ⟨k, hk, randomBelow_answering hk⟩
  integers k hn hk := by
    have hpos : 0 ≤ n.value := by
      by_contra hneg
      have htruncate := Decimal.truncate_nonpos (not_le.1 hneg)
      omega
    rw [← Decimal.toInt64_eq_truncate_of_le hpos hn] at hk
    exact ⟨_, (Decimal.value_ofInt_index_eq hk hn).1, randomBelow_answering hk⟩
  sources := ctx.drawsBelow_answering
  call name h := by
    simp [Context.callBuiltin?, h, Builtin.call, Builtin.arity, randomBelow]

/-- The context of a story without content, which has no functions. -/
def bareContext : Context Memory :=
  (Stage.mk (.ofSources .empty id) default none).contextWith fun _ _ => pure .null

/-- The dice of a story stay below six. -/
theorem randomStaysWithin_bareContext :
    bareContext.DrawsBelow ∧ ∃ (r : Decimal) (t : Memory),
      randomBelow bareContext ⟨6, 0, by decide⟩ { dice := .ofSeed 1 } = some (.ok (.number r), t) ∧
        0 ≤ r.value ∧ r.value < 6 := by
  have hctx : bareContext.DrawsBelow := Context.drawsBelow_contextWith _ _
  have hsix : (⟨6, 0, by decide⟩ : Decimal).value = 6 := by
    norm_num [Decimal.value]
  obtain ⟨r, t, hrun, -, hnonneg, -, hlt⟩ :=
    (randomStaysWithin hctx ⟨6, 0, by decide⟩).drawn { dice := .ofSeed 1 } (by norm_num [hsix])
  rw [hsix] at hlt
  exact ⟨hctx, r, t, hrun, hnonneg, hlt (.inl (by norm_num))⟩

/-- The last of a hundred million indexes is rounded up to a hundred million. -/
theorem random_attains_bound :
    let n : Decimal := ⟨1, 8, by decide⟩
    (bareContext.answering 99999999).DrawsBelow ∧ 1 ≤ n.value ∧
      randomBelow (bareContext.answering 99999999) n {} = some (.ok (.number n), {}) := by
  intro n
  refine ⟨bareContext.drawsBelow_answering _, Decimal.toInt64_pos_iff.1 (by decide), ?_⟩
  rw [randomBelow_answering (by decide)]
  rfl

end Narrative
