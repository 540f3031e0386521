import Narrative.Proofs.Expr.Rendering

/-!
# Well-formed expressions

The grammar of expressions says nothing about tiers: it only asks that operators stand between
operands, that parentheses match and that commas separate the arguments of calls. It is nevertheless
a grammar of renderings, since the operators of a well-formed expression can always be grouped by
their tiers.
-/

namespace Narrative

mutual

/-- A well-formed expression over known names. -/
inductive WellFormed (names : Names) : List Token → Prop
  | number (n : Decimal) : WellFormed names [.number n]
  | str (s : String) : WellFormed names [.str s]
  | variable {name : String} : names.hasVariable name = true → WellFormed names [.ident name]
  | negate {ts : List Token} : WellFormed names ts → WellFormed names (.operator .neg :: ts)
  | binary {op : Operator} {ls rs : List Token} :
      op ≠ .neg → WellFormed names ls → WellFormed names rs →
      WellFormed names (ls ++ .operator op :: rs)
  | group {ts : List Token} : WellFormed names ts → WellFormed names (.opening :: ts ++ [.closing])
  | bare {name : String} {callee : Callee} :
      names.hasVariable name = false → Callee.ofName? names name = some callee →
      WellFormed names [.ident name]
  | empty {name : String} {callee : Callee} :
      names.hasVariable name = false → Callee.ofName? names name = some callee →
      WellFormed names [.ident name, .opening, .closing]
  | call {name : String} {callee : Callee} {ts : List Token} :
      names.hasVariable name = false → Callee.ofName? names name = some callee →
      WellFormedArguments names ts →
      WellFormed names (.ident name :: .opening :: ts ++ [.closing])

/-- One or more well-formed expressions with single commas between them. -/
inductive WellFormedArguments (names : Names) : List Token → Prop
  | one {ts : List Token} : WellFormed names ts → WellFormedArguments names ts
  | more {ts rest : List Token} :
      WellFormed names ts → WellFormedArguments names rest →
      WellFormedArguments names (ts ++ .comma :: rest)

end

/-- An operator that binds less tightly than a right operand takes the whole as its left one. -/
theorem Operator.leftTier_le_of_lt_rightTier {op above : Operator} (h : op ≠ .neg)
    (hlt : above.tier < op.rightTier) : above.leftTier ≤ op.tier := by
  revert h hlt
  cases op <;> cases above <;> decide

namespace Rendering

variable {names : Names}

/-- What needs no parentheses among tight operators needs none among looser ones. -/
theorem mono {p q : Nat} {t : Tree} {ts : List Token} (h : Rendering names q t ts) (hpq : p ≤ q) :
    Rendering names p t ts := by
  cases h with
  | number n => exact .number n
  | str s => exact .str s
  | «variable» hname => exact .variable hname
  | group hinner => exact .group hinner
  | negate hq hinner => exact .negate (Nat.le_trans hpq hq) hinner
  | binary hop hq hl hr => exact .binary hop (Nat.le_trans hpq hq) hl hr
  | bare hname hcallee => exact .bare hname hcallee
  | call hname hcallee hargs => exact .call hname hcallee hargs

/-- A rendering is tight, or it is a binary operator between two renderings. -/
theorem tight_or_binary {p : Nat} {t : Tree} {ts : List Token} (h : Rendering names p t ts) :
    Rendering names Operator.neg.tier t ts ∨
      ∃ (op : Operator) (l r : Tree) (ls rs : List Token), op ≠ .neg ∧ p ≤ op.tier ∧
        ts = ls ++ .operator op :: rs ∧ Rendering names op.leftTier l ls ∧
        Rendering names op.rightTier r rs ∧ ls.length < ts.length ∧ rs.length < ts.length := by
  cases h with
  | number n => exact .inl (.number n)
  | str s => exact .inl (.str s)
  | «variable» hname => exact .inl (.variable hname)
  | group hinner => exact .inl (.group hinner)
  | negate hq hinner => exact .inl (.negate (Nat.le_refl _) hinner)
  | binary hop hq hl hr =>
    refine .inr ⟨_, _, _, _, _, hop, hq, rfl, hl, hr, ?_, ?_⟩ <;>
      · rw [List.length_append, List.length_cons]
        omega
  | bare hname hcallee => exact .inl (.bare hname hcallee)
  | call hname hcallee hargs => exact .inl (.call hname hcallee hargs)

/-- A sign binds to the first operand of what follows it. -/
theorem exists_negate {p : Nat} {t : Tree} {ts : List Token} (h : Rendering names p t ts)
    (hp : p ≤ Operator.neg.tier) : ∃ u, Rendering names p u (.operator .neg :: ts) := by
  obtain htight | ⟨op, l, r, ls, rs, hop, hq, rfl, hl, hr, hlen, _⟩ := h.tight_or_binary
  · exact ⟨_, .negate hp htight⟩
  · have hleft : op.leftTier ≤ Operator.neg.tier := by
      revert hop
      cases op <;> decide
    obtain ⟨u, hu⟩ := exists_negate hl hleft
    exact ⟨_, .binary hop hq hu hr⟩
termination_by ts.length

/-- A tight operand and an operator in front of a rendering find their place in it: the operator
takes the whole of it, or the leftmost part that is tight enough. -/
theorem exists_insert {op : Operator} (hop : op ≠ .neg) {l : Tree} {ls : List Token}
    (hl : Rendering names op.leftTier l ls) {p : Nat} (hp : p ≤ op.tier) {r : Tree}
    {rs : List Token} (hr : Rendering names p r rs) :
    ∃ t, Rendering names p t (ls ++ .operator op :: rs) := by
  have hright : op.rightTier ≤ Operator.neg.tier := by
    revert hop
    cases op <;> decide
  obtain htight | ⟨above, m, s, ms, ss, habove, hq, rfl, hm, hs, hlen, _⟩ := hr.tight_or_binary
  · exact ⟨_, .binary hop hp hl (htight.mono hright)⟩
  · by_cases hle : op.rightTier ≤ above.tier
    · exact ⟨_, .binary hop hp hl (.binary habove hle hm hs)⟩
    · have hleft := Operator.leftTier_le_of_lt_rightTier hop (by omega : above.tier < op.rightTier)
      obtain ⟨u, hu⟩ := exists_insert hop hl hleft hm
      have hwhole := Rendering.binary habove hq hu hs
      rw [List.append_assoc, List.cons_append] at hwhole
      exact ⟨_, hwhole⟩
termination_by rs.length

/-- Two renderings with a binary operator between them are a rendering of some tree. -/
theorem exists_join {op : Operator} (hop : op ≠ .neg) {l r : Tree} {ls rs : List Token}
    (hl : Rendering names 0 l ls) (hr : Rendering names 0 r rs) :
    ∃ t, Rendering names 0 t (ls ++ .operator op :: rs) := by
  obtain htight | ⟨above, m, s, ms, ss, habove, _, rfl, hm, hs, _, hlen⟩ := hl.tight_or_binary
  · have hleft : op.leftTier ≤ Operator.neg.tier := by
      revert hop
      cases op <;> decide
    exact exists_insert hop (htight.mono hleft) (Nat.zero_le _) hr
  · obtain ⟨u, hu⟩ := exists_join hop (hs.mono (Nat.zero_le _)) hr
    rw [List.append_assoc, List.cons_append]
    exact exists_insert habove hm (Nat.zero_le _) hu
termination_by ls.length

end Rendering

mutual

/-- A well-formed expression renders some tree. -/
theorem WellFormed.exists_rendering {names : Names} {ts : List Token} (h : WellFormed names ts) :
    ∃ t, Rendering names 0 t ts := by
  match h with
  | .number n => exact ⟨_, .number n⟩
  | .str s => exact ⟨_, .str s⟩
  | .variable hname => exact ⟨_, .variable hname⟩
  | .negate hinner =>
    obtain ⟨t, ht⟩ := hinner.exists_rendering
    exact ht.exists_negate (Nat.zero_le _)
  | .binary hop hls hrs =>
    obtain ⟨l, hl⟩ := hls.exists_rendering
    obtain ⟨r, hr⟩ := hrs.exists_rendering
    exact Rendering.exists_join hop hl hr
  | .group hinner =>
    obtain ⟨t, ht⟩ := hinner.exists_rendering
    exact ⟨t, .group ht⟩
  | .bare hname hcallee => exact ⟨_, .bare hname hcallee⟩
  | .empty hname hcallee => exact ⟨_, .call hname hcallee .none⟩
  | .call hname hcallee hargs =>
    obtain ⟨t, args, hrendering⟩ := hargs.exists_rendering
    exact ⟨_, .call hname hcallee hrendering⟩

/-- Well-formed arguments render some trees. -/
theorem WellFormedArguments.exists_rendering {names : Names} {ts : List Token}
    (h : WellFormedArguments names ts) : ∃ t args, ArgumentsRendering names (t :: args) ts := by
  match h with
  | .one hts =>
    obtain ⟨t, ht⟩ := hts.exists_rendering
    exact ⟨t, [], .one ht⟩
  | .more hts hrest =>
    obtain ⟨t, ht⟩ := hts.exists_rendering
    obtain ⟨u, args, hargs⟩ := hrest.exists_rendering
    exact ⟨t, u :: args, .more ht hargs⟩

end

/-- A rendering has some tokens. -/
theorem Rendering.ne_nil {names : Names} {p : Nat} {t : Tree} {ts : List Token}
    (h : Rendering names p t ts) : ts ≠ [] := by
  cases h <;> simp

/-- A rendering of arguments has some tokens. -/
theorem ArgumentsRendering.ne_nil {names : Names} {t : Tree} {args : List Tree} {ts : List Token}
    (h : ArgumentsRendering names (t :: args) ts) : ts ≠ [] := by
  cases h with
  | one ht => exact ht.ne_nil
  | more _ _ => simp

mutual

/-- A rendering is a well-formed expression. -/
theorem Rendering.wellFormed {names : Names} {p : Nat} {t : Tree} {ts : List Token}
    (h : Rendering names p t ts) : WellFormed names ts := by
  match h with
  | .number n => exact .number n
  | .str s => exact .str s
  | .variable hname => exact .variable hname
  | .group hinner => exact .group hinner.wellFormed
  | .negate _ hinner => exact .negate hinner.wellFormed
  | .binary hop _ hl hr => exact .binary hop hl.wellFormed hr.wellFormed
  | .bare hname hcallee => exact .bare hname hcallee
  | .call hname hcallee hargs =>
    obtain rfl | hnonempty := hargs.wellFormed
    · exact .empty hname hcallee
    · exact .call hname hcallee hnonempty

/-- The rendering of some arguments is well-formed, unless there are none. -/
theorem ArgumentsRendering.wellFormed {names : Names} {args : List Tree} {ts : List Token}
    (h : ArgumentsRendering names args ts) : ts = [] ∨ WellFormedArguments names ts := by
  match h with
  | .none => exact .inl rfl
  | .one ht => exact .inr (.one ht.wellFormed)
  | .more ht hmore =>
    obtain rfl | hrest := hmore.wellFormed
    · exact absurd rfl hmore.ne_nil
    · exact .inr (.more ht.wellFormed hrest)

end

end Narrative
