import Narrative.Proofs.Directive.Nesting
import Narrative.Proofs.Expr.Characters

/-!
# Texts with unpaired braces

The search for directives runs from the end of a text to its beginning and stops at the first
opening brace that no closing one follows. It does not look at the braces as a whole, so what stands
behind that brace has been resolved by then. A text is left alone if and only if no closing brace
follows its last opening one.
-/

namespace Narrative.Directive

/-- The braces of a text pair up. -/
structure Balanced (cs : List Char) : Prop where
  /-- There are as many opening braces as closing ones. -/
  count_eq : cs.count '\x7b' = cs.count '\x7d'
  /-- No closing brace comes before its opening one. -/
  count_le {p : List Char} : p <+: cs → p.count '\x7d' ≤ p.count '\x7b'

/-- No closing brace stands behind the last opening one. -/
def Idle (cs : List Char) : Prop :=
  ∀ left right, cs = left ++ '\x7b' :: right → '\x7b' ∉ right → '\x7d' ∉ right

/-- A text with an opening brace has a last one. -/
theorem exists_last {cs : List Char} (h : '\x7b' ∈ cs) :
    ∃ left right, cs = left ++ '\x7b' :: right ∧ '\x7b' ∉ right := by
  obtain ⟨after, before, hsplit, hafter⟩ := List.eq_append_cons_of_mem (List.mem_reverse.2 h)
  refine ⟨before.reverse, after.reverse, ?_, mt List.mem_reverse.1 hafter⟩
  rw [← List.reverse_reverse cs, hsplit]
  simp

/-- An idle text has no braces, or they do not pair up. -/
theorem Idle.braceless_or_not_balanced {cs : List Char} (h : Idle cs) :
    Braceless cs ∨ ¬ Balanced cs := by
  rw [or_iff_not_imp_right, not_not]
  intro hbalanced
  have hopen : '\x7b' ∉ cs := by
    intro hmem
    obtain ⟨left, right, rfl, hright⟩ := exists_last hmem
    have hclose : right.count '\x7d' = 0 := List.count_eq_zero.2 (h left right rfl hright)
    have htotal := hbalanced.count_eq
    have hprefix := hbalanced.count_le (List.prefix_append left ('\x7b' :: right))
    rw [List.count_append, List.count_append, List.count_cons_self,
      List.count_cons_of_ne (by decide), hclose] at htotal
    omega
  refine ⟨hopen, List.count_eq_zero.1 ?_⟩
  rw [← hbalanced.count_eq, List.count_eq_zero.2 hopen]

variable {σ : Type} {ctx : Context σ} {count : Nat} {m m' : σ}

/-- The last opening brace is the first one that the search comes to. -/
theorem expand_last {right : List Char} (h : '\x7b' ∉ right) (left : List Char) :
    expand ctx count (left ++ '\x7b' :: right) =
      expandBefore ctx count ('\x7b' :: left.reverse) right := by
  have hskip := @expandBefore_append σ ctx count right h ('\x7b' :: left.reverse) []
  rw [List.append_nil] at hskip
  rw [expand, ← hskip]
  simp

/-! ## Texts that are left alone -/

/-- A text without a brace that closes is shown as it is. -/
theorem expand_of_idle {text : List Char} (h : Idle text) :
    expand ctx count text = pure text := by
  by_cases hopen : '\x7b' ∈ text
  · -- the last opening brace is not closed, so the search ends there
    obtain ⟨left, right, rfl, hright⟩ := exists_last hopen
    rw [expand_last hright, expandBefore_unclosed (h left right rfl hright), List.reverse_reverse]
  · have hskip := @expandBefore_append σ ctx count text hopen [] []
    simpa [expand, expandBefore] using hskip

/-! ## Texts that are not -/

/-- A character is in none of the texts that a directive may show. -/
def Lacks (c : Char) : Directive → Prop
  | .conditional _ options | .indexed _ options | .cycle options | .once options
  | .shuffle options | .stopping options => ∀ option ∈ options, c ∉ option
  | .value source => c ∉ source

/-- What is not in the body is in none of its options. -/
theorem not_mem_of_mem_options {c : Char} {body : List Char} (h : c ∉ body) :
    ∀ option ∈ options body, c ∉ option := fun _ hoption hc =>
  h ((infix_of_mem_options hoption).subset hc)

/-- A directive with a condition shows nothing that is not in its body. -/
theorem lacks_guarded {c : Char} {body : List Char} (h : c ∉ body) (condition : List Char) :
    (guarded condition body).Lacks c := by
  unfold guarded
  split <;> exact not_mem_of_mem_options h

/-- A directive without a condition shows nothing that is not in it. -/
theorem lacks_unguarded {c : Char} {inner : List Char} (h : c ∉ inner) :
    (unguarded inner).Lacks c := by
  unfold unguarded
  split
  · exact not_mem_of_mem_options (mt (List.mem_cons_of_mem _) h)
  · exact not_mem_of_mem_options (mt (List.mem_cons_of_mem _) h)
  · exact not_mem_of_mem_options (mt (List.mem_cons_of_mem _) h)
  · split
    · exact not_mem_of_mem_options h
    · exact h

/-- No directive shows what is not in it. -/
theorem lacks_ofChars {c : Char} {inner : List Char} (h : c ∉ inner) : (ofChars inner).Lacks c := by
  unfold ofChars
  by_cases hcolon : ':' ∈ inner
  · obtain ⟨condition, body, rfl, hcondition⟩ := List.eq_append_cons_of_mem hcolon
    rw [Text.cut?_append hcondition]
    refine lacks_guarded (fun hc => h ?_) _
    exact List.mem_append_right _ (List.mem_cons_of_mem _ hc)
  · rw [Text.cut?_eq_none hcolon]
    exact lacks_unguarded h

/-- What is in none of the options is not in the one that is taken. -/
theorem not_mem_getD {c : Char} {options : List (List Char)} (h : ∀ option ∈ options, c ∉ option)
    (index : Nat) : c ∉ options.getD index [] := by
  rw [List.getD_eq_getElem?_getD]
  cases hoption : options[index]? with
  | none => exact List.not_mem_nil
  | some option => exact h option (List.mem_of_getElem? hoption)

/-- Directives without opening braces show none where the answers of the context have none. -/
theorem not_mem_of_resolve (hctx : ctx.Answers (· ≠ '\x7b')) {d : Directive} {t : List Char}
    (hd : d.Lacks '\x7b') (h : d.resolve ctx count m = some (t, m')) : '\x7b' ∉ t := by
  cases d with
  | conditional condition options =>
    obtain ⟨r, u, -, h⟩ := Run.bind_eq_some.1 h
    cases r with
    | ok v => cases h; exact not_mem_getD hd _
    | error e => cases h; exact not_mem_getD hd _
  | indexed index options =>
    obtain ⟨r, u, -, h⟩ := Run.bind_eq_some.1 h
    cases r with
    | ok v => cases h; exact not_mem_getD hd _
    | error e => cases h; exact not_mem_getD hd _
  | cycle options | once options | stopping options =>
    cases h
    exact not_mem_getD hd _
  | shuffle options =>
    obtain ⟨r, u, -, h⟩ := Run.bind_eq_some.1 h
    cases h
    exact not_mem_getD hd _
  | value source =>
    obtain ⟨r, u, hrun, h⟩ := Run.bind_eq_some.1 h
    cases r with
    | ok v =>
      cases h
      have hplain (c : Char) (hc : Numeral c) : c ≠ '\x7b' := by
        rintro rfl
        exact absurd hc (by decide)
      have hsource : ∀ c ∈ source, c ≠ '\x7b' := fun c hc heq => hd (heq ▸ hc)
      exact fun hc => hctx.spelled_evalText hplain hsource hrun _ hc rfl
    | error e =>
      cases h
      exact not_mem_failure (by decide +kernel) hd

/-- The search puts no opening braces into the text: to its right there are none, and what it
resolves there shows none. -/
theorem count_of_expandBefore (hctx : ctx.Answers (· ≠ '\x7b')) {left right t : List Char}
    (hright : '\x7b' ∉ right) (h : expandBefore ctx count left right m = some (t, m')) :
    t.count '\x7b' ≤ left.count '\x7b' := by
  induction left generalizing right m with
  | nil =>
    cases h
    exact (List.count_eq_zero.2 hright).le
  | cons c left ih =>
    by_cases hc : c = '\x7b'
    · subst hc
      rw [List.count_cons_self]
      by_cases hclose : '\x7d' ∈ right
      · obtain ⟨inner, after, rfl, hinner⟩ := List.eq_append_cons_of_mem hclose
        rw [expandBefore_closed hinner] at h
        obtain ⟨resolved, u, hresolve, h⟩ := Run.bind_eq_some.1 h
        simp only [List.mem_append, List.mem_cons, not_or] at hright
        have hresolved := not_mem_of_resolve hctx (lacks_ofChars hright.1) hresolve
        have hle := ih (by simp [hresolved, hright.2.2]) h
        omega
      · rw [expandBefore_unclosed hclose] at h
        cases h
        rw [List.count_append, List.count_reverse, List.count_cons_self,
          List.count_eq_zero.2 hright]
    · rw [expandBefore, if_neg hc] at h
      rw [List.count_cons_of_ne hc]
      exact ih (by simpa [hright] using Ne.symm hc) h

/-- A closing brace behind the last opening one: what stands between them is a directive, and its
braces are gone in the end. -/
theorem idle_of_forall_expand {text : List Char}
    (h : ∀ {σ : Type} (ctx : Context σ) (count : Nat), expand ctx count text = pure text) :
    Idle text := by
  rintro left right rfl hright hclose
  obtain ⟨inner, after, rfl, hinner⟩ := List.eq_append_cons_of_mem hclose
  simp only [List.mem_append, List.mem_cons, not_or] at hright
  -- a context that answers with zeros shows that the text does not stay as it is
  have hanswers : Context.refusing.Answers (· ≠ '\x7b') :=
    Context.answers_refusing fun c hc heq => absurd (heq ▸ hc : Numeral '\x7b') (by decide)
  have hrun := congrFun (h Context.refusing 0) ()
  rw [expand_last (by simp [hright]), expandBefore_closed hinner] at hrun
  obtain ⟨resolved, u, hresolve, hrest⟩ := Run.bind_eq_some.1 hrun
  have hresolved := not_mem_of_resolve hanswers (lacks_ofChars hright.1) hresolve
  have hle := count_of_expandBefore hanswers (by simp [hresolved, hright.2.2]) hrest
  rw [List.count_append, List.count_cons_self, List.count_reverse] at hle
  omega

/-! ## Where the search ends -/

/-- The search through the first part of a text ends the expansion there, or goes on with what that
part has become. -/
theorem expandBefore_prefix {near right t : List Char}
    (h : expandBefore ctx count near right m = some (t, m')) (left : List Char) :
    expandBefore ctx count (near ++ left) right m = some (left.reverse ++ t, m') ∨
      expandBefore ctx count (near ++ left) right m = expandBefore ctx count left t m' := by
  induction near generalizing right m with
  | nil =>
    cases h
    exact .inr rfl
  | cons c near ih =>
    by_cases hc : c = '\x7b'
    · subst hc
      by_cases hclose : '\x7d' ∈ right
      · obtain ⟨inner, after, rfl, hinner⟩ := List.eq_append_cons_of_mem hclose
        rw [expandBefore_closed hinner] at h
        obtain ⟨resolved, u, hresolve, h⟩ := Run.bind_eq_some.1 h
        rw [List.cons_append, expandBefore_closed hinner, Run.bind_apply, hresolve]
        exact ih h
      · rw [expandBefore_unclosed hclose] at h
        cases h
        rw [List.cons_append, expandBefore_unclosed hclose]
        left
        simp
    · rw [expandBefore, if_neg hc] at h
      rw [List.cons_append, expandBefore, if_neg hc]
      exact ih h

/-- An opening brace that no closing one follows once everything behind it has been resolved ends
the expansion. -/
theorem expand_unclosed {behind t : List Char} (h : expand ctx count behind m = some (t, m'))
    (ht : '\x7d' ∉ t) (lead : List Char) :
    expand ctx count (lead ++ '\x7b' :: behind) m = some (lead ++ '\x7b' :: t, m') := by
  have hreverse : (lead ++ '\x7b' :: behind).reverse =
      behind.reverse ++ '\x7b' :: lead.reverse := by
    simp
  rw [expand, hreverse]
  rcases expandBefore_prefix h ('\x7b' :: lead.reverse) with hend | hend
  · simpa using hend
  · rw [hend, expandBefore_unclosed ht]
    simp

/-- A text is left alone, with nothing evaluated, in all contexts if and only if no closing brace
follows its last opening one. Such a text has no braces at all, or they do not pair up. When an
opening brace stays unclosed, only what stands in front of it is left alone: the directives behind
it have been resolved. -/
theorem expand_unchanged_iff (text : List Char) :
    ((∀ {σ : Type} (ctx : Context σ) (count : Nat), expand ctx count text = pure text) ↔
      Idle text) ∧
    (Idle text → Braceless text ∨ ¬ Balanced text) ∧
    ∀ {σ : Type} (ctx : Context σ) (count : Nat) (lead behind t : List Char) (m m' : σ),
      text = lead ++ '\x7b' :: behind → expand ctx count behind m = some (t, m') → '\x7d' ∉ t →
        expand ctx count text m = some (lead ++ '\x7b' :: t, m') := by
  refine ⟨⟨idle_of_forall_expand, fun h σ ctx count => expand_of_idle h⟩,
    Idle.braceless_or_not_balanced, ?_⟩
  rintro σ ctx count lead behind t m m' rfl hbehind ht
  exact expand_unclosed hbehind ht lead

/-- The braces of a text do not pair up, and still the directive at its end is resolved. -/
theorem not_expand_unchanged :
    ¬ Balanced "\x7ba \x7b1\x7d".toList ∧
    expand Context.refusing 0 "\x7ba \x7b1\x7d".toList () = some ("\x7ba 1".toList, ()) :=
  ⟨fun h => absurd h.count_eq (by decide +kernel), by decide +kernel⟩

end Narrative.Directive
