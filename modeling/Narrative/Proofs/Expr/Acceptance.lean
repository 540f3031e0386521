import Narrative.Proofs.Expr.Grammar

/-!
# Which token sequences are accepted

Counting operands in postfix form accepts exactly the post-orders of trees, so whatever compiles
means something. It does not see where the operands stood in the tokens. The compiler keeps an eye
on parentheses and names only, and that operators and operands alternate, and that commas stand
between the arguments of calls, is a condition of its own: a sequence is well-formed when it
compiles and is in this sense orderly.
-/

namespace Narrative

/-! ## The check accepts the post-orders of trees -/

namespace Tree

/-- The steps of trees follow each other. -/
theorem postorders_append (ts us : List Tree) :
    postorders (ts ++ us) = postorders ts ++ postorders us := by
  induction ts with
  | nil => rfl
  | cons t ts ih => simp only [List.cons_append, postorders, ih, List.append_assoc]

/-- The steps of one tree. -/
theorem postorders_singleton (t : Tree) : postorders [t] = t.postorder := by
  rw [postorders, postorders, List.append_nil]

/-- The steps that leave the given trees above the topmost mark and those of the other frames below
it. -/
def spell (top : List Tree) : (below : List (List Tree)) → List Step
  | [] => postorders top
  | outer :: below => spell outer below ++ .arguments :: postorders top

/-- More trees on top are spelled at the end. -/
theorem spell_append (top more : List Tree) (below : List (List Tree)) :
    spell (top ++ more) below = spell top below ++ postorders more := by
  cases below with
  | nil => exact postorders_append top more
  | cons outer below => simp only [spell, postorders_append, List.append_assoc, List.cons_append]

/-- A call makes one tree of the topmost frame. -/
theorem spell_call (callee : Callee) (top outer : List Tree) (below : List (List Tree)) :
    spell (outer ++ [.call callee top]) below = spell top (outer :: below) ++ [.call callee] := by
  rw [spell_append, postorders_singleton, postorder, spell, List.append_assoc, List.cons_append]

end Tree

namespace Step

/-- Steps that pass the check after some trees complete the post-order of one tree. -/
theorem exists_postorder_of_check {rest : List Step} {top : List Tree} {below : List (List Tree)}
    (h : check rest top.length (below.map List.length) = .ok ()) :
    ∃ t : Tree, Tree.spell top below ++ rest = t.postorder := by
  induction rest generalizing top below with
  | nil =>
    match top, below with
    | [t], [] => exact ⟨t, by rw [List.append_nil, Tree.spell, Tree.postorders_singleton]⟩
    | [], [] | _ :: _ :: _, [] | _, _ :: _ => simp [check] at h
  | cons next rest ih =>
    -- each step adds a tree to the topmost frame, but for the mark, which opens a new one
    have hadd (top : List Tree) (below : List (List Tree)) (t : Tree)
        (h : check rest (top.length + 1) (below.map List.length) = .ok ()) :
        ∃ u : Tree, Tree.spell top below ++ t.postorder ++ rest = u.postorder := by
      rw [← Tree.postorders_singleton, ← Tree.spell_append]
      exact ih (by rwa [List.length_append, List.length_singleton])
    cases next with
    | literal v =>
      obtain ⟨u, hu⟩ := hadd top below (.literal v) h
      exact ⟨u, by rw [← hu, Tree.postorder, List.append_assoc]; rfl⟩
    | «variable» name =>
      obtain ⟨u, hu⟩ := hadd top below (.variable name) h
      exact ⟨u, by rw [← hu, Tree.postorder, List.append_assoc]; rfl⟩
    | arguments =>
      obtain ⟨u, hu⟩ := @ih [] (top :: below) h
      refine ⟨u, ?_⟩
      rw [← hu, Tree.spell, Tree.postorders, List.append_assoc]
      rfl
    | call callee =>
      match below with
      | [] => simp [check] at h
      | outer :: below =>
        obtain ⟨u, hu⟩ := @ih (outer ++ [.call callee top]) below
          (by rwa [List.length_append, List.length_singleton])
        refine ⟨u, ?_⟩
        rw [← hu, Tree.spell_call, List.append_assoc]
        rfl
    | operator op =>
      have harity : op.arity ≤ top.length := by
        refine Nat.le_of_not_lt fun hlt => ?_
        simp [check, hlt] at h
      rw [check, if_neg (Nat.not_lt.2 harity)] at h
      by_cases hop : op = .neg
      · subst hop
        obtain rfl | ⟨front, t, rfl⟩ := List.eq_nil_or_concat top
        · simp [Operator.arity] at harity
        · rw [List.concat_eq_append, List.length_append, List.length_singleton,
            show Operator.neg.arity = 1 from rfl, Nat.add_sub_cancel] at h
          obtain ⟨u, hu⟩ := hadd front below (.negate t) h
          refine ⟨u, ?_⟩
          rw [← hu, List.concat_eq_append, Tree.spell_append, Tree.postorders_singleton,
            Tree.postorder]
          simp only [List.append_assoc, List.singleton_append]
      · rw [Operator.arity_eq_two hop] at h harity
        obtain rfl | ⟨most, r, rfl⟩ := List.eq_nil_or_concat top
        · simp at harity
        · obtain rfl | ⟨front, l, rfl⟩ := List.eq_nil_or_concat most
          · simp at harity
          · simp only [List.concat_eq_append, List.length_append, List.length_singleton] at h
            rw [show front.length + 1 + 1 + 1 - 2 = front.length + 1 by omega] at h
            obtain ⟨u, hu⟩ := hadd front below (.binary op hop l r) h
            refine ⟨u, ?_⟩
            rw [← hu, List.concat_eq_append, List.concat_eq_append, Tree.spell_append,
              Tree.spell_append, Tree.postorders_singleton, Tree.postorders_singleton,
              Tree.postorder]
            simp only [List.append_assoc, List.singleton_append]

end Step

/-! ## Orderly sequences -/

/-- What the next token of a sequence may be. -/
inductive Spot where
  /-- The beginning of an operand. -/
  | operand
  /-- The parenthesis after a callee. -/
  | called
  /-- The beginning of the first argument of a call, or the parenthesis that closes the call. -/
  | first
  /-- What comes after an operand. -/
  | after
deriving DecidableEq

namespace Spot

/-- The place after a token where an operand begins, given the token that follows. -/
def begin (names : Names) (calls : List Bool) (ahead : Option Token) :
    Token → Option (Spot × List Bool)
  | .number _ | .str _ => some (.after, calls)
  | .ident name =>
    if names.hasVariable name || ahead != some .opening then some (.after, calls)
    else some (.called, calls)
  | .operator op => if op = .neg then some (.operand, calls) else none
  | .opening => some (.operand, false :: calls)
  | _ => none

/-- The place after a token, given the token that follows; none if the token is out of place. Of
each open parenthesis, the innermost one first, it is known whether it belongs to a call. -/
def next (names : Names) (place : Spot) (calls : List Bool) (ahead : Option Token) (t : Token) :
    Option (Spot × List Bool) :=
  match place, t with
  | .after, .operator op => if op = .neg then none else some (.operand, calls)
  | .after, .comma => if calls.head? = some true then some (.operand, calls) else none
  | .after, .closing | .first, .closing => some (.after, calls.tail)
  | .called, .opening => some (.first, true :: calls)
  | .operand, t | .first, t => begin names calls ahead t
  | _, _ => none

end Spot

/-- Whether operands and operators alternate from a place on, and commas stand between the arguments
of calls only. Parentheses need not match. -/
def Token.orderly (names : Names) (place : Spot) (calls : List Bool) : List Token → Bool
  | [] => place == .after
  | t :: ts =>
    match place.next names calls ts.head? t with
    | some (place, calls) => orderly names place calls ts
    | none => false

section Orderly

open Token

variable {names : Names}

mutual

/-- A well-formed expression is orderly where an operand may begin. -/
theorem WellFormed.orderly_append {ts : List Token} (h : WellFormed names ts) {place : Spot}
    (hplace : place = .operand ∨ place = .first) (calls : List Bool) {rest : List Token}
    (hrest : rest.head? ≠ some .opening) :
    orderly names place calls (ts ++ rest) = orderly names .after calls rest := by
  match h with
  | .number _ | .str _ => obtain rfl | rfl := hplace <;> rfl
  | .variable hname =>
    obtain rfl | rfl := hplace <;> simp [orderly, Spot.next, Spot.begin, hname]
  | .negate hinner =>
    have ih := hinner.orderly_append (.inl rfl) calls hrest
    obtain rfl | rfl := hplace <;> simpa [orderly, Spot.next, Spot.begin] using ih
  | .binary hop hls hrs =>
    have ih := hrs.orderly_append (.inl rfl) calls hrest
    rw [List.append_assoc, hls.orderly_append hplace calls (by simp)]
    simpa [orderly, Spot.next, hop] using ih
  | .group hinner =>
    have ih := hinner.orderly_append (.inl rfl) (false :: calls)
      (show (Token.closing :: rest).head? ≠ some .opening by simp)
    obtain rfl | rfl := hplace <;> simpa [orderly, Spot.next, Spot.begin] using ih
  | .bare hname _ =>
    obtain rfl | rfl := hplace <;> simp [orderly, Spot.next, Spot.begin, hname, hrest]
  | .empty hname _ =>
    obtain rfl | rfl := hplace <;> simp [orderly, Spot.next, Spot.begin, hname]
  | .call hname _ hargs =>
    have ih := hargs.orderly_append (.inr rfl) calls rest
    obtain rfl | rfl := hplace <;> simpa [orderly, Spot.next, Spot.begin, hname] using ih

/-- Well-formed arguments are orderly between the parentheses of a call. -/
theorem WellFormedArguments.orderly_append {ts : List Token} (h : WellFormedArguments names ts)
    {place : Spot} (hplace : place = .operand ∨ place = .first) (calls : List Bool)
    (rest : List Token) :
    orderly names place (true :: calls) (ts ++ .closing :: rest) =
      orderly names .after calls rest := by
  match h with
  | .one hts =>
    rw [hts.orderly_append hplace (true :: calls) (by simp)]
    simp [orderly, Spot.next]
  | .more hts hmore =>
    have ih := hmore.orderly_append (.inl rfl) calls rest
    rw [List.append_assoc, hts.orderly_append hplace (true :: calls) (by simp)]
    simpa [orderly, Spot.next] using ih

end

/-! ## Orderly sequences that compile are well-formed -/

/-- Tokens that an operand completes to an expression. -/
def Incomplete (names : Names) (seg : List Token) : Prop :=
  ∀ ⦃ts : List Token⦄, WellFormed names ts → WellFormed names (seg ++ ts)

/-- The tokens of an open parenthesis with what stands before it, and with the arguments already
read if it belongs to a call. -/
inductive Frame (names : Names) : (isCall : Bool) → List Token → Prop
  | group {seg : List Token} : Incomplete names seg → Frame names false (seg ++ [.opening])
  | call {seg : List Token} {name : String} {callee : Callee} :
      Incomplete names seg → names.hasVariable name = false →
      Callee.ofName? names name = some callee → Frame names true (seg ++ [.ident name, .opening])
  | comma {f ts : List Token} :
      Frame names true f → WellFormed names ts → Frame names true (f ++ ts ++ [.comma])

/-- The tokens up to the innermost open parenthesis, given which of the open ones belong to calls.
-/
inductive Opens (names : Names) : List Bool → List Token → Prop
  | none : Opens names [] []
  | push {calls : List Bool} {isCall : Bool} {fs f : List Token} :
      Opens names calls fs → Frame names isCall f → Opens names (isCall :: calls) (fs ++ f)

/-- The stack has the given open parentheses, and each callee on it lies under its own. -/
inductive Pends : List Bool → List Pending → Prop
  | nil : Pends [] []
  | operator {calls : List Bool} {stack : List Pending} {op : Operator} :
      Pends calls stack → Pends calls (.operator op :: stack)
  | group {calls : List Bool} {stack : List Pending} :
      Pends calls stack → Pends (false :: calls) (.paren :: stack)
  | call {calls : List Bool} {stack : List Pending} {callee : Callee} :
      Pends calls stack → Pends (true :: calls) (.paren :: .callee callee :: stack)

/-- What the tokens read so far are, and what the stack holds, at a place. -/
inductive Stands (names : Names) :
    Spot → List Bool → List Pending → (done : List Token) → Prop
  | operand {calls : List Bool} {stack : List Pending} {fs seg done : List Token} :
      Opens names calls fs → Pends calls stack → Incomplete names seg → done = fs ++ seg →
      Stands names .operand calls stack done
  | called {calls : List Bool} {stack : List Pending} {fs seg done : List Token} {name : String}
      {callee : Callee} :
      Opens names calls fs → Pends calls stack → Incomplete names seg →
      names.hasVariable name = false → Callee.ofName? names name = some callee →
      done = fs ++ (seg ++ [.ident name]) →
      Stands names .called calls (.callee callee :: stack) done
  | first {calls : List Bool} {stack : List Pending} {fs seg done : List Token} {name : String}
      {callee : Callee} :
      Opens names calls fs → Pends calls stack → Incomplete names seg →
      names.hasVariable name = false → Callee.ofName? names name = some callee →
      done = fs ++ (seg ++ [.ident name, .opening]) →
      Stands names .first (true :: calls) (.paren :: .callee callee :: stack) done
  | after {calls : List Bool} {stack : List Pending} {fs seg done : List Token} :
      Opens names calls fs → Pends calls stack → WellFormed names seg → done = fs ++ seg →
      Stands names .after calls stack done

/-- Nothing is incomplete. -/
theorem incomplete_nil : Incomplete names [] := fun _ h => h

/-- A sign leaves it incomplete. -/
theorem Incomplete.negate {seg : List Token} (h : Incomplete names seg) :
    Incomplete names (seg ++ [.operator .neg]) := by
  intro ts hts
  rw [List.append_assoc]
  exact h hts.negate

/-- An operator behind an expression asks for another one. -/
theorem WellFormed.incomplete {seg : List Token} (h : WellFormed names seg) {op : Operator}
    (hop : op ≠ .neg) : Incomplete names (seg ++ [.operator op]) := by
  intro ts hts
  rw [List.append_assoc]
  exact .binary hop h hts

/-- A closing parenthesis ends the arguments of a call. -/
theorem Frame.close_arguments {f ts : List Token} (h : Frame names true f)
    (hts : WellFormedArguments names ts) : WellFormed names (f ++ ts ++ [.closing]) := by
  generalize hcall : true = isCall at h
  induction h generalizing ts with
  | group _ => cases hcall
  | call hseg hname hcallee =>
    have hwhole := hseg (.call hname hcallee hts)
    simpa only [List.append_assoc, List.cons_append, List.nil_append] using hwhole
  | comma _ harg ih =>
    have hwhole := ih (.more harg hts) rfl
    simpa only [List.append_assoc, List.cons_append, List.nil_append] using hwhole

/-- A closing parenthesis after an expression completes the frame. -/
theorem Frame.close {isCall : Bool} {f ts : List Token} (h : Frame names isCall f)
    (hts : WellFormed names ts) : WellFormed names (f ++ ts ++ [.closing]) := by
  cases isCall with
  | true => exact h.close_arguments (.one hts)
  | false =>
    cases h with
    | group hseg =>
      have hwhole := hseg hts.group
      simpa only [List.append_assoc, List.cons_append, List.nil_append] using hwhole

/-- A name without its parenthesis does not wait at the top. -/
theorem Pends.ne_callee {calls : List Bool} {stack : List Pending} (h : Pends calls stack)
    (callee : Callee) (rest : List Pending) : stack ≠ .callee callee :: rest := by
  rintro rfl
  cases h

/-- The operators that leave the stack are no calls. -/
theorem Pends.yielding {calls : List Bool} {stack : List Pending} (h : Pends calls stack)
    (op : Operator) : Pends calls (Pending.yielding op stack).2 := by
  induction h with
  | nil => exact .nil
  | @operator _ _ top hstack ih =>
    rw [Pending.yielding]
    split
    · exact ih
    · exact hstack.operator
  | group hstack _ => exact hstack.group
  | call hstack _ => exact hstack.call

/-- The innermost open parenthesis of the stack, with what is under it. -/
theorem Pends.group? {calls : List Bool} {stack under : List Pending} {steps : List Step}
    (h : Pends calls stack) (hgroup : Pending.group? stack = some (steps, under)) :
    (∃ outer, calls = false :: outer ∧ Pends outer under) ∨
      ∃ outer callee rest, calls = true :: outer ∧ under = .callee callee :: rest ∧
        Pends outer rest := by
  induction h generalizing steps with
  | nil => cases hgroup
  | operator _ ih =>
    rw [Pending.group?, Option.map_eq_some_iff] at hgroup
    obtain ⟨⟨inner, under'⟩, hinner, heq⟩ := hgroup
    cases heq
    exact ih hinner
  | group hstack _ =>
    cases hgroup
    exact .inl ⟨_, rfl, hstack⟩
  | call hstack _ =>
    cases hgroup
    exact .inr ⟨_, _, _, rfl, rfl, hstack⟩

/-- Nothing is open when the stack can be emptied at the end. -/
theorem Pends.finish? {calls : List Bool} {stack : List Pending} {steps : List Step}
    (h : Pends calls stack) (hfinish : Pending.finish? stack = some steps) : calls = [] := by
  induction h generalizing steps with
  | nil => rfl
  | operator _ ih =>
    rw [Pending.finish?, Option.map_eq_some_iff] at hfinish
    obtain ⟨inner, hinner, _⟩ := hfinish
    exact ih hinner
  | group _ _ => cases hfinish
  | call _ _ => cases hfinish

/-- Steps are followed by something that was compiled. -/
theorem Step.follow_eq_ok {steps whole : List Step} {rest : Except ExprError (List Step)}
    (h : follow steps rest = .ok whole) : ∃ more, rest = .ok more := by
  cases rest with
  | error _ => cases h
  | ok more => exact ⟨more, rfl⟩

/-- The end is no opening parenthesis. -/
theorem head?_append_finish (ts : List Token) :
    (ts ++ [Token.finish]).head? = some .opening ↔ ts.head? = some .opening := by
  cases ts <;> simp

/-- What a token at the beginning of an operand makes of the tokens read so far and of the stack. -/
theorem Stands.begin {place : Spot} {calls calls' : List Bool} {stack : List Pending}
    {done ts : List Token} {t : Token} {steps : List Step}
    (h : Stands names .operand calls stack done)
    (hnext : Spot.begin names calls ts.head? t = some (place, calls'))
    (hrun : Step.ofTokens names (t :: ts ++ [.finish]) stack = .ok steps) :
    ∃ stack' more, Stands names place calls' stack' (done ++ [t]) ∧
      Step.ofTokens names (ts ++ [.finish]) stack' = .ok more := by
  cases h with | operand hopens hpends hseg hdone
  subst hdone
  rw [List.cons_append] at hrun
  cases t with
  | number n =>
    cases hnext
    obtain ⟨more, hmore⟩ := Step.follow_eq_ok hrun
    exact ⟨_, more, .after hopens hpends (hseg (.number n)) (List.append_assoc ..), hmore⟩
  | str s =>
    cases hnext
    obtain ⟨more, hmore⟩ := Step.follow_eq_ok hrun
    exact ⟨_, more, .after hopens hpends (hseg (.str s)) (List.append_assoc ..), hmore⟩
  | ident name =>
    cases hname : names.hasVariable name with
    | true =>
      simp only [Spot.begin, hname, Bool.true_or, if_true] at hnext
      cases hnext
      simp only [Step.ofTokens, hname, if_true] at hrun
      obtain ⟨more, hmore⟩ := Step.follow_eq_ok hrun
      exact ⟨_, more, .after hopens hpends (hseg (.variable hname)) (List.append_assoc ..), hmore⟩
    | false =>
      cases hcallee : Callee.ofName? names name with
      | none => simp [Step.ofTokens, hname, hcallee] at hrun
      | some callee =>
        by_cases hahead : ts.head? = some .opening
        · simp only [Spot.begin, hname, hahead, bne_self_eq_false, Bool.or_self, Bool.false_eq_true,
            if_false] at hnext
          cases hnext
          simp only [Step.ofTokens, hname, hcallee, Bool.false_eq_true, if_false,
            (head?_append_finish ts).2 hahead, if_true] at hrun
          obtain ⟨more, hmore⟩ := Step.follow_eq_ok hrun
          exact ⟨_, more, .called hopens hpends hseg hname hcallee (List.append_assoc ..), hmore⟩
        · have hbare : (ts.head? != some .opening) = true := bne_iff_ne.2 hahead
          simp only [Spot.begin, hname, hbare, Bool.or_true, if_true] at hnext
          cases hnext
          simp only [Step.ofTokens, hname, hcallee, Bool.false_eq_true, if_false,
            if_neg (mt (head?_append_finish ts).1 hahead)] at hrun
          obtain ⟨more, hmore⟩ := Step.follow_eq_ok hrun
          exact ⟨_, more, .after hopens hpends (hseg (.bare hname hcallee)) (List.append_assoc ..),
            hmore⟩
  | operator op =>
    by_cases hop : op = .neg
    · subst hop
      cases hnext
      rw [Step.ofTokens, Step.yielding_neg] at hrun
      obtain ⟨more, hmore⟩ := Step.follow_eq_ok hrun
      exact ⟨_, more, .operand hopens hpends.operator hseg.negate (List.append_assoc ..), hmore⟩
    · simp [Spot.begin, hop] at hnext
  | opening =>
    cases hnext
    refine ⟨_, steps, .operand (hopens.push (.group hseg)) hpends.group incomplete_nil ?_, hrun⟩
    rw [List.append_nil, List.append_assoc]
  | closing | comma | unknown | finish => cases hnext

/-- A place inside the parentheses of a call is one where an operand begins, too. -/
theorem Stands.operand_of_first {calls : List Bool} {stack : List Pending} {done : List Token}
    (h : Stands names .first calls stack done) : Stands names .operand calls stack done := by
  cases h with | first hopens hpends hseg hname hcallee hdone
  subst hdone
  refine .operand (hopens.push (.call hseg hname hcallee)) hpends.call incomplete_nil ?_
  rw [List.append_nil]

/-- A token that is not out of place leads from one place to the next, as long as the sequence
compiles. -/
theorem Stands.next {place place' : Spot} {calls calls' : List Bool} {stack : List Pending}
    {done ts : List Token} {t : Token} {steps : List Step} (h : Stands names place calls stack done)
    (hnext : place.next names calls ts.head? t = some (place', calls'))
    (hrun : Step.ofTokens names (t :: ts ++ [.finish]) stack = .ok steps) :
    ∃ stack' more, Stands names place' calls' stack' (done ++ [t]) ∧
      Step.ofTokens names (ts ++ [.finish]) stack' = .ok more := by
  cases place with
  | operand => exact h.begin hnext hrun
  | called =>
    cases h with | called hopens hpends hseg hname hcallee hdone
    subst hdone
    cases t with
    | opening =>
      cases hnext
      refine ⟨_, steps, .first hopens hpends hseg hname hcallee ?_, hrun⟩
      simp only [List.append_assoc, List.cons_append, List.nil_append]
    | _ => cases hnext
  | first =>
    by_cases ht : t = .closing
    · subst ht
      cases h with | first hopens hpends hseg hname hcallee hdone
      subst hdone
      cases hnext
      obtain ⟨more, hmore⟩ := Step.follow_eq_ok hrun
      refine ⟨_, more, .after hopens hpends (hseg (.empty hname hcallee)) ?_, hmore⟩
      simp only [List.append_assoc, List.cons_append, List.nil_append]
    · refine h.operand_of_first.begin ?_ hrun
      cases t <;> first | exact hnext | exact absurd rfl ht
  | after =>
    cases h with | after hopens hpends hseg hdone
    subst hdone
    rw [List.cons_append] at hrun
    cases t with
    | operator op =>
      by_cases hop : op = .neg
      · simp [Spot.next, hop] at hnext
      · simp only [Spot.next, if_neg hop] at hnext
        cases hnext
        rw [Step.ofTokens] at hrun
        obtain ⟨more, hmore⟩ := Step.follow_eq_ok hrun
        exact ⟨_, more, .operand hopens (hpends.yielding op).operator (hseg.incomplete hop)
          (List.append_assoc ..), hmore⟩
    | comma =>
      cases hgroup : Pending.group? stack with
      | none => simp [Step.ofTokens, hgroup] at hrun
      | some found =>
        obtain ⟨emitted, under⟩ := found
        obtain ⟨outer, rfl, _⟩ | ⟨outer, callee, rest, rfl, rfl, hunder⟩ := hpends.group? hgroup
        · simp [Spot.next] at hnext
        · cases hnext
          simp only [Step.ofTokens, hgroup] at hrun
          obtain ⟨more, hmore⟩ := Step.follow_eq_ok hrun
          cases hopens with
          | push hfs hf =>
            refine ⟨_, more, .operand (hfs.push (hf.comma hseg)) hunder.call incomplete_nil ?_,
              hmore⟩
            simp only [List.append_assoc, List.append_nil]
    | closing =>
      cases hgroup : Pending.group? stack with
      | none => simp [Step.ofTokens, hgroup] at hrun
      | some found =>
        obtain ⟨emitted, under⟩ := found
        obtain ⟨outer, rfl, hunder⟩ | ⟨outer, callee, rest, rfl, rfl, hunder⟩ :=
          hpends.group? hgroup
        · cases hnext
          rw [Step.ofTokens_closing hgroup hunder.ne_callee] at hrun
          obtain ⟨more, hmore⟩ := Step.follow_eq_ok hrun
          cases hopens with
          | push hfs hf =>
            refine ⟨_, more, .after hfs hunder (hf.close hseg) ?_, hmore⟩
            simp only [List.append_assoc]
        · cases hnext
          simp only [Step.ofTokens, hgroup] at hrun
          obtain ⟨more, hmore⟩ := Step.follow_eq_ok hrun
          cases hopens with
          | push hfs hf =>
            refine ⟨_, more, .after hfs hunder (hf.close hseg) ?_, hmore⟩
            simp only [List.append_assoc]
    | number | str | ident | opening | unknown | finish => cases hnext

/-- An orderly sequence that compiles is well-formed, whatever has been read before. -/
theorem Stands.wellFormed {place : Spot} {calls : List Bool} {stack : List Pending}
    {done ts : List Token} {steps : List Step} (h : Stands names place calls stack done)
    (horderly : orderly names place calls ts = true)
    (hrun : Step.ofTokens names (ts ++ [.finish]) stack = .ok steps) :
    WellFormed names (done ++ ts) := by
  induction ts generalizing place calls stack done steps with
  | nil =>
    have hplace : place = .after := eq_of_beq horderly
    subst hplace
    cases h with | after hopens hpends hseg hdone
    cases hfinish : Pending.finish? stack with
    | none => simp [Step.ofTokens, hfinish] at hrun
    | some left =>
      obtain rfl := hpends.finish? hfinish
      cases hopens
      rwa [hdone, List.append_nil, List.nil_append]
  | cons t ts ih =>
    rw [orderly] at horderly
    split at horderly
    · next place' calls' hnext =>
      obtain ⟨stack', more, hstands, hmore⟩ := h.next hnext hrun
      have hwhole := ih hstands horderly hmore
      rwa [List.append_assoc] at hwhole
    · cases horderly

end Orderly

namespace Expr

/-- What compiles is the post-order of some tree. -/
theorem exists_tree_of_ofTokens {names : Names} {tokens : List Token} {e : Expr}
    (h : ofTokens names tokens = .ok e) : ∃ t : Tree, e = ⟨t.postorder⟩ := by
  obtain ⟨t, ht⟩ := @Step.exists_postorder_of_check e.steps [] [] (ofTokens_eq_ok.1 h).2
  exact ⟨t, congrArg Expr.mk ht⟩

/-- A sequence of tokens is a well-formed expression exactly if it compiles and is orderly. So a
malformed sequence is rejected but for one reason: its operators, operands and commas are out of
order in a way that leaves the counts right. It then compiles to some tree all the same. -/
theorem wellFormed_iff_accepted (names : Names) (ts : List Token) :
    (WellFormed names ts ↔
      (∃ e, ofTokens names (ts ++ [.finish]) = .ok e) ∧
        Token.orderly names .operand [] ts = true) ∧
    (∀ e, ofTokens names (ts ++ [.finish]) = .ok e ↔
      ∃ t : Tree, Step.ofTokens names (ts ++ [.finish]) [] = .ok t.postorder ∧
        e = ⟨t.postorder⟩) := by
  refine ⟨⟨fun h => ⟨?_, ?_⟩, ?_⟩, fun e => ⟨fun h => ?_, ?_⟩⟩
  · obtain ⟨t, ht⟩ := h.exists_rendering
    exact ⟨⟨t.postorder⟩, ofTokens_eq_ok.2 ⟨Step.ofTokens_rendering_finish ht, t.check_eq_ok⟩⟩
  · have horderly := h.orderly_append (.inl rfl) [] (show ([] : List Token).head? ≠ _ by simp)
    rwa [List.append_nil] at horderly
  · rintro ⟨⟨e, he⟩, horderly⟩
    have hstart : Stands names .operand [] [] [] := .operand .none .nil incomplete_nil rfl
    exact hstart.wellFormed horderly (ofTokens_eq_ok.1 he).1
  · obtain ⟨t, rfl⟩ := exists_tree_of_ofTokens h
    exact ⟨t, (ofTokens_eq_ok.1 h).1, rfl⟩
  · rintro ⟨t, hsteps, rfl⟩
    exact ofTokens_eq_ok.2 ⟨hsteps, t.check_eq_ok⟩

/-- Two operands in a row, an operator in front of its operands, one that takes an operand from the
argument before its own, and a doubled comma: all of them compile, and none of them is well-formed.
-/
theorem compiles_disorderly :
    (["1 2 +", "+ 1 2", "f(1, + 2)", "f(1,,2)"].all fun text =>
      (compile ⟨fun _ => false, (· == "f")⟩ text.toList).isOk) = true ∧
    ∀ text ∈ ["1 2 +", "+ 1 2", "f(1, + 2)", "f(1,,2)"],
      ¬ WellFormed ⟨fun _ => false, (· == "f")⟩ (Token.ofChars text.toList).dropLast := by
  have hdisorderly : ∀ text ∈ ["1 2 +", "+ 1 2", "f(1, + 2)", "f(1,,2)"],
      Token.orderly ⟨fun _ => false, (· == "f")⟩ .operand []
        (Token.ofChars text.toList).dropLast = false := by decide +kernel
  refine ⟨by decide +kernel, fun text htext h => ?_⟩
  have horderly := h.orderly_append (.inl rfl) [] (show ([] : List Token).head? ≠ _ by simp)
  rw [List.append_nil, hdisorderly text htext] at horderly
  cases horderly

end Expr

end Narrative
