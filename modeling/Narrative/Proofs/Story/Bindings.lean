import Mathlib.Data.List.TakeWhile
import Narrative.Proofs.Story.Reachable

/-!
# Variables that are read back

A statement stores a value in the nearest parameter of a name, or else in the global variable. An
expression looks a name up in another order: the word `this` and the parameters come first, then the
visits of containers, and the global variables last. So a value that was stored is read back unless
the name is one of the words of the language or stands for the visits of a container, and no other
name is read differently.
-/

namespace Narrative

/-! ## Names -/

/-- The words that an expression does not read as a name. -/
def Lexeme.reserved : List String :=
  ["and", "or", "true", "false"]

/-- A text that is written as the name of a variable. -/
structure Statement.IsName (name : String) : Prop where
  /-- It begins like a name, and goes on like one. -/
  spelled : ∃ c rest, name = String.ofList (c :: rest) ∧ startsName c = true ∧
    ∀ d ∈ rest, continuesName d = true

/-- The name of the variable that a statement stores a value in. -/
def Statement.variable? : Statement → Option String
  | .declare name _ | .assign name _ => some name
  | .result _ | .eval _ => none

namespace Statement

/-- What is assigned to has a name. -/
theorem isName_of_assignment? {cs value : List Char} {name : String}
    (h : assignment? cs = some (name, value)) : IsName name := by
  unfold assignment? at h
  split at h
  · cases h
  · next c rest _ =>
    split at h
    · next hstarts =>
      split at h
      · split at h
        · cases h
        · cases h
          exact ⟨c, _, rfl, hstarts, fun d hd => List.mem_takeWhile_imp hd⟩
      · cases h
    · cases h

/-- A statement stores values under names only. -/
theorem isName_of_ofLine {line : List Char} {st : Statement} {name : String}
    (h : ofLine line = .ok st) (hname : st.variable? = some name) : IsName name := by
  unfold ofLine at h
  split at h
  · unfold declaration at h
    split at h
    · cases h
    · next declared value hassignment =>
      cases hvalue : initializer declared value with
      | error e =>
        rw [hvalue] at h
        cases h
      | ok init =>
        rw [hvalue] at h
        cases h
        cases hname
        exact isName_of_assignment? hassignment
  · unfold action at h
    split at h
    · cases h
    · split at h
      · cases h
        cases hname
      · split at h
        · cases h
          cases hname
        · next hassignment =>
          cases h
          cases hname
          exact isName_of_assignment? hassignment
        · cases h
          cases hname

end Statement

namespace Lexeme

/-- A name begins with a letter or an underscore. -/
theorem toNat_of_startsName {c : Char} (h : startsName c = true) :
    (65 ≤ c.toNat ∧ c.toNat ≤ 90) ∨ (97 ≤ c.toNat ∧ c.toNat ≤ 122) ∨ c.toNat = 95 := by
  rw [startsName, Bool.or_eq_true, beq_iff_eq] at h
  rcases h with h | rfl
  · delta Char.isAlpha Char.isUpper Char.isLower at h
    simp only [Bool.or_eq_true, Bool.and_eq_true, decide_eq_true_eq, UInt32.le_iff_toNat_le,
      ge_iff_le] at h
    exact or_assoc.1 (.inl h)
  · exact .inr (.inr rfl)

/-- A name begins with no digit. -/
theorem isDigit_eq_false_of_startsName {c : Char} (h : startsName c = true) :
    c.isDigit = false := by
  have hletter := toNat_of_startsName h
  have hdigit : c.isDigit = true → 48 ≤ c.toNat ∧ c.toNat ≤ 57 := by
    intro hc
    delta Char.isDigit at hc
    simp only [Bool.and_eq_true, decide_eq_true_eq, UInt32.le_iff_toNat_le, ge_iff_le] at hc
    exact hc
  rw [Bool.eq_false_iff]
  intro hc
  have hrange := hdigit hc
  omega

/-- A word that is not reserved is a name. -/
theorem word_of_not_reserved {cs : List Char} (h : String.ofList cs ∉ reserved) :
    word cs = .ident (String.ofList cs) := by
  unfold word
  split
  · next heq => exact absurd (by rw [heq]; decide) h
  · next heq => exact absurd (by rw [heq]; decide) h
  · next heq => exact absurd (by rw [heq]; decide) h
  · next heq => exact absurd (by rw [heq]; decide) h
  · rfl

/-- A name is read as one token. -/
theorem ofChars_name {name : String} (hname : Statement.IsName name) (hword : name ∉ reserved) :
    Token.ofChars name.toList = [.ident name, .finish] := by
  obtain ⟨c, rest, rfl, hstarts, hcontinues⟩ := hname.spelled
  -- statements and expressions spell names alike
  change startsName c = true at hstarts
  change ∀ d ∈ rest, continuesName d = true at hcontinues
  have hdifferent {d : Char} (hd : startsName d = false) : (c == d) = false := by
    refine beq_eq_false_iff_ne.2 fun hcd => ?_
    rw [← hcd, hstarts] at hd
    cases hd
  have hseparator : isSeparator c = false := by
    rw [isSeparator, hdifferent (by decide), hdifferent (by decide), hdifferent (by decide),
      hdifferent (by decide)]
    rfl
  have hread : read true 0 c rest = (.ident (String.ofList (c :: rest)), rest.length) := by
    have htake : rest.takeWhile continuesName = rest :=
      List.takeWhile_eq_self_iff.2 hcontinues
    unfold read
    rw [isDigit_eq_false_of_startsName hstarts, hdifferent (by decide), hdifferent (by decide)]
    simp only [Bool.false_and, Bool.false_eq_true, if_false]
    rw [if_pos hstarts, Lexeme.name, htake, word_of_not_reserved hword]
  rw [Token.ofChars, Lexeme.ofChars, String.toList_ofList, scan, hseparator, hread]
  simp only [Bool.false_eq_true, if_false, List.drop_length]
  rw [scan]
  rfl

end Lexeme

/-- A name that stands for a value is evaluated by looking it up. -/
theorem Context.evalText_name {σ : Type} {ctx : Context σ} {name : String} {m : σ}
    (hname : Statement.IsName name) (hword : name ∉ Lexeme.reserved)
    (hvariable : (ctx.names m).hasVariable name = true) :
    ctx.evalText name.toList m = some (.ok (ctx.value m name).read, m) := by
  have hcompile : Expr.compile (ctx.names m) name.toList = .ok ⟨[.variable name]⟩ := by
    rw [Expr.compile, Lexeme.ofChars_name hname hword, Expr.ofTokens, Step.ofTokens, if_pos hvariable]
    rfl
  rw [evalText, Attempt.get_bind_apply, hcompile]
  rfl

namespace Stage

variable {s : Stage} {m : Memory} {name : String} {v : Value}

/-! ## What storing a value changes -/

/-- Storing a value binds no parameter. -/
theorem contains_assign (i : NodeId) (other : String) :
    ((s.assign m name v).mark i).scope.contains other = (m.mark i).scope.contains other := by
  unfold assign
  split
  · next j hbinder =>
    rw [Memory.mark_modifyMark]
    split
    · next hij =>
      subst hij
      rw [NameMap.contains, NameMap.get?_insert]
      split
      · next hother =>
        subst hother
        exact (List.find?_some hbinder).symm
      · rfl
    · rfl
  · rfl

/-- Storing a variable leaves where names are bound. -/
theorem binder?_assign (other : String) :
    s.binder? (s.assign m name v) other = s.binder? m other := by
  unfold binder?
  simp only [contains_assign]

/-- Storing a variable leaves the visits. -/
theorem visits_assign (i : NodeId) :
    ((s.assign m name v).mark i).visits = (m.mark i).visits := by
  unfold assign
  split
  · rw [Memory.mark_modifyMark]
    split
    · next hij => rw [hij]
    · rfl
  · rfl

/-- Storing a variable leaves what names count. -/
theorem countOf?_assign (other : String) :
    s.countOf? (s.assign m name v) other = s.countOf? m other := by
  have hcount (i : NodeId) : ((s.assign m name v).mark i).count = (m.mark i).count :=
    Mark.count_congr (s.visits_assign i)
  unfold countOf?
  simp only [hcount]

/-- A parameter has the value that was stored in it. -/
theorem parameter?_assign (other : String) :
    s.parameter? (s.assign m name v) other =
      if other = name then (s.parameter? m name).map fun _ => v else s.parameter? m other := by
  rw [parameter?, parameter?, parameter?, binder?_assign]
  by_cases hother : other = name
  · subst hother
    rw [if_pos rfl]
    cases hbinder : s.binder? m other with
    | none => rfl
    | some i =>
      have hbound : (m.mark i).scope.contains other = true := by
        have hfound := List.find?_some hbinder
        exact hfound
      obtain ⟨w, hw⟩ := Option.isSome_iff_exists.1 hbound
      rw [assign, hbinder, Option.bind_some, Option.bind_some, hw]
      dsimp only
      rw [Memory.mark_modifyMark, if_pos rfl, NameMap.get?_insert, if_pos rfl]
      rfl
  · rw [if_neg hother]
    refine congrArg _ (funext fun i => ?_)
    unfold assign
    split
    · rw [Memory.mark_modifyMark]
      split
      · next hij => rw [NameMap.get?_insert, if_neg (Ne.symm hother), hij]
      · rfl
    · rfl

/-- A global variable has the value that was stored, when no parameter has it. -/
theorem globals_assign (other : String) :
    (s.assign m name v).globals.get? other =
      if other = name ∧ s.binder? m name = none then some v else m.globals.get? other := by
  unfold assign
  split
  · next hbinder => rw [if_neg (by rw [hbinder]; exact nofun)]; rfl
  · next hbinder =>
    rw [Memory.setGlobal, NameMap.get?_insert]
    simp only [hbinder, and_true, eq_comm]

/-- Other names are read as before. -/
theorem valueOf_assign_of_ne {other : String} (h : other ≠ name) :
    s.valueOf (s.assign m name v) other = s.valueOf m other := by
  have hglobals : (s.assign m name v).globals.get? other = m.globals.get? other := by
    rw [globals_assign, if_neg fun hboth => h hboth.1]
  rw [valueOf, valueOf, parameter?_assign, if_neg h, countOf?_assign, hglobals]

/-- Other names stand for a value as before. -/
theorem hasVariable_assign_of_ne {other : String} (h : other ≠ name) :
    s.hasVariable (s.assign m name v) other = s.hasVariable m other := by
  have hglobals : (s.assign m name v).globals.contains other = m.globals.contains other := by
    rw [NameMap.contains, NameMap.contains, globals_assign, if_neg fun hboth => h hboth.1]
  rw [hasVariable, hasVariable, binder?_assign, countOf?_assign, hglobals]

/-- A name is no reference. -/
theorem reference?_of_isName (hname : Statement.IsName name) : reference? name = none := by
  obtain ⟨c, rest, rfl, hstarts, -⟩ := hname.spelled
  have hc : c ≠ '-' := by
    rintro rfl
    exact absurd hstarts (by decide)
  rw [reference?, String.toList_ofList, Text.after?, if_neg (Ne.symm hc)]
  rfl

/-- Whether a name is read as the variable in which a value is stored under it: it is a parameter, or
it does not stand for the visits of a container. -/
def IsPlain (s : Stage) (m : Memory) (name : String) : Prop :=
  (s.binder? m name).isSome = true ∨ s.counted? name = none

/-- What was stored under a name is read. -/
theorem valueOf_assign (hname : Statement.IsName name) (hthis : name ≠ "this")
    (hplain : s.IsPlain m name) : s.valueOf (s.assign m name v) name = v := by
  rw [valueOf, if_neg hthis, parameter?_assign, if_pos rfl, reference?_of_isName hname]
  cases hbinder : s.binder? m name with
  | some i =>
    have hbound : (m.mark i).scope.contains name = true := by
      have hfound := List.find?_some hbinder
      exact hfound
    obtain ⟨w, hw⟩ := Option.isSome_iff_exists.1 hbound
    rw [parameter?, hbinder, Option.bind_some, hw]
    rfl
  | none =>
    have hcounted : s.counted? name = none := by
      refine hplain.resolve_left ?_
      rw [hbinder]
      exact nofun
    rw [parameter?, hbinder, countOf?, hcounted, globals_assign, if_pos ⟨rfl, hbinder⟩]
    rfl

/-- A name under which a value was stored stands for a value. -/
theorem hasVariable_assign (hname : Statement.IsName name) (hthis : name ≠ "this") :
    s.hasVariable (s.assign m name v) name = true := by
  have hdigit : name.toList.head?.all Char.isDigit = false := by
    obtain ⟨c, rest, rfl, hstarts, -⟩ := hname.spelled
    rw [String.toList_ofList]
    exact Lexeme.isDigit_eq_false_of_startsName hstarts
  rw [hasVariable, hdigit, if_neg nofun, if_neg hthis, binder?_assign, reference?_of_isName hname]
  cases hbinder : s.binder? m name with
  | some i => rfl
  | none =>
    have hstored : (s.assign m name v).globals.contains name = true := by
      rw [NameMap.contains, globals_assign, if_pos ⟨rfl, hbinder⟩]
      rfl
    simp only [hstored, Bool.or_true]
    rfl

/-! ## Statements -/

/-- The value that a statement stores in a variable, and the memory in which it was found. -/
inductive Stores (s : Stage) (ctx : Context Memory) (line : Nat) (m : Memory) (name : String)
    (v : Value) (found : Memory) : Statement → Prop
  /-- The value of a declaration. -/
  | declare {init : Initializer} :
      s.initialValue ctx name line init m = some (.ok v, found) →
      Stores s ctx line m name v found (.declare name init)
  /-- The right-hand side of an assignment to a known variable. -/
  | assign {source : String} :
      s.hasVariable m name = true → s.assignedValue ctx name source line m = some (.ok v, found) →
      Stores s ctx line m name v found (.assign name source)

/-- A statement that succeeds stores a value in its variable. -/
theorem stores_of_execute {ctx : Context Memory} {line : Nat} {st : Statement} {m' : Memory}
    (hname : st.variable? = some name) (h : s.execute ctx line st m = some (.ok (), m')) :
    ∃ v found, s.Stores ctx line m name v found st ∧ m' = s.assign found name v := by
  cases st with
  | declare x init =>
    cases hname
    obtain ⟨v, found, hvalue, hend⟩ := Attempt.bind_eq_ok.1 h
    cases hend
    exact ⟨v, found, .declare hvalue, rfl⟩
  | assign x source =>
    cases hname
    rw [execute, Attempt.get_bind_apply] at h
    split at h
    · next hknown =>
      obtain ⟨v, found, hvalue, hend⟩ := Attempt.bind_eq_ok.1 h
      cases hend
      exact ⟨v, found, .assign hknown hvalue, rfl⟩
    · cases h
  | eval source => cases hname
  | result source => cases hname

/-- Reads see writes. A statement that stores a value under a name stores it in the memory in which
the value was found; the name is evaluated to that value from then on, unless it is a word of the
language or stands for the visits of a container; and every other name is read as before. -/
theorem execute_reads_back {depth line : Nat} {text : List Char} {st : Statement} {m' : Memory}
    (htext : Statement.ofLine text = .ok st) (hname : st.variable? = some name)
    (hrun : s.execute (s.context depth) line st m = some (.ok (), m')) :
    ∃ v found, s.Stores (s.context depth) line m name v found st ∧ m' = s.assign found name v ∧
      (name ∉ Lexeme.reserved → name ≠ "this" → s.IsPlain found name →
        (s.context depth).evalText name.toList m' = some (.ok v.read, m')) ∧
      ∀ other, other ≠ name → s.valueOf m' other = s.valueOf found other ∧
        s.hasVariable m' other = s.hasVariable found other := by
  obtain ⟨v, found, hstores, rfl⟩ := stores_of_execute hname hrun
  have hspelled := Statement.isName_of_ofLine htext hname
  refine ⟨v, found, hstores, rfl, fun hword hthis hplain => ?_, fun other hother => ?_⟩
  · have hknown := hasVariable_assign (s := s) (m := found) (v := v) hspelled hthis
    have hread := @Context.evalText_name _ (s.context depth) _ _ hspelled hword hknown
    rw [hread]
    change some (Except.ok (s.valueOf _ name).read, _) = _
    rw [valueOf_assign hspelled hthis hplain]
  · exact ⟨valueOf_assign_of_ne hother, hasVariable_assign_of_ne hother⟩

/-! ## A stop with a parameter -/

/-- A world in which a knot has a parameter with the name of another knot. -/
def stopWorld : World :=
  ⟨.ofSources (.ofList [("main",
    "== start\n-> stop(2)\n== stop(start)\nHi.\n~ start = true\nBye {start}.\n")]) fun _ => "", 4, 40⟩

/-- The parameter is read back, although the name is that of a knot, too. -/
theorem execute_reads_back_stop : ∃ (t : Story) (m' : Memory),
    Story.played? stopWorld "main" 0 [.advance] = some t ∧
    Statement.ofLine "~ start = true".toList = .ok (.assign "start" "true") ∧
    (t.stage stopWorld.host).execute ((t.stage stopWorld.host).context 4) 5
      (.assign "start" "true") t.memory = some (.ok (), m') ∧
    (t.content.find? "start").isSome = true ∧
    ((t.stage stopWorld.host).binder? t.memory "start").isSome = true ∧
    ∃ v found, (t.stage stopWorld.host).Stores ((t.stage stopWorld.host).context 4) 5 t.memory
        "start" v found (.assign "start" "true") ∧
      m' = (t.stage stopWorld.host).assign found "start" v ∧
      ("start" ∉ Lexeme.reserved → "start" ≠ "this" →
        (t.stage stopWorld.host).IsPlain found "start" →
        ((t.stage stopWorld.host).context 4).evalText "start".toList m' =
          some (.ok v.read, m')) ∧
      ∀ other, other ≠ "start" →
        (t.stage stopWorld.host).valueOf m' other = (t.stage stopWorld.host).valueOf found other ∧
        (t.stage stopWorld.host).hasVariable m' other =
          (t.stage stopWorld.host).hasVariable found other := by
  have hplayed : (Story.played? stopWorld "main" 0 [.advance]).any (fun t =>
      (((t.stage stopWorld.host).execute ((t.stage stopWorld.host).context 4) 5
        (.assign "start" "true") t.memory).any fun r => r.1 = .ok ()) ∧
      (t.content.find? "start").isSome = true ∧
      ((t.stage stopWorld.host).binder? t.memory "start").isSome = true) = true := by
    decide +kernel
  obtain ⟨t, ht, hplayed⟩ := (Option.any_eq_true _ _).1 hplayed
  obtain ⟨hruns, hknot, hbound⟩ := of_decide_eq_true hplayed
  obtain ⟨⟨r, m'⟩, hrun, hok⟩ := (Option.any_eq_true _ _).1 hruns
  obtain rfl : r = .ok () := of_decide_eq_true hok
  have hline : Statement.ofLine "~ start = true".toList = .ok (.assign "start" "true") := by
    decide +kernel
  exact ⟨t, m', ht, hline, hrun, hknot, hbound, execute_reads_back hline rfl hrun⟩

/-- The value of a name after a statement was executed. -/
def valueAfter (s : Stage) (m : Memory) (statement name : String) :
    Option (Except ExprError Value) := do
  let st ← (Statement.ofLine statement.toList).toOption
  let (r, m') ← s.execute (s.context 4) 1 st m
  guard (r = .ok ())
  return (← (s.context 4).evalText name.toList m').1

/-- Values that are stored under the name of a knot, under `this` and under a word of the language
are not read back. -/
theorem not_read_back : ∃ t : Story, Story.played? stopWorld "main" 0 [] = some t ∧
    (t.stage stopWorld.host).valueAfter t.memory "VAR stop = 5" "stop" = some (.ok (.int 0)) ∧
    (t.stage stopWorld.host).valueAfter t.memory "VAR this = 5" "this" =
      some (.ok (.str "start")) ∧
    (t.stage stopWorld.host).valueAfter t.memory "VAR true = 5" "true" = some (.ok (.int 1)) ∧
    (t.stage stopWorld.host).valueAfter t.memory "VAR and = 5" "and" =
      some (.error (.missingParameters "&&")) := by
  have hplayed : (Story.played? stopWorld "main" 0 []).any (fun t =>
      (t.stage stopWorld.host).valueAfter t.memory "VAR stop = 5" "stop" = some (.ok (.int 0)) ∧
      (t.stage stopWorld.host).valueAfter t.memory "VAR this = 5" "this" =
        some (.ok (.str "start")) ∧
      (t.stage stopWorld.host).valueAfter t.memory "VAR true = 5" "true" = some (.ok (.int 1)) ∧
      (t.stage stopWorld.host).valueAfter t.memory "VAR and = 5" "and" =
        some (.error (.missingParameters "&&"))) = true := by
    decide +kernel
  obtain ⟨t, ht, hplayed⟩ := (Option.any_eq_true _ _).1 hplayed
  exact ⟨t, ht, of_decide_eq_true hplayed⟩

end Stage

end Narrative
