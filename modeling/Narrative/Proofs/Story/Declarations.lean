import Narrative.Proofs.Expr.Literals
import Narrative.Proofs.Story.Bindings

/-!
# Declarations and assignments

A declaration tells truth values, numbers and quoted texts apart by the looks of its right-hand
side, and an assignment evaluates it. Both store the same value, but for one kind of expression: a
right-hand side that begins and ends with a quote is taken for one text by a declaration, also when
it is made up of several.
-/

namespace Narrative

namespace Statement

/-- An equation as it is written in a declaration or an assignment. -/
def equation (name : String) (source : List Char) : List Char :=
  name.toList ++ ' ' :: '=' :: ' ' :: source

/-- A name begins with no blank. -/
theorem isBlank_eq_false_of_startsName {c : Char} (h : startsName c = true) :
    Text.isBlank c = false := by
  have hletter := Lexeme.toNat_of_startsName h
  simp only [Text.isBlank, Bool.or_eq_false_iff, Bool.and_eq_false_iff, decide_eq_false_iff_not,
    beq_eq_false_iff_ne]
  omega

variable {name : String} {source : List Char}

/-- An equation in one line is read as an assignment. -/
theorem assignment?_equation (hname : IsName name) (htrim : Text.trim source = source)
    (hline : '\n' ∉ source) : assignment? (equation name source) = some (name, source) := by
  obtain ⟨c, rest, rfl, hstarts, hcontinues⟩ := hname.spelled
  have hdrop : (rest ++ ' ' :: '=' :: ' ' :: source).dropWhile continuesName =
      ' ' :: '=' :: ' ' :: source := by
    rw [List.dropWhile_append_of_pos hcontinues]
    rfl
  have htake : (rest ++ ' ' :: '=' :: ' ' :: source).takeWhile continuesName = rest := by
    rw [List.takeWhile_append_of_pos hcontinues]
    exact List.append_nil rest
  rw [equation, String.toList_ofList, List.cons_append, assignment?,
    Text.trimStart_cons (isBlank_eq_false_of_startsName hstarts)]
  dsimp only
  rw [if_pos hstarts, hdrop, htake]
  -- the blank behind the equals sign is the first character of the right-hand side
  change (if (decide (' ' = '=') || source.contains '\n') = true then none
    else some (String.ofList (c :: rest), Text.trim (' ' :: source))) = _
  rw [if_neg (by simpa using hline), Text.trim_cons_of_isBlank (by decide), htrim]

/-- There is no blank around an equation. -/
theorem trim_equation (hname : IsName name) (hne : source ≠ [])
    (htrim : Text.trim source = source) :
    Text.trim (equation name source) = equation name source := by
  obtain ⟨c, rest, rfl, hstarts, -⟩ := hname.spelled
  rw [equation, String.toList_ofList]
  have hends := Text.trim_append (isBlank_eq_false_of_startsName hstarts)
    (rest ++ [' ', '=', ' ']) hne htrim
  simpa using hends

/-- A declaration is read as one. -/
theorem ofLine_declaration (hname : IsName name) (hne : source ≠ [])
    (htrim : Text.trim source = source) (hline : '\n' ∉ source) :
    ofLine ("VAR ".toList ++ equation name source) =
      (initializer name source).map (.declare name) := by
  rw [ofLine, Text.after?_append]
  dsimp only
  rw [trim_equation hname hne htrim, declaration, assignment?_equation hname htrim hline]

/-- An equation begins with the word for a return only if it assigns a variable of that name. -/
theorem after?_return (hname : IsName name) (hreturn : name ≠ "return") :
    Text.after? "return ".toList (equation name source) = none := by
  rw [Option.eq_none_iff_forall_not_mem]
  intro value hvalue
  have hspace : ' ' ∉ name.toList := by
    obtain ⟨c, rest, rfl, hstarts, hcontinues⟩ := hname.spelled
    rw [String.toList_ofList, List.mem_cons, not_or]
    refine ⟨?_, fun hmem => absurd (hcontinues ' ' hmem) (by decide)⟩
    rintro rfl
    exact absurd hstarts (by decide)
  have hcut := Text.cut?_append hspace ('=' :: ' ' :: source)
  have hreturned : equation name source = "return".toList ++ ' ' :: value := by
    have hbegins := Text.eq_append_of_after? hvalue
    have hword : "return ".toList = "return".toList ++ [' '] := by decide +kernel
    rwa [hword, List.append_assoc] at hbegins
  rw [← equation, hreturned, Text.cut?_append (by decide)] at hcut
  refine hreturn (String.toList_injective ?_)
  exact (congrArg Prod.fst (Option.some.inj hcut)).symm

/-- An assignment is read as one. -/
theorem ofLine_assignment (hname : IsName name) (hreturn : name ≠ "return") (hne : source ≠ [])
    (htrim : Text.trim source = source) (hline : '\n' ∉ source) :
    ofLine ("~ ".toList ++ equation name source) = .ok (.assign name (String.ofList source)) := by
  have haction : ofLine ("~ ".toList ++ equation name source) =
      action (Text.trim (' ' :: equation name source)) := rfl
  have hempty : (equation name source).isEmpty = false := by simp [equation]
  have hword : equation name source ≠ "return".toList := by
    intro heq
    have hspace : ' ' ∈ equation name source := by simp [equation]
    rw [heq] at hspace
    exact absurd hspace (by decide)
  rw [haction, Text.trim_cons_of_isBlank (by decide), trim_equation hname hne htrim, action, hempty,
    if_neg nofun, if_neg hword, after?_return hname hreturn,
    assignment?_equation hname htrim hline]

/-- A text that loses its quotes had them at both ends. -/
theorem eq_of_unquoted? {body : List Char} (h : unquoted? source = some body) :
    source = '"' :: (body ++ ['"']) := by
  unfold unquoted? at h
  split at h
  · next rest =>
    split at h
    · next hlast =>
      cases h
      rw [List.dropLast_append_getLast? '"' hlast]
    · cases h
  · cases h

/-- A truth value is not in quotes. -/
theorem unquoted?_truth (b : Bool) : unquoted? (Value.bool b).text.toList = none := by
  revert b
  decide +kernel

/-- A quoted text is not a number. -/
theorem parse?_of_unquoted? {body : List Char} (htrim : Text.trim source = source)
    (h : unquoted? source = some body) : Decimal.parse? source = none := by
  rw [Option.eq_none_iff_forall_not_mem]
  intro n hn
  have hbegins := (Decimal.written_of_parse? htrim hn).2
  rw [eq_of_unquoted? h] at hbegins
  rcases hbegins with hdigit | ⟨d, rest, hpoint, -⟩
  · cases hdigit
  · cases hpoint

end Statement

namespace Stage

variable {s : Stage} {ctx : Context Memory} {line : Nat} {m m' : Memory} {name : String}
  {source : List Char} {v : Value}

/-! ## What a declaration stores -/

/-- A statement evaluates an expression like any text. -/
theorem evaluate_eq (h : ctx.evalText source m = some (.ok v, m')) (line : Nat) :
    evaluate ctx (String.ofList source) line m = some (.ok v, m') := by
  rw [evaluate, String.toList_ofList]
  refine Attempt.bind_eq_ok.2 ⟨.ok v, m', ?_, rfl⟩
  change (ExceptT.lift (ctx.evalText source).run : Attempt StoryError Memory _) m = _
  rw [Attempt.lift_apply]
  change ((ctx.evalText source m).map _) = _
  rw [h]
  rfl

/-- A right-hand side without an arrow is evaluated by an assignment. -/
theorem assignedValue_eq (htrim : Text.trim source = source) (harrow : ¬ ['-', '>'] <:+: source)
    (h : ctx.evalText source m = some (.ok v, m')) :
    s.assignedValue ctx name (String.ofList source) line m = some (.ok v, m') := by
  have hreference : reference? (String.ofList source) = none := by
    rw [reference?, String.toList_ofList, Text.after?_eq_none harrow, Option.map_none]
  rw [assignedValue, String.toList_ofList, htrim, hreference]
  exact evaluate_eq h line

/-- An expression that is a literal for a declaration, too, has the value of the literal. -/
theorem eq_of_literal {w : Value} (h : ctx.evalText source m = some (.ok v, m'))
    (hliteral : ∀ e, Expr.compile (ctx.names m) source = .ok e → e = ⟨[.literal w]⟩) :
    v = w ∧ m' = m := by
  have hcompile : Expr.compile (ctx.names m) source = .ok ⟨[.literal w]⟩ := by
    rw [Context.evalText, Attempt.get_bind_apply] at h
    obtain ⟨e, u, he, -⟩ := Attempt.bind_eq_ok.1 h
    have he : Expr.compile (ctx.names m) source = .ok e := congrArg Prod.fst (Option.some.inj he)
    rw [he, hliteral e he]
  rw [Context.evalText_literal hcompile] at h
  cases h
  exact ⟨rfl, rfl⟩

/-- What a declaration stores for a right-hand side that has a value: `w`, found in the memory
`found`. -/
def Declares (s : Stage) (ctx : Context Memory) (line : Nat) (m : Memory) (name : String)
    (source : List Char) (w : Value) (found : Memory) : Prop :=
  ∃ init, Statement.initializer name source = .ok init ∧
    s.initialValue ctx name line init m = some (.ok w, found)

/-- A truth value is declared as it is. -/
theorem declares_truth (b : Bool) :
    s.Declares ctx line m name (Value.bool b).text.toList (.bool b) m := by
  refine ⟨.bool b, ?_, rfl⟩
  cases b with
  | false =>
    rw [Statement.initializer, if_neg (by decide +kernel), if_neg (by decide +kernel),
      if_pos (by rfl)]
  | true => rw [Statement.initializer, if_neg (by decide +kernel), if_pos (by rfl)]

/-- Other right-hand sides without an arrow are numbers, quoted texts, or expressions. -/
theorem initializer_eq (name : String) (hne : source ≠ [])
    (htruth : ∀ b : Bool, source ≠ (Value.bool b).text.toList)
    (harrow : ¬ ['-', '>'] <:+: source) :
    Statement.initializer name source =
      match Decimal.parse? source, Statement.unquoted? source with
      | some n, _ => .ok (.number n)
      | none, some body => .ok (.str (String.ofList body))
      | none, none => .ok (.expr (String.ofList source)) := by
  have htrue : source ≠ "true".toList := htruth true
  have hfalse : source ≠ "false".toList := htruth false
  rw [Statement.initializer, if_neg (by simpa using hne), if_neg htrue, if_neg hfalse,
    Text.after?_eq_none harrow]
  cases Decimal.parse? source with
  | some n => rfl
  | none =>
    cases hquoted : Statement.unquoted? source with
    | none => rfl
    | some body =>
      have hbody : ¬ ['-', '>'] <:+: body := fun hinfix =>
        harrow (Statement.eq_of_unquoted? hquoted ▸ hinfix.trans ⟨['"'], ['"'], rfl⟩)
      dsimp only
      rw [Text.cutAt?_eq_none hbody]
      rfl

/-- A text in quotes is stored as it stands. -/
theorem declares_unquoted {body : List Char} (htrim : Text.trim source = source)
    (harrow : ¬ ['-', '>'] <:+: source) (h : Statement.unquoted? source = some body) :
    s.Declares ctx line m name source (.str (String.ofList body)) m := by
  have hne : source ≠ [] := by
    rintro rfl
    cases h
  have htruth (b : Bool) : source ≠ (Value.bool b).text.toList := by
    rintro rfl
    rw [Statement.unquoted?_truth] at h
    cases h
  refine ⟨.str (String.ofList body), ?_, rfl⟩
  rw [initializer_eq name hne htruth harrow, Statement.parse?_of_unquoted? htrim h, h]

/-- A right-hand side that is not a text in quotes is stored with the value it has. -/
theorem declares_of_evalText (hne : source ≠ []) (htrim : Text.trim source = source)
    (harrow : ¬ ['-', '>'] <:+: source) (hquoted : Statement.unquoted? source = none)
    (h : ctx.evalText source m = some (.ok v, m')) :
    ∃ w, w.read = v.read ∧ s.Declares ctx line m name source w m' := by
  by_cases htruth : ∃ b : Bool, source = (Value.bool b).text.toList
  · obtain ⟨b, rfl⟩ := htruth
    obtain ⟨rfl, rfl⟩ := eq_of_literal h fun e he => by
      rw [Expr.compile_truth] at he
      exact (Except.ok.inj he).symm
    exact ⟨.bool b, rfl, declares_truth b⟩
  · -- a number, or an expression that is evaluated as it stands
    have hinit := initializer_eq name hne (not_exists.1 htruth) harrow
    rw [hquoted] at hinit
    cases hparse : Decimal.parse? source with
    | some n =>
      obtain ⟨rfl, rfl⟩ := eq_of_literal h fun e he => Expr.eq_of_compile_number htrim hparse he
      rw [hparse] at hinit
      exact ⟨.number n, rfl, _, hinit, rfl⟩
    | none =>
      rw [hparse] at hinit
      exact ⟨v, rfl, _, hinit, evaluate_eq h line⟩

/-- A single text in quotes has the value that a declaration stores. -/
theorem eq_of_unquoted? {body : List Char} (hquoted : Statement.unquoted? source = some body)
    (hbody : '"' ∉ body) (h : ctx.evalText source m = some (.ok v, m')) :
    v = .str (String.ofList body) ∧ m' = m := by
  refine eq_of_literal h fun e he => ?_
  rw [Statement.eq_of_unquoted? hquoted, Expr.compile_quoted hbody] at he
  exact (Except.ok.inj he).symm

/-! ## Both statements -/

/-- A declaration stores what it declares. -/
theorem execute_declare {w : Value} {found : Memory}
    (h : s.Declares ctx line m name source w found) :
    ∃ init, Statement.initializer name source = .ok init ∧
      s.execute ctx line (.declare name init) m = some (.ok (), s.assign found name w) := by
  obtain ⟨init, hinit, hvalue⟩ := h
  exact ⟨init, hinit, Attempt.bind_eq_ok.2 ⟨w, found, hvalue, rfl⟩⟩

/-- An assignment to a known variable stores the value of its expression. -/
theorem execute_assign (hdefined : s.hasVariable m name = true)
    (htrim : Text.trim source = source) (harrow : ¬ ['-', '>'] <:+: source)
    (h : ctx.evalText source m = some (.ok v, m')) :
    s.execute ctx line (.assign name (String.ofList source)) m =
      some (.ok (), s.assign m' name v) := by
  rw [execute, Attempt.get_bind_apply, hdefined]
  exact Attempt.bind_eq_ok.2 ⟨v, m', assignedValue_eq htrim harrow h, rfl⟩

/-- Values that are read alike are read alike from a variable. -/
theorem read_valueOf_assign {w : Value} (hname : Statement.IsName name) (h : w.read = v.read) :
    (s.valueOf (s.assign m name w) name).read = (s.valueOf (s.assign m name v) name).read := by
  rw [valueOf, valueOf, parameter?_assign, parameter?_assign, if_pos rfl, if_pos rfl,
    reference?_of_isName hname, countOf?_assign, countOf?_assign, globals_assign, globals_assign]
  split
  · rfl
  · cases s.parameter? m name with
    | some old => exact h
    | none =>
      cases s.countOf? m name with
      | some count => rfl
      | none =>
        by_cases hbinder : s.binder? m name = none
        · simpa [hbinder] using h
        · simp [hbinder]

/-- A declaration succeeds where its right-hand side can be evaluated, and so does an assignment
with the same right-hand side to a known variable. Both are read alike from then on, unless the
right-hand side begins and ends with quotes and has others in between: the declaration stores what
stands between the first quote and the last one, and evaluates nothing. The variable is not named
like the word for a return, which makes another statement of the line with the tilde. -/
theorem declaration_stores_assigned (s : Stage) (depth line : Nat) {m m' : Memory} {name : String}
    {source : List Char} {v : Value} (hname : Statement.IsName name) (hreturn : name ≠ "return")
    (hdefined : s.hasVariable m name = true) (hne : source ≠ [])
    (htrim : Text.trim source = source) (hline : '\n' ∉ source)
    (harrow : ¬ ['-', '>'] <:+: source)
    (h : (s.context depth).evalText source m = some (.ok v, m')) :
    ∃ declared assigned w found,
      Statement.ofLine ("VAR ".toList ++ Statement.equation name source) = .ok declared ∧
      Statement.ofLine ("~ ".toList ++ Statement.equation name source) = .ok assigned ∧
      s.execute (s.context depth) line declared m = some (.ok (), s.assign found name w) ∧
      s.execute (s.context depth) line assigned m = some (.ok (), s.assign m' name v) ∧
      ((∀ body, Statement.unquoted? source = some body → '"' ∉ body) →
        w.read = v.read ∧ found = m' ∧
        (s.valueOf (s.assign found name w) name).read =
          (s.valueOf (s.assign m' name v) name).read) ∧
      ∀ body, Statement.unquoted? source = some body →
        w = .str (String.ofList body) ∧ found = m := by
  have hassigned := Statement.ofLine_assignment hname hreturn hne htrim hline
  have hexecuted : s.execute (s.context depth) line (.assign name (String.ofList source)) m =
      some (.ok (), s.assign m' name v) := execute_assign hdefined htrim harrow h
  have hdeclared {w : Value} {found : Memory}
      (hw : s.Declares (s.context depth) line m name source w found) : ∃ declared,
      Statement.ofLine ("VAR ".toList ++ Statement.equation name source) = .ok declared ∧
      s.execute (s.context depth) line declared m = some (.ok (), s.assign found name w) := by
    obtain ⟨init, hinit, hrun⟩ := execute_declare hw
    refine ⟨.declare name init, ?_, hrun⟩
    rw [Statement.ofLine_declaration hname hne htrim hline, hinit]
    rfl
  -- only quotes make a difference
  cases hquoted : Statement.unquoted? source with
  | none =>
    have hstored : ∃ w, w.read = v.read ∧ s.Declares (s.context depth) line m name source w m' :=
      declares_of_evalText hne htrim harrow hquoted h
    obtain ⟨w, hread, hw⟩ := hstored
    obtain ⟨declared, hofLine, hrun⟩ := hdeclared hw
    exact ⟨declared, _, w, m', hofLine, hassigned, hrun, hexecuted,
      fun _ => ⟨hread, rfl, read_valueOf_assign hname hread⟩, nofun⟩
  | some body =>
    obtain ⟨declared, hofLine, hrun⟩ := hdeclared (declares_unquoted htrim harrow hquoted)
    refine ⟨declared, _, _, m, hofLine, hassigned, hrun, hexecuted, fun hbody => ?_, ?_⟩
    · obtain ⟨rfl, rfl⟩ := eq_of_unquoted? hquoted (hbody body rfl) h
      exact ⟨rfl, rfl, rfl⟩
    · rintro _ ⟨⟩
      exact ⟨rfl, rfl⟩

/-- A stage without content. -/
def bareStage : Stage where
  host := .ofSources .empty fun _ => ""
  content := default
  here := none

/-- A memory with one variable. -/
def bareMemory : Memory where
  globals := .ofList [("x", .int 1)]

/-- A variable is declared again with what it was before and one more. -/
theorem declaration_stores_assigned_sum : ∃ declared assigned m₁ m₂,
    Statement.ofLine "VAR x = x + 1".toList = .ok declared ∧
    Statement.ofLine "~ x = x + 1".toList = .ok assigned ∧
    bareStage.execute (bareStage.context 4) 1 declared bareMemory = some (.ok (), m₁) ∧
    bareStage.execute (bareStage.context 4) 1 assigned bareMemory = some (.ok (), m₂) ∧
    (bareStage.valueOf m₁ "x").read = (bareStage.valueOf m₂ "x").read := by
  have heval : ((bareStage.context 4).evalText "x + 1".toList bareMemory).any
      (fun r => r.1 = .ok (.int 2)) = true := by
    decide +kernel
  obtain ⟨⟨r, m'⟩, heval, hr⟩ := (Option.any_eq_true _ _).1 heval
  obtain rfl : r = .ok (.int 2) := of_decide_eq_true hr
  have hname : Statement.IsName "x" := ⟨'x', [], rfl, by decide, nofun⟩
  obtain ⟨declared, assigned, w, found, hdeclared, hassigned, hrun, hrun', hread, -⟩ :=
    declaration_stores_assigned bareStage 4 1 hname (by decide) (by decide +kernel)
      (by decide +kernel) (by decide +kernel) (by decide +kernel) (by decide +kernel) heval
  have hlines : "VAR ".toList ++ Statement.equation "x" "x + 1".toList = "VAR x = x + 1".toList ∧
      "~ ".toList ++ Statement.equation "x" "x + 1".toList = "~ x = x + 1".toList := by
    decide +kernel
  rw [hlines.1] at hdeclared
  rw [hlines.2] at hassigned
  have hquoted : Statement.unquoted? "x + 1".toList = none := by decide +kernel
  rw [hquoted] at hread
  exact ⟨declared, assigned, _, _, hdeclared, hassigned, hrun, hrun', (hread nofun).2.2⟩

/-- Two texts in quotes and a plus sign between them are declared as one text. -/
theorem not_declaration_stores_assigned :
    bareStage.hasVariable bareMemory "x" = true ∧ bareStage.counted? "x" = none ∧
    bareStage.valueAfter bareMemory "~ x = \"a\" + \"b\"" "x" = some (.ok (.str "ab")) ∧
    bareStage.valueAfter bareMemory "VAR x = \"a\" + \"b\"" "x" =
      some (.ok (.str "a\" + \"b")) := by
  decide +kernel

end Stage

end Narrative
