import Mathlib.Data.List.Infix
import Narrative.Story.Divert
import Narrative.Proofs.Text

/-!
# Arguments of diverts are split where they were joined

A divert passes arguments in parentheses, with commas between them. An argument may hold quoted
texts and calls, so commas in quotes or in parentheses of its own part nothing. What is written with
a name and arguments is split into this name and these arguments.
-/

namespace Narrative

/-! ## Arguments as they are written -/

/-- The characters of a text that stand outside of quotes, and are no quotes. -/
def unquoted : (quoted : Bool) → List Char → List Char
  | _, [] => []
  | quoted, c :: rest =>
    if c = '"' then unquoted (!quoted) rest
    else if quoted then unquoted quoted rest
    else c :: unquoted quoted rest

/-- Whether a text that stands in `depth` parentheses closes none but these and its own, and has
commas only in parentheses. -/
structure Enclosed (depth : Nat) (cs : List Char) : Prop where
  /-- Nothing is closed that has not been opened. -/
  closes : ∀ front ∈ cs.inits, front.count ')' ≤ depth + front.count '('
  /-- At a comma something is open. -/
  commas : ∀ front ∈ cs.inits, front.getLast? = some ',' →
    front.count ')' < depth + front.count '('

/-- Whether a text can be an argument. -/
structure IsArgument (cs : List Char) : Prop where
  /-- It has characters. -/
  ne_nil : cs ≠ []
  /-- It has no blanks around it. -/
  trimmed : Text.trim cs = cs
  /-- Its quotes are closed. -/
  quotes : cs.count '"' % 2 = 0
  /-- Outside of quotes, parentheses are closed only after they were opened, and commas stand only
  in parentheses. -/
  nested : Enclosed 0 (unquoted false cs)
  /-- Outside of quotes, all parentheses are closed. -/
  balanced : (unquoted false cs).count '(' = (unquoted false cs).count ')'

instance (depth : Nat) (cs : List Char) : Decidable (Enclosed depth cs) :=
  decidable_of_iff (_ ∧ _) ⟨fun h => ⟨h.1, h.2⟩, fun h => ⟨h.closes, h.commas⟩⟩

instance (cs : List Char) : Decidable (IsArgument cs) :=
  decidable_of_iff (_ ∧ _ ∧ _ ∧ _ ∧ _)
    ⟨fun h => ⟨h.1, h.2.1, h.2.2.1, h.2.2.2.1, h.2.2.2.2⟩,
      fun h => ⟨h.ne_nil, h.trimmed, h.quotes, h.nested, h.balanced⟩⟩

/-- A name with arguments, which may have blanks around them. -/
def callText (name gap : List Char) (pieces : List (List Char)) : List Char :=
  name ++ '(' :: (gap ++ [','].intercalate pieces ++ [')'])

/-! ## Reading on -/

section Reading

variable {depth : Nat} {quoted : Bool} {c : Char} {cs : List Char}

/-- There is at least one argument. -/
theorem splitArguments_ne_nil (depth : Nat) (quoted : Bool) (cs : List Char) :
    splitArguments depth quoted cs ≠ [] := by
  cases cs with
  | nil => exact List.cons_ne_nil _ _
  | cons c cs =>
    rw [splitArguments]
    split
    · exact List.cons_ne_nil _ _
    · dsimp only
      split <;> exact List.cons_ne_nil _ _

/-- How many parentheses are open behind a character outside of quotes. -/
def openBehind (c : Char) (depth : Nat) : Nat :=
  if c = '(' then depth + 1 else if c = ')' then depth - 1 else depth

/-- A character that does not end the argument belongs to it. -/
theorem splitArguments_cons (h : ¬ (c = ',' ∧ quoted = false ∧ depth = 0)) (rest : List Char) :
    splitArguments depth quoted (c :: rest) =
      (splitArguments (if quoted then depth else openBehind c depth)
        (if c = '"' then !quoted else quoted) rest).modifyHead (c :: ·) := by
  have hstay : ¬ (c = ',' ∧ (!quoted) = true ∧ depth = 0) := by simpa using h
  rw [splitArguments, if_neg hstay]
  dsimp only
  rw [← openBehind]
  split
  · next hnil => exact absurd hnil (splitArguments_ne_nil _ _ _)
  · next piece pieces hpieces => rw [hpieces, List.modifyHead_cons]

/-- Whether a text ends in quotes. -/
def endsQuoted (quoted : Bool) (cs : List Char) : Bool :=
  quoted ^^ decide (cs.count '"' % 2 = 1)

/-- A quote opens or closes a text. -/
theorem endsQuoted_cons (quoted : Bool) (c : Char) (cs : List Char) :
    endsQuoted quoted (c :: cs) = endsQuoted (if c = '"' then !quoted else quoted) cs := by
  unfold endsQuoted
  split
  · next hc =>
    subst hc
    rw [List.count_cons_self]
    rcases Nat.mod_two_eq_zero_or_one (cs.count '"') with h | h <;>
      simp [Nat.add_mod, h]
  · next hc => rw [List.count_cons_of_ne hc]

/-- A parenthesis changes by one how many are open. -/
theorem openBehind_add_count (h : c = ')' → 0 < depth) (cs : List Char) :
    openBehind c depth + cs.count '(' + (c :: cs).count ')' =
      depth + (c :: cs).count '(' + cs.count ')' := by
  rw [List.count_cons, List.count_cons, openBehind]
  by_cases hopen : c = '('
  · subst hopen
    simp
    omega
  · by_cases hclose : c = ')'
    · have := h hclose
      subst hclose
      simp
      omega
    · simp [hopen, hclose]

/-- At a closing parenthesis or a comma something is open. -/
theorem Enclosed.pos (h : Enclosed depth (c :: cs)) (hc : c = ')' ∨ c = ',') : 0 < depth := by
  have hone : [c] ∈ (c :: cs).inits := (List.mem_inits _ _).2 ⟨cs, rfl⟩
  rcases hc with rfl | rfl
  · have hcloses := h.closes _ hone
    simpa [Nat.one_le_iff_ne_zero, Nat.pos_iff_ne_zero] using hcloses
  · have hcommas := h.commas _ hone rfl
    simpa using hcommas

/-- What stands behind the first character is nested in what is open then. -/
theorem Enclosed.tail (h : Enclosed depth (c :: cs)) : Enclosed (openBehind c depth) cs := by
  have hmem {front : List Char} (hfront : front ∈ cs.inits) : c :: front ∈ (c :: cs).inits :=
    (List.mem_inits _ _).2 (List.cons_prefix_cons.2 ⟨rfl, (List.mem_inits _ _).1 hfront⟩)
  have hlevel := openBehind_add_count fun hc => h.pos (.inl hc)
  refine ⟨fun front hfront => ?_, fun front hfront hlast => ?_⟩
  · have hcloses := h.closes _ (hmem hfront)
    have hfront := hlevel front
    omega
  · have hcommas := h.commas _ (hmem hfront) (by rw [List.getLast?_cons, hlast]; rfl)
    have hfront := hlevel front
    omega

/-- A nested text is read on in one argument, and what it leaves open stays open. -/
theorem splitArguments_append (h : Enclosed depth (unquoted quoted cs)) (rest : List Char) :
    splitArguments depth quoted (cs ++ rest) =
      (splitArguments (depth + (unquoted quoted cs).count '(' - (unquoted quoted cs).count ')')
        (endsQuoted quoted cs) rest).modifyHead (cs ++ ·) := by
  induction cs generalizing depth quoted with
  | nil =>
    have hquoted : endsQuoted quoted [] = quoted := Bool.xor_false quoted
    have hid : (fun piece : List Char => [] ++ piece) = id := rfl
    rw [hquoted, hid, List.modifyHead_id]
    rfl
  | cons c cs ih =>
    have hcompose (pieces : List (List Char)) :
        (pieces.modifyHead (cs ++ ·)).modifyHead (c :: ·) = pieces.modifyHead (c :: cs ++ ·) := by
      rw [List.modifyHead_modifyHead]
      rfl
    -- a quote only changes where the text is, and in quotes nothing is counted
    rw [unquoted] at h ⊢
    rw [List.cons_append, endsQuoted_cons]
    by_cases hquote : c = '"'
    · subst hquote
      have hlevel : (if quoted then depth else openBehind '"' depth) = depth := ite_self depth
      rw [if_pos rfl] at h ⊢
      rw [if_pos rfl, splitArguments_cons (fun hcomma => absurd hcomma.1 (by decide)), hlevel,
        if_pos rfl, ih h, hcompose]
    rw [if_neg hquote] at h ⊢
    rw [if_neg hquote]
    cases quoted with
    | true =>
      rw [if_pos rfl] at h ⊢
      rw [splitArguments_cons (fun hcomma => Bool.noConfusion hcomma.2.1), if_pos rfl,
        if_neg hquote, ih h, hcompose]
    | false =>
      rw [if_neg Bool.false_ne_true] at h ⊢
      have hcomma : ¬ (c = ',' ∧ false = false ∧ depth = 0) := fun hcomma =>
        absurd hcomma.2.2 (Nat.ne_of_gt (h.pos (.inr hcomma.1)))
      have hopen := openBehind_add_count (fun hc => h.pos (.inl hc)) (unquoted false cs)
      have hleft : openBehind c depth + (unquoted false cs).count '(' -
            (unquoted false cs).count ')' =
          depth + (c :: unquoted false cs).count '(' - (c :: unquoted false cs).count ')' := by
        omega
      rw [splitArguments_cons hcomma, if_neg Bool.false_ne_true, if_neg hquote, ih h.tail, hcompose,
        hleft]

/-! ## Whole arguments -/

/-- Whether a text is read on in one argument and leaves nothing open. -/
def Neutral (cs : List Char) : Prop :=
  ∀ rest, splitArguments 0 false (cs ++ rest) =
    (splitArguments 0 false rest).modifyHead (cs ++ ·)

/-- An argument closes what it opens. -/
theorem IsArgument.neutral (h : IsArgument cs) : Neutral cs := by
  intro rest
  have hquoted : endsQuoted false cs = false := by
    rw [endsQuoted, h.quotes]
    rfl
  rw [splitArguments_append h.nested, h.balanced, Nat.zero_add, Nat.sub_self, hquoted]

/-- Blanks open nothing. -/
theorem neutral_of_blank (h : ∀ c ∈ cs, Text.isBlank c = true) : Neutral cs := by
  intro rest
  induction cs with
  | nil => exact (congrFun List.modifyHead_id _).symm
  | cons c cs ih =>
    obtain ⟨hc, hcs⟩ := List.forall_mem_cons.1 h
    have hne {mark : Char} (hmark : Text.isBlank mark = false) : c ≠ mark := by
      rintro rfl
      rw [hmark] at hc
      cases hc
    have hlevel : openBehind c 0 = 0 := by
      rw [openBehind, if_neg (hne (by decide)), if_neg (hne (by decide))]
    rw [List.cons_append, splitArguments_cons fun hcomma => hne (by decide) hcomma.1,
      if_neg Bool.false_ne_true, if_neg (hne (by decide)), hlevel, ih hcs,
      List.modifyHead_modifyHead]
    rfl

/-- Two parts that close what they open do so together. -/
theorem Neutral.append {cs' : List Char} (h : Neutral cs) (h' : Neutral cs') :
    Neutral (cs ++ cs') := by
  intro rest
  rw [List.append_assoc, h, h', List.modifyHead_modifyHead]
  simp only [Function.comp_def, List.append_assoc]

/-- An argument may have blanks around it. -/
theorem neutral_of_trim (h : IsArgument (Text.trim cs)) : Neutral cs := by
  obtain ⟨front, hfront, hstart⟩ := Text.exists_trimStart cs
  obtain ⟨back, hback, hend⟩ := Text.exists_trimEnd (Text.trimStart cs)
  rw [hstart, hend]
  exact (neutral_of_blank hfront).append (h.neutral.append (neutral_of_blank hback))

/-- Pieces that leave nothing open are split where they were joined. -/
theorem splitArguments_join {pieces : List (List Char)} (hne : pieces ≠ [])
    (h : ∀ piece ∈ pieces, Neutral piece) :
    splitArguments 0 false ([','].intercalate pieces) = pieces := by
  induction pieces with
  | nil => exact absurd rfl hne
  | cons piece pieces ih =>
    obtain ⟨hpiece, hpieces⟩ := List.forall_mem_cons.1 h
    by_cases hlast : pieces = []
    · have hread := hpiece []
      rw [List.append_nil, splitArguments, List.modifyHead_cons, List.append_nil] at hread
      rw [hlast, List.intercalate_singleton, hread]
    · have hcomma (rest : List Char) :
          splitArguments 0 false (',' :: rest) = [] :: splitArguments 0 false rest := rfl
      rw [List.intercalate_cons_of_ne_nil hlast, List.append_assoc, hpiece, List.singleton_append,
        hcomma, List.modifyHead_cons, List.append_nil, ih hlast hpieces]

end Reading

/-! ## Calls -/

/-- A call has no blanks around it when its name has none. -/
theorem trim_callText {name : List Char} (hname : Text.trim name = name) (gap : List Char)
    (pieces : List (List Char)) :
    Text.trim (callText name gap pieces) = callText name gap pieces := by
  have hclose : Text.trim [')'] = [')'] := by decide
  cases name with
  | nil =>
    have htrim := Text.trim_append (c := '(') (by decide) (gap ++ [','].intercalate pieces)
      (List.cons_ne_nil ')' []) hclose
    exact htrim
  | cons c name =>
    have hhead : c ∈ (Text.trimStart (c :: name)).head? := by
      rw [← Text.head?_trim, hname]
      rfl
    have htrim := Text.trim_append (Text.isBlank_of_mem_head?_trimStart hhead)
      (name ++ '(' :: (gap ++ [','].intercalate pieces)) (List.cons_ne_nil ')' []) hclose
    simpa [callText] using htrim

/-- Between the parentheses there are the pieces, and blanks in front of the first one. -/
theorem trim_splitArguments {gap : List Char} {pieces : List (List Char)}
    (hgap : ∀ c ∈ gap, Text.isBlank c = true) (h : ∀ piece ∈ pieces, Neutral piece) :
    (splitArguments 0 false (gap ++ [','].intercalate pieces)).map Text.trim =
      if pieces = [] then [[]] else pieces.map Text.trim := by
  rw [neutral_of_blank hgap]
  split
  · next hnone =>
    have hblank : Text.trim (gap ++ []) = [] := by
      rw [List.append_nil]
      exact Text.trim_eq_nil_iff.2 hgap
    rw [hnone]
    exact congrArg ([·]) hblank
  · next hsome =>
    obtain ⟨piece, rest, rfl⟩ := List.exists_cons_of_ne_nil hsome
    rw [splitArguments_join hsome h, List.modifyHead_cons, List.map_cons, List.map_cons,
      Text.trim_blank_append hgap]

/-- What is written with a name and arguments is split into these. -/
theorem splitCall_callText {name gap : List Char} {args pieces : List (List Char)}
    (hname : Text.trim name = name) (hparen : '(' ∉ name)
    (hgap : ∀ c ∈ gap, Text.isBlank c = true) (hargs : ∀ arg ∈ args, IsArgument arg)
    (hpieces : pieces.map Text.trim = args) :
    splitCall (callText name gap pieces) = (name, args) := by
  have hneutral : ∀ piece ∈ pieces, Neutral piece := fun piece hpiece =>
    neutral_of_trim (hargs _ (hpieces ▸ List.mem_map_of_mem hpiece))
  have hinner : Text.trimEnd (gap ++ [','].intercalate pieces ++ [')']) =
      gap ++ [','].intercalate pieces ++ [')'] := Text.trimEnd_append_cons (by decide) _ _
  unfold splitCall
  dsimp only
  rw [trim_callText hname, callText, Text.cut?_append hparen]
  dsimp only
  rw [hinner, List.getLast?_concat, if_pos rfl, List.dropLast_concat, hname,
    trim_splitArguments hgap hneutral, hpieces]
  congr 1
  cases hlast : args.getLast? with
  | none =>
    obtain rfl := List.getLast?_eq_none_iff.1 hlast
    rw [if_pos (List.map_eq_nil_iff.1 hpieces)]
    rfl
  | some arg =>
    have harg := hargs arg (List.mem_of_getLast? hlast)
    have hsome : pieces ≠ [] := by
      rintro rfl
      subst hpieces
      cases hlast
    rw [if_neg hsome, hlast, Option.getD_some, if_neg (mt List.isEmpty_iff.1 harg.ne_nil)]

/-- Arguments with a comma in quotes, with calls in calls, and with a parenthesis in quotes. -/
theorem splitCall_callText_greet :
    splitCall "greet( \"a, b\" ,f(g(1, 2), \")\") , x)".toList =
      ("greet".toList, ["\"a, b\"".toList, "f(g(1, 2), \")\")".toList, "x".toList]) := by
  have hcall : "greet( \"a, b\" ,f(g(1, 2), \")\") , x)".toList =
      callText "greet".toList " ".toList
        ["\"a, b\" ".toList, "f(g(1, 2), \")\") ".toList, " x".toList] := by decide
  rw [hcall]
  exact splitCall_callText (by decide) (by decide) (List.all_eq_true.1 (by decide))
    (by decide +kernel) (by decide)

end Narrative
