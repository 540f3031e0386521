import Narrative.Settings
import Narrative.Proofs.Text
import Narrative.Proofs.Text.Words

/-!
# Quoted values of settings are read back

The value of a variable can be written between double quotes, with a backslash in front of every
quote and every backslash of it. A line that gives a variable such a value behind an equals sign
adds that variable at any place in a file, whatever the value is; behind a space it does so unless
the value is empty, since an argument without characters does not count.
-/

namespace Narrative

/-- An error as it is counted when there is one more line behind the first `n` ones. -/
def SettingError.behind (n : Nat) (e : SettingError) : SettingError :=
  if n < e.line then { e with line := e.line + 1 } else e

namespace Settings

/-! ## Ways of writing -/

/-- A text as it stands between double quotes. -/
def escaped (v : List Char) : List Char :=
  v.flatMap fun c => if c = '"' ∨ c = '\\' then ['\\', c] else [c]

/-- A text with its double quotes. -/
def inQuotes (v : List Char) : List Char :=
  '"' :: (escaped v ++ ['"'])

/-- Whether a text can be the name of a variable: a word without equals signs and quotes. -/
structure IsVariable (name : List Char) : Prop extends Text.IsWord name where
  /-- There is no equals sign in it. -/
  equals : '=' ∉ name
  /-- There is no quote in it. -/
  quote : '"' ∉ name

instance (name : List Char) : Decidable (IsVariable name) :=
  decidable_of_iff
    ((name ≠ [] ∧ name.any Text.isBlank = false) ∧ '=' ∉ name ∧ '"' ∉ name)
    ⟨fun ⟨⟨hne, hsolid⟩, hequals, hquote⟩ =>
        ⟨⟨hne, fun hc => Bool.eq_false_iff.2 (List.any_eq_false.1 hsolid _ hc)⟩, hequals, hquote⟩,
      fun h => ⟨⟨h.ne_nil, List.any_eq_false.2 fun _ hc => Bool.eq_false_iff.1 (h.solid hc)⟩,
        h.equals, h.quote⟩⟩

/-- The line that gives a variable a value between quotes, with a sign in between. -/
def assigning (sign : Char) (name value : List Char) : List Char :=
  "set".toList ++ ' ' :: ("var.".toList ++ name ++ sign :: inQuotes value)

/-- A file with these lines. -/
def file (lines : List (List Char)) : List Char :=
  ['\n'].intercalate lines

/-- A line adds a variable and is not reported, at any place in a file. What other lines change, and
what is reported of them, is as it is without this line. -/
def Adds (line : List Char) (override : String × String) : Prop :=
  ∀ before after : List (List Char), (∀ l ∈ before ++ after, '\n' ∉ l) →
    ∀ ending, ending = [] ∨ ending = ['\r'] →
      let others := read (file (before ++ after))
      let place := (read (file before)).1.vars.length
      read (file (before ++ (line ++ ending) :: after)) =
        ({ others.1 with vars := others.1.vars.insertIdx place override },
          others.2.map (·.behind before.length))

/-- A line changes nothing and is reported, at any place in a file. -/
def Refused (line : List Char) (fault : SettingFault) : Prop :=
  ∀ before after : List (List Char), (∀ l ∈ before ++ after, '\n' ∉ l) →
    ∀ ending, ending = [] ∨ ending = ['\r'] →
      let others := read (file (before ++ after))
      let place := (read (file before)).2.length
      read (file (before ++ (line ++ ending) :: after)) =
        (others.1, (others.2.map (·.behind before.length)).insertIdx place
          ⟨before.length + 1, fault⟩)

/-! ## Arguments -/

/-- Between quotes a text is read as it was before it was written. -/
theorem splitArguments_escaped (current v rest : List Char) :
    splitArguments true current (escaped v ++ rest) =
      splitArguments true (v.reverse ++ current) rest := by
  induction v generalizing current with
  | nil => rfl
  | cons c v ih =>
    have hstep : splitArguments true current (escaped (c :: v) ++ rest) =
        splitArguments true (c :: current) (escaped v ++ rest) := by
      rw [escaped, List.flatMap_cons, ← escaped, List.append_assoc]
      split
      · rw [List.cons_append, List.singleton_append, splitArguments, if_pos rfl]
      · next hc =>
        obtain ⟨hquote, hback⟩ := not_or.1 hc
        simp [splitArguments, hback]
    rw [hstep, ih, List.reverse_cons, List.append_assoc, List.singleton_append]

/-- Outside of quotes a character that is no separator stands for itself, also a backslash. -/
theorem splitArguments_cons {c : Char} (hquote : c ≠ '"') (hsep : isSeparator c = false)
    (current rest : List Char) :
    splitArguments false current (c :: rest) = splitArguments false (c :: current) rest := by
  by_cases hback : c = '\\'
  · subst hback
    cases rest <;> rfl
  · simp [splitArguments, hback, hsep]

/-- A word without quotes and separators is collected as it is. -/
theorem splitArguments_plain {word : List Char} (hquote : '"' ∉ word)
    (hsep : ∀ c ∈ word, isSeparator c = false) (current rest : List Char) :
    splitArguments false current (word ++ rest) =
      splitArguments false (word.reverse ++ current) rest := by
  induction word generalizing current with
  | nil => rfl
  | cons c word ih =>
    obtain ⟨hc, hword⟩ := not_or.1 (mt List.mem_cons.2 hquote)
    rw [List.cons_append, splitArguments_cons (Ne.symm hc) (hsep c List.mem_cons_self),
      ih hword fun d hd => hsep d (List.mem_cons_of_mem _ hd), List.reverse_cons,
      List.append_assoc, List.singleton_append]

/-- What stands in quotes at the end belongs to the current argument. -/
theorem splitArguments_inQuotes (current v : List Char) :
    splitArguments false current (inQuotes v) =
      if (v.reverse ++ current).isEmpty then [] else [current.reverse ++ v] := by
  rw [inQuotes, splitArguments, Bool.not_false, splitArguments_escaped, splitArguments,
    Bool.not_true, splitArguments, List.reverse_append, List.reverse_reverse]

/-- Separators are blanks. -/
theorem isSeparator_eq_false {c : Char} (h : Text.isBlank c = false) : isSeparator c = false := by
  refine Bool.eq_false_iff.2 fun hsep => ?_
  simp only [isSeparator, Bool.or_eq_true, beq_iff_eq] at hsep
  obtain (((rfl | rfl) | rfl) | rfl) | rfl := hsep <;> exact absurd h (by decide)

/-! ## A line -/

section Line

variable {name : List Char} (value : List Char)

/-- The arguments of the line. -/
theorem setting?_assigning (sign : Char) :
    setting? (assigning sign name value) =
      some (splitArguments false [] ("var.".toList ++ name ++ sign :: inQuotes value)) := by
  have hquote : Text.trim ['"'] = ['"'] := by decide
  have htrim := Text.trim_append (c := 'v') (by decide)
    ("ar.".toList ++ name ++ sign :: '"' :: escaped value) (List.cons_ne_nil '"' []) hquote
  have hcommand : (assigning sign name value).takeWhile (!isSeparator ·) = "set".toList := by
    rw [assigning, List.takeWhile_append_of_pos (List.all_eq_true.1 (by decide)),
      List.takeWhile_cons_of_neg (by decide), List.append_nil]
  have hrest : (assigning sign name value).drop ("set".toList.length + 1) =
      "var.".toList ++ name ++ sign :: inQuotes value := rfl
  unfold setting?
  dsimp only
  rw [hcommand, if_pos rfl, hrest]
  congr 2
  simpa [inQuotes] using htrim

/-- A carriage return behind the line does not matter. -/
theorem trim_assigning (sign : Char) {ending : List Char} (h : ending = [] ∨ ending = ['\r']) :
    Text.trim (assigning sign name value ++ ending) = assigning sign name value := by
  have hending : ∀ c ∈ ending, Text.isBlank c = true := by
    rcases h with rfl | rfl
    · exact fun _ hc => absurd hc List.not_mem_nil
    · exact fun c hc => List.mem_singleton.1 hc ▸ by decide
  have hquote : Text.trim ['"'] = ['"'] := by decide
  have htrim := Text.trim_append (c := 's') (by decide)
    ("et var.".toList ++ name ++ sign :: '"' :: escaped value) (List.cons_ne_nil '"' []) hquote
  rw [Text.trim_append_of_blank hending]
  simpa [assigning, inQuotes] using htrim

/-- The name of a variable and what stands in front of it has no separator. -/
theorem isSeparator_of_mem (h : IsVariable name) :
    ∀ c ∈ "var.".toList ++ name, isSeparator c = false := by
  have hvar : "var.".toList.any isSeparator = false := by decide
  exact List.forall_mem_append.2
    ⟨fun c hc => Bool.eq_false_iff.2 (List.any_eq_false.1 hvar c hc),
      fun _ hc => isSeparator_eq_false (h.solid hc)⟩

/-- What is neither in a name nor in the prefix of variables is not in the two together. -/
theorem not_mem_variable {c : Char} (hvar : c ∉ "var.".toList) (h : c ∉ name) :
    c ∉ "var.".toList ++ name := fun hc => (List.mem_append.1 hc).elim hvar h

/-- A setting of a variable is appended. -/
theorem assign_variable (s : Settings) (hne : name ≠ []) :
    s.assign ("var.".toList ++ name) value =
      .ok { s with vars := s.vars ++ [(String.ofList name, String.ofList value)] } := by
  have hother {setting : String} (h : setting.toList.head? ≠ some 'v') :
      String.ofList ("var.".toList ++ name) ≠ setting := by
    rintro rfl
    rw [String.toList_ofList] at h
    exact h rfl
  have hafter : Text.after? "var.".toList ("var.".toList ++ name) = some name :=
    Text.after?_append _ _
  obtain ⟨c, rest, rfl⟩ := List.exists_cons_of_ne_nil hne
  unfold assign
  dsimp only
  split
  · next h => exact absurd h (hother (by decide))
  · next h => exact absurd h (hother (by decide))
  · next h => exact absurd h (hother (by decide))
  · next h => exact absurd h (hother (by decide))
  · next h => exact absurd h (hother (by decide))
  · rw [hafter]

end Line

/-! ## The lines of a file -/

/-- A line is read without the blanks around it. -/
theorem readLine_congr (s : Settings) {line line' : List Char}
    (h : Text.trim line = Text.trim line') : s.readLine line = s.readLine line' := by
  rw [readLine, readLine, h]

/-- A carriage return at the end is a blank. -/
theorem trim_dropReturn (line : List Char) : Text.trim (Text.dropReturn line) = Text.trim line := by
  unfold Text.dropReturn
  split
  · next rest hreverse =>
    rw [← List.reverse_reverse line, hreverse, List.reverse_cons,
      Text.trim_append_of_blank fun c hc => List.mem_singleton.1 hc ▸ by decide]
  · rfl

section Lines

variable (s : Settings) (n : Nat)

/-- Lines are read one after the other. -/
theorem readLines_append (before after : List (List Char)) :
    readLines s n (before ++ after) =
      ((readLines (readLines s n before).1 (n + before.length) after).1,
        (readLines s n before).2 ++
          (readLines (readLines s n before).1 (n + before.length) after).2) := by
  induction before generalizing s n with
  | nil => rfl
  | cons line before ih =>
    have hnext : n + (line :: before).length = n + 1 + before.length := by
      rw [List.length_cons]
      omega
    rw [List.cons_append, readLines, readLines, hnext]
    cases s.readLine line with
    | ok s => exact ih s (n + 1)
    | error fault =>
      dsimp only
      rw [ih s (n + 1)]
      rfl

/-- Lines are read without carriage returns at their ends. -/
theorem readLines_dropReturn (lines : List (List Char)) :
    readLines s n (lines.map Text.dropReturn) = readLines s n lines := by
  induction lines generalizing s n with
  | nil => rfl
  | cons line lines ih =>
    rw [List.map_cons, readLines, readLines, readLine_congr s (trim_dropReturn line)]
    cases s.readLine line with
    | ok s => exact ih s (n + 1)
    | error fault =>
      dsimp only
      rw [ih s (n + 1)]

/-- The lines of a file are read one after another. -/
theorem read_file {lines : List (List Char)} (h : ∀ l ∈ lines, '\n' ∉ l) :
    read (file lines) = readLines {} 1 lines := by
  rcases List.eq_nil_or_concat' lines with rfl | ⟨front, last, rfl⟩
  · rfl
  · have hsplit : Text.splitOn '\n' (file (front ++ [last])) = front ++ [last] := by
      rw [Text.splitOn_eq]
      exact List.splitOn_intercalate '\n' h (List.append_ne_nil_of_right_ne_nil _ (by simp))
    rw [read, Text.lines, hsplit, List.dropLast_concat, List.getLast?_concat, Option.getD_some,
      readLines_append, readLines_append, readLines_dropReturn, List.length_map]
    cases last with
    | nil => rfl
    | cons c last => rfl

/-- The errors of lines are told of these lines. -/
theorem line_of_mem_readLines {lines : List (List Char)} {e : SettingError}
    (h : e ∈ (readLines s n lines).2) : n ≤ e.line ∧ e.line < n + lines.length := by
  induction lines generalizing s n with
  | nil => exact absurd h List.not_mem_nil
  | cons line lines ih =>
    rw [List.length_cons]
    rw [readLines] at h
    cases hline : s.readLine line with
    | ok s =>
      rw [hline] at h
      have := ih s (n + 1) h
      omega
    | error fault =>
      rw [hline] at h
      rcases List.mem_cons.1 h with rfl | h
      · dsimp only
        omega
      · have := ih s (n + 1) h
        omega

/-- Lines do the same when they stand one line further down. -/
theorem readLines_succ (lines : List (List Char)) :
    readLines s (n + 1) lines =
      ((readLines s n lines).1,
        (readLines s n lines).2.map fun e => { e with line := e.line + 1 }) := by
  induction lines generalizing s n with
  | nil => rfl
  | cons line lines ih =>
    rw [readLines, readLines]
    cases s.readLine line with
    | ok s => exact ih s (n + 1)
    | error fault =>
      dsimp only
      rw [ih s (n + 1)]
      rfl

end Lines

/-! ## Variables of other lines -/

/-- The settings with more variables in front. -/
def preceded (front : List (String × String)) (s : Settings) : Settings :=
  { s with vars := front ++ s.vars }

section Preceded

variable (front : List (String × String)) (s : Settings)

/-- Assignments do not depend on the variables in front. -/
theorem assign_preceded (name value : List Char) :
    (s.preceded front).assign name value = (s.assign name value).map (preceded front) := by
  unfold assign
  dsimp only
  split
  · rfl
  · split <;> rfl
  · rfl
  · rfl
  · split <;> rfl
  · split
    · rfl
    · simp [preceded, Except.map]
    · rfl

/-- Reading a line does not depend on the variables in front. -/
theorem readLine_preceded (line : List Char) :
    (s.preceded front).readLine line = (s.readLine line).map (preceded front) := by
  unfold readLine
  split
  · rfl
  · next arguments _ =>
    cases assignment arguments with
    | error fault => rfl
    | ok pair => exact assign_preceded front s pair.1 pair.2

/-- No line looks at the variables of the lines above it. -/
theorem readLines_preceded (n : Nat) (lines : List (List Char)) :
    readLines (s.preceded front) n lines =
      ((readLines s n lines).1.preceded front, (readLines s n lines).2) := by
  induction lines generalizing s n with
  | nil => rfl
  | cons line lines ih =>
    rw [readLines, readLines, readLine_preceded]
    cases s.readLine line with
    | ok s => exact ih s (n + 1)
    | error fault =>
      dsimp only [Except.map]
      rw [ih s (n + 1)]

end Preceded

/-! ## A line in a file -/

section File

variable {line : List Char}

/-- What is inserted behind the front stands between the two parts. -/
theorem insertIdx_length_append {α : Type} (front back : List α) (x : α) :
    (front ++ back).insertIdx front.length x = front ++ x :: back := by
  induction front with
  | nil => rfl
  | cons a front ih =>
    rw [List.cons_append, List.length_cons, List.insertIdx_succ_cons, ih, List.cons_append]

/-- Errors of lines in front are counted as before, and those of lines behind one further. -/
theorem behind_readLines (s : Settings) (before after : List (List Char)) :
    (readLines s 1 (before ++ after)).2.map (·.behind before.length) =
      (readLines s 1 before).2 ++
        (readLines (readLines s 1 before).1 (1 + before.length + 1) after).2 := by
  have hbefore : (readLines s 1 before).2.map (·.behind before.length) = (readLines s 1 before).2 :=
    (List.map_congr_left fun e he =>
      if_neg (by have := (line_of_mem_readLines s 1 he).2; omega)).trans (List.map_id _)
  rw [readLines_append, List.map_append, hbefore, readLines_succ _ (1 + before.length)]
  congr 1
  refine List.map_congr_left fun e he => if_pos ?_
  have := (line_of_mem_readLines _ _ he).1
  omega

/-- A file with a line at some place reads as the lines in front, the line, and those behind. -/
theorem read_file_insert {before after : List (List Char)} {text : List Char}
    (hlines : ∀ l ∈ before ++ after, '\n' ∉ l) (htext : '\n' ∉ text) :
    read (file (before ++ text :: after)) =
      ((readLines (readLines {} 1 before).1 (1 + before.length) (text :: after)).1,
        (readLines {} 1 before).2 ++
          (readLines (readLines {} 1 before).1 (1 + before.length) (text :: after)).2) := by
  obtain ⟨hbefore, hafter⟩ := List.forall_mem_append.1 hlines
  rw [read_file (List.forall_mem_append.2 ⟨hbefore, List.forall_mem_cons.2 ⟨htext, hafter⟩⟩),
    readLines_append]

/-- A line with its ending is one line. -/
theorem newline_not_mem {ending : List Char} (hline : '\n' ∉ line)
    (h : ending = [] ∨ ending = ['\r']) : '\n' ∉ line ++ ending := by
  rcases h with rfl | rfl <;> simp [hline]

/-- Lines behind a variable that was added do what they do without it. -/
theorem readLines_override (s : Settings) (override : String × String) (n : Nat)
    (lines : List (List Char)) :
    readLines { s with vars := s.vars ++ [override] } (n + 1) lines =
      ({ (readLines s n lines).1 with
          vars := (readLines s n lines).1.vars.insertIdx s.vars.length override },
        (readLines s (n + 1) lines).2) := by
  have hwith : { s with vars := s.vars ++ [override] } =
      preceded (s.vars ++ [override]) { s with vars := [] } := by
    rw [preceded, List.append_nil]
  have hwithout : s = preceded s.vars { s with vars := [] } := by
    rw [preceded, List.append_nil]
  have hplace := insertIdx_length_append s.vars
    (readLines { s with vars := [] } n lines).1.vars override
  rw [hwith, readLines_preceded, readLines_succ, readLines_succ s, hwithout, readLines_preceded]
  simp only [preceded, List.append_nil, hplace, List.append_assoc, List.singleton_append]

/-- A line that adds a variable to any settings adds it wherever it stands. -/
theorem adds_of_readLine {override : String × String} (hline : '\n' ∉ line)
    (h : ∀ s : Settings, ∀ ending, ending = [] ∨ ending = ['\r'] →
      s.readLine (line ++ ending) = .ok { s with vars := s.vars ++ [override] }) :
    Adds line override := by
  intro before after hlines ending hending
  have hbefore := (List.forall_mem_append.1 hlines).1
  dsimp only
  rw [read_file_insert hlines (newline_not_mem hline hending), readLines, h _ ending hending,
    read_file hlines, read_file hbefore, behind_readLines, readLines_append]
  dsimp only
  rw [readLines_override]

/-- A line that is reported for any settings is reported wherever it stands. -/
theorem refused_of_readLine {fault : SettingFault} (hline : '\n' ∉ line)
    (h : ∀ s : Settings, ∀ ending, ending = [] ∨ ending = ['\r'] →
      s.readLine (line ++ ending) = .error fault) : Refused line fault := by
  intro before after hlines ending hending
  have hbefore := (List.forall_mem_append.1 hlines).1
  dsimp only
  rw [read_file_insert hlines (newline_not_mem hline hending), readLines, h _ ending hending,
    read_file hlines, read_file hbefore, behind_readLines, insertIdx_length_append,
    readLines_append, Nat.add_comm before.length 1]
  rw [readLines_succ]

end File

/-! ## Lines with a quoted value -/

section Quoted

variable {name value : List Char}

/-- Behind an equals sign the value is a part of the one argument. -/
theorem splitArguments_equals (h : IsVariable name) (value : List Char) :
    splitArguments false [] ("var.".toList ++ name ++ '=' :: inQuotes value) =
      ["var.".toList ++ name ++ '=' :: value] := by
  rw [splitArguments_plain (not_mem_variable (by decide) h.quote) (isSeparator_of_mem h),
    splitArguments_cons (by decide) (by decide), splitArguments_inQuotes]
  simp

/-- Behind a space the value is an argument of its own, if it has characters. -/
theorem splitArguments_space (h : IsVariable name) (value : List Char) :
    splitArguments false [] ("var.".toList ++ name ++ ' ' :: inQuotes value) =
      ("var.".toList ++ name) :: if value = [] then [] else [value] := by
  have hspace (current : List Char) (hne : current ≠ []) :
      splitArguments false current (' ' :: inQuotes value) =
        current.reverse :: splitArguments false [] (inQuotes value) := by
    simp [splitArguments, isSeparator, hne]
  rw [splitArguments_plain (not_mem_variable (by decide) h.quote) (isSeparator_of_mem h),
    hspace _ (by simp), splitArguments_inQuotes]
  simp

/-- An assignment is written in one line. -/
theorem newline_not_mem_assigning (h : IsVariable name) (hvalue : '\n' ∉ value) {sign : Char}
    (hsign : '\n' ≠ sign) : '\n' ∉ assigning sign name value := by
  have hname : '\n' ∉ name := fun hmem => absurd (h.solid hmem) (by decide)
  have hescaped : '\n' ∉ escaped value := by
    intro hmem
    obtain ⟨c, hc, hmem⟩ := List.mem_flatMap.1 hmem
    have heq : '\n' = c := by
      split at hmem <;> simpa using hmem
    exact hvalue (heq ▸ hc)
  simp [assigning, inQuotes, hname, hescaped, hsign]

variable (s : Settings) {ending : List Char}

/-- A variable is read with an equals sign. -/
theorem readLine_equals (h : IsVariable name) (hending : ending = [] ∨ ending = ['\r']) :
    s.readLine (assigning '=' name value ++ ending) =
      .ok { s with vars := s.vars ++ [(String.ofList name, String.ofList value)] } := by
  rw [readLine, trim_assigning value '=' hending, setting?_assigning, splitArguments_equals h]
  have hassignment : assignment ["var.".toList ++ name ++ '=' :: value] =
      .ok ("var.".toList ++ name, value) := by
    rw [assignment, Text.cut?_append (not_mem_variable (by decide) h.equals)]
    exact congrArg (fun v => Except.ok (_, v)) (Text.unwords_singleton value)
  dsimp only
  rw [hassignment]
  exact assign_variable value s h.ne_nil

/-- With a space it is read, too, unless the value is empty. -/
theorem readLine_space (h : IsVariable name) (hending : ending = [] ∨ ending = ['\r']) :
    s.readLine (assigning ' ' name value ++ ending) =
      if value = [] then .error (.missingValue (String.ofList ("var.".toList ++ name)))
      else .ok { s with vars := s.vars ++ [(String.ofList name, String.ofList value)] } := by
  have hcut := Text.cut?_eq_none (not_mem_variable (by decide) h.equals)
  rw [readLine, trim_assigning value ' ' hending, setting?_assigning, splitArguments_space h]
  dsimp only
  split
  · rw [assignment, hcut]
    rfl
  · rw [assignment, hcut]
    dsimp only
    rw [List.isEmpty_cons, if_neg Bool.false_ne_true, Text.unwords_singleton]
    exact assign_variable value s h.ne_nil

end Quoted

/-- A line that gives a variable a quoted value adds just that variable, wherever it stands. The one
exception is an empty value behind a space, which is reported as missing. -/
theorem adds_quoted {name value : List Char} (hname : IsVariable name) (hvalue : '\n' ∉ value) :
    Adds (assigning '=' name value) (String.ofList name, String.ofList value) ∧
      (Adds (assigning ' ' name value) (String.ofList name, String.ofList value) ↔ value ≠ []) ∧
      (value = [] → Refused (assigning ' ' name value)
        (.missingValue (String.ofList ("var.".toList ++ name)))) := by
  have hequals : Adds (assigning '=' name value) (String.ofList name, String.ofList value) :=
    adds_of_readLine (newline_not_mem_assigning hname hvalue (by decide))
      fun s _ => readLine_equals s hname
  have hline : '\n' ∉ assigning ' ' name value :=
    newline_not_mem_assigning hname hvalue (by decide)
  have hrefused : value = [] → Refused (assigning ' ' name value)
      (.missingValue (String.ofList ("var.".toList ++ name))) := by
    intro hempty
    refine refused_of_readLine hline fun s ending hending => ?_
    rw [readLine_space s hname hending, if_pos hempty]
  refine ⟨hequals, ⟨fun hadds hempty => ?_, fun hne => ?_⟩, hrefused⟩
  · -- in a file without other lines the two disagree
    have hadded := hadds [] [] (by simp) [] (.inl rfl)
    rw [hrefused hempty [] [] (by simp) [] (.inl rfl)] at hadded
    simp [file, read, Text.lines, Text.splitOn, Text.splitWhere, readLines] at hadded
  · refine adds_of_readLine hline fun s ending hending => ?_
    rw [readLine_space s hname hending, if_neg hne]

/-- A value with quotes, separators, an equals sign, a semicolon and a backslash. -/
theorem adds_quoted_motto :
    Adds "set var.motto=\"a=\\\"b\\\"; c \\\\ d\"".toList ("motto", "a=\"b\"; c \\ d") ∧
      Adds "set var.motto \"a=\\\"b\\\"; c \\\\ d\"".toList ("motto", "a=\"b\"; c \\ d") := by
  have hname : IsVariable "motto".toList := by decide
  have hvalue : '\n' ∉ "a=\"b\"; c \\ d".toList := by decide
  have hquoted := adds_quoted hname hvalue
  exact ⟨hquoted.1, hquoted.2.1.2 (by decide)⟩

/-- An empty value behind a space is taken for a missing one. -/
theorem not_adds_empty :
    IsVariable ['a'] ∧ assigning ' ' ['a'] [] = "set var.a \"\"".toList ∧
      ¬ Adds (assigning ' ' ['a'] []) ("a", "") := by
  refine ⟨by decide, by decide, fun hadds => ?_⟩
  have hread := hadds [] [] (by simp) [] (.inl rfl)
  revert hread
  decide

end Settings

end Narrative
