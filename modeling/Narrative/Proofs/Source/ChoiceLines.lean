import Narrative.Proofs.Computation
import Narrative.Proofs.Text
import Narrative.Proofs.Text.Words
import Narrative.Source.Draft

/-!
# Choice lines

A choice line is written in parts: markers, a label, conditions, the offered text with brackets in
it, and a divert. The readers of a line look for the ends of these parts one after the other, each
in what the one before has left. What they find is what was written, for every combination of parts
and every spacing, as long as no part contains what another one ends with. Arrows are looked for
when the brackets are gone, so that the texts around a bracket may make one together.
-/

namespace Narrative.ChoiceLine

/-- The arrow of a divert. -/
def arrow : List Char := ['-', '>']

/-- The beginning of a comment. -/
def slashes : List Char := ['/', '/']

/-- A choice line by its parts. A part in parentheses or braces comes with the blanks behind it. -/
structure Spelling where
  /-- The blanks in front of the line. -/
  indent : List Char := []
  /-- Whether the marker is the one of repeatable choices. -/
  repeatable : Bool
  /-- The blanks behind each of the markers. -/
  gaps : List (List Char)
  /-- The label. -/
  label : Option (List Char × List Char) := none
  /-- The conditions. -/
  conditions : List (List Char × List Char) := []
  /-- The text that is both offered and played. -/
  before : List Char
  /-- The text in brackets, which is offered only. -/
  aside : List Char
  /-- The text that is played only. -/
  after : List Char
  /-- The target of the divert. -/
  target : Option (List Char) := none

namespace Spelling

/-- The marker of the choice. -/
def marker (s : Spelling) : Char :=
  if s.repeatable then '+' else '*'

/-- The markers. -/
def marks (s : Spelling) : List Char :=
  s.gaps.flatMap (s.marker :: ·)

/-- A part between two delimiters. -/
def enclose (opening closing : Char) (part : List Char × List Char) : List Char :=
  opening :: (part.1 ++ closing :: part.2)

/-- The label and the conditions. -/
def guards (s : Spelling) : List Char :=
  s.label.toList.flatMap (enclose '(' ')') ++ s.conditions.flatMap (enclose '\x7b' '\x7d')

/-- The divert. -/
def divert (s : Spelling) : List Char :=
  (s.target.map fun target => ' ' :: '-' :: '>' :: ' ' :: target).getD []

/-- What follows the brackets, without the blanks at the end of the line. -/
def ending (s : Spelling) : List Char :=
  Text.trimEnd (s.after ++ s.divert)

/-- The text with its brackets, when something follows them. -/
def offer (s : Spelling) (ending : List Char) : List Char :=
  s.before ++ '[' :: (s.aside ++ ']' :: ending)

/-- The line without its indentation, when something follows the brackets. -/
def line (s : Spelling) (ending : List Char) : List Char :=
  s.marks ++ (s.guards ++ s.offer ending)

/-- The line. -/
def text (s : Spelling) : List Char :=
  s.indent ++ s.line (s.after ++ s.divert)

/-- Whether a text contains nothing that ends it. -/
structure IsPlain (cs : List Char) : Prop where
  /-- There are no brackets and no braces in it. -/
  unbracketed : ∀ c ∈ cs, c ∉ ['[', ']', '\x7b', '\x7d']
  /-- There is no arrow in it. -/
  arrow : ¬ arrow <:+: cs
  /-- There is no comment in it. -/
  slashes : ¬ slashes <:+: cs

/-- Whether a part between delimiters ends where it seems to end, with blanks behind it. -/
structure IsEnclosed (delimiters : List Char) (part : List Char × List Char) : Prop where
  /-- There is no delimiter in it. -/
  undelimited : ∀ c ∈ delimiters, c ∉ part.1
  /-- There is no comment in it. -/
  slashes : ¬ slashes <:+: part.1
  /-- There are blanks behind it. -/
  blank : ∀ c ∈ part.2, Text.isBlank c = true

/-- Whether the parts of a line can be told from each other. -/
structure WellFormed (s : Spelling) : Prop where
  /-- The line is one line. -/
  oneLine : '\n' ∉ s.text
  /-- There is a marker. -/
  marked : s.gaps ≠ []
  /-- There are blanks in front of the line and behind the markers. -/
  blank : ∀ gap ∈ s.indent :: s.gaps, ∀ c ∈ gap, Text.isBlank c = true
  /-- The label has no closing parenthesis in it. -/
  label : ∀ part ∈ s.label, IsEnclosed [')'] part
  /-- The conditions have no braces in them. -/
  conditions : ∀ part ∈ s.conditions, IsEnclosed ['\x7b', '\x7d'] part
  /-- The texts and the target contain nothing that ends them. -/
  plain : ∀ cs ∈ s.before :: s.aside :: s.after :: s.target.toList, IsPlain cs
  /-- The offered text does not begin like a marker or a label. -/
  offerHead : ∀ c ∈ (Text.trim s.before).head?, c ∉ ['*', '+', '(']
  /-- The played text does not begin like a marker. -/
  playHead : ∀ c ∈ (Text.trim (s.before ++ s.after)).head?, c ∉ ['*', '+']

instance (cs : List Char) : Decidable (IsPlain cs) :=
  decidable_of_iff ((cs.all fun c => !(['[', ']', '\x7b', '\x7d'].contains c)) = true ∧
      ¬ ChoiceLine.arrow <:+: cs ∧ ¬ ChoiceLine.slashes <:+: cs)
    ⟨fun ⟨hbare, harrow, hslashes⟩ => ⟨by simpa using hbare, harrow, hslashes⟩,
      fun h => ⟨by simpa using h.unbracketed, h.arrow, h.slashes⟩⟩

instance (delimiters : List Char) (part : List Char × List Char) :
    Decidable (IsEnclosed delimiters part) :=
  decidable_of_iff ((delimiters.all fun c => !part.1.contains c) = true ∧
      ¬ ChoiceLine.slashes <:+: part.1 ∧ part.2.all Text.isBlank = true)
    ⟨fun ⟨hbare, hslashes, hblank⟩ => ⟨by simpa using hbare, hslashes, by simpa using hblank⟩,
      fun h => ⟨by simpa using h.undelimited, h.slashes, by simpa using h.blank⟩⟩

instance (s : Spelling) : Decidable s.WellFormed :=
  decidable_of_iff ('\n' ∉ s.text ∧ s.gaps ≠ [] ∧
      (s.indent :: s.gaps).all (·.all Text.isBlank) = true ∧
      s.label.toList.all (fun part => decide (IsEnclosed [')'] part)) = true ∧
      s.conditions.all (fun part => decide (IsEnclosed ['\x7b', '\x7d'] part)) = true ∧
      (s.before :: s.aside :: s.after :: s.target.toList).all (fun cs => decide (IsPlain cs)) =
        true ∧
      (Text.trim s.before).head?.toList.all (fun c => !(['*', '+', '('].contains c)) = true ∧
      (Text.trim (s.before ++ s.after)).head?.toList.all (fun c => !(['*', '+'].contains c)) =
        true)
    ⟨fun ⟨hline, hmarked, hblank, hlabel, hconditions, hplain, hoffer, hplay⟩ =>
        ⟨hline, hmarked, by simpa using hblank, by simpa using hlabel, by simpa using hconditions,
          by simpa using hplain, by simpa using hoffer, by simpa using hplay⟩,
      fun h => ⟨h.oneLine, h.marked, by simpa using h.blank, by simpa using h.label,
        by simpa using h.conditions, by simpa using h.plain, by simpa using h.offerHead,
        by simpa using h.playHead⟩⟩

/-! ## The line without a comment -/

variable {s : Spelling}

/-- What follows the brackets ends the line. -/
theorem line_eq (s : Spelling) (ending : List Char) : s.line ending =
    (s.marks ++ (s.guards ++ (s.before ++ '[' :: s.aside))) ++ ']' :: ending := by
  simp only [line, offer, List.append_assoc, List.cons_append]

/-- A choice has one of the two markers. -/
theorem marker_mem (s : Spelling) : s.marker ∈ ['*', '+'] := by
  unfold marker
  split <;> decide

/-- No other character is the marker of a choice. -/
theorem ne_marker {c : Char} (h : c ∉ ['*', '+']) : c ≠ s.marker := by
  rintro rfl
  exact h s.marker_mem

/-- A marker is no blank. -/
theorem isBlank_marker (s : Spelling) : Text.isBlank s.marker = false := by
  unfold marker
  split <;> decide

/-- A blank is no slash. -/
theorem ne_slash_of_isBlank {c : Char} (h : Text.isBlank c = true) : c ≠ '/' := by
  rintro rfl
  exact absurd h (by decide)

/-- In front of a text without a comment there may be a part without one. -/
theorem slashless_enclose {opening closing : Char} {delimiters : List Char}
    {part : List Char × List Char} {rest : List Char} (hopening : opening ≠ '/')
    (hclosing : closing ≠ '/') (hpart : IsEnclosed delimiters part)
    (hrest : ¬ slashes <:+: rest) : ¬ slashes <:+: enclose opening closing part ++ rest := by
  intro h
  rw [enclose, List.cons_append, List.append_assoc, List.cons_append] at h
  rcases List.infix_cons_iff.1 h with hprefix | hinfix
  · exact hopening (List.cons_prefix_cons.1 hprefix).1.symm
  · rcases Text.infix_of_infix_append_cons (by simp [slashes, hclosing]) hinfix with hin | hafter
    · exact hpart.slashes hin
    · exact hrest (Text.infix_of_infix_append_of_not_mem
        (fun hmem => ne_slash_of_isBlank (hpart.blank _ hmem) rfl) hafter)

/-- No comment begins in parts between delimiters, nor where the next one follows. -/
theorem slashless_flatMap {opening closing : Char} {delimiters : List Char}
    (hopening : opening ≠ '/') (hclosing : closing ≠ '/') {rest : List Char}
    (hrest : ¬ slashes <:+: rest) (parts : List (List Char × List Char))
    (hparts : ∀ part ∈ parts, IsEnclosed delimiters part) :
    ¬ slashes <:+: parts.flatMap (enclose opening closing) ++ rest := by
  induction parts with
  | nil => exact hrest
  | cons part parts ih =>
    rw [List.flatMap_cons, List.append_assoc]
    exact slashless_enclose hopening hclosing (hparts part List.mem_cons_self)
      (ih fun part hmem => hparts part (List.mem_cons_of_mem _ hmem))

/-- Among the markers are only markers and blanks. -/
theorem not_mem_marks {c : Char} (hmarker : c ≠ s.marker) (hc : Text.isBlank c = false)
    (hblank : ∀ gap ∈ s.gaps, ∀ c ∈ gap, Text.isBlank c = true) : c ∉ s.marks := by
  intro hmem
  obtain ⟨gap, hgap, hmem⟩ := List.mem_flatMap.1 hmem
  rcases List.mem_cons.1 hmem with heq | hmem
  · exact hmarker heq
  · exact absurd (hblank gap hgap c hmem) (by rw [hc]; decide)

namespace WellFormed

variable (h : s.WellFormed)

include h

/-- The text in front of the brackets contains nothing that ends it. -/
theorem plain_before : IsPlain s.before :=
  h.plain _ List.mem_cons_self

/-- The text inside the brackets contains nothing that ends it. -/
theorem plain_aside : IsPlain s.aside :=
  h.plain _ (by simp)

/-- The text behind the brackets contains nothing that ends it. -/
theorem plain_after : IsPlain s.after :=
  h.plain _ (by simp)

/-- The target of the divert contains nothing that ends it. -/
theorem plain_target {target : List Char} (htarget : s.target = some target) : IsPlain target :=
  h.plain _ (by simp [htarget])

/-- No comment begins behind the brackets. -/
theorem slashless_ending : ¬ slashes <:+: s.after ++ s.divert := by
  unfold divert
  cases htarget : s.target with
  | none =>
    rw [Option.map_none, Option.getD_none, List.append_nil]
    exact h.plain_after.slashes
  | some target =>
    intro hinfix
    rcases Text.infix_of_infix_append_cons (by decide) hinfix with hafter | hdivert
    · exact h.plain_after.slashes hafter
    · have hdivert : slashes <:+: ['-', '>', ' '] ++ target := hdivert
      exact (h.plain_target htarget).slashes
        (Text.infix_of_infix_append_of_not_mem (by decide) hdivert)

/-- No comment begins in the text with its brackets. -/
theorem slashless_offer : ¬ slashes <:+: s.offer (s.after ++ s.divert) := by
  intro hinfix
  rcases Text.infix_of_infix_append_cons (by decide) hinfix with hbefore | hrest
  · exact h.plain_before.slashes hbefore
  · rcases Text.infix_of_infix_append_cons (by decide) hrest with haside | hending
    · exact h.plain_aside.slashes haside
    · exact h.slashless_ending hending

/-- Nothing on the line is read as a comment. -/
theorem slashless_text : ¬ slashes <:+: s.text := by
  have hconditions : ¬ slashes <:+:
      s.conditions.flatMap (enclose '\x7b' '\x7d') ++ s.offer (s.after ++ s.divert) :=
    slashless_flatMap (by decide) (by decide) h.slashless_offer _ h.conditions
  have hguards : ¬ slashes <:+: s.guards ++ s.offer (s.after ++ s.divert) := by
    rw [guards, List.append_assoc]
    exact slashless_flatMap (by decide) (by decide) hconditions _
      fun part hpart => h.label part (Option.mem_toList.1 hpart)
  have hindent : '/' ∉ s.indent := fun hmem =>
    ne_slash_of_isBlank (h.blank _ List.mem_cons_self _ hmem) rfl
  have hmarks : '/' ∉ s.marks :=
    not_mem_marks (ne_marker (by decide)) (by decide)
      fun gap hgap => h.blank gap (List.mem_cons_of_mem _ hgap)
  intro hinfix
  exact hguards (Text.infix_of_infix_append_of_not_mem hmarks
    (Text.infix_of_infix_append_of_not_mem hindent hinfix))

/-- The line begins with a marker. -/
theorem exists_line (ending : List Char) : ∃ rest, s.line ending = s.marker :: rest := by
  obtain ⟨gap, gaps, hgaps⟩ := List.exists_cons_of_ne_nil h.marked
  exact ⟨gap ++ gaps.flatMap (s.marker :: ·) ++ (s.guards ++ s.offer ending), by
    rw [line, marks, hgaps, List.flatMap_cons]; rfl⟩

/-- Without its surrounding blanks a line ends where what follows the brackets does. -/
theorem trim_text : Text.trim s.text = s.line s.ending := by
  obtain ⟨rest, hline⟩ := h.exists_line (s.after ++ s.divert)
  have hstart : Text.trimStart s.text = s.line (s.after ++ s.divert) := by
    rw [text, Text.trimStart_append_of_blank (h.blank _ List.mem_cons_self), hline,
      Text.trimStart_cons s.isBlank_marker]
  rw [Text.trim, hstart, line_eq, Text.trimEnd_append_cons (by decide), ← ending, ← line_eq]

/-- The line has no comment. -/
theorem splitComment_text : splitComment s.text = (s.line s.ending, none) := by
  have hslashes : ¬ slashes <:+: Text.trim s.text := fun hin =>
    h.slashless_text (hin.trans (Text.trim_infix _))
  unfold splitComment
  dsimp only
  rw [show Text.cutAt? ['/', '/'] (Text.trim s.text) = none from Text.cutAt?_eq_none hslashes,
    h.trim_text]

end WellFormed

/-! ## The markers -/

/-- Where no marker stands, none is taken away. -/
theorem stripMarkers_of_head? {marker : Char} {cs : List Char} (h : cs.head? ≠ some marker) :
    stripMarkers marker cs = (0, cs) := by
  cases cs with
  | nil => rw [stripMarkers]
  | cons c cs =>
    rw [stripMarkers, if_neg fun hmarker => h (by rw [List.head?_cons, hmarker.1])]

/-- As many markers are read as are written, however they are spaced. -/
theorem stripMarkers_flatMap {marker : Char} (hblank : Text.isBlank marker = false)
    (hhyphen : marker ≠ '-') {rest : List Char}
    (hrest : (Text.trimStart rest).head? ≠ some marker) (gaps : List (List Char))
    (hgaps : ∀ gap ∈ gaps, ∀ c ∈ gap, Text.isBlank c = true) :
    stripMarkers marker (Text.trimStart (gaps.flatMap (marker :: ·) ++ rest)) =
      (gaps.length, Text.trimStart rest) := by
  induction gaps with
  | nil => exact stripMarkers_of_head? hrest
  | cons gap gaps ih =>
    have hgap := hgaps gap List.mem_cons_self
    rw [List.flatMap_cons, List.append_assoc, List.cons_append, Text.trimStart_cons hblank,
      stripMarkers, if_pos ⟨rfl, fun hno => hhyphen hno.1⟩, Text.trimStart_append_of_blank hgap,
      ih fun gap hmem => hgaps gap (List.mem_cons_of_mem _ hmem)]
    rfl

/-! ## The label and the conditions -/

/-- A part between delimiters has no blanks in front. -/
theorem trimStart_enclose {opening closing : Char} (hopening : Text.isBlank opening = false)
    (part : List Char × List Char) (rest : List Char) :
    Text.trimStart (enclose opening closing part ++ rest) = enclose opening closing part ++ rest :=
  Text.trimStart_cons hopening _

/-- Where neither a label nor a condition begins, the text is all there is. -/
theorem readGuards_of_head? {label : Option (List Char)} {cs : List Char}
    (hlabel : label = none → cs.head? ≠ some '(') (hcondition : cs.head? ≠ some '\x7b') :
    readGuards label cs = .ok (label, [], cs) := by
  cases cs with
  | nil => rw [readGuards]
  | cons c cs =>
    rw [List.head?_cons] at hlabel hcondition
    rw [readGuards, if_neg fun h => hlabel h.2 (by rw [h.1]),
      if_neg fun h => hcondition (by rw [h])]

/-- A label in front is read, without the blanks around it. -/
theorem readGuards_label {part : List Char × List Char} (hpart : IsEnclosed [')'] part)
    (rest : List Char) :
    readGuards none (enclose '(' ')' part ++ rest) =
      readGuards (some (Text.trim part.1)) (Text.trimStart rest) := by
  have hcut := Text.cut?_append (hpart.undelimited ')' (by simp)) (part.2 ++ rest)
  rw [enclose, List.cons_append, List.append_assoc, List.cons_append, readGuards,
    if_pos ⟨rfl, rfl⟩]
  split
  · next hnone =>
    rw [hcut] at hnone
    cases hnone
  · next hsome =>
    rw [hcut] at hsome
    cases hsome
    rw [Text.trimStart_append_of_blank hpart.blank]

/-- A condition in front is read, without the blanks around it. -/
theorem readGuards_condition (label : Option (List Char)) {part : List Char × List Char}
    (hpart : IsEnclosed ['\x7b', '\x7d'] part) (rest : List Char) :
    readGuards label (enclose '\x7b' '\x7d' part ++ rest) =
      (readGuards label (Text.trimStart rest)).map fun (label, conditions, text) =>
        (label, String.ofList (Text.trim part.1) :: conditions, text) := by
  have hcut := Text.cut?_append (hpart.undelimited '\x7d' (by simp)) (part.2 ++ rest)
  rw [enclose, List.cons_append, List.append_assoc, List.cons_append, readGuards,
    if_neg (by simp), if_pos rfl]
  split
  · next hnone =>
    rw [hcut] at hnone
    cases hnone
  · next hsome =>
    rw [hcut] at hsome
    cases hsome
    rw [Text.trimStart_append_of_blank hpart.blank]

/-- All conditions are read in order. -/
theorem readGuards_flatMap {label : Option (List Char)} {rest : List Char}
    (hlabel : label = none → (Text.trimStart rest).head? ≠ some '(')
    (hcondition : (Text.trimStart rest).head? ≠ some '\x7b') (parts : List (List Char × List Char))
    (hparts : ∀ part ∈ parts, IsEnclosed ['\x7b', '\x7d'] part) :
    readGuards label (Text.trimStart (parts.flatMap (enclose '\x7b' '\x7d') ++ rest)) =
      .ok (label, parts.map fun part => String.ofList (Text.trim part.1), Text.trimStart rest) := by
  induction parts with
  | nil => exact readGuards_of_head? hlabel hcondition
  | cons part parts ih =>
    rw [List.flatMap_cons, List.append_assoc, trimStart_enclose (by decide),
      readGuards_condition label (hparts part List.mem_cons_self), ih fun part hmem => hparts part
        (List.mem_cons_of_mem _ hmem)]
    rfl

namespace WellFormed

variable (h : s.WellFormed)

include h

/-- The text that is offered begins like no marker, label or condition. -/
theorem head?_trimStart_offer (ending : List Char) :
    ∀ c ∈ (Text.trimStart (s.offer ending)).head?, c ∉ ['*', '+', '(', '\x7b'] := by
  intro c hc
  rw [offer, Text.trimStart_append_cons (by decide)] at hc
  cases htrim : Text.trimStart s.before with
  | nil =>
    rw [htrim] at hc
    cases hc
    decide
  | cons b rest =>
    rw [htrim] at hc
    cases hc
    have hhead : c ∈ (Text.trim s.before).head? := by rw [Text.head?_trim, htrim]; rfl
    have hmem : c ∈ s.before :=
      (List.dropWhile_suffix _).subset (htrim ▸ List.mem_cons_self : c ∈ Text.trimStart s.before)
    have hoffered := h.offerHead c hhead
    have hbrace := h.plain_before.unbracketed c hmem
    simp only [List.mem_cons, not_or] at hoffered hbrace ⊢
    exact ⟨hoffered.1, hoffered.2.1, hoffered.2.2.1, hbrace.2.2.1, List.not_mem_nil⟩

/-- What follows the markers is no marker. -/
theorem head?_trimStart_guards (ending : List Char) :
    (Text.trimStart (s.guards ++ s.offer ending)).head? ≠ some s.marker := by
  have hne {c : Char} (hc : c ∉ ['*', '+']) : some c ≠ some s.marker :=
    mt Option.some.inj (ne_marker hc)
  unfold guards
  cases s.label with
  | some part =>
    rw [Option.toList_some, List.flatMap_singleton, List.append_assoc,
      trimStart_enclose (by decide)]
    exact hne (by decide)
  | none =>
    cases s.conditions with
    | cons part parts =>
      rw [Option.toList_none, List.flatMap_nil, List.nil_append, List.flatMap_cons,
        List.append_assoc, trimStart_enclose (by decide)]
      exact hne (by decide)
    | nil =>
      intro heq
      exact h.head?_trimStart_offer ending s.marker heq
        (List.mem_of_mem_take (i := 2) s.marker_mem)

/-- The markers are taken away and counted. -/
theorem stripMarkers_line (ending : List Char) :
    stripMarkers s.marker (s.line ending) =
      (s.gaps.length, Text.trimStart (s.guards ++ s.offer ending)) := by
  obtain ⟨rest, hline⟩ := h.exists_line ending
  have hstart : Text.trimStart (s.line ending) = s.line ending := by
    rw [hline, Text.trimStart_cons s.isBlank_marker]
  rw [← hstart]
  exact stripMarkers_flatMap s.isBlank_marker (ne_marker (by decide)).symm
    (h.head?_trimStart_guards ending) _ fun gap hgap => h.blank gap (List.mem_cons_of_mem _ hgap)

/-- The label and the conditions are read in order. -/
theorem readGuards_line (ending : List Char) :
    readGuards none (Text.trimStart (s.guards ++ s.offer ending)) =
      .ok (s.label.map fun part => Text.trim part.1,
        s.conditions.map fun part => String.ofList (Text.trim part.1),
        Text.trimStart (s.offer ending)) := by
  have hhead {c : Char} (hc : c ∈ ['*', '+', '(', '\x7b']) :
      (Text.trimStart (s.offer ending)).head? ≠ some c := fun heq =>
    h.head?_trimStart_offer ending c heq hc
  have hconditions (label : Option (List Char)) : readGuards label
      (Text.trimStart (s.conditions.flatMap (enclose '\x7b' '\x7d') ++ s.offer ending)) =
        .ok (label, s.conditions.map fun part => String.ofList (Text.trim part.1),
          Text.trimStart (s.offer ending)) :=
    readGuards_flatMap (fun _ => hhead (by decide)) (hhead (by decide)) s.conditions h.conditions
  have hlabelled := h.label
  unfold guards
  cases hlabel : s.label with
  | none => exact hconditions none
  | some part =>
    rw [hlabel] at hlabelled
    rw [Option.toList_some, List.flatMap_singleton, List.append_assoc,
      trimStart_enclose (by decide), readGuards_label (hlabelled part rfl)]
    exact hconditions _

end WellFormed

/-! ## What is offered -/

/-- A text up to its first arrow. -/
def upToArrow (cs : List Char) : List Char :=
  ((Text.cutAt? arrow cs).map (·.1)).getD cs

/-- A text without an arrow is read up to its end. -/
theorem upToArrow_eq_self {cs : List Char} (h : ¬ arrow <:+: cs) : upToArrow cs = cs := by
  rw [upToArrow, Text.cutAt?_eq_none h, Option.map_none, Option.getD_none]

/-- Blanks in front of a text may be trimmed before it is cut. -/
theorem trim_upToArrow (front back : List Char) :
    Text.trim (upToArrow (Text.trimStart front ++ back)) =
      Text.trim (upToArrow (front ++ back)) := by
  obtain ⟨gap, hgap, heq⟩ := Text.exists_trimStart front
  have hhyphen : '-' ∉ gap := fun hmem => absurd (hgap _ hmem) (by decide)
  conv_rhs => rw [heq, List.append_assoc]
  unfold upToArrow arrow
  rw [Text.cutAt?_append_of_not_mem hhyphen]
  cases Text.cutAt? ['-', '>'] (Text.trimStart front ++ back) with
  | none => exact (Text.trim_blank_append hgap _).symm
  | some cut => exact (Text.trim_blank_append hgap _).symm

/-- What the player sees of the choice: the text without brackets, up to the first arrow. -/
def shown (s : Spelling) : List Char :=
  Text.trim (upToArrow (s.before ++ s.aside))

/-- The player sees all of the text unless the brackets part an arrow. -/
theorem shown_eq (h : ¬ arrow <:+: s.before ++ s.aside) :
    s.shown = Text.trim (s.before ++ s.aside) := by
  rw [shown, upToArrow_eq_self h]

namespace WellFormed

variable (h : s.WellFormed)

include h

/-- No bracket and no brace is in the text in front of the brackets. -/
theorem unbracketed_trimStart :
    ∀ c ∈ Text.trimStart s.before, c ∉ ['[', ']', '\x7b', '\x7d'] :=
  fun c hc => h.plain_before.unbracketed c ((List.dropWhile_suffix _).subset hc)

/-- The player sees what is written in front of the brackets and in them. -/
theorem displayOf_offer (ending : List Char) :
    displayOf (Text.trimStart (s.offer ending)) = s.shown := by
  have hstart := h.unbracketed_trimStart
  have haside := h.plain_aside.unbracketed
  have hclosing : ']' ∉ Text.trimStart s.before ++ '[' :: s.aside := by
    intro hmem
    rcases List.mem_append.1 hmem with hmem | hmem
    · exact hstart _ hmem (by decide)
    · rcases List.mem_cons.1 hmem with heq | hmem
      · exact absurd heq (by decide)
      · exact haside _ hmem (by decide)
  have hopening : (Text.trimStart s.before ++ '[' :: s.aside).filter (· != '[') =
      Text.trimStart s.before ++ s.aside := by
    have hfilter {cs : List Char} (hcs : ∀ c ∈ cs, c ∉ ['[', ']', '\x7b', '\x7d']) :
        cs.filter (· != '[') = cs :=
      List.filter_eq_self.2 fun c hc => bne_iff_ne.2 fun heq => hcs c hc (by simp [heq])
    rw [List.filter_append, List.filter_cons_of_neg (by decide), hfilter haside, hfilter hstart]
  have hcut := Text.cut?_append hclosing ending
  rw [List.append_assoc, List.cons_append] at hcut
  unfold displayOf
  rw [offer, Text.trimStart_append_cons (by decide), hcut]
  dsimp only
  rw [hopening]
  exact trim_upToArrow s.before s.aside

end WellFormed

/-! ## What is played -/

/-- On one line the brackets and what they enclose are cut out. -/
theorem cutBrackets?_append {front inside back : List Char} (hfront : '[' ∉ front)
    (hback : ']' ∉ back) (hline : '\n' ∉ inside ++ ']' :: back) :
    cutBrackets? (front ++ '[' :: (inside ++ ']' :: back)) = some (front, back) := by
  induction front with
  | nil =>
    have htake : (inside ++ ']' :: back).takeWhile (· != '\n') = inside ++ ']' :: back :=
      List.takeWhile_eq_self_iff.2 fun c hc => bne_iff_ne.2 fun heq => hline (heq ▸ hc)
    have hdrop : (inside ++ ']' :: back).dropWhile (· != '\n') = [] :=
      List.dropWhile_eq_nil_iff.2 fun c hc => bne_iff_ne.2 fun heq => hline (heq ▸ hc)
    rw [List.nil_append, cutBrackets?, if_pos rfl, htake, Text.lastCut?_append hback, hdrop]
    dsimp only
    rw [List.append_nil]
  | cons c front ih =>
    obtain ⟨hc, hfront⟩ := not_or.1 (mt List.mem_cons.2 hfront)
    rw [List.cons_append, cutBrackets?, if_neg (Ne.symm hc)]
    dsimp only
    rw [ih hfront]
    rfl

/-- What is played of the choice: the text without the brackets and what they enclose, and the
divert. -/
def body (s : Spelling) : List Char :=
  Text.trim (s.before ++ (s.after ++ s.divert))

/-- A space is a blank. -/
theorem blank_space : ∀ c ∈ [' '], Text.isBlank c = true :=
  List.forall_mem_singleton.2 Text.isBlank_space

/-- In front of an arrow blanks at the end stay. -/
theorem body_of_target {target : List Char} (h : s.target = some target) :
    s.body = Text.trimStart (s.before ++ s.after ++ [' ']) ++
      '-' :: '>' :: Text.trimEnd (' ' :: target) := by
  have hparts : s.before ++ (s.after ++ s.divert) =
      (s.before ++ s.after ++ [' ']) ++ '-' :: '>' :: ' ' :: target := by
    simp [divert, h]
  rw [body, hparts, Text.trim, Text.trimStart_append_cons (by decide), List.append_cons,
    Text.trimEnd_append_cons (by decide), ← List.append_cons]

/-- Without a divert the body is what stands around the brackets. -/
theorem body_of_no_target (h : s.target = none) : s.body = Text.trim (s.before ++ s.after) := by
  rw [body, divert, h, Option.map_none, Option.getD_none, List.append_nil]

namespace WellFormed

variable (h : s.WellFormed)

include h

/-- What is played does not begin with a character that is dropped. -/
theorem dropWhile_body : s.body.dropWhile isLeadingMark = s.body := by
  have hplayed (c : Char) (hc : c ∈ (Text.trim (s.before ++ s.after)).head?) :
      isLeadingMark c = false := by
    have hmarks := h.playHead c hc
    have hblank : c ≠ ' ' := by
      rintro rfl
      rw [Text.head?_trim] at hc
      exact absurd (Text.isBlank_of_mem_head?_trimStart hc) (by decide)
    simp only [List.mem_cons, not_or] at hmarks
    simp [isLeadingMark, hmarks, hblank]
  have hhead : ∀ c ∈ s.body.head?, isLeadingMark c = false := by
    cases htarget : s.target with
    | none =>
      rw [body_of_no_target htarget]
      exact hplayed
    | some target =>
      rw [body_of_target htarget]
      cases hstart : Text.trimStart (s.before ++ s.after ++ [' ']) with
      | nil =>
        rintro c ⟨⟩
        decide
      | cons b rest =>
        rintro c ⟨⟩
        refine hplayed b ?_
        rw [← Text.trim_append_of_blank blank_space, Text.head?_trim, hstart]
        rfl
  cases hbody : s.body with
  | nil => rfl
  | cons c rest =>
    rw [hbody] at hhead
    exact List.dropWhile_cons_of_neg (by rw [hhead c rfl]; decide)

/-- What follows the brackets has no brackets or braces of its own. -/
theorem not_mem_ending {c : Char} (hc : c ∈ ['[', ']', '\x7b', '\x7d']) : c ∉ s.ending := by
  intro hmem
  rcases List.mem_append.1 ((Text.trimEnd_prefix _).subset hmem) with hafter | hdivert
  · exact h.plain_after.unbracketed c hafter hc
  · unfold divert at hdivert
    cases htarget : s.target with
    | none =>
      rw [htarget] at hdivert
      cases hdivert
    | some target =>
      have hdivert : c ∈ [' ', '-', '>', ' '] ++ target := by rwa [htarget] at hdivert
      have harrow : ∀ c ∈ [' ', '-', '>', ' '], c ∉ ['[', ']', '\x7b', '\x7d'] := by simp
      rcases List.mem_append.1 hdivert with hmem | hmem
      · exact harrow c hmem hc
      · exact (h.plain_target htarget).unbracketed c hmem hc

/-- The body of the choice is what is written around the brackets, with the divert. -/
theorem bodyOf_offer : bodyOf (Text.trimStart (s.offer s.ending)) = s.body := by
  have hopening : '[' ∉ Text.trimStart s.before := fun hmem =>
    h.unbracketed_trimStart _ hmem (by decide)
  have hline : '\n' ∉ s.aside ++ ']' :: s.ending := by
    intro hmem
    have hsublist : (s.aside ++ ']' :: s.ending).Sublist s.text := by
      refine .trans ?_ (List.sublist_append_right _ _)
      refine .trans ?_ (List.sublist_append_right _ _)
      refine .trans ?_ (List.sublist_append_right _ _)
      refine .trans (.cons _ ?_) (List.sublist_append_right _ _)
      exact (List.Sublist.refl _).append ((Text.trimEnd_prefix _).sublist.cons_cons _)
    exact h.oneLine (hsublist.subset hmem)
  have hcut := cutBrackets?_append hopening (h.not_mem_ending (by decide)) hline
  unfold bodyOf withoutBrackets
  rw [offer, Text.trimStart_append_cons (by decide), hcut]
  dsimp only
  rw [ending, Text.trim_append_trimEnd, Text.trim_trimStart_append]
  exact h.dropWhile_body

end WellFormed

/-! ## The nodes of what is played -/

/-- A text without arrows is one piece. -/
theorem splitArrows_eq_singleton {cs : List Char} (h : ¬ arrow <:+: cs) :
    Text.splitArrows cs = [cs] := by
  fun_induction Text.splitArrows cs with
  | case1 => rfl
  | case2 rest => exact absurd (List.prefix_append arrow rest).isInfix h
  | case3 c rest _ hnil ih =>
    rw [ih fun hinfix => h (List.infix_cons hinfix)] at hnil
    cases hnil
  | case4 c rest _ piece pieces hcons ih =>
    rw [ih fun hinfix => h (List.infix_cons hinfix)] at hcons
    cases hcons
    rfl

/-- The first arrow ends the first piece. -/
theorem splitArrows_append {front : List Char} (h : ¬ arrow <:+: front) (back : List Char) :
    Text.splitArrows (front ++ '-' :: '>' :: back) = front :: Text.splitArrows back := by
  induction front with
  | nil => rfl
  | cons c front ih =>
    have hplain (rest : List Char) (hc : c = '-') : front ++ '-' :: '>' :: back ≠ '>' :: rest := by
      intro heq
      cases front with
      | nil => cases heq
      | cons d front =>
        cases heq
        exact h (hc ▸ (List.prefix_append arrow front).isInfix)
    rw [List.cons_append, Text.splitArrows, ih fun hinfix => h (List.infix_cons hinfix)]
    exact hplain

/-- The texts of the nodes that are to be played: the text that is left without the brackets, which
is glued to a divert behind it, and the divert. -/
def parts (s : Spelling) : List (List Char) :=
  let text := s.before ++ s.after
  match s.target with
  | none => if (Text.trim text).isEmpty then [] else [Text.trim text]
  | some target =>
    (if (Text.trim text).isEmpty then []
      else [Text.trimStart (text ++ [' ']) ++ ['<', '>']]) ++
    if (Text.trim target).isEmpty then [] else [['-', '>', ' '] ++ Text.trim target]

/-- The texts of the nodes that are played. -/
def played (s : Spelling) : List (List Char) :=
  if s.body.isEmpty then [] else textParts s.body

/-- What is played is what is written, unless the brackets part an arrow. -/
theorem WellFormed.played_eq (h : s.WellFormed) (harrow : ¬ arrow <:+: s.before ++ s.after) :
    s.played = s.parts := by
  unfold played parts
  cases htarget : s.target with
  | none =>
    have hbody : ¬ arrow <:+: Text.trim (s.before ++ s.after) := fun hin =>
      harrow (hin.trans (Text.trim_infix _))
    rw [body_of_no_target htarget, textParts, splitArrows_eq_singleton hbody]
  | some target =>
    have hfront : ¬ arrow <:+: Text.trimStart (s.before ++ s.after ++ [' ']) := by
      intro hinfix
      have hspaced := hinfix.trans (List.dropWhile_suffix _).isInfix
      rcases Text.infix_of_infix_append_cons (by decide) hspaced with hin | hin
      · exact harrow hin
      · exact absurd hin (by decide)
    have hback : ¬ arrow <:+: Text.trimEnd (' ' :: target) := by
      intro hin
      have hspaced : arrow <:+: [' '] ++ target := hin.trans (Text.trimEnd_prefix _).isInfix
      exact (h.plain_target htarget).arrow
        (Text.infix_of_infix_append_of_not_mem (by decide) hspaced)
    have hempty : (Text.trim (Text.trimStart (s.before ++ s.after ++ [' ']))).isEmpty =
        (Text.trim (s.before ++ s.after)).isEmpty := by
      have htrim := Text.trim_trimStart_append (s.before ++ s.after ++ [' ']) []
      rw [List.append_nil, List.append_nil, Text.trim_append_of_blank blank_space] at htrim
      rw [htrim]
    have htrim : Text.trim (Text.trimEnd (' ' :: target)) = Text.trim target := by
      have htrim := Text.trim_append_trimEnd [] (' ' :: target)
      rwa [List.nil_append, List.nil_append, Text.trim_cons_of_isBlank (by decide)] at htrim
    have hne : s.body.isEmpty = false := by
      rw [body_of_target htarget]
      exact List.isEmpty_eq_false_iff.2 (List.append_ne_nil_of_right_ne_nil _ nofun)
    rw [hne, if_neg Bool.false_ne_true, body_of_target htarget, textParts,
      splitArrows_append hfront, splitArrows_eq_singleton hback]
    dsimp only
    rw [hempty, List.map_singleton, htrim, List.filter_cons]
    cases (Text.trim target).isEmpty <;> rfl

/-! ## The line in a source -/

/-- What is read of the line behind its markers. -/
def spelled (s : Spelling) : ChoiceLine where
  label := s.label.map fun part => Text.trim part.1
  conditions := s.conditions.map fun part => String.ofList (Text.trim part.1)
  display := s.shown
  body := s.body

/-- A line that closes a block ends in a brace. -/
theorem getLast?_of_closesBlock {depth : Nat} {cs : List Char} (h : closesBlock depth cs = true) :
    cs.getLast? = some '\x7d' := by
  fun_induction closesBlock depth cs with
  | case1 => cases h
  | case2 depth rest ih =>
    rw [List.getLast?_cons, ih h]
    rfl
  | case3 rest =>
    rw [List.isEmpty_iff.1 h]
    rfl
  | case4 rest _ depth ih =>
    rw [List.getLast?_cons, ih h]
    rfl
  | case5 depth c rest _ _ ih =>
    rw [List.getLast?_cons, ih h]
    rfl

namespace WellFormed

variable (h : s.WellFormed)

include h

/-- The reader finds the parts that were written. -/
theorem read_line : read (Text.trimStart (s.guards ++ s.offer s.ending)) = .ok s.spelled := by
  rw [read, h.readGuards_line, Except.map]
  dsimp only
  rw [h.displayOf_offer, h.bodyOf_offer]
  rfl

/-- A choice line closes no block. -/
theorem closesBlock_line (depth : Nat) : closesBlock depth (s.line s.ending) = false := by
  rw [Bool.eq_false_iff]
  intro hcloses
  have hlast := getLast?_of_closesBlock hcloses
  rw [line_eq, List.getLast?_append_cons] at hlast
  rcases List.mem_cons.1 (List.mem_of_getLast? hlast) with heq | hmem
  · exact absurd heq (by decide)
  · exact h.not_mem_ending (by decide) hmem

/-- A line that is spelled as a choice is read as one, also inside a block. -/
theorem readLine_text (d : Draft) : Draft.readLine s.text d =
    Draft.readChoice s.marker (s.line s.ending) d := by
  have hcloses := h.closesBlock_line 0
  obtain ⟨rest, hline⟩ := h.exists_line s.ending
  have hmarker : s.marker = '*' ∨ s.marker = '+' := by simpa using s.marker_mem
  have hincluded : included? (s.line s.ending) = none := by
    rw [hline]
    rcases hmarker with heq | heq <;> rw [heq] <;> rfl
  have hbegins (mode : BlockMode) : Draft.beginsOption mode (s.line s.ending) = false := by
    rw [hline]
    rcases hmarker with heq | heq <;> rw [heq] <;> rfl
  have hplain :
      Draft.readPlain (s.line s.ending) = Draft.readChoice s.marker (s.line s.ending) := by
    rw [hline]
    rcases hmarker with heq | heq <;> rw [heq] <;> rfl
  have hcode : Draft.readCode (s.line s.ending) d = Draft.readPlain (s.line s.ending) d := by
    rw [hline] at hcloses hbegins ⊢
    rw [Draft.readCode, Trial.get_bind_apply]
    cases hblocks : d.blocks with
    | nil => rfl
    | cons block blocks =>
      dsimp only
      rw [hcloses, hbegins, if_neg Bool.false_ne_true, if_neg Bool.false_ne_true]
  rw [← hplain, ← hcode, Draft.readLine, h.splitComment_text]
  dsimp only
  rw [hincluded]
  exact congrFun (bind_pure_unit (x := Draft.readCode (s.line s.ending))) d

end WellFormed

end Spelling

end Narrative.ChoiceLine
