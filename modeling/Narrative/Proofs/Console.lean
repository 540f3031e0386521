import Mathlib.Data.List.Chain
import Narrative.Console
import Narrative.Proofs.Text.Words

/-!
# Wrapping is greedy and loses no word

A wrapped text has the words of the text in their order. The words of a line are joined by single
spaces, a line has room for them unless it is one long word, and it ends only where the next word
would not have fitted on it.
-/

namespace Narrative

/-- Whether a line ends rightly before the next one: the first word of that one does not fit on
it. -/
def Full (width : Nat) (line next : List Char) : Prop :=
  ∃ word rest, Text.words next = word :: rest ∧ width < line.length + 1 + word.length

/-- Whether lines are words that were put greedily on lines of a width. -/
structure Filled (width : Nat) (ws lines : List (List Char)) : Prop where
  /-- There is a line. -/
  ne_nil : lines ≠ []
  /-- The lines have the words, in their order. -/
  words : lines.flatMap Text.words = ws
  /-- The words of a line are joined by single spaces. -/
  spaced : ∀ line ∈ lines, line = Text.unwords (Text.words line)
  /-- A line has room for its words, unless it is one word. -/
  fits : ∀ line ∈ lines, line.length ≤ width ∨ Text.words line = [line]
  /-- A line ends only where the next word does not fit. -/
  full : lines.IsChain (Full width)
  /-- A line is empty only when there are no words. -/
  solid : [] ∈ lines → ws = []

namespace Filled

variable {width : Nat} {ws lines : List (List Char)}

/-- Words that fit on a line are one line. -/
theorem singleton (hwords : ∀ w ∈ ws, Text.IsWord w)
    (hfits : (Text.unwords ws).length ≤ width ∨ ∃ w, ws = [w]) :
    Filled width ws [Text.unwords ws] where
  ne_nil := List.cons_ne_nil _ _
  words := by rw [List.flatMap_singleton, Text.words_unwords hwords]
  spaced := by
    intro line hline
    rw [List.mem_singleton.1 hline, Text.words_unwords hwords]
  fits := by
    intro line hline
    rw [List.mem_singleton.1 hline, Text.words_unwords hwords]
    refine hfits.imp_right ?_
    rintro ⟨w, rfl⟩
    rw [Text.unwords_singleton]
  full := List.isChain_singleton _
  solid := by
    intro hempty
    rw [← Text.words_unwords hwords, ← List.mem_singleton.1 hempty]
    rfl

/-- The first line begins with the first word. -/
theorem exists_first {word : List Char} {rest : List (List Char)}
    (h : Filled width (word :: rest) lines) :
    ∃ first more following, lines = first :: following ∧ Text.words first = word :: more := by
  obtain ⟨first, following, rfl⟩ := List.exists_cons_of_ne_nil h.ne_nil
  have hwords := h.words
  rw [List.flatMap_cons] at hwords
  cases hfirst : Text.words first with
  | nil =>
    have hempty : first = [] := by
      rw [h.spaced first List.mem_cons_self, hfirst]
      rfl
    exact absurd (h.solid (hempty ▸ List.mem_cons_self)) (List.cons_ne_nil _ _)
  | cons w more =>
    rw [hfirst] at hwords
    rw [(List.cons.inj hwords).1] at hfirst
    exact ⟨first, more, following, rfl, hfirst⟩

/-- A line is followed by those of the words behind it when the first of them does not fit. -/
theorem cons {word : List Char} {rest : List (List Char)} (h : Filled width (word :: rest) lines)
    (hwords : ∀ w ∈ ws, Text.IsWord w) (hne : ws ≠ [])
    (hfits : (Text.unwords ws).length ≤ width ∨ ∃ w, ws = [w])
    (hfull : width < (Text.unwords ws).length + 1 + word.length) :
    Filled width (ws ++ word :: rest) (Text.unwords ws :: lines) := by
  have hone := Filled.singleton hwords hfits
  exact {
    ne_nil := List.cons_ne_nil _ _
    words := by rw [List.flatMap_cons, Text.words_unwords hwords, h.words]
    spaced := List.forall_mem_cons.2 ⟨hone.spaced _ List.mem_cons_self, h.spaced⟩
    fits := List.forall_mem_cons.2 ⟨hone.fits _ List.mem_cons_self, h.fits⟩
    full := by
      obtain ⟨first, more, following, rfl, hfirst⟩ := h.exists_first
      exact List.isChain_cons_cons.2 ⟨⟨word, more, hfirst, hfull⟩, h.full⟩
    solid := by
      intro hempty
      rcases List.mem_cons.1 hempty with hempty | hempty
      · exact absurd (hone.solid (hempty ▸ List.mem_cons_self)) hne
      · exact absurd (h.solid hempty) (List.cons_ne_nil _ _) }

end Filled

/-- The line that is being filled holds `ws`; it has room for them, or they are one word. -/
theorem filled_fillLines {width : Nat} {ws rest : List (List Char)} (hne : ws ≠ [])
    (hwords : ∀ w ∈ ws ++ rest, Text.IsWord w)
    (hfits : (Text.unwords ws).length ≤ width ∨ ∃ w, ws = [w]) :
    Filled width (ws ++ rest) (fillLines width (Text.unwords ws) rest) := by
  -- the words of `ws` are on the line so far, and `rest` is still to be put on lines
  induction rest generalizing ws with
  | nil =>
    rw [List.append_nil] at hwords ⊢
    exact .singleton hwords hfits
  | cons word rest ih =>
    have hbefore : ∀ w ∈ ws, Text.IsWord w := fun w hw => hwords w (List.mem_append_left _ hw)
    rw [fillLines]
    split
    · next hroom =>
      have hshift : ws ++ word :: rest = (ws ++ [word]) ++ rest := List.append_cons ws word rest
      rw [← Text.unwords_concat hne, hshift]
      refine ih (List.append_ne_nil_of_right_ne_nil _ (List.cons_ne_nil _ _)) (hshift ▸ hwords) ?_
      left
      rw [Text.unwords_concat hne, List.length_append, List.length_cons]
      omega
    · next hroom =>
      have hrest : Filled width ([word] ++ rest) (fillLines width (Text.unwords [word]) rest) :=
        ih (List.cons_ne_nil _ _) (fun w hw => hwords w (List.mem_append_right _ hw))
          (.inr ⟨word, rfl⟩)
      rw [Text.unwords_singleton] at hrest
      exact hrest.cons hbefore hne hfits (Nat.lt_of_not_le hroom)

/-- A text is wrapped greedily, and no word is lost. -/
theorem filled_wrap {width : Nat} (h : 0 < width) (text : List Char) :
    Filled width (Text.words text) (wrap width text) := by
  have hwords : ∀ w ∈ Text.words text, Text.IsWord w := fun _ hw => (Text.isWord_of_mem_words hw).1
  rw [wrap, if_neg (Nat.ne_of_gt h)]
  cases hsplit : Text.words text with
  | nil =>
    have hempty : Filled width [] [Text.unwords []] :=
      .singleton (fun _ hw => absurd hw List.not_mem_nil) (.inl (Nat.zero_le _))
    exact hempty
  | cons word rest =>
    rw [hsplit] at hwords
    have hfilled : Filled width ([word] ++ rest) (fillLines width (Text.unwords [word]) rest) :=
      filled_fillLines (List.cons_ne_nil _ _) hwords (.inr ⟨word, rfl⟩)
    rwa [Text.unwords_singleton] at hfilled

/-- A full line, and a word that is longer than a line. -/
theorem filled_wrap_lighthouse :
    Filled 9 (Text.words " the  quick\tlighthouses by".toList)
      ["the quick".toList, "lighthouses".toList, "by".toList] := by
  have hwrap : wrap 9 " the  quick\tlighthouses by".toList =
      ["the quick".toList, "lighthouses".toList, "by".toList] := by decide
  rw [← hwrap]
  exact filled_wrap (by decide) _

end Narrative
