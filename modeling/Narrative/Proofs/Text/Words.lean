import Mathlib.Data.List.Infix
import Narrative.Story.Play

/-!
# Words of a text

A text is cleaned up by reading glue as a space and joining its words by single spaces. The words of
two texts in a row are those of the first and then those of the second when a blank or glue stands
between them, and what was cleaned up is tidy.
-/

namespace Narrative.Text

/-! ## Pieces -/

section Pieces

variable {p : Char → Bool}

/-- A text has at least one part. -/
theorem splitWhere_ne_nil (p : Char → Bool) (cs : List Char) : splitWhere p cs ≠ [] := by
  cases cs with
  | nil => exact List.cons_ne_nil _ _
  | cons c cs =>
    rw [splitWhere]
    split
    · exact List.cons_ne_nil _ _
    · split <;> exact List.cons_ne_nil _ _

/-- A separator begins a new part, and any other character belongs to the first one. -/
theorem splitWhere_cons (c : Char) (cs : List Char) :
    splitWhere p (c :: cs) =
      if p c then [] :: splitWhere p cs else (splitWhere p cs).modifyHead (c :: ·) := by
  rw [splitWhere]
  cases hsplit : splitWhere p cs with
  | nil => exact absurd hsplit (splitWhere_ne_nil p cs)
  | cons piece pieces => rfl

/-- Splitting at a character is the same as in the library. -/
theorem splitOn_eq (separator : Char) (cs : List Char) :
    splitOn separator cs = cs.splitOn separator := by
  rw [splitOn, List.splitOn]
  induction cs with
  | nil => rfl
  | cons c cs ih => rw [splitWhere_cons, List.splitOnP_cons_eq_if_modifyHead, ih]

/-- A separator parts the pieces before it from those behind it. -/
theorem splitWhere_append_cons {c : Char} (hc : p c = true) (before after : List Char) :
    splitWhere p (before ++ c :: after) = splitWhere p before ++ splitWhere p after := by
  induction before with
  | nil =>
    rw [List.nil_append, splitWhere_cons, if_pos hc]
    rfl
  | cons b before ih =>
    rw [List.cons_append, splitWhere_cons, splitWhere_cons, ih]
    split
    · rfl
    · cases hsplit : splitWhere p before with
      | nil => exact absurd hsplit (splitWhere_ne_nil p before)
      | cons piece pieces => rfl

/-- A text without a separator is one piece. -/
theorem splitWhere_eq_singleton {cs : List Char} (h : ∀ c ∈ cs, p c = false) :
    splitWhere p cs = [cs] := by
  induction cs with
  | nil => rfl
  | cons c cs ih =>
    have hc : ¬ p c = true := by
      rw [h c List.mem_cons_self]
      exact Bool.false_ne_true
    rw [splitWhere_cons, if_neg hc, ih fun d hd => h d (List.mem_cons_of_mem _ hd)]
    rfl

/-- A piece has no separator, and it is a part of the text. The first one begins the text. -/
theorem splitWhere_parts (cs : List Char) :
    (∀ piece ∈ splitWhere p cs, (∀ c ∈ piece, p c = false) ∧ piece <:+: cs) ∧
      ∀ piece ∈ (splitWhere p cs).head?, piece <+: cs := by
  induction cs with
  | nil =>
    constructor
    · intro piece hpiece
      rw [List.mem_singleton.1 hpiece]
      exact ⟨fun c hc => (by cases hc), List.infix_refl _⟩
    · rintro _ ⟨⟩
      exact List.prefix_refl _
  | cons c cs ih =>
    obtain ⟨hparts, hfirst⟩ := ih
    rw [splitWhere_cons]
    split
    · constructor
      · intro piece hpiece
        rcases List.mem_cons.1 hpiece with rfl | hpiece
        · exact ⟨fun c hc => (by cases hc), List.nil_infix⟩
        · exact ⟨(hparts piece hpiece).1, List.infix_cons (hparts piece hpiece).2⟩
      · rintro _ ⟨⟩
        exact List.nil_prefix
    · next hc =>
      cases hsplit : splitWhere p cs with
      | nil => exact absurd hsplit (splitWhere_ne_nil p cs)
      | cons first rest =>
        rw [hsplit] at hparts hfirst
        have hbegins : c :: first <+: c :: cs :=
          List.cons_prefix_cons.2 ⟨rfl, hfirst first rfl⟩
        constructor
        · intro piece hpiece
          rcases List.mem_cons.1 hpiece with rfl | hpiece
          · refine ⟨fun d hd => ?_, hbegins.isInfix⟩
            rcases List.mem_cons.1 hd with rfl | hd
            · exact Bool.eq_false_iff.2 hc
            · exact (hparts first List.mem_cons_self).1 d hd
          · have hrest := hparts piece (List.mem_cons_of_mem _ hpiece)
            exact ⟨hrest.1, List.infix_cons hrest.2⟩
        · rintro _ ⟨⟩
          exact hbegins

end Pieces

/-! ## Words -/

/-- Whether a list of characters is a word: it has characters, and none of them is blank. -/
structure IsWord (cs : List Char) : Prop where
  /-- It has characters. -/
  ne_nil : cs ≠ []
  /-- None of them is blank. -/
  solid {c : Char} : c ∈ cs → isBlank c = false

/-- A blank parts the words before it from those behind it. -/
theorem words_append_cons {c : Char} (hc : isBlank c = true) (before after : List Char) :
    words (before ++ c :: after) = words before ++ words after := by
  rw [words, splitWhere_append_cons hc, List.filter_append]
  rfl

/-- The words of a text are words, and parts of it. -/
theorem isWord_of_mem_words {cs w : List Char} (h : w ∈ words cs) : IsWord w ∧ w <:+: cs := by
  obtain ⟨hmem, hne⟩ := List.mem_filter.1 h
  obtain ⟨hsolid, hinfix⟩ := (splitWhere_parts cs).1 w hmem
  refine ⟨⟨?_, fun {c} hc => hsolid c hc⟩, hinfix⟩
  rintro rfl
  cases hne

/-- A word is the only word in it. -/
theorem words_eq_singleton {w : List Char} (h : IsWord w) : words w = [w] := by
  rw [words, splitWhere_eq_singleton fun c hc => h.solid hc]
  have hne : w.isEmpty = false := by simpa using h.ne_nil
  simp [hne]

/-- A space is a blank. -/
theorem isBlank_space : isBlank ' ' = true := by decide

/-- Two words are joined by a space. -/
theorem unwords_cons_cons (w w' : List Char) (ws : List (List Char)) :
    unwords (w :: w' :: ws) = w ++ ' ' :: unwords (w' :: ws) := by
  rw [unwords, List.intercalate_cons_cons, ← unwords, List.append_assoc]
  rfl

/-- One word stands alone. -/
theorem unwords_singleton (w : List Char) : unwords [w] = w :=
  List.intercalate_singleton

/-- A last word is joined by a space. -/
theorem unwords_concat {ws : List (List Char)} (h : ws ≠ []) (word : List Char) :
    unwords (ws ++ [word]) = unwords ws ++ ' ' :: word := by
  induction ws with
  | nil => exact absurd rfl h
  | cons w ws ih =>
    cases ws with
    | nil => rw [List.singleton_append, unwords_cons_cons, unwords_singleton, unwords_singleton]
    | cons w' ws =>
      rw [List.cons_append, List.cons_append, unwords_cons_cons, ← List.cons_append,
        ih (List.cons_ne_nil _ _), unwords_cons_cons, List.append_assoc, List.cons_append]

/-- What was joined from words has these words. -/
theorem words_unwords {ws : List (List Char)} (h : ∀ w ∈ ws, IsWord w) :
    words (unwords ws) = ws := by
  induction ws with
  | nil => rfl
  | cons w ws ih =>
    have hw := words_eq_singleton (h w List.mem_cons_self)
    have hws := ih fun v hv => h v (List.mem_cons_of_mem _ hv)
    cases ws with
    | nil => rw [unwords_singleton, hw]
    | cons w' ws =>
      rw [unwords_cons_cons, words_append_cons isBlank_space, hw, hws]
      rfl

/-- The words of a text do not run into those of the next one where one of them has a blank at the
border. -/
theorem words_append {before after : List Char}
    (h : before = [] ∨ after = [] ∨ (∃ c, before.getLast? = some c ∧ isBlank c = true) ∨
      ∃ c, after.head? = some c ∧ isBlank c = true) :
    words (before ++ after) = words before ++ words after := by
  obtain rfl | rfl | ⟨c, hlast, hc⟩ | ⟨c, hfirst, hc⟩ := h
  · rfl
  · rw [List.append_nil]
    exact (List.append_nil _).symm
  · obtain ⟨front, rfl⟩ := List.getLast?_eq_some_iff.1 hlast
    have hfront : words (front ++ [c]) = words front := by
      rw [words_append_cons hc]
      exact List.append_nil _
    rw [hfront, List.append_assoc, List.singleton_append, words_append_cons hc]
  · obtain ⟨rest, rfl⟩ := List.head?_eq_some_iff.1 hfirst
    have hrest : words (c :: rest) = words rest := words_append_cons hc [] rest
    rw [words_append_cons hc, hrest]

/-! ## Glue -/

/-- A text that begins with an angle behind its glue begins with one. -/
theorem head?_of_unglued {cs : List Char} (h : (unglued cs).head? = some '>') :
    cs.head? = some '>' := by
  fun_cases unglued cs with
  | case1 => exact h
  | case2 rest =>
    rw [unglued] at h
    cases h
  | case3 c rest hplain =>
    rw [unglued] at h
    · exact h
    · exact hplain

/-- What was unglued has no glue. -/
theorem glueless_unglued (cs : List Char) : ¬ glue <:+: unglued cs := by
  fun_induction unglued cs with
  | case1 => exact fun h => absurd (List.infix_nil.1 h) (List.cons_ne_nil _ _)
  | case2 rest ih =>
    intro h
    rcases List.infix_cons_iff.1 h with hprefix | hinfix
    · exact absurd (List.cons_prefix_cons.1 hprefix).1 (by decide)
    · exact ih hinfix
  | case3 c rest hplain ih =>
    intro h
    rcases List.infix_cons_iff.1 h with hprefix | hinfix
    · obtain ⟨rfl, hnext⟩ := List.cons_prefix_cons.1 hprefix
      obtain ⟨rest', hrest⟩ : ∃ rest', unglued rest = '>' :: rest' := by
        obtain ⟨rest', hrest⟩ := hnext
        exact ⟨rest', hrest.symm⟩
      have hhead : rest.head? = some '>' := head?_of_unglued (by rw [hrest]; rfl)
      obtain ⟨after, rfl⟩ := List.head?_eq_some_iff.1 hhead
      exact hplain after rfl rfl
    · exact ih hinfix

/-- Two texts in a row are unglued one by one, unless glue lies across their border. -/
theorem unglued_append {before after : List Char}
    (h : before.getLast? ≠ some '<' ∨ after.head? ≠ some '>') :
    unglued (before ++ after) = unglued before ++ unglued after := by
  fun_induction unglued before with
  | case1 => rfl
  | case2 rest ih =>
    have hrest : rest.getLast? ≠ some '<' ∨ after.head? ≠ some '>' := by
      refine h.imp_left fun hlast hrest => hlast ?_
      rw [List.getLast?_cons, List.getLast?_cons, hrest]
      rfl
    rw [List.cons_append, List.cons_append, unglued, ih hrest, List.cons_append]
  | case3 c rest hplain ih =>
    have hrest : rest.getLast? ≠ some '<' ∨ after.head? ≠ some '>' := by
      refine h.imp_left fun hlast hrest => hlast ?_
      rw [List.getLast?_cons, hrest]
      rfl
    have hplain' (after' : List Char) (hc : c = '<') : rest ++ after ≠ '>' :: after' := by
      intro hnext
      rcases List.append_eq_cons_iff.1 hnext with ⟨rfl, rfl⟩ | ⟨rest', rfl, -⟩
      · rcases h with hlast | hfirst
        · rw [hc] at hlast
          exact hlast rfl
        · exact hfirst rfl
      · exact hplain rest' hc rfl
    rw [List.cons_append, unglued, ih hrest, List.cons_append]
    exact hplain'

/-- A text without an opening bracket has no glue to read as a space. -/
theorem unglued_eq_self {cs : List Char} (h : '<' ∉ cs) : unglued cs = cs := by
  fun_induction unglued cs with
  | case1 => rfl
  | case2 rest ih => exact absurd List.mem_cons_self h
  | case3 c rest hplain ih => rw [ih fun hmem => h (List.mem_cons_of_mem _ hmem)]

/-- Whether a text may follow another one without running into it: the one before is blank, or the
one after is empty, or there is glue at the border. -/
def Parted (before after : List Char) : Prop :=
  before.all isBlank = true ∨ after = [] ∨ glue <:+ before ∨ glue <+: after

/-- Texts that are parted keep their words. -/
theorem words_unglued_append {before after : List Char} (h : Parted before after) :
    words (unglued (before ++ after)) = words (unglued before) ++ words (unglued after) := by
  obtain hblank | rfl | ⟨front, rfl⟩ | ⟨rest, rfl⟩ := h
  · have hopen : '<' ∉ before := fun hmem =>
      absurd (List.all_eq_true.1 hblank '<' hmem) (by decide)
    rw [unglued_append (.inl fun hlast => hopen (List.mem_of_getLast? hlast)),
      unglued_eq_self hopen, words_append]
    cases hlast : before.getLast? with
    | none => exact .inl (List.getLast?_eq_none_iff.1 hlast)
    | some c =>
      exact .inr (.inr (.inl ⟨c, rfl, List.all_eq_true.1 hblank c (List.mem_of_getLast? hlast)⟩))
  · rw [List.append_nil]
    exact (List.append_nil _).symm
  · have hclosed : (front ++ glue).getLast? = some '>' :=
      List.getLast?_append_of_ne_nil _ (by decide)
    have hspace : unglued (front ++ glue) = unglued front ++ [' '] :=
      unglued_append (.inr (by decide))
    rw [unglued_append (.inl (by rw [hclosed]; decide)), words_append]
    exact .inr (.inr (.inl ⟨' ', by rw [hspace, List.getLast?_concat], isBlank_space⟩))
  · have hspace : unglued (glue ++ rest) = ' ' :: unglued rest := rfl
    rw [unglued_append (.inr fun hfirst => absurd hfirst (by simp [glue])), words_append]
    exact .inr (.inr (.inr ⟨' ', by rw [hspace]; rfl, isBlank_space⟩))

/-! ## Tidy texts -/

/-- Whether a text has no glue, no blank at its ends and no two spaces in a row. -/
structure Tidy (cs : List Char) : Prop where
  /-- It has no glue. -/
  glueless : ¬ glue <:+: cs
  /-- It does not begin with a blank. -/
  start {c : Char} : cs.head? = some c → isBlank c = false
  /-- It does not end with a blank. -/
  finish {c : Char} : cs.getLast? = some c → isBlank c = false
  /-- It has no two spaces in a row. -/
  spaced : ¬ [' ', ' '] <:+: cs

/-- What has no separator and begins two texts around one begins the first of them. -/
theorem prefix_of_prefix_append_cons {c : Char} {part before after : List Char} (hc : c ∉ part)
    (h : part <+: before ++ c :: after) : part <+: before := by
  induction before generalizing part with
  | nil =>
    rcases List.prefix_cons_iff.1 h with rfl | ⟨rest, rfl, -⟩
    · exact List.nil_prefix
    · exact absurd List.mem_cons_self hc
  | cons b before ih =>
    rcases List.prefix_cons_iff.1 h with rfl | ⟨rest, rfl, hrest⟩
    · exact List.nil_prefix
    · exact List.cons_prefix_cons.2 ⟨rfl, ih (fun hmem => hc (List.mem_cons_of_mem _ hmem)) hrest⟩

/-- What has no separator and is part of two texts around one is part of one of them. -/
theorem infix_of_infix_append_cons {c : Char} {part before after : List Char} (hc : c ∉ part)
    (h : part <:+: before ++ c :: after) : part <:+: before ∨ part <:+: after := by
  induction before with
  | nil =>
    rcases List.infix_cons_iff.1 h with hprefix | hinfix
    · have hbefore : part <+: [] := prefix_of_prefix_append_cons hc hprefix
      exact .inl hbefore.isInfix
    · exact .inr hinfix
  | cons b before ih =>
    rcases List.infix_cons_iff.1 h with hprefix | hinfix
    · have hbefore : part <+: b :: before := prefix_of_prefix_append_cons hc hprefix
      exact .inl hbefore.isInfix
    · exact (ih hinfix).imp_left List.infix_cons

/-- What begins with a character that the first of two texts lacks is part of the second when it is
part of both together. -/
theorem infix_of_infix_append_of_not_mem {c : Char} {part front back : List Char} (hc : c ∉ front)
    (h : c :: part <:+: front ++ back) : c :: part <:+: back := by
  induction front with
  | nil => exact h
  | cons b front ih =>
    rcases List.infix_cons_iff.1 h with hprefix | hinfix
    · exact absurd (List.mem_cons.2 (.inl (List.cons_prefix_cons.1 hprefix).1)) hc
    · exact ih (fun hmem => hc (List.mem_cons_of_mem _ hmem)) hinfix

/-- A word without glue is tidy. -/
theorem IsWord.tidy {w : List Char} (h : IsWord w) (hglue : ¬ glue <:+: w) : Tidy w where
  glueless := hglue
  start := fun hc => h.solid (List.mem_of_head? hc)
  finish := fun hc => h.solid (List.mem_of_getLast? hc)
  spaced := by
    intro hspaces
    have hspace := h.solid (hspaces.subset List.mem_cons_self)
    rw [isBlank_space] at hspace
    cases hspace

/-- A word without glue, a space and a tidy text are a tidy text. -/
theorem Tidy.append {w rest : List Char} (h : Tidy rest) (hne : rest ≠ []) (hw : IsWord w)
    (hglue : ¬ glue <:+: w) : Tidy (w ++ ' ' :: rest) where
  glueless := by
    intro hinfix
    rcases infix_of_infix_append_cons (by decide) hinfix with hbefore | hafter
    · exact hglue hbefore
    · exact h.glueless hafter
  start := by
    intro c hc
    rw [List.head?_append_of_ne_nil _ hw.ne_nil] at hc
    exact hw.solid (List.mem_of_head? hc)
  finish := by
    intro c hc
    rw [List.getLast?_append_cons, List.getLast?_cons_of_ne_nil hne] at hc
    exact h.finish hc
  spaced := by
    have hsolid {c : Char} (hc : c ∈ w) : isBlank c = false := hw.solid hc
    clear hw hglue
    induction w with
    | nil =>
      intro hspaces
      rcases List.infix_cons_iff.1 hspaces with hprefix | hinfix
      · -- a second space would begin the rest
        obtain ⟨tail, rfl⟩ := (List.cons_prefix_cons.1 hprefix).2
        have hblank := h.start rfl
        rw [isBlank_space] at hblank
        cases hblank
      · exact h.spaced hinfix
    | cons c w ih =>
      intro hspaces
      rcases List.infix_cons_iff.1 hspaces with hprefix | hinfix
      · have hblank := hsolid List.mem_cons_self
        rw [← (List.cons_prefix_cons.1 hprefix).1, isBlank_space] at hblank
        cases hblank
      · exact ih (fun hc => hsolid (List.mem_cons_of_mem _ hc)) hinfix

/-- What is joined from words without glue is tidy. -/
theorem tidy_unwords {ws : List (List Char)} (h : ∀ w ∈ ws, IsWord w ∧ ¬ glue <:+: w) :
    Tidy (unwords ws) := by
  induction ws with
  | nil => exact ⟨by decide, nofun, nofun, by decide⟩
  | cons w ws ih =>
    obtain ⟨hw, hglue⟩ := h w List.mem_cons_self
    have hws := ih fun v hv => h v (List.mem_cons_of_mem _ hv)
    cases ws with
    | nil =>
      rw [unwords_singleton]
      exact hw.tidy hglue
    | cons w' ws =>
      rw [unwords_cons_cons]
      refine hws.append (fun hnil => ?_) hw hglue
      -- the next word has a character
      have hwords := words_unwords fun v hv => (h v (List.mem_cons_of_mem _ hv)).1
      rw [hnil] at hwords
      cases hwords

/-- A text that was cleaned up is tidy. -/
theorem tidy_cleanUp (cs : List Char) : Tidy (cleanUp cs) :=
  tidy_unwords fun _ hw =>
    ⟨(isWord_of_mem_words hw).1, fun hglue =>
      glueless_unglued cs (hglue.trans (isWord_of_mem_words hw).2)⟩

/-- Cleaning a text up reads glue as a space and keeps all words. -/
theorem words_cleanUp (cs : List Char) : words (cleanUp cs) = words (unglued cs) :=
  words_unwords fun _ hw => (isWord_of_mem_words hw).1

end Narrative.Text
