import Mathlib.Data.List.Infix
import Mathlib.Data.List.TakeWhile
import Narrative.Text

/-!
# Cutting texts

What trimming and cutting do to texts of which it is known where their blanks and separators are.
-/

namespace Narrative.Text

/-- A text without blanks has none to trim. -/
theorem trim_eq_self {cs : List Char} (h : ∀ c ∈ cs, isBlank c = false) : trim cs = cs := by
  have hdrop (cs : List Char) (h : ∀ c ∈ cs, isBlank c = false) : cs.dropWhile isBlank = cs := by
    cases cs with
    | nil => rfl
    | cons c rest => rw [List.dropWhile_cons, h c List.mem_cons_self, if_neg Bool.false_ne_true]
  unfold trim trimStart trimEnd
  rw [hdrop cs h, hdrop cs.reverse fun c hc => h c (List.mem_reverse.1 hc), List.reverse_reverse]

/-- A text is cut around the first occurrence of the separator. -/
theorem cut?_append {separator : Char} {before : List Char} (h : separator ∉ before)
    (after : List Char) : cut? separator (before ++ separator :: after) = some (before, after) := by
  induction before with
  | nil => simp [cut?]
  | cons c before ih =>
    obtain ⟨hc, hbefore⟩ := not_or.1 (mt List.mem_cons.2 h)
    rw [List.cons_append, cut?, if_neg (Ne.symm hc), ih hbefore]
    rfl

/-- A text without the separator is not cut. -/
theorem cut?_eq_none {separator : Char} {cs : List Char} (h : separator ∉ cs) :
    cut? separator cs = none := by
  induction cs with
  | nil => rfl
  | cons c cs ih =>
    obtain ⟨hc, hcs⟩ := not_or.1 (mt List.mem_cons.2 h)
    rw [cut?, if_neg (Ne.symm hc), ih hcs]
    rfl

/-- A text without the separator is not cut at its end either. -/
theorem lastCut?_eq_none {separator : Char} {cs : List Char} (h : separator ∉ cs) :
    lastCut? separator cs = none := by
  induction cs with
  | nil => rfl
  | cons c cs ih =>
    obtain ⟨hc, hcs⟩ := not_or.1 (mt List.mem_cons.2 h)
    rw [lastCut?, ih hcs]
    exact if_neg (Ne.symm hc)

/-- The parts of a text around its last separator make the text. -/
theorem eq_of_lastCut? {separator : Char} {cs before after : List Char}
    (h : lastCut? separator cs = some (before, after)) : cs = before ++ separator :: after := by
  induction cs generalizing before with
  | nil => cases h
  | cons c cs ih =>
    rw [lastCut?] at h
    split at h
    · next before' after' hcut =>
      cases h
      rw [ih hcut]
      rfl
    · split at h
      · next heq =>
        cases h
        rw [heq]
        rfl
      · cases h

/-- A text is cut around the last occurrence of the separator. -/
theorem lastCut?_append {separator : Char} {after : List Char} (h : separator ∉ after)
    (before : List Char) :
    lastCut? separator (before ++ separator :: after) = some (before, after) := by
  induction before with
  | nil =>
    rw [List.nil_append, lastCut?, lastCut?_eq_none h]
    exact if_pos rfl
  | cons c before ih => rw [List.cons_append, lastCut?, ih]

/-! ## Trimming at the ends -/

/-- Where no blank stands in front, nothing is trimmed there. -/
theorem trimStart_cons {c : Char} (h : isBlank c = false) (cs : List Char) :
    trimStart (c :: cs) = c :: cs :=
  List.dropWhile_cons_of_neg (by rw [h]; exact nofun)

/-- A blank in front is trimmed. -/
theorem trim_cons_of_isBlank {c : Char} (h : isBlank c = true) (cs : List Char) :
    trim (c :: cs) = trim cs := by
  rw [trim, trim, trimStart, List.dropWhile_cons_of_pos h, trimStart]

/-- Blanks in front are trimmed. -/
theorem trimStart_append_of_blank {gap : List Char} (h : ∀ c ∈ gap, isBlank c = true)
    (cs : List Char) : trimStart (gap ++ cs) = trimStart cs :=
  List.dropWhile_append_of_pos h

/-- Blanks in front are trimmed up to the first character that is none. -/
theorem trimStart_append_cons {c : Char} (hc : isBlank c = false) (front back : List Char) :
    trimStart (front ++ c :: back) = trimStart front ++ c :: back := by
  unfold trimStart
  rw [List.dropWhile_append]
  split
  · next hempty =>
    rw [List.isEmpty_iff.1 hempty, List.nil_append, List.dropWhile_cons_of_neg (by simp [hc])]
  · rfl

/-- Blanks at the end are trimmed down to the last character that is none. -/
theorem trimEnd_append_cons {c : Char} (hc : isBlank c = false) (front back : List Char) :
    trimEnd (front ++ c :: back) = front ++ c :: trimEnd back := by
  have hmirror := trimStart_append_cons hc back.reverse front.reverse
  unfold trimStart at hmirror
  unfold trimEnd
  rw [List.reverse_append, List.reverse_cons, List.append_assoc, List.singleton_append, hmirror]
  simp

/-- A text has blanks in front of what is left of it. -/
theorem exists_trimStart (cs : List Char) :
    ∃ gap, (∀ c ∈ gap, isBlank c = true) ∧ cs = gap ++ trimStart cs :=
  ⟨cs.takeWhile isBlank, fun _ => List.mem_takeWhile_imp, List.takeWhile_append_dropWhile.symm⟩

/-- A text has blanks behind what is left of it. -/
theorem exists_trimEnd (cs : List Char) :
    ∃ gap, (∀ c ∈ gap, isBlank c = true) ∧ cs = trimEnd cs ++ gap := by
  obtain ⟨gap, hgap, heq⟩ := exists_trimStart cs.reverse
  refine ⟨gap.reverse, fun c hc => hgap c (List.mem_reverse.1 hc), ?_⟩
  have hreverse := congrArg List.reverse heq
  rwa [List.reverse_reverse, List.reverse_append] at hreverse

/-- Trimming the end leaves the beginning. -/
theorem trimEnd_prefix (cs : List Char) : trimEnd cs <+: cs := by
  obtain ⟨gap, -, heq⟩ := exists_trimEnd cs
  exact ⟨gap, heq.symm⟩

/-- Blanks behind are trimmed. -/
theorem trim_append_of_blank {gap : List Char} (h : ∀ c ∈ gap, isBlank c = true)
    (cs : List Char) : trim (cs ++ gap) = trim cs := by
  have hgap : gap.dropWhile isBlank = [] := List.dropWhile_eq_nil_iff.2 h
  have hreverse : ∀ c ∈ gap.reverse, isBlank c = true := fun c hc => h c (List.mem_reverse.1 hc)
  unfold trim trimStart
  rw [List.dropWhile_append]
  split
  · next hempty => rw [hgap, List.isEmpty_iff.1 hempty]
  · rw [trimEnd, List.reverse_append, List.dropWhile_append_of_pos hreverse]
    rfl

/-- Blanks in front are trimmed. -/
theorem trim_blank_append {gap : List Char} (h : ∀ c ∈ gap, isBlank c = true) (cs : List Char) :
    trim (gap ++ cs) = trim cs := by
  rw [trim, trimStart_append_of_blank h, trim]

/-- Blanks in front of the first of two texts may be trimmed before. -/
theorem trim_trimStart_append (front back : List Char) :
    trim (trimStart front ++ back) = trim (front ++ back) := by
  obtain ⟨gap, hgap, heq⟩ := exists_trimStart front
  conv_rhs => rw [heq, List.append_assoc, trim_blank_append hgap]

/-- Blanks behind the second of two texts may be trimmed before. -/
theorem trim_append_trimEnd (front back : List Char) :
    trim (front ++ trimEnd back) = trim (front ++ back) := by
  obtain ⟨gap, hgap, heq⟩ := exists_trimEnd back
  conv_rhs => rw [heq, ← List.append_assoc, trim_append_of_blank hgap]

/-- Nothing is left just when there are blanks only. -/
theorem trim_eq_nil_iff {cs : List Char} : trim cs = [] ↔ ∀ c ∈ cs, isBlank c = true := by
  have hend : trim cs = [] ↔ ∀ c ∈ trimStart cs, isBlank c = true := by
    rw [trim, trimEnd, List.reverse_eq_nil_iff, List.dropWhile_eq_nil_iff]
    simp only [List.mem_reverse]
  obtain ⟨gap, hgap, heq⟩ := exists_trimStart cs
  refine hend.trans ⟨fun h => ?_, fun h c hc => h c ((List.dropWhile_suffix _).subset hc)⟩
  rw [heq]
  exact List.forall_mem_append.2 ⟨hgap, h⟩

/-- What is left was in the text. -/
theorem trim_infix (cs : List Char) : trim cs <:+: cs := by
  obtain ⟨gap, -, heq⟩ := exists_trimStart cs
  obtain ⟨gap', -, heq'⟩ := exists_trimEnd (trimStart cs)
  refine ⟨gap, gap', ?_⟩
  conv_rhs => rw [heq, heq']
  rw [trim, List.append_assoc]

/-- A trimmed text has nothing left to trim. -/
theorem trim_trim (cs : List Char) : trim (trim cs) = trim cs := by
  obtain ⟨gap, hgap, heq⟩ := exists_trimStart cs
  obtain ⟨gap', hgap', heq'⟩ := exists_trimEnd (trimStart cs)
  conv_rhs => rw [heq, heq', trim_blank_append hgap, trim_append_of_blank hgap', ← trim]

/-- What a trimmed text begins with is no blank. -/
theorem isBlank_of_mem_head?_trimStart {cs : List Char} {c : Char}
    (h : c ∈ (trimStart cs).head?) : isBlank c = false := by
  have hhead := List.head?_dropWhile_not isBlank cs
  unfold trimStart at h
  rw [h] at hhead
  simpa using hhead

/-- Trimming the end leaves the first character. -/
theorem head?_trim (cs : List Char) : (trim cs).head? = (trimStart cs).head? := by
  obtain ⟨gap, hgap, heq⟩ := exists_trimEnd (trimStart cs)
  rw [← trim] at heq
  cases htrim : trim cs with
  | nil =>
    have hblank : ∀ c ∈ trimStart cs, isBlank c = true := by rwa [heq, htrim, List.nil_append]
    cases hstart : trimStart cs with
    | nil => rfl
    | cons c rest =>
      have hhead : c ∈ (trimStart cs).head? := by rw [hstart]; rfl
      have hc := isBlank_of_mem_head?_trimStart hhead
      rw [hblank c (by rw [hstart]; exact List.mem_cons_self)] at hc
      cases hc
  | cons c rest => rw [heq, htrim]; rfl

/-- A text that begins with no blank and ends with a trimmed text is trimmed. -/
theorem trim_append {c : Char} (hc : isBlank c = false) (front : List Char) {back : List Char}
    (hne : back ≠ []) (hback : trim back = back) :
    trim (c :: (front ++ back)) = c :: (front ++ back) := by
  have hreverse : (trimStart back).reverse.dropWhile isBlank = back.reverse := by
    rw [← List.reverse_reverse ((trimStart back).reverse.dropWhile isBlank)]
    exact congrArg List.reverse hback
  obtain ⟨last, before, hlast⟩ := List.exists_cons_of_ne_nil (mt List.reverse_eq_nil_iff.1 hne)
  have hblank : ¬ isBlank last = true := by
    have hhead := List.head?_dropWhile_not isBlank (trimStart back).reverse
    rw [hreverse, hlast] at hhead
    simpa using hhead
  rw [trim, trimStart_cons hc, trimEnd, List.reverse_cons, List.reverse_append, hlast,
    List.cons_append, List.cons_append, List.dropWhile_cons_of_neg hblank, ← List.cons_append,
    ← List.cons_append, ← hlast]
  simp

/-! ## Marks -/

/-- Behind a mark stands what is written there. -/
theorem after?_append (mark text : List Char) : after? mark (mark ++ text) = some text := by
  induction mark with
  | nil => rfl
  | cons c mark ih => rw [List.cons_append, after?, if_pos rfl, ih]

/-- A text with something behind a mark begins with the mark. -/
theorem eq_append_of_after? {mark text rest : List Char} (h : after? mark text = some rest) :
    text = mark ++ rest := by
  induction mark generalizing text with
  | nil =>
    cases h
    rfl
  | cons c mark ih =>
    cases text with
    | nil => cases h
    | cons d text =>
      rw [after?] at h
      split at h
      · next hc => rw [hc, ih h, List.cons_append]
      · cases h

/-- A text without the mark does not begin with it. -/
theorem after?_eq_none {mark text : List Char} (h : ¬ mark <:+: text) :
    after? mark text = none := by
  rw [Option.eq_none_iff_forall_not_mem]
  intro rest hrest
  exact h ((eq_append_of_after? hrest) ▸ (List.prefix_append mark rest).isInfix)

/-- A text without the mark is not cut at it. -/
theorem cutAt?_eq_none {mark text : List Char} (h : ¬ mark <:+: text) :
    cutAt? mark text = none := by
  induction text with
  | nil => rw [cutAt?, after?_eq_none h, Option.map_none]
  | cons c text ih =>
    rw [cutAt?, after?_eq_none h]
    dsimp only
    rw [ih fun hinfix => h (List.infix_cons hinfix), Option.map_none]

/-- A text is cut at the first mark: what stands in front of it begins the text and does not have the
mark in it. -/
theorem prefix_of_cutAt? {mark text before after : List Char} (hmark : mark ≠ [])
    (h : cutAt? mark text = some (before, after)) : before <+: text ∧ ¬ mark <:+: before := by
  have hempty : ¬ mark <:+: [] := fun hinfix => hmark (List.infix_nil.1 hinfix)
  induction text generalizing before with
  | nil =>
    rw [cutAt?, after?_eq_none hempty] at h
    cases h
  | cons c text ih =>
    rw [cutAt?] at h
    cases hafter : after? mark (c :: text) with
    | some rest =>
      rw [hafter] at h
      cases h
      exact ⟨List.nil_prefix, hempty⟩
    | none =>
      rw [hafter] at h
      obtain ⟨⟨before, after⟩, hcut, heq⟩ := Option.map_eq_some_iff.1 h
      cases heq
      obtain ⟨hbefore, hinfix⟩ := ih hcut
      have hbegins : c :: before <+: c :: text := List.cons_prefix_cons.2 ⟨rfl, hbefore⟩
      refine ⟨hbegins, fun hin => ?_⟩
      obtain hfirst | hin := List.infix_cons_iff.1 hin
      · obtain ⟨rest, hrest⟩ := hfirst.trans hbegins
        rw [← hrest, after?_append] at hafter
        cases hafter
      · exact hinfix hin

/-- A text is cut behind a part in which the mark does not begin. -/
theorem cutAt?_append_of_not_mem {c : Char} {mark front : List Char} (hc : c ∉ front)
    (back : List Char) : cutAt? (c :: mark) (front ++ back) =
      (cutAt? (c :: mark) back).map fun (before, after) => (front ++ before, after) := by
  induction front with
  | nil => exact Option.map_id'.symm
  | cons b front ih =>
    obtain ⟨hb, hfront⟩ := not_or.1 (mt List.mem_cons.2 hc)
    rw [List.cons_append, cutAt?, after?, if_neg hb]
    dsimp only
    rw [ih hfront, Option.map_map]
    rfl

end Narrative.Text
