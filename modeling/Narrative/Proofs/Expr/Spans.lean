import Narrative.Proofs.Expr.Characters
import Narrative.Proofs.Expr.Walking

/-!
# Nothing of an expression is lost

Each lexeme stands for a stretch of the bytes of an expression. The stretches are as they are in the
text: they follow one another, none of them is empty, and the bytes between them are spaces, tabs
and line ends.
-/

namespace Narrative.Lexeme

/-- The byte position behind a lexeme. -/
def stop (lexeme : Lexeme) : Nat :=
  lexeme.position + Text.byteSize lexeme.chars

/-- The bytes that may stand between lexemes. -/
def gaps : List UInt8 :=
  Text.bytes [' ', '\t', '\r', '\n']

/-! ## Tokens and where they begin -/

/-- Whether a token that is read at a character and its position is something of the text, and says
what and where when it is unknown. -/
def Marks (c : Char) (position : Nat) : Token → Prop
  | .unknown d p => d = c ∧ p = position
  | .finish => False
  | _ => True

section Marks

variable {c : Char} {position : Nat}

/-- What is read at a character is not the end. -/
theorem Marks.ne_finish {token : Token} (h : Marks c position token) : token ≠ .finish := by
  rintro rfl
  exact h

/-- A number is something of the text. -/
theorem marks_number (rest : List Char) : Marks c position (number position c rest).1 := by
  unfold number
  dsimp only
  split
  · trivial
  · exact ⟨rfl, rfl⟩

/-- A name is something of the text. -/
theorem marks_name (rest : List Char) : Marks c position (name c rest).1 := by
  unfold name word
  dsimp only
  split <;> trivial

/-- Every token that is read is something of the text. -/
theorem marks_read (operand : Bool) (position : Nat) (c : Char) (rest : List Char) :
    Marks c position (read operand position c rest).1 := by
  have hunknown : Marks c position (.unknown c position) := ⟨rfl, rfl⟩
  unfold read
  dsimp only
  split
  · exact marks_number rest
  split
  · exact marks_number rest
  split
  · exact marks_number rest
  split
  · exact marks_name rest
  split
  case h_8 | h_9 | h_10 => exact paired_all rest hunknown (by simp [Marks])
  case h_11 | h_12 | h_13 => exact paired_all rest trivial (by simp [Marks])
  case h_17 => exact hunknown
  all_goals trivial

end Marks

/-! ## Stretches of a text -/

/-- The lexemes of a text whose first byte is at a position account for all of its bytes. -/
structure Spans (start : Nat) (cs : List Char) (lexemes : List Lexeme) : Prop where
  /-- Each one has its characters from the text, at the byte where they begin. -/
  placed : ∀ l ∈ lexemes, ∃ front back,
    cs = front ++ (l.chars ++ back) ∧ l.position = start + Text.byteSize front
  /-- None of them is empty. -/
  nonempty : ∀ l ∈ lexemes, l.position < l.stop
  /-- They follow one another and do not overlap. -/
  ordered : lexemes.Pairwise fun l l' => l.stop ≤ l'.position
  /-- Every byte that belongs to none of them is a space, a tab or a line end. -/
  covered : ∀ i b, (Text.bytes cs)[i]? = some b →
    b ∈ gaps ∨ ∃ l ∈ lexemes, l.position ≤ start + i ∧ start + i < l.stop
  /-- An unknown one says with which character and where it begins. -/
  marked : ∀ l ∈ lexemes, ∀ c p, l.token = .unknown c p → l.chars.head? = some c ∧ p = l.position
  /-- None of them is the end of the expression. -/
  unfinished : ∀ l ∈ lexemes, l.token ≠ .finish

section Spans

variable {start : Nat} {c : Char} {cs chars rest : List Char} {lexemes : List Lexeme}
  {token : Token}

/-- No bytes are to be accounted for. -/
theorem spans_nil (start : Nat) : Spans start [] [] where
  placed := by simp
  nonempty := by simp
  ordered := .nil
  covered := by simp [Text.bytes]
  marked := by simp
  unfinished := by simp

/-- A separator is a gap. -/
theorem mem_gaps (h : isSeparator c = true) : c.toUInt8 ∈ gaps := by
  simp only [isSeparator, Bool.or_eq_true, beq_iff_eq] at h
  rcases h with ((rfl | rfl) | rfl) | rfl <;> decide

/-- The lexemes behind some characters come from the text with these in front. -/
theorem Spans.placed_append (h : Spans (start + Text.byteSize chars) rest lexemes) :
    ∀ l ∈ lexemes, ∃ front back,
      chars ++ rest = front ++ (l.chars ++ back) ∧ l.position = start + Text.byteSize front := by
  intro l hl
  obtain ⟨front, back, rfl, hposition⟩ := h.placed l hl
  refine ⟨chars ++ front, back, (List.append_assoc _ _ _).symm, ?_⟩
  rw [hposition, Text.byteSize_append, Nat.add_assoc]

/-- A byte behind some characters is in a gap or in a lexeme behind these. -/
theorem Spans.covered_append (h : Spans (start + Text.byteSize chars) rest lexemes) {i : Nat}
    {b : UInt8} (hi : Text.byteSize chars ≤ i) (hb : (Text.bytes (chars ++ rest))[i]? = some b) :
    b ∈ gaps ∨ ∃ l ∈ lexemes, l.position ≤ start + i ∧ start + i < l.stop := by
  have hindex : start + Text.byteSize chars + (i - Text.byteSize chars) = start + i := by omega
  rw [Text.bytes_append, List.getElem?_append_right (by rwa [Text.length_bytes]),
    Text.length_bytes] at hb
  have hcovered := h.covered _ b hb
  rwa [hindex] at hcovered

/-- A separator in front of a text belongs to no lexeme. -/
theorem Spans.skip (h : Spans (start + c.utf8Size) cs lexemes) (hsep : isSeparator c = true) :
    Spans start (c :: cs) lexemes := by
  have hc := isAscii_isSeparator c hsep
  rw [← Text.byteSize_singleton] at h
  exact {
    placed := h.placed_append
    nonempty := h.nonempty
    ordered := h.ordered
    covered := fun i b hb => by
      rcases Nat.eq_zero_or_pos i with rfl | hi
      · rw [Text.bytes_cons_of_ascii hc, List.getElem?_cons_zero] at hb
        cases hb
        exact .inl (mem_gaps hsep)
      · refine h.covered_append ?_ hb
        rwa [Text.byteSize_singleton, Text.utf8Size_of_ascii hc]
    marked := h.marked
    unfinished := h.unfinished }

/-- A lexeme in front of a text takes the bytes up to those of the lexemes behind it. -/
theorem Spans.cons (h : Spans (start + Text.byteSize chars) rest lexemes)
    (hhead : chars.head? = some c) (hmarks : Marks c start token) :
    Spans start (chars ++ rest) (⟨start, chars, token⟩ :: lexemes) where
  placed := List.forall_mem_cons.2 ⟨⟨[], rest, rfl, rfl⟩, h.placed_append⟩
  nonempty := by
    have hne : chars ≠ [] := by
      rintro rfl
      cases hhead
    exact List.forall_mem_cons.2 ⟨Nat.lt_add_of_pos_right (Text.byteSize_pos hne), h.nonempty⟩
  ordered := by
    refine .cons (fun l hl => ?_) h.ordered
    obtain ⟨front, back, -, hposition⟩ := h.placed l hl
    rw [hposition]
    exact Nat.le_add_right _ _
  covered i b hb := by
    rcases Nat.lt_or_ge i (Text.byteSize chars) with hi | hi
    · exact .inr ⟨_, List.mem_cons_self, Nat.le_add_right _ _, Nat.add_lt_add_left hi start⟩
    · exact (h.covered_append hi hb).imp_right fun ⟨l, hl, hbounds⟩ =>
        ⟨l, List.mem_cons_of_mem _ hl, hbounds⟩
  marked := by
    refine List.forall_mem_cons.2 ⟨fun d p htoken => ?_, h.marked⟩
    obtain rfl : token = .unknown d p := htoken
    obtain ⟨rfl, rfl⟩ := hmarks
    exact ⟨hhead, rfl⟩
  unfinished := List.forall_mem_cons.2 ⟨hmarks.ne_finish, h.unfinished⟩

/-- The lexemes that are found in a text account for all of its bytes. -/
theorem spans_scan (operand : Bool) (start : Nat) (cs : List Char) :
    Spans start cs (scan operand start cs) := by
  induction operand, start, cs using scan.induct with
  | case1 operand start =>
    rw [scan]
    exact spans_nil start
  | case2 operand start c rest hsep ih =>
    rw [scan, if_pos hsep]
    exact ih.skip hsep
  | case3 operand start c rest hsep token extent hread chars ih =>
    have hmarks := marks_read operand start c rest
    have hsplit : c :: rest = chars ++ rest.drop extent := by
      rw [List.cons_append, List.take_append_drop]
    rw [hread] at hmarks
    rw [scan, if_neg hsep, hread, hsplit]
    exact ih.cons rfl hmarks

end Spans

/-- A walk over the bytes of any expression comes to its end. It cuts the text only where characters
begin, and finds lexemes that account for all bytes but separators. Their tokens and one mark of the
end are the tokens of the expression. -/
theorem spans_ofChars (cs : List Char) :
    Walk.scan? cs true 0 (Text.units cs) = some (ofChars cs) ∧
      (∀ l ∈ ofChars cs, Text.slice? cs l.position l.stop = some l.chars) ∧
      Spans 0 cs (ofChars cs) ∧
      Token.ofChars cs = (ofChars cs).map (·.token) ++ [.finish] := by
  have hspans : Spans 0 cs (ofChars cs) := spans_scan true 0 cs
  refine ⟨Walk.scan?_units [] true cs, fun l hl => ?_, hspans, rfl⟩
  obtain ⟨front, back, hsplit, hposition⟩ := hspans.placed l hl
  rw [Nat.zero_add] at hposition
  exact Text.slice?_eq_some_iff.2 ⟨front, back, hsplit, hposition.symm, rfl⟩

end Narrative.Lexeme
