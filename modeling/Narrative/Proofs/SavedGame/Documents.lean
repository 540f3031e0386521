import Narrative.Proofs.Decimal.Plain
import Narrative.SavedGame.Basic

/-!
# Documents are read back

A document is printed with each text escaped and each number in digits. At every level of
indentation it is read as what it was, and the text behind it is left. Reading has to stop where the
printed text does, so a number is read back only in front of something that does not go on with it.
-/

namespace Narrative.Json

/-! ## Strings -/

/-- A hexadecimal digit has its value. -/
theorem hexValue?_hexDigit {n : Nat} (h : n < 16) : hexValue? (hexDigit n) = some n := by
  revert n
  decide

/-- A character behind a backslash is read as the code it stands for. -/
theorem readCodes_backslash {c : Char} {code : Nat} (h : escapeCode? c = some code)
    (rest : List Char) :
    readCodes ('\\' :: c :: rest) =
      (readCodes rest).map fun (codes, rest) => (code :: codes, rest) := by
  have hc : c ≠ 'u' := by
    rintro rfl
    cases h
  rw [readCodes, h]
  · cases readCodes rest <;> rfl
  · exact fun _ _ _ _ _ hu => absurd hu hc

/-- Four hexadecimal digits are read as the code that they denote. -/
theorem readCodes_hex {code : Nat} (h : code < 256) (rest : List Char) :
    readCodes ('\\' :: 'u' :: '0' :: '0' :: hexDigit (code / 16) :: hexDigit (code % 16) :: rest) =
      (readCodes rest).map fun (codes, rest) => (code :: codes, rest) := by
  have hcode : hexCode? '0' '0' (hexDigit (code / 16)) (hexDigit (code % 16)) = some code := by
    have hhigh := hexValue?_hexDigit (show code / 16 < 16 by omega)
    have hlow := hexValue?_hexDigit (show code % 16 < 16 by omega)
    have hzero : hexValue? '0' = some 0 := by decide
    have hsum : (0 * 16 + 0) * 256 + code / 16 * 16 + code % 16 = code := by omega
    simp only [hexCode?, hhigh, hlow, hzero, Option.bind_eq_bind, Option.bind_some,
      Option.pure_def, hsum]
  rw [readCodes, hcode]
  cases readCodes rest <;> rfl

/-- Any other character that is no control character stands for itself. -/
theorem readCodes_plain {c : Char} (hquote : c ≠ '"') (hbackslash : c ≠ '\\')
    (hcontrol : 0x20 ≤ c.toNat) (rest : List Char) :
    readCodes (c :: rest) =
      (readCodes rest).map fun (codes, rest) => (c.toNat :: codes, rest) := by
  rw [readCodes, if_neg (Nat.not_lt.2 hcontrol)]
  · cases readCodes rest <;> rfl
  · exact hquote
  · exact fun _ _ _ _ _ h => absurd h hbackslash
  · exact fun _ _ h => absurd h hbackslash

/-- A character is read as its code, however it is escaped. -/
theorem readCodes_escape (c : Char) (rest : List Char) :
    readCodes (escape c ++ rest) =
      (readCodes rest).map fun (codes, rest) => (c.toNat :: codes, rest) := by
  have hcode {n : Nat} (h : c.toNat = n) : c = Char.ofNat n := by rw [← h, Char.ofNat_toNat]
  unfold escape
  split
  · exact readCodes_backslash rfl rest
  · exact readCodes_backslash rfl rest
  · exact readCodes_backslash rfl rest
  · exact readCodes_backslash rfl rest
  · exact readCodes_backslash rfl rest
  · next hquote hbackslash _ _ _ =>
    split
    · next h =>
      rw [h]
      exact readCodes_backslash rfl rest
    · split
      · next h =>
        rw [h]
        exact readCodes_backslash rfl rest
      · split
        · next hcontrol => exact readCodes_hex (by omega) rest
        · next hcontrol => exact readCodes_plain hquote hbackslash (by omega) rest

/-- The codes of a text are read from the text in quotes. -/
theorem readCodes_flatMap_escape (cs rest : List Char) :
    readCodes (cs.flatMap escape ++ '"' :: rest) = some (cs.map Char.toNat, rest) := by
  induction cs with
  | nil => rfl
  | cons c cs ih =>
    rw [List.flatMap_cons, List.append_assoc, readCodes_escape, ih]
    rfl

/-- The code of a character is no half of a surrogate pair. -/
theorem not_half_toNat (c : Char) : isHighHalf c.toNat = false ∧ isLowHalf c.toNat = false := by
  have hvalid : c.toNat < 0xD800 ∨ 0xDFFF < c.toNat ∧ c.toNat < 0x110000 := c.valid
  simp only [isHighHalf, isLowHalf, Bool.and_eq_false_iff, decide_eq_false_iff_not]
  omega

/-- The codes of a text denote the text. -/
theorem charsOfCodes_map_toNat (cs : List Char) : charsOfCodes (cs.map Char.toNat) = some cs := by
  induction cs with
  | nil => rfl
  | cons c cs ih =>
    obtain ⟨hhigh, hlow⟩ := not_half_toNat c
    simp [charsOfCodes.eq_def (_ :: _), hhigh, hlow, ih]

/-- A text in quotes is read as the text. -/
theorem readString_quote (s : String) (rest : List Char) :
    readString (s.toList.flatMap escape ++ '"' :: rest) = some (some s, rest) := by
  simp only [readString, readCodes_flatMap_escape, Option.map_some, charsOfCodes_map_toNat,
    String.ofList_toList]

/-! ## Numbers -/

/-- Whether a text does not go on with what stands in front of it: it is empty, or it begins with a
comma or a line break. -/
def Parted (rest : List Char) : Prop :=
  ∀ c ∈ rest.head?, c = ',' ∨ c = '\n'

/-- No digit follows a number. -/
theorem Parted.isDigit_eq {rest : List Char} (h : Parted rest) {c : Char} (hc : c ∈ rest.head?) :
    c.isDigit = false := by
  obtain rfl | rfl := h c hc <;> rfl

/-- A run of digits is read up to its end. -/
theorem readDigits_append {digits rest : List Char} (hne : digits ≠ [])
    (hdigits : ∀ c ∈ digits, c.isDigit = true) (hrest : Parted rest) :
    readDigits (digits ++ rest) = some (digits, rest) := by
  have htake : rest.takeWhile Char.isDigit = [] := by
    cases rest with
    | nil => rfl
    | cons c rest => rw [List.takeWhile_cons, hrest.isDigit_eq rfl, if_neg Bool.false_ne_true]
  have hdrop : rest.dropWhile Char.isDigit = rest := by
    cases rest with
    | nil => rfl
    | cons c rest => rw [List.dropWhile_cons, hrest.isDigit_eq rfl, if_neg Bool.false_ne_true]
  have hempty : digits.isEmpty = false := List.isEmpty_eq_false_iff.2 hne
  simp only [readDigits, List.takeWhile_append_of_pos hdigits, htake, List.append_nil, hempty,
    Bool.false_eq_true, if_false, List.dropWhile_append_of_pos hdigits, hdrop]

/-- A number consists of digits. -/
theorem isDigit_of_mem_toDigits {n : Nat} {c : Char} (h : c ∈ Nat.toDigits 10 n) :
    c.isDigit = true :=
  Nat.isDigit_of_mem_toDigits (by decide) (by decide) h

/-- The integer part of a number is read up to its end. -/
theorem readWhole_toDigits (n : Nat) {rest : List Char} (hrest : Parted rest) :
    readWhole (Nat.toDigits 10 n ++ rest) = some (Nat.toDigits 10 n, rest) := by
  rcases Nat.eq_zero_or_pos n with rfl | hpos
  · have hhead : rest.head?.any Char.isDigit = false := by
      cases rest with
      | nil => rfl
      | cons c rest => exact hrest.isDigit_eq rfl
    simp [Nat.toDigits_of_lt_base, readWhole, hhead, Nat.digitChar]
  · obtain ⟨c, digits, hdigits, hc⟩ := Decimal.toDigits_head hpos
    have hall : ∀ d ∈ c :: digits, d.isDigit = true := fun d hd =>
      isDigit_of_mem_toDigits (hdigits ▸ hd)
    rw [hdigits, List.cons_append, readWhole, ← List.cons_append]
    · exact readDigits_append (List.cons_ne_nil _ _) hall hrest
    · exact fun _ h => hc (List.cons.inj h).1

/-- The digits of a natural number are read as they are written. -/
theorem readNumber_toDigits (n : Nat) {rest : List Char} (hrest : Parted rest) :
    readNumber (Nat.toDigits 10 n ++ rest) = some (Nat.toDigits 10 n, rest) := by
  obtain ⟨c, digits, hdigits⟩ :=
    List.exists_cons_of_ne_nil (Nat.toDigits_ne_nil (n := n) (b := 10))
  have hsign : c ≠ '-' := by
    rintro rfl
    have hminus := isDigit_of_mem_toDigits (n := n) (c := '-') (by rw [hdigits]; simp)
    cases hminus
  have hwhole := readWhole_toDigits n hrest
  have hfraction : readFraction rest = some ([], rest) := by
    cases rest with
    | nil => rfl
    | cons c rest => obtain rfl | rfl := hrest c rfl <;> rfl
  have hexponent : readExponent rest = some ([], rest) := by
    cases rest with
    | nil => rfl
    | cons c rest => obtain rfl | rfl := hrest c rfl <;> rfl
  rw [hdigits, List.cons_append] at hwhole ⊢
  unfold readNumber
  split
  next sign cs hstart =>
    split at hstart
    · next h => exact absurd (List.cons.inj h).1 hsign
    · cases hstart
      simp only [hwhole, hfraction, hexponent, Option.bind_eq_bind, Option.bind_some,
        Option.pure_def, List.nil_append, List.append_nil]

/-! ## Documents -/

/-- Nothing is skipped where no space stands. -/
theorem skipSpace_cons {c : Char} {cs : List Char} (h : isSpace c = false) :
    skipSpace (c :: cs) = c :: cs := by
  rw [skipSpace, List.dropWhile_cons, h, if_neg Bool.false_ne_true]

/-- A line break and its indentation are skipped. -/
theorem skipSpace_newline (level : Nat) (cs : List Char) :
    skipSpace (newline level ++ cs) = skipSpace cs := by
  have hspace : ∀ c ∈ newline level, isSpace c = true := by
    intro c hc
    obtain rfl | hc := List.mem_cons.1 hc
    · rfl
    · rw [List.eq_of_mem_replicate hc]
      rfl
  exact List.dropWhile_append_of_pos hspace

/-- Nothing is skipped in front of a quote. -/
theorem skipSpace_quote (key cs : List Char) : skipSpace (quote key ++ cs) = quote key ++ cs :=
  skipSpace_cons rfl

/-- Space in front of a value is passed over. -/
theorem readValue_congr {cs cs' : List Char} (h : skipSpace cs = skipSpace cs') (depth : Nat) :
    readValue depth cs = readValue depth cs' := by
  cases depth with
  | zero => rfl
  | succ depth => rw [readValue, readValue, h]

/-- A line break in front of the items of an array is passed over. -/
theorem readItems_newline (depth level : Nat) (cs : List Char) :
    readItems depth (newline level ++ cs) = readItems depth cs := by
  cases depth with
  | zero => rfl
  | succ depth => rw [readItems, readItems, readValue_congr (skipSpace_newline level cs)]

/-- A line break in front of the members of an object is passed over. -/
theorem readMembers_newline (depth level : Nat) (cs : List Char) :
    readMembers depth (newline level ++ cs) = readMembers depth cs := by
  cases depth with
  | zero => rfl
  | succ depth => rw [readMembers, readMembers, skipSpace_newline]

/-- Whether a document is read back as it is printed at each level, in as many steps as its text has
room for, and the text behind it is left. -/
structure Legible (j : Json) : Prop where
  /-- The text begins with neither space nor the end of an array. -/
  opens (level : Nat) : ∃ c cs, j.render level = c :: cs ∧ isSpace c = false ∧ c ≠ ']'
  /-- The text is read as the document. -/
  reads (level depth : Nat) {rest : List Char} :
    3 * (j.render level).length ≤ depth + 1 → Parted rest →
      readValue (depth + 1) (j.render level ++ rest) = some (j, rest)

/-- The absent value is read back. -/
theorem legible_null : Legible null where
  opens _ := ⟨'n', _, rfl, rfl, by decide⟩
  reads _ _ _ _ _ := rfl

/-- Truth values are read back. -/
theorem legible_bool (b : Bool) : Legible (bool b) where
  opens _ := by cases b <;> exact ⟨_, _, rfl, rfl, by decide⟩
  reads _ _ _ _ _ := by cases b <;> rfl

/-- Texts are read back. -/
theorem legible_ofString (s : String) : Legible (ofString s) where
  opens _ := ⟨'"', _, rfl, rfl, by decide⟩
  reads level depth rest _ _ := by
    have htext : (ofString s).render level ++ rest =
        '"' :: (s.toList.flatMap escape ++ '"' :: rest) := by
      simp [ofString, render, quote]
    rw [htext, readValue, skipSpace_cons rfl]
    simp only [readString_quote, Option.map_some]
    rfl

/-- A digit is no space. -/
theorem isSpace_of_isDigit {c : Char} (h : c.isDigit = true) : isSpace c = false := by
  refine Bool.eq_false_iff.2 fun hspace => ?_
  simp only [isSpace, Bool.or_eq_true, beq_iff_eq] at hspace
  obtain ((rfl | rfl) | rfl) | rfl := hspace <;> cases h

/-- What begins with a digit is read as a number. -/
theorem readValue_of_isDigit {c : Char} (h : c.isDigit = true) (depth : Nat) (cs : List Char) :
    readValue (depth + 1) (c :: cs) =
      (readNumber (c :: cs)).map fun (literal, rest) => (number literal, rest) := by
  rw [readValue, skipSpace_cons (isSpace_of_isDigit h)]
  split
  case h_7 => rfl
  -- all other values begin with something else than a digit
  all_goals
    next heq =>
      cases heq
      cases h

/-- Natural numbers are read back. -/
theorem legible_ofNat (n : Nat) : Legible (ofNat n) := by
  obtain ⟨c, digits, hdigits⟩ :=
    List.exists_cons_of_ne_nil (Nat.toDigits_ne_nil (n := n) (b := 10))
  have hc : c.isDigit = true := isDigit_of_mem_toDigits (n := n) (hdigits ▸ List.mem_cons_self)
  refine ⟨fun level => ⟨c, digits, ?_, isSpace_of_isDigit hc, ?_⟩,
    fun level depth rest _ hrest => ?_⟩
  · rw [ofNat, render, hdigits]
  · rintro rfl
    cases hc
  · have hread := readNumber_toDigits n hrest
    rw [hdigits, List.cons_append] at hread
    rw [ofNat, render, hdigits, List.cons_append, readValue_of_isDigit hc, hread]
    rfl

/-! ## Arrays and objects -/

/-- Something else follows the items of an array. -/
theorem parted_renderItems (level : Nat) (items : List Json) (rest : List Char) :
    Parted (renderItems level items ++ rest) := by
  rintro c hc
  cases items with
  | nil => exact .inr (Option.some.inj hc).symm
  | cons item items => exact .inl (Option.some.inj hc).symm

/-- Something else follows the members of an object. -/
theorem parted_renderMembers (level : Nat) (members : List (Option String × Json))
    (rest : List Char) : Parted (renderMembers level members ++ rest) := by
  rintro c hc
  cases members with
  | nil => exact .inr (Option.some.inj hc).symm
  | cons member members => exact .inl (Option.some.inj hc).symm

/-- The items of an array are read back up to its end. -/
theorem readItems_render {item : Json} {items : List Json} (hitem : item.Legible)
    (hitems : ∀ j ∈ items, j.Legible) (level depth : Nat) (rest : List Char)
    (hdepth : 3 * (item.render (level + 1) ++ renderItems level items).length ≤ depth) :
    readItems depth (item.render (level + 1) ++ (renderItems level items ++ rest)) =
      some (item :: items, rest) := by
  induction items generalizing item depth with
  | nil =>
    simp only [renderItems, newline, List.length_append, List.length_cons] at hdepth
    obtain ⟨depth, rfl⟩ := Nat.exists_eq_add_of_le' (show 2 ≤ depth by omega)
    have hread := hitem.reads (level + 1) depth (by omega) (parted_renderItems level [] rest)
    rw [readItems, hread]
    simp only [renderItems, List.append_assoc, skipSpace_newline]
    rfl
  | cons next items ih =>
    simp only [renderItems, newline, List.length_append, List.length_cons] at hdepth
    obtain ⟨depth, rfl⟩ := Nat.exists_eq_add_of_le' (show 2 ≤ depth by omega)
    have hread := hitem.reads (level + 1) depth (by omega)
      (parted_renderItems level (next :: items) rest)
    have hrest := ih (hitems next List.mem_cons_self)
      (fun j hj => hitems j (List.mem_cons_of_mem _ hj)) (depth + 1)
      (by rw [List.length_append]; omega)
    rw [readItems, hread]
    simp only [renderItems, List.cons_append, List.append_assoc, skipSpace_cons (c := ',') rfl,
      readItems_newline, hrest, Option.map_some]

/-- An array is read back when its items are. -/
theorem legible_array {items : List Json} (h : ∀ j ∈ items, j.Legible) :
    Legible (array items) where
  opens _ := by cases items <;> exact ⟨'[', _, rfl, rfl, by decide⟩
  reads level depth rest hdepth _ := by
    cases items with
    | nil => rfl
    | cons item items =>
      have hitem := h item List.mem_cons_self
      simp only [render, List.cons_append, List.append_assoc, List.length_cons,
        List.length_append] at hdepth
      have hread := readItems_render hitem (fun j hj => h j (List.mem_cons_of_mem _ hj)) level depth
        rest (by rw [List.length_append]; omega)
      obtain ⟨c, cs, hopens, hspace, hend⟩ := hitem.opens (level + 1)
      rw [hopens, List.cons_append] at hread
      simp only [render, List.cons_append, List.append_assoc, readValue,
        skipSpace_cons (c := '[') rfl, skipSpace_newline, hopens, skipSpace_cons hspace]
      split
      · next heq => exact absurd (List.cons.inj heq).1 hend
      · rw [hread]
        rfl

/-- The members of an object whose keys are texts. -/
def ofMembers (members : List (String × Json)) : List (Option String × Json) :=
  members.map fun m => (some m.1, m.2)

/-- A member of an object is read back. -/
theorem readMember_render {value : Json} (hvalue : value.Legible) (key : String)
    (level depth : Nat) {rest : List Char} (hrest : Parted rest)
    (hdepth : 3 * (value.render level).length ≤ depth + 1) :
    readMember (depth + 2) (quote key.toList ++ ([':', ' '] ++ (value.render level ++ rest))) =
      some ((some key, value), rest) := by
  have hspace (cs : List Char) : skipSpace (' ' :: cs) = skipSpace cs := rfl
  simp only [quote, List.cons_append, List.append_assoc, List.nil_append, readMember,
    readString_quote, skipSpace_cons (c := ':') rfl, readValue_congr (hspace _),
    hvalue.reads level depth hdepth hrest, Option.map_some]

/-- The members of an object are read back up to its end. -/
theorem readMembers_render {value : Json} {members : List (String × Json)} (key : String)
    (hvalue : value.Legible) (hmembers : ∀ m ∈ members, m.2.Legible) (level depth : Nat)
    (rest : List Char) (hdepth : 3 *
      (value.render (level + 1) ++ renderMembers level (ofMembers members)).length ≤ depth) :
    readMembers depth (quote key.toList ++ ([':', ' '] ++ (value.render (level + 1) ++
        (renderMembers level (ofMembers members) ++ rest)))) =
      some ((some key, value) :: ofMembers members, rest) := by
  induction members generalizing key value depth with
  | nil =>
    simp only [ofMembers, List.map_nil, renderMembers, newline, List.length_append,
      List.length_cons] at hdepth
    obtain ⟨depth, rfl⟩ := Nat.exists_eq_add_of_le' (show 3 ≤ depth by omega)
    have hread := readMember_render hvalue key (level + 1) depth
      (parted_renderMembers level (ofMembers []) rest) (by omega)
    rw [readMembers, skipSpace_quote, hread]
    simp only [ofMembers, List.map_nil, renderMembers, List.append_assoc, skipSpace_newline]
    rfl
  | cons next members ih =>
    simp only [ofMembers, List.map_cons, renderMembers, newline, List.length_append,
      List.length_cons] at hdepth
    obtain ⟨depth, rfl⟩ := Nat.exists_eq_add_of_le' (show 3 ≤ depth by omega)
    have hread := readMember_render hvalue key (level + 1) depth
      (parted_renderMembers level (ofMembers (next :: members)) rest) (by omega)
    have hrest := ih next.1 (hmembers next List.mem_cons_self)
      (fun m hm => hmembers m (List.mem_cons_of_mem _ hm)) (depth + 2)
      (by rw [List.length_append, ofMembers]; omega)
    rw [readMembers, skipSpace_quote, hread]
    simp only [ofMembers, List.map_cons, renderMembers, List.cons_append, List.append_assoc,
      skipSpace_cons (c := ',') rfl, readMembers_newline, Option.getD_some] at hrest ⊢
    rw [hrest]
    rfl

/-- An object is read back when its values are. -/
theorem legible_object {members : List (String × Json)} (h : ∀ m ∈ members, m.2.Legible) :
    Legible (object (ofMembers members)) where
  opens _ := by cases members <;> exact ⟨'\x7b', _, rfl, rfl, by decide⟩
  reads level depth rest hdepth _ := by
    cases members with
    | nil => rfl
    | cons member members =>
      simp only [ofMembers, List.map_cons, render, List.cons_append, List.append_assoc,
        List.length_cons, List.length_append] at hdepth
      have hread := readMembers_render member.1 (h member List.mem_cons_self)
        (fun m hm => h m (List.mem_cons_of_mem _ hm)) level depth rest
        (by rw [List.length_append, ofMembers]; omega)
      simp only [ofMembers, List.map_cons, render, List.cons_append, List.append_assoc, readValue,
        skipSpace_cons (c := '\x7b') rfl, skipSpace_newline, Option.getD_some]
      split
      · next heq => cases heq
      · rw [skipSpace_quote]
        exact congrArg (Option.map _) hread

/-- A document that can be read back is parsed. -/
theorem Legible.parse?_render {j : Json} (h : j.Legible) : parse? (j.render 0) = some j := by
  have hend : Parted [] := nofun
  have hread := h.reads 0 (3 * (j.render 0).length + 2) (Nat.le_add_right _ 3) hend
  rw [List.append_nil] at hread
  rw [parse?, hread]
  rfl

end Narrative.Json
