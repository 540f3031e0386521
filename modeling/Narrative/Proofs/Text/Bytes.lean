import Mathlib.Data.List.Basic
import Narrative.Text

/-!
# Bytes of a text

A text is stored as the bytes of its characters in UTF-8. A byte that is the code of an ASCII
character stands for this character and never belongs to another one, so a search for ASCII
characters can go over the bytes. A text can be cut at the bytes where a character begins, and
nowhere else.
-/

namespace Narrative.Text

/-! ## Sizes -/

/-- The size of a text is that of its first character and of the rest. -/
theorem byteSize_cons (c : Char) (cs : List Char) :
    byteSize (c :: cs) = c.utf8Size + byteSize cs := by
  have hstart (n : Nat) : cs.foldl (fun n c => n + c.utf8Size) n =
      n + cs.foldl (fun n c => n + c.utf8Size) 0 := by
    induction cs generalizing n with
    | nil => rfl
    | cons d cs ih => rw [List.foldl_cons, List.foldl_cons, ih, ih (0 + d.utf8Size)]; omega
  rw [byteSize, List.foldl_cons, Nat.zero_add, hstart, byteSize]

/-- The size of one character. -/
theorem byteSize_singleton (c : Char) : byteSize [c] = c.utf8Size :=
  byteSize_cons c []

/-- The sizes of two parts add up. -/
theorem byteSize_append (front back : List Char) :
    byteSize (front ++ back) = byteSize front + byteSize back := by
  induction front with
  | nil => exact (Nat.zero_add _).symm
  | cons c front ih => rw [List.cons_append, byteSize_cons, byteSize_cons, ih, Nat.add_assoc]

/-- An ASCII character is one byte. -/
theorem utf8Size_of_ascii {c : Char} (h : c.toNat < 128) : c.utf8Size = 1 :=
  Char.utf8Size_eq_one_iff.2 (UInt32.le_iff_toNat_le.2 (Nat.le_of_lt_succ h))

/-- A text that is not empty has some bytes. -/
theorem byteSize_pos {cs : List Char} (h : cs ≠ []) : 0 < byteSize cs := by
  obtain ⟨c, rest, rfl⟩ := List.exists_cons_of_ne_nil h
  rw [byteSize_cons]
  exact Nat.add_pos_left c.utf8Size_pos _

/-- An ASCII text has as many bytes as characters. -/
theorem byteSize_of_ascii {cs : List Char} (h : ∀ c ∈ cs, c.toNat < 128) :
    byteSize cs = cs.length := by
  induction cs with
  | nil => rfl
  | cons c cs ih =>
    obtain ⟨hc, hcs⟩ := List.forall_mem_cons.1 h
    rw [byteSize_cons, utf8Size_of_ascii hc, ih hcs, List.length_cons, Nat.add_comm]

/-! ## Bytes -/

/-- The bytes of a text in UTF-8. -/
def bytes (cs : List Char) : List UInt8 :=
  cs.flatMap String.utf8EncodeChar

/-- The bytes of a text, each as the character with its code. -/
def units (cs : List Char) : List Char :=
  (bytes cs).map Char.ofUInt8

/-- A text has as many bytes as its size says. -/
theorem length_bytes (cs : List Char) : (bytes cs).length = byteSize cs := by
  induction cs with
  | nil => rfl
  | cons c cs ih =>
    rw [bytes, List.flatMap_cons, List.length_append, ← bytes, ih, byteSize_cons,
      String.length_utf8EncodeChar]

/-- The bytes of two parts follow each other. -/
theorem bytes_append (front back : List Char) :
    bytes (front ++ back) = bytes front ++ bytes back :=
  List.flatMap_append

/-- A text has as many units as bytes. -/
theorem length_units (cs : List Char) : (units cs).length = byteSize cs := by
  rw [units, List.length_map, length_bytes]

/-- The units of two parts follow each other. -/
theorem units_append (front back : List Char) :
    units (front ++ back) = units front ++ units back := by
  rw [units, bytes_append, List.map_append, ← units, ← units]

/-- An ASCII character is one byte, which is its code. -/
theorem bytes_cons_of_ascii {c : Char} (h : c.toNat < 128) (cs : List Char) :
    bytes (c :: cs) = c.toUInt8 :: bytes cs := by
  have hsize := utf8Size_of_ascii h
  rw [bytes, List.flatMap_cons, String.utf8EncodeChar_eq_singleton hsize, List.singleton_append]
  rfl

/-- A byte keeps its number as a character. -/
theorem toNat_ofUInt8 (b : UInt8) : (Char.ofUInt8 b).toNat = b.toNat :=
  UInt8.toNat_toUInt32 b

/-- An ASCII character is the character of its byte. -/
theorem ofUInt8_toUInt8 {c : Char} (h : c.toNat < 128) : Char.ofUInt8 c.toUInt8 = c := by
  refine Char.ext (UInt32.toNat_inj.1 ?_)
  have hcode : (Char.ofUInt8 c.toUInt8).toNat = c.toNat % 256 :=
    (toNat_ofUInt8 _).trans (UInt32.toNat_toUInt8 c.val)
  exact hcode.trans (Nat.mod_eq_of_lt (by omega))

/-- The bytes of another character are no codes of ASCII characters. -/
theorem not_ascii_of_mem {c : Char} (h : 128 ≤ c.toNat) {b : UInt8}
    (hb : b ∈ String.utf8EncodeChar c) : 128 ≤ (Char.ofUInt8 b).toNat := by
  rw [toNat_ofUInt8]
  have hcode : ¬ c.val.toNat ≤ 127 := Nat.not_le.2 h
  rw [String.utf8EncodeChar, if_neg hcode] at hb
  have hbyte {n m base : Nat} (hm : 0 < m) (hbase : 128 ≤ base) (hsum : m + base ≤ 256) :
      128 ≤ (UInt8.ofNat (n % m + base)).toNat := by
    have hlt := Nat.mod_lt n hm
    rw [UInt8.toNat_ofNat', Nat.mod_eq_of_lt (by omega)]
    omega
  -- two, three or four bytes, each of them a remainder with a mark of at least 128
  split at hb
  · simp only [List.mem_cons, List.not_mem_nil, or_false] at hb
    rcases hb with rfl | rfl <;> exact hbyte (by decide) (by decide) (by decide)
  · split at hb
    · simp only [List.mem_cons, List.not_mem_nil, or_false] at hb
      rcases hb with rfl | rfl | rfl <;> exact hbyte (by decide) (by decide) (by decide)
    · simp only [List.mem_cons, List.not_mem_nil, or_false] at hb
      rcases hb with rfl | rfl | rfl | rfl <;> exact hbyte (by decide) (by decide) (by decide)

/-! ## Searching over bytes -/

/-- An ASCII character is its own unit. -/
theorem units_cons_of_ascii {c : Char} (h : c.toNat < 128) (cs : List Char) :
    units (c :: cs) = c :: units cs := by
  rw [units, bytes_cons_of_ascii h, List.map_cons, ofUInt8_toUInt8 h, ← units]

/-- A character that is not ASCII stands for bytes that are not ASCII. -/
theorem exists_units_cons {c : Char} (h : 128 ≤ c.toNat) :
    ∃ u more, (∀ cs, units (c :: cs) = u :: more ++ units cs) ∧
      (∀ v ∈ u :: more, 128 ≤ v.toNat) ∧ more.length + 1 = c.utf8Size := by
  have hunits : ∀ v ∈ (String.utf8EncodeChar c).map Char.ofUInt8, 128 ≤ v.toNat := by
    intro v hv
    obtain ⟨b, hb, rfl⟩ := List.mem_map.1 hv
    exact not_ascii_of_mem h hb
  have hlength : ((String.utf8EncodeChar c).map Char.ofUInt8).length = c.utf8Size := by
    rw [List.length_map, String.length_utf8EncodeChar]
  have happend (cs : List Char) :
      units (c :: cs) = (String.utf8EncodeChar c).map Char.ofUInt8 ++ units cs := by
    rw [units, bytes, List.flatMap_cons, List.map_append, ← bytes, ← units]
  obtain ⟨u, more, heq⟩ := List.exists_cons_of_ne_nil
    (l := (String.utf8EncodeChar c).map Char.ofUInt8) (by simp)
  rw [heq] at hunits hlength
  exact ⟨u, more, fun cs => heq ▸ happend cs, hunits, hlength⟩

/-- Whether only ASCII characters satisfy a test. -/
def IsAscii (p : Char → Bool) : Prop :=
  ∀ c, p c = true → c.toNat < 128

section Search

variable {p : Char → Bool} {a : Char}

/-- The test for an ASCII character accepts nothing else. -/
theorem isAscii_beq (ha : a.toNat < 128) : IsAscii (· == a) := fun _ hc => by
  rwa [eq_of_beq hc]

/-- A class with one more ASCII character. -/
theorem IsAscii.or_beq (hp : IsAscii p) (ha : a.toNat < 128) : IsAscii fun c => p c || c == a := by
  intro c hc
  rcases Bool.or_eq_true_iff.1 hc with hc | heq
  · exact hp c hc
  · rwa [eq_of_beq heq]

/-- A test for ASCII characters accepts no other character. -/
theorem IsAscii.eq_false (hp : IsAscii p) {c : Char} (h : 128 ≤ c.toNat) : p c = false :=
  Bool.eq_false_iff.2 fun hc => absurd (hp c hc) (Nat.not_lt.2 h)

/-- A run of ASCII characters is a run of their bytes. -/
theorem takeWhile_units (hp : IsAscii p) (cs : List Char) :
    (units cs).takeWhile p = cs.takeWhile p := by
  induction cs with
  | nil => rfl
  | cons c cs ih =>
    rcases Nat.lt_or_ge c.toNat 128 with hc | hc
    · rw [units_cons_of_ascii hc, List.takeWhile_cons, List.takeWhile_cons, ih]
    · obtain ⟨u, more, heq, hunits, -⟩ := exists_units_cons hc
      have hu := hp.eq_false (hunits u List.mem_cons_self)
      rw [heq, List.cons_append, List.takeWhile_cons, hu, List.takeWhile_cons, hp.eq_false hc]
      rfl

/-- Skipping ASCII units is skipping characters. -/
theorem dropWhile_units (hp : IsAscii p) (cs : List Char) :
    (units cs).dropWhile p = units (cs.dropWhile p) := by
  induction cs with
  | nil => rfl
  | cons c cs ih =>
    rcases Nat.lt_or_ge c.toNat 128 with hc | hc
    · rw [units_cons_of_ascii hc, List.dropWhile_cons, List.dropWhile_cons, ih]
      split
      · rfl
      · rw [units_cons_of_ascii hc]
    · obtain ⟨u, more, heq, hunits, -⟩ := exists_units_cons hc
      have hu := hp.eq_false (hunits u List.mem_cons_self)
      rw [List.dropWhile_cons, hp.eq_false hc, if_neg Bool.false_ne_true, heq, List.cons_append,
        List.dropWhile_cons, hu, if_neg Bool.false_ne_true]

/-- A run up to an ASCII character is a run of bytes up to its byte. -/
theorem takeWhile_not_units (hp : IsAscii p) (cs : List Char) :
    (units cs).takeWhile (!p ·) = units (cs.takeWhile (!p ·)) := by
  induction cs with
  | nil => rfl
  | cons c cs ih =>
    rcases Nat.lt_or_ge c.toNat 128 with hc | hc
    · rw [units_cons_of_ascii hc, List.takeWhile_cons, List.takeWhile_cons, ih]
      split
      · rw [units_cons_of_ascii hc]
      · rfl
    · obtain ⟨u, more, heq, hunits, -⟩ := exists_units_cons hc
      have hskip : ∀ v ∈ u :: more, (!p v) = true := fun v hv => by
        rw [hp.eq_false (hunits v hv)]
        rfl
      rw [heq, List.takeWhile_append_of_pos hskip, ih, List.takeWhile_cons, hp.eq_false hc,
        Bool.not_false, if_pos rfl, heq]

/-- The next character and the next byte satisfy the same tests for ASCII characters. -/
theorem any_head?_units (hp : IsAscii p) (cs : List Char) :
    (units cs).head?.any p = cs.head?.any p := by
  cases cs with
  | nil => rfl
  | cons c cs =>
    rcases Nat.lt_or_ge c.toNat 128 with hc | hc
    · rw [units_cons_of_ascii hc, List.head?_cons, List.head?_cons]
    · obtain ⟨u, more, heq, hunits, -⟩ := exists_units_cons hc
      rw [heq, List.cons_append, List.head?_cons, List.head?_cons, Option.any_some, Option.any_some,
        hp.eq_false hc, hp.eq_false (hunits u List.mem_cons_self)]

/-- A text begins with an ASCII character just when its units do. -/
theorem head?_units (ha : a.toNat < 128) (cs : List Char) :
    (units cs).head? = some a ↔ cs.head? = some a := by
  have hany := any_head?_units (isAscii_beq ha) cs
  rw [Bool.eq_iff_iff] at hany
  simpa [Option.any_eq_true] using hany

/-- A way of skipping the beginning of a text that skips the same of its bytes. -/
structure Skips (f : List Char → List Char) : Prop where
  /-- Of the bytes, those of the rest are left. -/
  units (cs : List Char) : f (units cs) = units (f cs)
  /-- What is left is the end of the text. -/
  suffix (cs : List Char) : f cs <:+ cs

/-- Skipping ASCII characters skips the same among the units. -/
theorem skips_dropWhile (hp : IsAscii p) : Skips (List.dropWhile p) where
  units := dropWhile_units hp
  suffix _ := List.dropWhile_suffix p

/-- Skipping twice is skipping. -/
theorem Skips.comp {f g : List Char → List Char} (hg : Skips g) (hf : Skips f) :
    Skips fun cs => g (f cs) where
  units cs := by rw [hf.units, hg.units]
  suffix cs := (hg.suffix _).trans (hf.suffix cs)

/-- What is skipped is as long as its bytes are many. -/
theorem Skips.length_sub {f : List Char → List Char} (h : Skips f) (cs : List Char) :
    (Text.units cs).length - (f (Text.units cs)).length =
      byteSize (cs.take (cs.length - (f cs).length)) := by
  obtain ⟨front, hfront⟩ := h.suffix cs
  have hlength : cs.length - (f cs).length = front.length := by
    have := congrArg List.length hfront
    rw [List.length_append] at this
    omega
  have htake : cs.take front.length = front := by
    conv_lhs => rw [← hfront, List.take_left]
  have hsize : byteSize cs = byteSize front + byteSize (f cs) := by
    rw [← byteSize_append, hfront]
  rw [h.units, length_units, length_units, hlength, htake, hsize, Nat.add_sub_cancel]

end Search

/-! ## Cutting -/

/-- What stands behind a number of bytes; there is none when they end within a character or there
are not as many. -/
def behind? : (size : Nat) → List Char → Option (List Char)
  | size, [] => if size = 0 then some [] else none
  | size, c :: cs =>
    if size = 0 then some (c :: cs)
    else if c.utf8Size ≤ size then behind? (size - c.utf8Size) cs
    else none

/-- The first characters, which have a number of bytes; there are none when these end within a
character or there are not as many. -/
def within? : (size : Nat) → List Char → Option (List Char)
  | size, [] => if size = 0 then some [] else none
  | size, c :: cs =>
    if size = 0 then some []
    else if c.utf8Size ≤ size then (within? (size - c.utf8Size) cs).map (c :: ·)
    else none

/-- The text between two byte positions; there is none when one of them lies within a character or
behind the end. -/
def slice? (cs : List Char) (start stop : Nat) : Option (List Char) :=
  if start ≤ stop then (behind? start cs).bind (within? (stop - start)) else none

/-- Behind the size of the front stands the back. -/
theorem behind?_append (front back : List Char) :
    behind? (byteSize front) (front ++ back) = some back := by
  induction front with
  | nil => cases back <;> rfl
  | cons c front ih =>
    have hpos := c.utf8Size_pos
    rw [byteSize_cons, List.cons_append, behind?, if_neg (by omega), if_pos (by omega),
      Nat.add_sub_cancel_left, ih]

/-- Within the size of the front stands the front. -/
theorem within?_append (front back : List Char) :
    within? (byteSize front) (front ++ back) = some front := by
  induction front with
  | nil => cases back <;> rfl
  | cons c front ih =>
    have hpos := c.utf8Size_pos
    rw [byteSize_cons, List.cons_append, within?, if_neg (by omega), if_pos (by omega),
      Nat.add_sub_cancel_left, ih, Option.map_some]

/-- What stands behind a size is the end of the text. -/
theorem eq_append_of_behind? {size : Nat} {cs rest : List Char} (h : behind? size cs = some rest) :
    ∃ front, cs = front ++ rest ∧ byteSize front = size := by
  induction cs generalizing size with
  | nil =>
    rw [behind?] at h
    split at h
    · next hzero =>
      cases h
      exact ⟨[], rfl, hzero.symm⟩
    · cases h
  | cons c cs ih =>
    rw [behind?] at h
    split at h
    · next hzero =>
      cases h
      exact ⟨[], rfl, hzero.symm⟩
    · split at h
      · next hroom =>
        obtain ⟨front, rfl, hsize⟩ := ih h
        refine ⟨c :: front, rfl, ?_⟩
        rw [byteSize_cons, hsize]
        omega
      · cases h

/-- What stands within a size is its beginning. -/
theorem eq_append_of_within? {size : Nat} {cs front : List Char}
    (h : within? size cs = some front) :
    ∃ back, cs = front ++ back ∧ byteSize front = size := by
  induction cs generalizing size front with
  | nil =>
    rw [within?] at h
    split at h
    · next hzero =>
      cases h
      exact ⟨[], rfl, hzero.symm⟩
    · cases h
  | cons c cs ih =>
    rw [within?] at h
    split at h
    · next hzero =>
      cases h
      exact ⟨c :: cs, rfl, hzero.symm⟩
    · split at h
      · next hroom =>
        obtain ⟨more, hmore, rfl⟩ := Option.map_eq_some_iff.1 h
        obtain ⟨back, rfl, hsize⟩ := ih hmore
        refine ⟨back, rfl, ?_⟩
        rw [byteSize_cons, hsize]
        omega
      · cases h

/-- A text can be cut where characters begin. -/
theorem slice?_append (front part back : List Char) :
    slice? (front ++ (part ++ back)) (byteSize front) (byteSize front + byteSize part) =
      some part := by
  rw [slice?, if_pos (Nat.le_add_right _ _), behind?_append, Option.bind_some,
    Nat.add_sub_cancel_left, within?_append]

/-- A text is cut only where characters begin. -/
theorem slice?_eq_some_iff {cs part : List Char} {start stop : Nat} :
    slice? cs start stop = some part ↔
      ∃ front back, cs = front ++ (part ++ back) ∧ byteSize front = start ∧
        start + byteSize part = stop := by
  constructor
  · intro h
    rw [slice?] at h
    split at h
    · next hle =>
      obtain ⟨rest, hrest, hpart⟩ := Option.bind_eq_some_iff.1 h
      obtain ⟨front, rfl, hfront⟩ := eq_append_of_behind? hrest
      obtain ⟨back, rfl, hsize⟩ := eq_append_of_within? hpart
      exact ⟨front, back, rfl, hfront, by omega⟩
    · cases h
  · rintro ⟨front, back, rfl, rfl, rfl⟩
    exact slice?_append front part back

end Narrative.Text
