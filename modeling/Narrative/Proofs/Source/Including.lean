import Narrative.Proofs.Source.Weaving

/-!
# What a source includes

Only a line that includes a file notes one. All other readers leave the files to be included as they
are, so that a source that is read without a fault includes the files written in its lines, whatever
was read before it.
-/

namespace Narrative

namespace Draft

variable {α β : Type}

/-- The reader leaves the files to be included as they are when it finds no fault. -/
def Keeps (b : Build α) : Prop :=
  ∀ d, Ends b d fun _ d' => d'.includes = d.includes

/-! ## Rules -/

/-- A reader that changes nothing. -/
theorem keeps_pure (a : α) : Keeps (pure a) :=
  fun _ => ends_pure rfl

/-- A reader that finds a fault. -/
theorem keeps_throw (e : SourceFault) : Keeps (throw e : Build α) :=
  fun _ => ends_throw e

/-- A reader and the one that follows it. -/
theorem Keeps.bind {b : Build β} {k : β → Build α} (hb : Keeps b) (hk : ∀ a, Keeps (k a)) :
    Keeps (b >>= k) :=
  fun d => (hb d).bind fun a d' hd' => hd' ▸ hk a d'

/-- A result and the reader that follows it. -/
theorem keeps_result_bind {r : Except SourceFault β} {k : β → Build α} (hk : ∀ b, Keeps (k b)) :
    Keeps (result r >>= k) :=
  fun d => ends_result_bind fun b _ => hk b d

/-- A reader that looks at the draft first. -/
theorem keeps_get {k : Draft → Build α} (hk : ∀ d, Keeps (k d)) : Keeps (get >>= k) :=
  fun d => ends_get (hk d d)

/-- A change that leaves the files to be included. -/
theorem keeps_modify {f : Draft → Draft} (hf : ∀ d, (f d).includes = d.includes) :
    Keeps (modify f) :=
  fun d => ends_modify (hf d)

/-- A reader that is left out under a condition. -/
theorem keeps_unless {p : Prop} [Decidable p] {b : Build Unit} (hb : Keeps b) :
    Keeps (do unless p do b) := by
  split
  · exact keeps_pure ()
  · exact hb

/-! ## Readers -/

/-- Adding a node. -/
theorem keeps_add (n : Node) : Keeps (add n) := by
  intro d
  rw [← bind_pure (add n)]
  exact ends_add_bind fun c _ => ends_pure rfl

/-- Hanging a node under another one. -/
theorem keeps_hang (p : NodeId) (n : Node) : Keeps (hang p n) := by
  apply keeps_get
  intro d
  apply (keeps_add _).bind
  intro i
  apply Keeps.bind
  · exact keeps_modify fun _ => rfl
  · exact fun _ => keeps_pure i

/-- Hanging a node under its next id. -/
theorem keeps_hangNext (p : NodeId) (kind : NodeKind) (text : List Char) :
    Keeps (hangNext p kind text) :=
  keeps_get fun _ => keeps_hang _ _

/-- Adding a line of text. -/
theorem keeps_addText (p : NodeId) (text : List Char) : Keeps (addText p text) := by
  unfold addText
  induction textParts text with
  | nil => exact keeps_pure ()
  | cons part parts ih =>
    apply Keeps.bind
    · exact (keeps_hangNext p .text part).bind fun _ => keeps_pure ()
    · exact fun _ => ih

/-- Going on elsewhere. -/
theorem keeps_moveTo (i : Option NodeId) : Keeps (moveTo i) :=
  keeps_modify fun _ => rfl

/-- Checking that every block is closed. -/
theorem keeps_checkClosed : Keeps checkClosed :=
  keeps_get fun _ => keeps_unless (keeps_throw _)

/-- Reading the header of a knot. -/
theorem keeps_readKnot (line : List Char) : Keeps (readKnot line) := by
  apply keeps_checkClosed.bind
  intro _
  apply keeps_result_bind
  rintro ⟨name, params⟩
  dsimp only
  split
  · exact keeps_throw _
  · apply keeps_get
    intro d
    exact (keeps_add _).bind fun _ => keeps_modify fun _ => rfl

/-- Reading the header of a stitch. -/
theorem keeps_readStitch (line : List Char) : Keeps (readStitch line) := by
  apply keeps_checkClosed.bind
  intro _
  apply keeps_result_bind
  rintro ⟨name, params⟩
  apply keeps_get
  intro d
  dsimp only
  split
  · exact keeps_throw _
  · exact (keeps_hang _ _).bind fun _ => keeps_moveTo _

/-- Reading the rest of a choice. -/
theorem keeps_finishChoice (i : NodeId) (c : ChoiceLine) : Keeps (finishChoice i c) :=
  (keeps_moveTo _).bind fun _ => keeps_unless (keeps_addText i c.body)

/-- Reading a choice. -/
theorem keeps_readChoice (marker : Char) (line : List Char) : Keeps (readChoice marker line) := by
  apply keeps_get
  intro d
  dsimp only
  split
  · exact keeps_throw _
  · apply keeps_result_bind
    intro c
    apply keeps_get
    intro d
    exact (keeps_hang _ _).bind fun i => keeps_finishChoice i c

/-- Reading a gather. -/
theorem keeps_readGather (line : List Char) : Keeps (readGather line) := by
  apply keeps_get
  intro d
  dsimp only
  split
  · exact keeps_throw _
  · apply keeps_result_bind
    rintro ⟨label, text⟩
    apply keeps_get
    intro d
    apply (keeps_hang _ _).bind
    intro i
    exact (keeps_moveTo _).bind fun _ => keeps_unless (keeps_addText i text)

/-- Reading a statement. -/
theorem keeps_readStatement (line : List Char) : Keeps (readStatement line) := by
  apply keeps_get
  intro d
  split
  · exact keeps_throw _
  · apply keeps_result_bind
    intro st
    exact (keeps_hangNext _ _ _).bind fun _ => keeps_pure ()

/-- Opening a block. -/
theorem keeps_openBlock (header : List Char) : Keeps (openBlock header) := by
  apply keeps_get
  intro d
  split
  · exact keeps_throw _
  · apply keeps_result_bind
    rintro ⟨mode, options⟩
    exact (keeps_hangNext _ _ _).bind fun _ => keeps_modify fun _ => rfl

/-- Reading a line outside of the blocks. -/
theorem keeps_readPlain (line : List Char) : Keeps (readPlain line) := by
  unfold readPlain
  split
  · exact keeps_readKnot _
  · exact keeps_readStitch _
  · exact keeps_readChoice _ _
  · exact keeps_readChoice _ _
  · split
    · exact keeps_readGather _
    · split
      · exact keeps_openBlock _
      · split
        · exact keeps_readStatement _
        · apply keeps_get
          intro d
          split
          · exact keeps_pure ()
          · exact keeps_addText _ _

/-- Closing a block. -/
theorem keeps_closeBlock : Keeps closeBlock := by
  apply keeps_modify
  intro d
  split <;> rfl

/-- Beginning an option of a block. -/
theorem keeps_startOption (block : NodeId) (mode : BlockMode) (body : List Char) :
    Keeps (startOption block mode body) :=
  keeps_modify fun _ => rfl

/-- Reading a line without its comment includes no file. -/
theorem keeps_readCode (line : List Char) : Keeps (readCode line) := by
  induction line using readCode.induct with
  | case1 =>
    rw [readCode]
    exact keeps_pure ()
  | case2 c rest ihclosing ihbody =>
    rw [readCode]
    apply keeps_get
    intro d
    split
    · exact keeps_readPlain _
    · split
      · exact ihclosing.bind fun _ => keeps_closeBlock
      · split
        · exact (keeps_startOption _ _ _).bind fun _ => keeps_unless ihbody
        · exact keeps_readPlain _

/-- Reading a comment includes no file. -/
theorem keeps_readComment (comment : List Char) : Keeps (readComment comment) := by
  apply keeps_get
  intro d
  split
  · exact keeps_pure ()
  · apply keeps_result_bind
    intro remark
    split
    · exact keeps_modify fun _ => rfl
    · exact (keeps_hangNext _ _ _).bind fun _ => keeps_pure ()
    · exact keeps_pure ()

/-! ## Lines and sources -/

variable {d : Draft}

/-- A line notes the file that it includes. -/
theorem includes_readLine (raw : List Char) :
    Ends (readLine raw) d fun _ d' =>
      d'.includes = d.includes ++ (included? (splitComment raw).1).toList := by
  unfold readLine
  dsimp only
  split
  · next file hfile =>
    rw [hfile]
    exact ends_modify rfl
  · next hnone =>
    rw [hnone, Option.toList_none, List.append_nil]
    refine Keeps.bind (keeps_readCode _) ?_ d
    intro _
    split
    · exact keeps_readComment _
    · exact keeps_pure ()

/-- The lines of a source note the files that they include, in order. -/
theorem includes_readLines (lines : List (List Char)) :
    Ends (readLines lines) d fun _ d' =>
      d'.includes = d.includes ++ lines.filterMap fun raw => included? (splitComment raw).1 := by
  induction lines generalizing d with
  | nil =>
    rw [List.filterMap_nil, List.append_nil]
    exact keeps_checkClosed d
  | cons raw rest ih =>
    apply ends_modify_bind
    refine Ends.bind (includes_readLine raw) ?_
    intro _ d₁ h₁ _ d₂ hrun
    rw [ih _ _ hrun, h₁, List.append_assoc, List.filterMap_cons]
    cases included? (splitComment raw).1 <;> rfl

end Draft

/-- A source includes the files that are written in its lines. -/
theorem Content.includes_read {c c' : Content} {file : String} {text : List Char} {source : Source}
    (h : c.read file text = (.ok source, c')) : source.includes = includedFiles text := by
  obtain ⟨d, -, rfl, hincludes⟩ := exists_draft_of_read h (Draft.includes_readLines _)
  exact hincludes

end Narrative
