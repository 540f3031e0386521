import Narrative.Proofs.Source.Following

/-!
# Nodes hang where the weave says

A reader that finds no fault takes the steps that the weave reads off its lines, so that the nodes
of a source that is read without a fault are those of its weave, each in its place.
-/

namespace Narrative

namespace Draft

open Weave

/-! ## Readers that find no fault -/

variable {α β : Type} {d : Draft} {Q : α → Draft → Prop} {R : β → Draft → Prop}

/-- What holds at the end of a reader that goes on from `d`, when it finds no fault. -/
def Ends (b : Build α) (d : Draft) (Q : α → Draft → Prop) : Prop :=
  ∀ a d', b d = (.ok a, d') → Q a d'

/-- A reader that changes nothing ends where it began. -/
theorem ends_pure {a : α} (h : Q a d) : Ends (pure a) d Q := by
  intro b d' hrun
  cases hrun
  exact h

/-- Of a reader that finds a fault nothing is to be shown. -/
theorem ends_throw (e : SourceFault) : Ends (throw e) d Q := by
  intro a d' hrun
  cases hrun

/-- A reader may look at the draft first. -/
theorem ends_get {k : Draft → Build α} (h : Ends (k d) d Q) : Ends (get >>= k) d Q := h

/-- A change of the draft. -/
theorem ends_modify {f : Draft → Draft} {Q : Unit → Draft → Prop} (h : Q () (f d)) :
    Ends (modify f) d Q := by
  intro a d' hrun
  cases hrun
  exact h

/-- A change of the draft, and the reader that follows. -/
theorem ends_modify_bind {f : Draft → Draft} {k : Unit → Build α} (h : Ends (k ()) (f d) Q) :
    Ends (modify f >>= k) d Q := h

/-- A reader begins where the one before it ended. -/
theorem Ends.bind {b : Build β} {k : β → Build α} (hb : Ends b d R)
    (hk : ∀ a d', R a d' → Ends (k a) d' Q) : Ends (b >>= k) d Q := by
  intro a d' hrun
  rw [Trial.bind_apply] at hrun
  cases hfirst : b d with
  | mk r d₁ =>
    rw [hfirst] at hrun
    cases r with
    | error e => cases hrun
    | ok a₁ => exact hk a₁ d₁ (hb a₁ d₁ hfirst) a d' hrun

/-- A result, and the reader that follows. -/
theorem ends_result_bind {r : Except SourceFault β} {k : β → Build α}
    (hk : ∀ b, r = .ok b → Ends (k b) d Q) : Ends (result r >>= k) d Q := by
  cases r with
  | error e => exact ends_throw e
  | ok b => exact hk b rfl

/-- Adding a node, and the reader that follows. -/
theorem ends_add_bind {n : Node} {k : NodeId → Build α}
    (h : ∀ c, d.content.insert? n = some c →
      Ends (k d.content.size) { d with content := c } Q) : Ends (add n >>= k) d Q := by
  intro a d' hrun
  rw [add, bind_assoc, Trial.get_bind_apply] at hrun
  cases hinsert : d.content.insert? n with
  | none =>
    simp only [hinsert] at hrun
    cases hrun
  | some c =>
    simp only [hinsert] at hrun
    exact h c hinsert a d' hrun

/-- A node that is hung keeps a level of its own. -/
theorem ends_hang_bind {p : NodeId} {n : Node} {k : NodeId → Build α}
    (h : ∀ level c, (n.level ≠ 0 → level = n.level) →
      d.content.hang? p { n with level } = some c →
      Ends (k d.content.size) { d with content := c } Q) : Ends (hang p n >>= k) d Q := by
  rw [hang, bind_assoc]
  refine ends_get ?_
  simp only [bind_assoc]
  refine ends_add_bind fun c hinsert => ?_
  have hhang := congrArg (Option.map (·.attach p d.content.size)) hinsert
  exact ends_modify_bind (h _ _ (fun hlevel => if_neg hlevel) hhang)

end Draft

namespace Weave

open Draft

variable {base : Nat} {m : Weave} {d : Draft}

/-- Entries are taken one after the other. -/
theorem enterAll_append (m : Weave) (entries more : List Entry) :
    m.enterAll (entries ++ more) = (m.enterAll entries).enterAll more :=
  List.foldl_append

section Readers

variable (h : Follows base m d)

include h

/-- A node inside which nothing is read is hung under the current container. -/
theorem Follows.ends_leaf {p : NodeId} {kind : NodeKind} (text : List Char)
    (hp : d.current = some p) (hkind : ∀ n : Node, n.kind = kind → n.isContainer = false) :
    Ends (hangNext p kind text) d fun _ d' =>
      d'.current = some p ∧ Follows base (m.enter .leaf) d' := by
  unfold hangNext
  refine ends_get ?_
  rw [← bind_pure (Draft.hang p _)]
  refine ends_hang_bind fun level c _ hhang => ends_pure ⟨hp, ?_⟩
  exact h.leaf hp ((bare_leaf d _ text hkind).withLevel level) (hkind _ rfl) hhang

/-- Lines of text are hung under the current container. -/
theorem Follows.ends_addText {p : NodeId} (text : List Char) (hp : d.current = some p) :
    Ends (addText p text) d fun _ d' => Follows base (m.enterAll (Entry.ofText text)) d' := by
  unfold addText Entry.ofText
  induction textParts text generalizing m d with
  | nil => exact ends_pure h
  | cons part parts ih =>
    refine Ends.bind (R := fun _ d' => d'.current = some p ∧ Follows base (m.enter .leaf) d') ?_
      fun _ d' hd' => ih hd'.2 hd'.1
    refine Ends.bind (h.ends_leaf part hp fun n hn => ?_) fun _ _ hd' => ends_pure hd'
    rw [Node.isContainer, hn]

/-- The text behind a choice or a gather is read into it. -/
theorem Follows.ends_body {p : NodeId} (text : List Char) (hp : d.current = some p) :
    Ends (do unless text.isEmpty do addText p text) d fun _ d' =>
      Follows base (m.enterAll (Entry.ofBody text)) d' := by
  unfold Entry.ofBody
  split
  · exact ends_pure h
  · exact h.ends_addText text hp

omit h in
/-- Checking that every block is closed leaves the draft. -/
theorem ends_checkClosed (d : Draft) : Ends checkClosed d fun _ d' => d = d' ∧ d.blocks = [] := by
  refine ends_get ?_
  split
  · next hclosed => exact ends_pure ⟨rfl, List.isEmpty_iff.1 hclosed⟩
  · exact ends_throw _

/-- The header of a knot is followed. -/
theorem Follows.ends_readKnot (line : List Char) :
    Ends (readKnot line) d fun _ d' => Follows base (m.enter .knot) d' := by
  refine Ends.bind (ends_checkClosed d) ?_
  rintro _ _ ⟨rfl, hclosed⟩
  refine ends_result_bind fun header _ => ?_
  obtain ⟨name, params⟩ := header
  dsimp only
  split
  · exact ends_throw _
  · refine ends_get (ends_add_bind fun c hinsert => ends_modify ?_)
    obtain ⟨hbare, htop, hstart⟩ := bare_header d _ params name _ _ rfl
    exact h.knot hclosed hbare htop hinsert hstart

/-- The header of a stitch is followed. -/
theorem Follows.ends_readStitch (line : List Char) :
    Ends (readStitch line) d fun _ d' => Follows base (m.enter .stitch) d' := by
  refine Ends.bind (ends_checkClosed d) ?_
  rintro _ _ ⟨rfl, hclosed⟩
  refine ends_result_bind fun header _ => ends_get ?_
  dsimp only
  split
  · exact ends_throw _
  · next knot hknot =>
    have hbare := bare_fresh d ((d.content.node knot).id ++ "." ++ String.ofList header.name)
      (.stitch header.params) header.name (by simp)
    refine ends_hang_bind fun level c _ hhang => ends_modify ?_
    exact h.stitch hknot hclosed ((hbare.withLevel 1).withLevel level) rfl hhang

/-- A choice is followed. -/
theorem Follows.ends_readChoice (marker : Char) (line : List Char) :
    Ends (readChoice marker line) d fun _ d' =>
      Follows base (m.enterAll (Entry.ofChoice marker line)) d' := by
  unfold readChoice Entry.ofChoice
  refine ends_get ?_
  dsimp only
  split
  · exact ends_throw _
  · next parent hparent =>
    refine ends_result_bind fun c hc => ends_get ?_
    rw [hc]
    refine ends_hang_bind fun level content hlevel hhang => ends_modify_bind ?_
    obtain rfl : level = 1 + (stripMarkers marker line).1 := hlevel (by simp [choiceNode])
    have hbare := bare_choiceNode d (labelledId (d.content.node parent) c.label) (marker == '+')
      (1 + (stripMarkers marker line).1) c
    exact (h.strand hparent hbare rfl rfl hhang).ends_body c.body rfl

/-- A gather is followed. -/
theorem Follows.ends_readGather (line : List Char) :
    Ends (readGather line) d fun _ d' => Follows base (m.enterAll (Entry.ofGather line)) d' := by
  unfold readGather Entry.ofGather
  refine ends_get ?_
  dsimp only
  split
  · exact ends_throw _
  · next parent hparent =>
    refine ends_result_bind fun label hlabel => ends_get ?_
    rw [hlabel]
    refine ends_hang_bind fun level content hlevel hhang => ends_modify_bind ?_
    obtain rfl : level = 1 + (stripMarkers '-' line).1 := hlevel (by simp)
    have hbare := bare_fresh d (labelledId (d.content.node parent) label.1) .gather [] (by simp)
    exact (h.strand hparent (hbare.withLevel _) rfl rfl hhang).ends_body label.2 rfl

/-- A statement is followed. -/
theorem Follows.ends_readStatement (line : List Char) :
    Ends (readStatement line) d fun _ d' => Follows base (m.enter .leaf) d' := by
  unfold readStatement
  refine ends_get ?_
  split
  · exact ends_throw _
  · next parent hparent =>
    refine ends_result_bind fun st _ => ?_
    refine Ends.bind (h.ends_leaf _ hparent fun n hn => ?_) fun _ _ hd' => ends_pure hd'.2
    rw [Node.isContainer, hn]

/-- The header of a block is followed. -/
theorem Follows.ends_openBlock (header : List Char) :
    Ends (openBlock header) d fun _ d' =>
      Follows base (m.enterAll (Entry.ofHeader header)) d' := by
  unfold openBlock Entry.ofHeader
  refine ends_get ?_
  dsimp only
  split
  · exact ends_throw _
  · next parent hparent =>
    refine ends_result_bind fun r hr => ?_
    rw [hr]
    have hbare := bare_fresh d (d.content.node parent).nextChildId (.block r.1 r.2) []
      fun mode options hblock => by
        cases hblock
        exact lines_eq_nil_of_readBlockHeader hr
    rw [hangNext, bind_assoc]
    refine ends_get (ends_hang_bind fun level content _ hhang => ends_modify ?_)
    exact h.open hparent (hbare.withLevel level) rfl hhang

/-- In front of the first section there is nothing to hang under. -/
theorem Follows.enter_leaf_eq (hnone : d.current = none) : m.enter .leaf = m := by
  have hcurrent := h.current
  rw [hnone] at hcurrent
  have hscopes := List.head?_eq_none_iff.1 (Option.map_eq_none_iff.1 hcurrent.symm)
  rw [enter, hscopes]

/-- Before the first knot a text enters nothing. -/
theorem Follows.enterAll_ofText_eq (text : List Char) (hnone : d.current = none) :
    m.enterAll (Entry.ofText text) = m := by
  unfold Entry.ofText
  induction textParts text with
  | nil => rfl
  | cons part parts ih =>
    rw [List.map_cons, enterAll, List.foldl_cons, h.enter_leaf_eq hnone]
    exact ih

/-- A line outside of the blocks is followed. -/
theorem Follows.ends_readPlain (line : List Char) :
    Ends (readPlain line) d fun _ d' => Follows base (m.enterAll (Entry.ofPlain line)) d' := by
  unfold readPlain
  split
  · exact h.ends_readKnot _
  · next tail hne =>
    rw [Entry.ofPlain.eq_2 tail hne]
    exact h.ends_readStitch _
  · exact h.ends_readChoice _ _
  · exact h.ends_readChoice _ _
  · next hknot hstitch hchoice hsticky =>
    rw [Entry.ofPlain.eq_5 line hknot hstitch hchoice hsticky]
    split
    · exact h.ends_readGather _
    · split
      · exact h.ends_openBlock _
      · split
        · exact h.ends_readStatement _
        · refine ends_get ?_
          split
          · next hnone =>
            rw [h.enterAll_ofText_eq line hnone]
            exact ends_pure h
          · next parent hparent => exact h.ends_addText _ hparent

/-- Nothing is closed that is not open. -/
theorem Follows.ends_closeBlock :
    Ends closeBlock d fun _ d' => Follows base (m.enter .close) d' := by
  refine ends_modify ?_
  split
  · next hblocks => rwa [h.close_eq hblocks]
  · next block blocks hblocks => exact h.close hblocks

/-- The beginning of an option is followed. -/
theorem Follows.ends_startOption {block : NodeId} {blocks : List NodeId}
    (hblocks : d.blocks = block :: blocks) (body : List Char) :
    Ends (startOption block (d.blockMode block) body) d fun _ d' =>
      Follows base (m.enter .option) d' :=
  ends_modify (h.option hblocks _)

omit h in
/-- An option belongs to the block that is open. -/
theorem mode?_option (m : Weave) : (m.enter .option).mode? = m.mode? := by
  rw [enter]
  split
  · rfl
  · next s outer hscopes =>
    rw [mode?, mode?, hscopes]
    rfl

omit h in
/-- A line without its comment is read as the weave enters it. -/
theorem Follows.ends_readCode (h : Follows base m d) (line : List Char) :
    Ends (readCode line) d fun _ d' =>
      Follows base (m.enterAll (Entry.ofCode m.mode? line)) d' := by
  induction line using readCode.induct generalizing m d with
  | case1 =>
    rw [readCode, Entry.ofCode.eq_1]
    exact ends_pure h
  | case2 c rest ihclosing ihbody =>
    rw [readCode]
    refine ends_get ?_
    have hmode := h.mode?_eq
    cases hblocks : d.blocks with
    | nil =>
      rw [hblocks, List.head?_nil, Option.map_none] at hmode
      rw [hmode, Entry.ofCode]
      exact h.ends_readPlain _
    | cons block blocks =>
      rw [hblocks, List.head?_cons, Option.map_some] at hmode
      rw [hmode, Entry.ofCode, ← hmode]
      dsimp only
      split
      · rw [enterAll_append]
        exact Ends.bind (ihclosing h) fun _ d₁ h₁ => h₁.ends_closeBlock
      · split
        · refine Ends.bind (h.ends_startOption hblocks _) fun _ d₁ h₁ => ?_
          split
          · exact ends_pure h₁
          · rw [← m.mode?_option]
            exact ihbody h₁
        · exact h.ends_readPlain _

/-- The comment of a line is hung under the current container. -/
theorem Follows.ends_readComment (comment : List Char) :
    Ends (readComment comment) d fun _ d' =>
      Follows base (m.enterAll (Entry.ofComment comment)) d' := by
  unfold readComment Entry.ofComment
  refine ends_get ?_
  split
  · next hnone =>
    refine ends_pure ?_
    split
    · change Follows base (m.enter .leaf) d
      rwa [h.enter_leaf_eq hnone]
    · exact h
  · next parent hparent =>
    refine ends_result_bind fun r hr => ?_
    rw [hr]
    split
    · exact ends_modify (h.background hparent _)
    · refine Ends.bind (h.ends_leaf _ hparent fun n hn => ?_) fun _ _ hd' => ends_pure hd'.2
      rw [Node.isContainer, hn]
    · exact ends_pure h

/-- A line is read as the weave reads it. -/
theorem Follows.ends_readLine (raw : List Char) :
    Ends (Draft.readLine raw) d fun _ d' => Follows base (m.readLine raw) d' := by
  unfold Draft.readLine readLine Entry.ofLine
  obtain ⟨code, comment⟩ := splitComment raw
  dsimp only
  cases included? code with
  | some file => exact ends_modify (h.note d.line _)
  | none =>
    dsimp only
    rw [enterAll_append]
    refine Ends.bind (h.ends_readCode code) fun _ d₁ h₁ => ?_
    cases comment with
    | none => exact ends_pure h₁
    | some comment => exact h₁.ends_readComment comment

omit h in
/-- Lines are read as the weave reads them. -/
theorem Follows.ends_readLines (h : Follows base m d) (lines : List (List Char)) :
    Ends (readLines lines) d fun _ d' => Follows base (lines.foldl readLine m) d' := by
  induction lines generalizing m d with
  | nil =>
    intro a d' hrun
    obtain ⟨rfl, -⟩ := ends_checkClosed d a d' hrun
    exact h
  | cons raw rest ih =>
    refine ends_modify_bind ?_
    exact Ends.bind ((h.note (d.line + 1) d.includes).ends_readLine raw) fun _ d₁ h₁ => ih h₁

end Readers

end Weave

namespace Content

open Weave

/-- A source that is read without a fault is what the draft holds at the end of its lines. -/
theorem exists_draft_of_read {c c' : Content} {file : String} {text : List Char} {source : Source}
    {Q : Unit → Draft → Prop} (h : c.read file text = (.ok source, c'))
    (hlines : Draft.Ends (Draft.readLines (Text.lines text)) { content := c, file } Q) :
    ∃ d : Draft, d.content = c' ∧ source = ⟨d.start, d.includes⟩ ∧ Q () d := by
  unfold Content.read Draft.locate at h
  cases hrun : Draft.readLines (Text.lines text) { content := c, file } with
  | mk r d =>
    simp only [ExceptT.run, hrun] at h
    cases r with
    | error e => cases h
    | ok a =>
      cases h
      exact ⟨d, rfl, rfl, hlines a d hrun⟩

/-- A source is read from an empty weave on. -/
theorem Grown.follows {c : Content} (hc : c.Grown) (file : String) :
    Follows c.size { next := c.size } ({ content := c, file } : Draft) where
  grown := grown_draft hc.sound hc.tree file 0
  next := rfl
  size := rfl
  current := rfl
  blocks := rfl
  nested := trivial
  placed := nofun
  deeper _ _ hi hp := absurd (lt_size_of_parent hp) (Nat.not_lt.2 hi)

/-- A source that is read without a fault leaves the content of its weave. -/
theorem Grown.follows_of_read {c c' : Content} (hc : c.Grown) {file : String} {text : List Char}
    {source : Source} (hread : c.read file text = (.ok source, c')) :
    ∃ d : Draft, d.content = c' ∧ Follows c.size (Weave.ofText c.size text) d := by
  obtain ⟨d, hcontent, -, hfollows⟩ :=
    exists_draft_of_read hread ((hc.follows file).ends_readLines (Text.lines text))
  exact ⟨d, hcontent, hfollows⟩

/-- The nodes of a source that is read without a fault hang where its weave says. What is written in
an option of an open block hangs in that option and in no other one, and a choice or gather under a
choice or gather has a larger level. -/
theorem weave_of_read (readings : List Reading) {file : String} {text : List Char}
    {source : Source} {c c' : Content} {m : Weave} (hc : c = filled readings)
    (hm : m = Weave.ofText c.size text) (hread : c.read file text = (.ok source, c')) :
    c'.size = c.size + m.places.length ∧
    (∀ (i : Nat) (place : Weave.Place), m.places[i]? = some place →
      (c'.node (c.size + i)).parent = place.parent ∧
      ∀ b k : Nat, (b, k) ∈ place.within → (c'.node b).isBlock = true ∧
        (∃ j ∈ c'.lineage (c.size + i), j ∈ (c'.node b).childrenAt k) ∧
        ∀ j ∈ c'.lineage (c.size + i), ∀ k', j ∈ (c'.node b).childrenAt k' → k' = k) ∧
    ∀ i p : Nat, c.size ≤ i → (c'.node i).parent = some p → (c'.node i).isStrand = true →
      (c'.node p).isStrand = true → (c'.node p).level < (c'.node i).level := by
  subst hc hm
  obtain ⟨d, rfl, hfollows⟩ := (filed_filled readings).grown.follows_of_read hread
  have htree := hfollows.grown.tree
  refine ⟨hfollows.size, fun i place hi => ?_, hfollows.deeper⟩
  obtain ⟨hparent, hinside⟩ := hfollows.placed i place hi
  refine ⟨hparent, fun b k hmem => ?_⟩
  obtain ⟨hblock, j, hj, hoption⟩ := hinside (b, k) hmem
  refine ⟨hblock, ⟨j, hj, hoption⟩, fun j' hj' k' hoption' => ?_⟩
  have hparents {j k : Nat} (h : j ∈ (d.content.node b).childrenAt k) :
      (d.content.node j).parent = some b :=
    htree.parent_of_listed (Node.mem_listed_of_mem_childrenAt h)
  have hsame := htree.descends.eq_of_parent_eq hj' hj (hparents hoption') (hparents hoption)
  exact htree.option_eq hblock (hsame ▸ hoption') hoption

/-- A source with choices of two levels, a block with a choice in it, and a gather. -/
def harbour : List Char :=
  ("== harbour\n* [Wait]\n* * [Long]\nStill here.\n" ++
    "\x7b 1:\nFog.\n+ [Listen]\n- else:\nSun.\n\x7d\nA gull.\n- A boat comes.\n* [Sail]\n").toList

/-- The text of the second option hangs in the block, which hangs under the deeper choice; the
gather closes both choices. -/
theorem weave_of_read_harbour : ∃ (source : Source) (c : Content),
    (filled []).read "harbour" harbour = (.ok source, c) ∧ c.size = 12 ∧
    (c.node 7).parent = some 4 ∧ (c.node 4).parent = some 2 ∧ (c.node 9).parent = some 0 ∧
    (c.node 4).isBlock = true ∧ (∃ j ∈ c.lineage 7, j ∈ (c.node 4).childrenAt 1) ∧
    (c.node 1).level < (c.node 2).level := by
  have hread : ((filled []).read "harbour" harbour).1.toOption.isSome = true ∧
      (((filled []).read "harbour" harbour).2.node 1).isStrand = true ∧
      (((filled []).read "harbour" harbour).2.node 2).isStrand = true := by decide +kernel
  have hplaces : (Weave.ofText (filled []).size harbour).places.length = 12 ∧
      (Weave.ofText (filled []).size harbour).places[2]? = some ⟨some 1, []⟩ ∧
      (Weave.ofText (filled []).size harbour).places[4]? = some ⟨some 2, []⟩ ∧
      (Weave.ofText (filled []).size harbour).places[7]? = some ⟨some 4, [(4, 1)]⟩ ∧
      (Weave.ofText (filled []).size harbour).places[9]? = some ⟨some 0, []⟩ := by decide +kernel
  obtain ⟨hlength, h₂, h₄, h₇, h₉⟩ := hplaces
  have hempty : (filled []).size = 0 := rfl
  cases hrun : (filled []).read "harbour" harbour with
  | mk r c =>
    rw [hrun] at hread
    obtain ⟨hok, hstrand₁, hstrand₂⟩ := hread
    cases r with
    | error e => cases hok
    | ok source =>
      obtain ⟨hsize, hplaced, hdeeper⟩ := weave_of_read [] rfl rfl hrun
      rw [hempty] at hsize hplaced hdeeper
      simp only [Nat.zero_add] at hsize hplaced
      obtain ⟨hparent₇, hinside⟩ := hplaced 7 _ h₇
      obtain ⟨hblock, hoption, -⟩ := hinside 4 1 List.mem_cons_self
      have hparent₂ := (hplaced 2 _ h₂).1
      exact ⟨source, c, rfl, hsize.trans hlength, hparent₇, (hplaced 4 _ h₄).1,
        (hplaced 9 _ h₉).1, hblock, hoption,
        hdeeper 2 1 (Nat.zero_le 2) hparent₂ hstrand₂ hstrand₁⟩

end Content

end Narrative
