import Mathlib.Logic.Relation
import Narrative.Proofs.Computation
import Narrative.Proofs.Content.Tree
import Narrative.Source.Load

/-!
# How reading grows content

A reader changes a draft in few ways. They are listed here once, each with what the reader has made
sure of before, and every reader is shown to take a chain of such steps. What holds of all steps
then holds of reading any source, also of one that stops at a fault.
-/

namespace Narrative

open Relation

namespace Draft

variable {α β : Type}

/-! ## Steps of reading -/

/-- A step of reading. -/
inductive Grow (d : Draft) : Draft → Prop
  /-- A line is counted, or a file to be included is noted. -/
  | note (line : Nat) (includes : List String) : Grow d { d with line, includes }
  /-- A section that hangs nowhere is added, and reading goes on inside it. Only a knot can be where
  the source starts. -/
  | root {n : Node} {c : Content} {start : Option NodeId} :
      d.blocks = [] → n.Bare → n.isTop = true → d.content.insert? n = some c →
      (start = d.start ∨ start = some d.content.size ∧ n.isKnot = true) →
      Grow d { d with content := c, current := some d.content.size, start }
  /-- A node inside which nothing is read is hung under the current container. -/
  | leaf {p : NodeId} {n : Node} {c : Content} :
      d.current = some p → n.Bare → n.isContainer = false →
      d.content.hang? p n = some c → Grow d { d with content := c }
  /-- A node is hung under the nearest container that can hold it, and reading goes on inside it.
  Blocks that are open can hold it. -/
  | branch {p : NodeId} {n : Node} {c : Content} {holds : Node → Bool} :
      d.nearest? holds = some p → (d.blocks = [] ∨ ∀ m : Node, m.isBlock = true → holds m = true) →
      n.Bare → (n.isStitch || n.isChoice || n.isGather) = true →
      d.content.hang? p n = some c →
      Grow d { d with content := c, current := some d.content.size }
  /-- A block is opened. -/
  | opening {p : NodeId} {n : Node} {c : Content} :
      d.current = some p → n.Bare → n.isBlock = true → d.content.hang? p n = some c →
      Grow d { d with
        content := c, current := some d.content.size, blocks := d.content.size :: d.blocks }
  /-- An option of the innermost open block begins. -/
  | option {block : NodeId} {blocks : List NodeId} (guard : Option String) :
      d.blocks = block :: blocks →
      Grow d { d with
        content := d.content.modify block (·.addOption guard), current := some block }
  /-- The innermost open block is closed. -/
  | close {block : NodeId} {blocks : List NodeId} :
      d.blocks = block :: blocks →
      Grow d { d with blocks, current := (d.content.node block).parent }
  /-- The background of the current container is declared. -/
  | background {p : NodeId} (name : String) :
      d.current = some p →
      Grow d { d with content := d.content.modify p ({ · with background := some name }) }

/-- A chain of steps. -/
def Grows : Draft → Draft → Prop :=
  ReflTransGen Grow

/-- Wherever a reader that goes on from `d` ends, steps lead there from `d₀`. When it finds no fault
its result satisfies `Q`. -/
def Reads (d₀ : Draft) (b : Build α) (d : Draft) (Q : α → Draft → Prop) : Prop :=
  ∀ r d', b d = (r, d') → d₀.Grows d' ∧ ∀ a, r = .ok a → Q a d'

/-- The only result that matters is that there is one. -/
def trivially {α : Type} : α → Draft → Prop :=
  fun _ _ => True

section Rules

variable {d₀ d : Draft} {Q : α → Draft → Prop} {R : β → Draft → Prop}

/-- A reader that changes nothing ends where the steps before it led. -/
theorem reads_pure {a : α} (hd : d₀.Grows d) (h : Q a d) : Reads d₀ (pure a : Build α) d Q := by
  intro r d' hrun
  cases hrun
  refine ⟨hd, ?_⟩
  rintro b ⟨⟩
  exact h

/-- A reader that finds a fault ends where the steps before it led. -/
theorem reads_throw (hd : d₀.Grows d) (e : SourceFault) :
    Reads d₀ (throw e : Build α) d Q := by
  intro r d' hrun
  cases hrun
  exact ⟨hd, fun _ h => by cases h⟩

/-- A result that is known changes nothing. -/
theorem reads_result_bind {r : Except SourceFault β} {k : β → Build α} (hd : d₀.Grows d)
    (hk : ∀ b, r = .ok b → Reads d₀ (k b) d Q) : Reads d₀ (result r >>= k) d Q := by
  cases r with
  | error e => exact reads_throw hd e
  | ok b => exact hk b rfl

/-- A reader that looks at the draft first. -/
theorem reads_get {k : Draft → Build α} (h : Reads d₀ (k d) d Q) :
    Reads d₀ (get >>= k) d Q := h

/-- A change that steps account for. -/
theorem reads_modify {Q : Unit → Draft → Prop} {f : Draft → Draft} (hd : d₀.Grows (f d))
    (h : Q () (f d)) : Reads d₀ (modify f : Build Unit) d Q := by
  intro r d' hrun
  cases hrun
  exact ⟨hd, fun _ _ => h⟩

/-- A change together with the reader that follows it, whose steps account for both. -/
theorem reads_modify_bind {f : Draft → Draft} {k : Unit → Build α}
    (h : Reads d₀ (k ()) (f d) Q) : Reads d₀ (modify f >>= k) d Q := h

/-- Steps that were taken before count, too. -/
theorem Reads.after {b : Build α} (hd : d₀.Grows d) (h : Reads d b d Q) : Reads d₀ b d Q := by
  intro r d' hrun
  obtain ⟨hgrows, hresult⟩ := h r d' hrun
  exact ⟨hd.trans hgrows, hresult⟩

/-- The steps of one reader follow those of another. -/
theorem Reads.bind {b : Build β} {f : β → Build α} (hb : Reads d₀ b d R)
    (hf : ∀ a d', R a d' → Reads d' (f a) d' Q) : Reads d₀ (b >>= f) d Q := by
  intro r d' hrun
  cases hfirst : b d with
  | mk r₁ d₁ =>
    obtain ⟨hgrows, hresult⟩ := hb r₁ d₁ hfirst
    rw [Trial.bind_apply, hfirst] at hrun
    cases r₁ with
    | error e =>
      cases hrun
      exact ⟨hgrows, fun _ h => by cases h⟩
    | ok a => exact (hf a d₁ (hresult a rfl)).after hgrows r d' hrun

end Rules

/-! ## Adding nodes -/

/-- A new node is bare if its options have no lines. -/
theorem bare_fresh (d : Draft) (id : String) (kind : NodeKind) (text : List Char)
    (hkind : ∀ mode options, kind = .block mode options → ∀ o ∈ options, o.lines = []) :
    (d.fresh id kind text).Bare where
  parent := rfl
  children := rfl
  lines := by
    intro o ho
    unfold Node.options at ho
    split at ho
    · next mode options heq => exact hkind mode options heq o ho
    · cases ho

/-- The node of a choice is bare. -/
theorem bare_choiceNode (d : Draft) (id : String) (repeatable : Bool) (level : Nat)
    (c : ChoiceLine) : (d.choiceNode id repeatable level c).Bare :=
  (bare_fresh d id (.choice repeatable c.conditions) c.display (by simp)).withLevel level

/-- The options in the header of a block have no lines. -/
theorem lines_eq_nil_of_readBlockHeader {header : List Char} {r : BlockMode × List BlockOption}
    (hr : readBlockHeader header = .ok r) : ∀ o ∈ r.2, o.lines = [] := by
  unfold readBlockHeader at hr
  split at hr
  · cases hr
    simp
  · split at hr
    · dsimp only at hr
      split at hr <;> cases hr <;> simp
    · cases hr

section Adding

variable {d : Draft} {Q : α → Draft → Prop}

/-- Adding a node changes the content only, and stops where the id is taken. -/
theorem add_apply (n : Node) (d : Draft) : add n d =
    match d.content.insert? n with
    | none => (.error (.duplicateId n.id), d)
    | some content => (.ok d.content.size, { d with content }) := by
  rw [add, Trial.get_bind_apply]
  cases d.content.insert? n <;> rfl

/-- Adding a node, and the reader that follows. -/
theorem reads_add_bind {n : Node} {k : NodeId → Build α}
    (h : ∀ c, d.content.insert? n = some c →
      Reads d (k d.content.size) { d with content := c } Q) : Reads d (add n >>= k) d Q := by
  intro r d' hrun
  rw [Trial.bind_apply, add_apply] at hrun
  cases hinsert : d.content.insert? n with
  | none =>
    rw [hinsert] at hrun
    cases hrun
    exact ⟨.refl, fun _ h => by cases h⟩
  | some c =>
    rw [hinsert] at hrun
    exact h c hinsert r d' hrun

/-- A node is hung under a node, with the level that it gets there. -/
theorem reads_hang_bind {p : NodeId} {n : Node} {k : NodeId → Build α}
    (h : ∀ level c, d.content.hang? p { n with level } = some c →
      Reads d (k d.content.size) { d with content := c } Q) : Reads d (hang p n >>= k) d Q := by
  rw [hang, bind_assoc]
  refine reads_get ?_
  simp only [bind_assoc]
  refine reads_add_bind fun c hinsert => ?_
  have hhang := congrArg (Option.map (·.attach p d.content.size)) hinsert
  exact reads_modify_bind (h _ _ hhang)

/-- A new node that is no container is bare. -/
theorem bare_leaf (d : Draft) (id : String) {kind : NodeKind} (text : List Char)
    (hkind : ∀ n : Node, n.kind = kind → n.isContainer = false) : (d.fresh id kind text).Bare :=
  bare_fresh d id kind text fun mode options heq => by
    have hblock := hkind ⟨"", "", 0, kind, "", none, [], 0, none⟩ rfl
    rw [heq] at hblock
    cases hblock

/-- A node inside which nothing is read is hung under the current container. -/
theorem reads_leaf {p : NodeId} {kind : NodeKind} (text : List Char) (hp : d.current = some p)
    (hkind : ∀ n : Node, n.kind = kind → n.isContainer = false) :
    Reads d (hangNext p kind text) d fun _ d' => d'.current = some p := by
  unfold hangNext
  refine reads_get ?_
  rw [← bind_pure (hang p _)]
  refine reads_hang_bind fun level c hhang => ?_
  have hbare := bare_leaf d (d.content.node p).nextChildId text hkind
  exact reads_pure (.single (.leaf hp (hbare.withLevel level) (hkind _ rfl) hhang)) hp

/-- Lines of text are hung under the current container. -/
theorem reads_addText {p : NodeId} (text : List Char) (hp : d.current = some p) :
    Reads d (addText p text) d trivially := by
  unfold addText
  induction textParts text generalizing d with
  | nil => exact reads_pure .refl trivial
  | cons part parts ih =>
    refine Reads.bind (R := fun _ d' => d'.current = some p) ?_ fun _ d' hd' => ih hd'
    refine Reads.bind (reads_leaf part hp fun n hn => ?_) fun _ _ hd' => reads_pure .refl hd'
    rw [Node.isContainer, hn]

end Adding

/-- Checking that every block is closed leaves the draft as it is. -/
theorem reads_checkClosed (d : Draft) :
    Reads d checkClosed d fun _ d' => d = d' ∧ d.blocks = [] := by
  refine reads_get ?_
  split
  · next hclosed => exact reads_pure .refl ⟨rfl, List.isEmpty_iff.1 hclosed⟩
  · exact reads_throw .refl _

/-! ## Sections, choices and gathers -/

/-- The node of a knot or function hangs nowhere, and only a knot can be where the source starts. -/
theorem bare_header (d : Draft) (isFunction : Option (List Char)) (params : List String)
    (name : List Char) (isPlaceholder : Bool) (n : Node)
    (hn : n = d.fresh (String.ofList name)
      (if isFunction.isSome then .function params else .knot params) name) :
    n.Bare ∧ n.isTop = true ∧
      ((if isFunction.isNone && isPlaceholder then some d.content.size else d.start) = d.start ∨
        (if isFunction.isNone && isPlaceholder then some d.content.size else d.start) =
          some d.content.size ∧ n.isKnot = true) := by
  subst hn
  cases isFunction with
  | some rest => exact ⟨bare_fresh d _ _ name (by simp), rfl, .inl rfl⟩
  | none =>
    refine ⟨bare_fresh d _ _ name (by simp), rfl, ?_⟩
    cases isPlaceholder with
    | false => exact .inl rfl
    | true => exact .inr ⟨rfl, rfl⟩

/-- The header of a knot is read by steps. -/
theorem reads_readKnot (d : Draft) (line : List Char) : Reads d (readKnot line) d trivially := by
  refine Reads.bind (reads_checkClosed d) ?_
  rintro _ _ ⟨rfl, hclosed⟩
  refine reads_result_bind .refl fun header _ => ?_
  obtain ⟨name, params⟩ := header
  dsimp only
  split
  · exact reads_throw .refl _
  · refine reads_get (reads_add_bind fun c hinsert => ?_)
    obtain ⟨hbare, htop, hstart⟩ := bare_header d _ params name _ _ rfl
    exact reads_modify (.single (.root hclosed hbare htop hinsert hstart)) trivial

/-- The header of a stitch is read by steps. -/
theorem reads_readStitch (d : Draft) (line : List Char) :
    Reads d (readStitch line) d trivially := by
  refine Reads.bind (reads_checkClosed d) ?_
  rintro _ _ ⟨rfl, hclosed⟩
  refine reads_result_bind .refl fun header _ => reads_get ?_
  dsimp only
  split
  · exact reads_throw .refl _
  · next knot hknot =>
    have hbare := bare_fresh d ((d.content.node knot).id ++ "." ++ String.ofList header.name)
      (.stitch header.params) header.name (by simp)
    refine reads_hang_bind fun level c hhang => reads_modify (.single ?_) trivial
    exact .branch hknot (.inl hclosed) ((hbare.withLevel 1).withLevel level) rfl hhang

/-- An open block can hold choices and gathers of every level. -/
theorem acceptsLevel_of_isBlock (level : Nat) (m : Node) (h : m.isBlock = true) :
    acceptsLevel level m = true := by
  unfold Node.isBlock at h
  unfold acceptsLevel Node.isChoice Node.isGather
  split at h
  · next hkind => simp [hkind]
  · cases h

/-- The played text of a choice is read into it. -/
theorem reads_body {d : Draft} {i : NodeId} (c : ChoiceLine) (hd : d.current = some i) :
    Reads d (do unless c.body.isEmpty do addText i c.body) d trivially := by
  split
  · exact reads_pure .refl trivial
  · exact reads_addText _ hd

/-- A choice is read by steps. -/
theorem reads_readChoice (d : Draft) (marker : Char) (line : List Char) :
    Reads d (readChoice marker line) d trivially := by
  unfold readChoice
  refine reads_get ?_
  dsimp only
  split
  · exact reads_throw .refl _
  · next parent hparent =>
    refine reads_result_bind .refl fun c _ => reads_get ?_
    refine reads_hang_bind fun level content hhang => reads_modify_bind ?_
    refine Reads.after (.single ?_) (reads_body c rfl)
    exact .branch hparent (.inr (acceptsLevel_of_isBlock _))
      ((bare_choiceNode ..).withLevel level) rfl hhang

/-- A choice that is read by itself is added first, and what is played when it is taken is read into
it. -/
theorem readDetached_cases {d d' : Draft} {line : List Char} {id : String}
    {r : Except SourceFault NodeId} (hrun : readDetached line id d = (r, d')) :
    d' = d ∨ ∃ n c, n.Bare ∧ n.isChoice = true ∧ n.id = id ∧ d.content.insert? n = some c ∧
      Grows { d with content := c, current := some d.content.size } d' := by
  unfold readDetached at hrun
  split at hrun
  · next marker rest =>
    dsimp only at hrun
    split at hrun
    · cases hread : ChoiceLine.read (stripMarkers marker (marker :: rest)).2 with
      | error e =>
        rw [hread] at hrun
        cases hrun
        exact .inl rfl
      | ok c =>
        let n := d.choiceNode id (marker == '+') (1 + (stripMarkers marker (marker :: rest)).1) c
        rw [hread] at hrun
        change (add n >>= fun i => finishChoice i c >>= fun _ => pure i) d = (r, d') at hrun
        cases hinsert : d.content.insert? n with
        | none =>
          rw [add, bind_assoc, Trial.get_bind_apply] at hrun
          simp only [hinsert] at hrun
          cases hrun
          exact .inl rfl
        | some content =>
          rw [add, bind_assoc, Trial.get_bind_apply] at hrun
          simp only [hinsert] at hrun
          refine .inr ⟨n, content, bare_choiceNode .., rfl, rfl, hinsert, ?_⟩
          have hreads : Reads { d with content, current := some d.content.size }
              (do (do unless c.body.isEmpty do addText d.content.size c.body)
                  pure d.content.size)
              { d with content, current := some d.content.size } trivially :=
            Reads.bind (reads_body c rfl) fun _ _ _ => reads_pure .refl trivial
          exact (hreads r d' hrun).1
    · cases hrun
      exact .inl rfl
  · cases hrun
    exact .inl rfl

/-- A gather is read by steps. -/
theorem reads_readGather (d : Draft) (line : List Char) :
    Reads d (readGather line) d trivially := by
  unfold readGather
  refine reads_get ?_
  dsimp only
  split
  · exact reads_throw .refl _
  · next parent hparent =>
    refine reads_result_bind .refl fun label _ => reads_get ?_
    have hbare := bare_fresh d (labelledId (d.content.node parent) label.1) .gather [] (by simp)
    refine reads_hang_bind fun level content hhang => reads_modify_bind ?_
    refine Reads.after (.single ?_) ?_
    · exact .branch hparent (.inr (acceptsLevel_of_isBlock _))
        ((hbare.withLevel _).withLevel level) rfl hhang
    · split
      · exact reads_pure .refl trivial
      · exact reads_addText _ rfl

/-! ## Statements, blocks and comments -/

/-- A statement is read by steps. -/
theorem reads_readStatement (d : Draft) (line : List Char) :
    Reads d (readStatement line) d trivially := by
  unfold readStatement
  refine reads_get ?_
  split
  · exact reads_throw .refl _
  · next parent hparent =>
    refine reads_result_bind .refl fun st _ => ?_
    refine Reads.bind (reads_leaf _ hparent fun n hn => ?_) fun _ _ _ => reads_pure .refl trivial
    rw [Node.isContainer, hn]

/-- A block is opened by steps. -/
theorem reads_openBlock (d : Draft) (header : List Char) :
    Reads d (openBlock header) d trivially := by
  unfold openBlock
  refine reads_get ?_
  dsimp only
  split
  · exact reads_throw .refl _
  · next parent hparent =>
    refine reads_result_bind .refl fun r hr => ?_
    have hbare := bare_fresh d (d.content.node parent).nextChildId (.block r.1 r.2) []
      fun mode options hblock => by
        cases hblock
        exact lines_eq_nil_of_readBlockHeader hr
    rw [hangNext, bind_assoc]
    refine reads_get (reads_hang_bind fun level content hhang => ?_)
    exact reads_modify (.single (.opening hparent (hbare.withLevel level) rfl hhang)) trivial

/-- An option of a block begins by steps. -/
theorem reads_startOption {d : Draft} {block : NodeId} {blocks : List NodeId} (mode : BlockMode)
    (body : List Char) (hblocks : d.blocks = block :: blocks) :
    Reads d (startOption block mode body) d trivially :=
  reads_modify (.single (.option _ hblocks)) trivial

/-- A block is closed by steps. -/
theorem reads_closeBlock (d : Draft) : Reads d closeBlock d trivially := by
  refine reads_modify ?_ trivial
  split
  · exact .refl
  · next block blocks hblocks => exact .single (.close hblocks)

/-- A line outside of the blocks is read by steps. -/
theorem reads_readPlain (d : Draft) (line : List Char) :
    Reads d (readPlain line) d trivially := by
  unfold readPlain
  split
  · exact reads_readKnot d _
  · exact reads_readStitch d _
  · exact reads_readChoice d _ _
  · exact reads_readChoice d _ _
  · split
    · exact reads_readGather d _
    · split
      · exact reads_openBlock d _
      · split
        · exact reads_readStatement d _
        · refine reads_get ?_
          split
          · exact reads_pure .refl trivial
          · next parent hparent => exact reads_addText _ hparent

/-- A line without its comment is read by steps. -/
theorem reads_readCode (d : Draft) (line : List Char) :
    Reads d (readCode line) d trivially := by
  induction line using readCode.induct generalizing d with
  | case1 =>
    rw [readCode]
    exact reads_pure .refl trivial
  | case2 c rest ihclosing ihbody =>
    rw [readCode]
    refine reads_get ?_
    split
    · exact reads_readPlain d _
    · next block blocks hblocks =>
      split
      · exact Reads.bind (ihclosing d) fun _ d₁ _ => reads_closeBlock d₁
      · split
        · refine Reads.bind (reads_startOption _ _ hblocks) fun _ d₁ _ => ?_
          split
          · exact reads_pure .refl trivial
          · exact ihbody d₁
        · exact reads_readPlain d _

/-- A comment is read by steps. -/
theorem reads_readComment (d : Draft) (comment : List Char) :
    Reads d (readComment comment) d trivially := by
  unfold readComment
  refine reads_get ?_
  split
  · exact reads_pure .refl trivial
  · next parent hparent =>
    refine reads_result_bind .refl fun r _ => ?_
    split
    · exact reads_modify (.single (.background _ hparent)) trivial
    · refine Reads.bind (reads_leaf _ hparent fun n hn => ?_) fun _ _ _ => reads_pure .refl trivial
      rw [Node.isContainer, hn]
    · exact reads_pure .refl trivial

/-! ## Lines and sources -/

/-- A line is read by steps. -/
theorem reads_readLine (d : Draft) (raw : List Char) : Reads d (readLine raw) d trivially := by
  unfold readLine
  split
  next code comment _ =>
  split
  · exact reads_modify (.single (.note _ _)) trivial
  · refine Reads.bind (reads_readCode d _) fun _ d₁ _ => ?_
    split
    · exact reads_readComment d₁ _
    · exact reads_pure .refl trivial

/-- Reading lines is a chain of steps. -/
theorem reads_readLines (d : Draft) (lines : List (List Char)) :
    Reads d (readLines lines) d trivially := by
  induction lines generalizing d with
  | nil =>
    intro r d' hrun
    exact ⟨(reads_checkClosed d r d' hrun).1, fun _ _ => trivial⟩
  | cons raw rest ih =>
    refine reads_modify_bind (Reads.after (.single (.note _ _)) ?_)
    exact Reads.bind (reads_readLine _ raw) fun _ d₁ _ => ih d₁

end Draft

namespace Content

open Draft

/-- A source is read by a chain of steps, also when a fault stops the reading. -/
theorem grows_of_read {c c' : Content} {file : String} {text : List Char}
    {r : Except SourceError Source} (hread : c.read file text = (r, c')) :
    ∃ d, ({ content := c, file } : Draft).Grows d ∧ d.content = c' ∧
      ∀ source, r = .ok source → source.start = d.start := by
  unfold Content.read Draft.locate at hread
  cases hrun : Draft.readLines (Text.lines text) { content := c, file } with
  | mk r' d =>
    obtain ⟨hgrows, -⟩ := Draft.reads_readLines _ _ r' d hrun
    simp only [ExceptT.run, hrun] at hread
    cases r' with
    | ok _ =>
      cases hread
      refine ⟨d, hgrows, rfl, ?_⟩
      rintro source ⟨⟩
      rfl
    | error e =>
      cases hread
      exact ⟨d, hgrows, rfl, fun _ h => by cases h⟩

/-- A choice that is read by itself is the first node that is added, and the rest is read into it by
a chain of steps, also when a fault stops the reading. -/
theorem grows_of_readDetached {c c' : Content} {line : List Char} {id file : String}
    {r : Except SourceError NodeId} (hread : c.readDetached line id file = (r, c')) :
    c' = c ∨ ∃ n inserted d, n.Bare ∧ n.isChoice = true ∧ n.id = id ∧
      c.insert? n = some inserted ∧ d.content = c' ∧
      Draft.Grows { content := inserted, file, line := 1, current := some c.size } d := by
  unfold Content.readDetached Draft.locate at hread
  cases hrun : Draft.readDetached (Text.trim line) id { content := c, file, line := 1 } with
  | mk r' d =>
    simp only [ExceptT.run, hrun] at hread
    have hcontent : d.content = c' := by cases r' <;> cases hread <;> rfl
    obtain rfl | ⟨n, inserted, hbare, hchoice, hid, hinsert, hgrows⟩ := readDetached_cases hrun
    · exact .inl hcontent.symm
    · exact .inr ⟨n, inserted, d, hbare, hchoice, hid, hinsert, hcontent, hgrows⟩

end Content

end Narrative
