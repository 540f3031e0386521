import Narrative.Proofs.Source.Interleaving
import Narrative.Proofs.Text

/-!
# Reading with comments and without them

A source and the same source without its comments are read in step: where both readers find no
fault, what was read from the source is what was read without its comments, and comments in between.
A comment may stand in any line, unless it would begin the first option of a block.
-/

namespace Narrative

open Weave

/-! ## Comments for the author -/

/-- Whether a comment makes a node: one that is shown to the author, once or each time. -/
def isAuthoring (comment : List Char) : Bool :=
  match Remark.read comment with
  | .ok (.comment ..) => true
  | _ => false

/-- Whether no option of the innermost open block has begun. -/
def Weave.isUnbegun (m : Weave) : Bool :=
  m.scopes.head?.any fun s => s.mode?.isSome && s.options == 0

/-- Whether the comment of a line is none for the author, or begins no option of a block. -/
def Weave.isDiscreet (m : Weave) (raw : List Char) : Bool :=
  let (code, comment) := splitComment raw
  (included? code).isSome || !comment.any isAuthoring ||
    !(m.enterAll (Entry.ofCode m.mode? code)).isUnbegun

/-- Whether no comment in some lines begins an option of a block. -/
def Weave.areDiscreet (m : Weave) : List (List Char) → Bool
  | [] => true
  | raw :: rest => m.isDiscreet raw && (m.readLine raw).areDiscreet rest

/-- A line without its comment for the author. -/
def uncommented (raw : List Char) : List Char :=
  match splitComment raw with
  | (code, some comment) => if isAuthoring comment then code else Text.trim raw
  | (code, none) => code

/-- The line says the same, and its comment is there unless it is for the author. -/
theorem splitComment_uncommented (raw : List Char) : splitComment (uncommented raw) =
    ((splitComment raw).1, (splitComment raw).2.filter (!isAuthoring ·)) := by
  have htrimmed : splitComment (Text.trim raw) = splitComment raw := by
    rw [splitComment, splitComment, Text.trim_trim]
  unfold uncommented
  cases hcut : Text.cutAt? ['/', '/'] (Text.trim raw) with
  | none =>
    have hraw : splitComment raw = (Text.trim raw, none) := by
      rw [splitComment]
      simp only [hcut]
    rw [hraw]
    exact htrimmed.trans hraw
  | some pieces =>
    obtain ⟨code, comment⟩ := pieces
    have hraw : splitComment raw = (Text.trim code, some (Text.trim comment)) := by
      rw [splitComment]
      simp only [hcut]
    rw [hraw]
    dsimp only
    cases hauthoring : isAuthoring (Text.trim comment) with
    | false =>
      rw [if_neg Bool.false_ne_true, htrimmed, hraw, Option.filter_some_pos (by rw [hauthoring]; rfl)]
    | true =>
      have hslashes : ¬ ['/', '/'] <:+: Text.trim code := fun hin =>
        (Text.prefix_of_cutAt? (by simp) hcut).2 (hin.trans (Text.trim_infix code))
      rw [if_pos rfl, Option.filter_some_neg (by simp [hauthoring]), splitComment, Text.trim_trim]
      simp only [Text.cutAt?_eq_none hslashes]

namespace Draft

variable {α β γ δ : Type}

/-! ## Readers in step -/

/-- What holds at the end of two readers that go on from `d` and from `e`, when both find no fault. -/
def Together (b : Build α) (d : Draft) (b' : Build β) (e : Draft)
    (Q : α → Draft → β → Draft → Prop) : Prop :=
  ∀ a d' a' e', b d = (.ok a, d') → b' e = (.ok a', e') → Q a d' a' e'

section Rules

variable {d e : Draft} {b : Build α} {b' : Build β} {Q : α → Draft → β → Draft → Prop}
  {R : γ → Draft → δ → Draft → Prop}

/-- Two readers that change nothing keep what holds of their drafts. -/
theorem together_pure {a : α} {a' : β} (h : Q a d a' e) : Together (pure a) d (pure a') e Q := by
  rintro a d' a' e' ⟨⟩ ⟨⟩
  exact h

/-- Of a reader that finds a fault nothing is to be shown. -/
theorem together_throw (fault : SourceFault) : Together (throw fault) d b' e Q :=
  fun _ _ _ _ hrun => by cases hrun

/-- Each reader goes on from its own draft. -/
theorem together_get {k : Draft → Build α} {k' : Draft → Build β} (h : Together (k d) d (k' e) e Q) :
    Together (get >>= k) d (get >>= k') e Q := h

/-- Two changes of the drafts. -/
theorem together_modify {f f' : Draft → Draft} {Q : Unit → Draft → Unit → Draft → Prop}
    (h : Q () (f d) () (f' e)) : Together (modify f) d (modify f') e Q := by
  rintro a d' a' e' ⟨⟩ ⟨⟩
  exact h

/-- Two changes of the drafts, and what follows them. -/
theorem together_modify_bind {f f' : Draft → Draft} {k : Unit → Build α} {k' : Unit → Build β}
    (h : Together (k ()) (f d) (k' ()) (f' e) Q) :
    Together (modify f >>= k) d (modify f' >>= k') e Q := h

/-- Readers in step may be followed by readers in step. -/
theorem Together.bind {x : Build γ} {x' : Build δ} {k : γ → Build α} {k' : δ → Build β}
    (hx : Together x d x' e R)
    (hk : ∀ a d' a' e', R a d' a' e' → Together (k a) d' (k' a') e' Q) :
    Together (x >>= k) d (x' >>= k') e Q := by
  intro a d' a' e' hrun hrun'
  rw [Trial.bind_apply] at hrun hrun'
  cases hfirst : x d with
  | mk r d₁ =>
    cases hfirst' : x' e with
    | mk r' e₁ =>
      rw [hfirst] at hrun
      rw [hfirst'] at hrun'
      cases r with
      | error fault => cases hrun
      | ok c =>
        cases r' with
        | error fault => cases hrun'
        | ok c' => exact hk c d₁ c' e₁ (hx _ _ _ _ hfirst hfirst') a d' a' e' hrun hrun'

/-- Readers that get the same result go on in step. -/
theorem together_result_bind {r : Except SourceFault γ} {k : γ → Build α} {k' : γ → Build β}
    (hk : ∀ c, r = .ok c → Together (k c) d (k' c) e Q) :
    Together (result r >>= k) d (result r >>= k') e Q := by
  cases r with
  | error fault => exact together_throw fault
  | ok c => exact hk c rfl

/-- What holds at the end of the first reader holds, too. -/
theorem Together.left {S : α → Draft → Prop} (h : Together b d b' e Q) (hb : Ends b d S) :
    Together b d b' e fun a d' a' e' => Q a d' a' e' ∧ S a d' :=
  fun a d' a' e' hrun hrun' => ⟨h a d' a' e' hrun hrun', hb a d' hrun⟩

/-- A draft that grows stays well grown. -/
theorem grown_of_grows {d' : Draft} (h : d.Grown) (hgrows : d.Grows d') : d'.Grown := by
  induction hgrows with
  | refl => exact h
  | tail _ hgrow ih => exact ih.grow hgrow

/-- The second reader takes steps of reading. -/
theorem Together.right {S : β → Draft → Prop} (h : Together b d b' e Q) (he : e.Grown)
    (hb' : Reads e b' e S) :
    Together b d b' e fun a d' a' e' => Q a d' a' e' ∧ e'.Grown ∧ S a' e' := by
  intro a d' a' e' hrun hrun'
  obtain ⟨hgrows, hresult⟩ := hb' _ e' hrun'
  exact ⟨h a d' a' e' hrun hrun', grown_of_grows he hgrows, hresult a' rfl⟩

/-- One reader does nothing. -/
theorem together_of_ends {a : β} (h : Ends b d fun x d' => Q x d' a e) :
    Together b d (pure a) e Q := by
  rintro x d' a' e' hrun ⟨⟩
  exact h x d' hrun

/-- Both readers add a node. -/
theorem together_add_bind {n n' : Node} {k : NodeId → Build α} {k' : NodeId → Build β}
    (h : ∀ c c', d.content.insert? n = some c → e.content.insert? n' = some c' →
      Together (k d.content.size) { d with content := c } (k' e.content.size)
        { e with content := c' } Q) :
    Together (add n >>= k) d (add n' >>= k') e Q := by
  have hadd (n : Node) (d : Draft) : Ends (add n) d fun i d' =>
      ∃ c, d.content.insert? n = some c ∧ i = d.content.size ∧ d' = { d with content := c } := by
    rw [← bind_pure (add n)]
    exact ends_add_bind fun c hinsert => ends_pure ⟨c, hinsert, rfl, rfl⟩
  refine Together.bind (fun _ _ _ _ hrun hrun' => And.intro (hadd n d _ _ hrun)
    (hadd n' e _ _ hrun')) ?_
  rintro _ _ _ _ ⟨⟨c, hinsert, rfl, rfl⟩, c', hinsert', rfl, rfl⟩
  exact h c c' hinsert hinsert'

/-- The level that a node gets under a node. -/
def levelUnder (d : Draft) (p : NodeId) (n : Node) : Nat :=
  if n.level = 0 then (d.content.node p).level else n.level

/-- A node that is hung under another one gets the level of that one, if it has none of its own. -/
theorem ends_hang (p : NodeId) (n : Node) (d : Draft) : Ends (hang p n) d fun i d' =>
    ∃ c, d.content.hang? p { n with level := d.levelUnder p n } = some c ∧ i = d.content.size ∧
      d' = { d with content := c } := by
  unfold hang
  refine ends_get (ends_add_bind fun c hinsert => ends_modify_bind (ends_pure ⟨_, ?_, rfl, rfl⟩))
  exact congrArg (Option.map (·.attach p d.content.size)) hinsert

/-- Both readers hang a node under another one. -/
theorem together_hang_bind {p p' : NodeId} {n n' : Node} {k : NodeId → Build α}
    {k' : NodeId → Build β}
    (h : ∀ c c', d.content.hang? p { n with level := d.levelUnder p n } = some c →
      e.content.hang? p' { n' with level := e.levelUnder p' n' } = some c' →
      Together (k d.content.size) { d with content := c } (k' e.content.size)
        { e with content := c' } Q) :
    Together (hang p n >>= k) d (hang p' n' >>= k') e Q := by
  refine Together.bind (fun _ _ _ _ hrun hrun' => And.intro (ends_hang p n d _ _ hrun)
    (ends_hang p' n' e _ _ hrun')) ?_
  rintro _ _ _ _ ⟨⟨c, hhang, rfl, rfl⟩, c', hhang', rfl, rfl⟩
  exact h c c' hhang hhang'

end Rules

/-! ## Drafts with comments in between -/

/-- The draft `d` has read what the draft `e` has read, and comments in between. -/
structure Annotates (d e : Draft) : Prop where
  /-- So has the content. -/
  content : d.content.Annotates e.content
  /-- The same line is read. -/
  line : d.line = e.line
  /-- Reading goes on inside the same container. -/
  current : d.current = e.current.map d.content.kept
  /-- The same blocks are open. -/
  blocks : d.blocks = e.blocks.map d.content.kept

/-- A node that is read with comments is one that is read without them. -/
theorem resembles_fresh {d e : Draft} (hline : d.line = e.line) (id id' : String) (kind : NodeKind)
    (text : List Char) : (d.fresh id kind text).Resembles (e.fresh id' kind text) :=
  ⟨rfl, hline, rfl, rfl, rfl⟩

namespace Annotates

variable {base : NodeId} {m : Weave} {d e : Draft} (h : d.Annotates e) (he : e.Grown)

include h

/-- Nodes that resemble each other get the same level. -/
theorem levelUnder_eq (p : NodeId) {n n' : Node} (hresembles : n.Resembles n') :
    d.levelUnder (d.content.kept p) n = e.levelUnder p n' := by
  unfold levelUnder
  rw [hresembles.level, ← (h.content.node p).level]
  rfl

include he in
/-- The same node that is no comment is hung under the same node. -/
theorem hang {p : Nat} (hp : p < e.content.size) {n n' : Node} {c c' : Content}
    (hbare : n.Bare) (hbare' : n'.Bare) (hresembles : n.Resembles n')
    (hcomment : n.isComment = false)
    (hid : d.content.SameName e.content (some p) n.id n'.id)
    (hhang : d.content.hang? (d.content.kept p)
      { n with level := d.levelUnder (d.content.kept p) n } = some c)
    (hhang' : e.content.hang? p { n' with level := e.levelUnder p n' } = some c') :
    c.Annotates c' ∧ c.kept = d.content.kept :=
  h.content.hang? he.sound.content hp (hbare.withLevel _) (hbare'.withLevel _)
    (hresembles.withLevel (h.levelUnder_eq p hresembles)) hcomment hid hhang hhang'

section Content

variable {c c' : Content} (hc : c.Annotates c' ∧ c.kept = d.content.kept)

include hc

/-- Reading goes on inside the same container. -/
theorem inside : ({ d with content := c } : Draft).Annotates { e with content := c' } := by
  obtain ⟨hcontent, hkept⟩ := hc
  refine ⟨hcontent, h.line, ?_, ?_⟩
  · change d.current = e.current.map c.kept
    rw [hkept, h.current]
  · change d.blocks = e.blocks.map c.kept
    rw [hkept, h.blocks]

/-- Reading goes on inside the new node, which may open a block or start the source. -/
theorem into {blocks blocks' : List NodeId} (hblocks : blocks = blocks'.map d.content.kept)
    (start start' : Option NodeId) :
    ({ d with content := c, current := some d.content.size, blocks, start } : Draft).Annotates
      { e with content := c', current := some e.content.size, blocks := blocks', start := start' } := by
  obtain ⟨hcontent, hkept⟩ := hc
  refine ⟨hcontent, h.line, ?_, ?_⟩
  · change some d.content.size = some (c.kept e.content.size)
    rw [hkept, h.content.kept_size]
  · change blocks = blocks'.map c.kept
    rw [hkept, hblocks]

end Content

/-! ## Readers of lines -/

section Readers

include he

/-- A node inside which nothing is read is hung under the current container. -/
theorem together_leaf {p : NodeId} {kind : NodeKind} (text : List Char) (hp : e.current = some p)
    (hkind : ∀ n : Node, n.kind = kind → n.isContainer = false ∧ n.isComment = false) :
    Together (hangNext (d.content.kept p) kind text) d (hangNext p kind text) e fun _ d' _ e' =>
      d'.Annotates e' ∧ d'.content.kept = d.content.kept := by
  unfold hangNext
  refine together_get ?_
  rw [← bind_pure (Draft.hang (d.content.kept p) _), ← bind_pure (Draft.hang p _)]
  refine together_hang_bind fun c c' hhang hhang' => together_pure ?_
  have hc := h.hang he (he.sound.current hp) (bare_leaf d _ text fun n hn => (hkind n hn).1)
    (bare_leaf e _ text fun n hn => (hkind n hn).1) (resembles_fresh h.line _ _ kind text)
    (hkind _ rfl).2 (.inl ⟨endsInNumber_nextChildId _, endsInNumber_nextChildId _⟩) hhang hhang'
  exact ⟨h.inside hc, hc.2⟩

/-- Lines of text are hung under the current container. -/
theorem together_addText {p : NodeId} (text : List Char) (hp : e.current = some p) :
    Together (addText (d.content.kept p) text) d (addText p text) e fun _ d' _ e' =>
      d'.Annotates e' := by
  unfold addText
  generalize hq : d.content.kept p = q
  induction textParts text generalizing d e with
  | nil => exact together_pure h
  | cons part parts ih =>
    have hleaf {n : Node} (hn : n.kind = .text) : n.isContainer = false ∧ n.isComment = false := by
      rw [Node.isContainer, Node.isComment, hn]
      exact ⟨rfl, rfl⟩
    refine Together.bind (R := fun _ d' _ e' => (d'.Annotates e' ∧ d'.content.kept p = q) ∧
      e'.Grown ∧ e'.current = some p) ?_ fun _ d' _ e' hd' => ih hd'.1.1 hd'.2.1 hd'.2.2 hd'.1.2
    subst hq
    refine Together.bind ((h.together_leaf he part hp fun n => hleaf).right he
      (reads_leaf part hp fun n hn => (hleaf hn).1)) ?_
    rintro _ d' _ e' ⟨⟨hd', hkept⟩, he'⟩
    exact together_pure ⟨⟨hd', congrFun hkept p⟩, he'⟩

/-- The text behind a choice or a gather is read into it. -/
theorem together_body {p : NodeId} (text : List Char) (hp : e.current = some p) :
    Together (do unless text.isEmpty do addText (d.content.kept p) text) d
      (do unless text.isEmpty do addText p text) e fun _ d' _ e' => d'.Annotates e' := by
  split
  · exact together_pure h
  · exact h.together_addText he text hp

omit h he in
/-- Both readers check that every block is closed. -/
theorem together_checkClosed (d e : Draft) :
    Together checkClosed d checkClosed e fun _ d' _ e' =>
      d = d' ∧ e = e' ∧ d.blocks = [] ∧ e.blocks = [] := by
  intro a d' a' e' hrun hrun'
  obtain ⟨rfl, hclosed⟩ := ends_checkClosed d a d' hrun
  obtain ⟨rfl, hclosed'⟩ := ends_checkClosed e a' e' hrun'
  exact ⟨rfl, rfl, hclosed, hclosed'⟩

/-- The header of a knot is read in step. -/
theorem together_readKnot {line : List Char} (hproper : ∀ name ∈ knotName? line, IsProper name) :
    Together (readKnot line) d (readKnot line) e fun _ d' _ e' => d'.Annotates e' := by
  refine Together.bind (together_checkClosed d e) ?_
  rintro _ _ _ _ ⟨rfl, rfl, hclosed, hclosed'⟩
  refine together_result_bind fun header hheader => ?_
  obtain ⟨name, params⟩ := header
  dsimp only
  split
  · exact together_throw _
  · refine together_get (together_add_bind fun c c' hinsert hinsert' => together_modify ?_)
    have hname : IsProper name := by
      refine hproper name ?_
      rw [knotName?, headerName?, hheader]
      rfl
    obtain ⟨hbare, -, -⟩ := bare_header d _ params name false _ rfl
    obtain ⟨hbare', -, -⟩ := bare_header e _ params name false _ rfl
    have hc := h.content.insert? he.sound.content hbare hbare'
      (resembles_fresh h.line _ _ _ name) ?_ (.inr ⟨name, hname, rfl, rfl⟩) hinsert hinsert'
    · exact h.into hc h.blocks _ _
    · unfold Node.isComment fresh
      dsimp only
      split
      · next heq => split at heq <;> cases heq
      · rfl

omit he in
/-- The nearest open node of a kind is the same for both readers. -/
theorem nearest?_eq (hd : d.Grown) (he : e.Grown) {p : Node → Bool}
    (hp : ∀ i, p (d.content.node (d.content.kept i)) = p (e.content.node i)) :
    d.nearest? p = (e.nearest? p).map d.content.kept := by
  rw [nearest?, nearest?, h.current]
  cases e.current with
  | none => rfl
  | some i =>
    rw [Option.map_some, Option.bind_some, Option.bind_some,
      h.content.lineage hd.tree.descends he.tree.descends, List.find?_map]
    exact congrArg (Option.map _) (List.find?_congr fun j _ => hp j)

omit he in
/-- A node may hold stitches for both readers, or for none. -/
theorem holdsStitches_eq (i : NodeId) :
    holdsStitches (d.content.node (d.content.kept i)) = holdsStitches (e.content.node i) := by
  have hcopies := h.content.node i
  rw [holdsStitches, holdsStitches, ← hcopies.isKnot, ← hcopies.isFunction, Node.isKnot_without,
    Node.isFunction_without]

omit he in
/-- A node accepts a level for both readers, or for none. -/
theorem acceptsLevel_eq (level : Nat) (i : NodeId) :
    acceptsLevel level (d.content.node (d.content.kept i)) =
      acceptsLevel level (e.content.node i) := by
  have hcopies := h.content.node i
  rw [acceptsLevel, acceptsLevel, ← hcopies.isChoice, ← hcopies.isGather, ← hcopies.level,
    Node.isChoice_without, Node.isGather_without]
  rfl

/-- The header of a stitch is read in step. -/
theorem together_readStitch (hd : Follows base m d) {line : List Char}
    (hproper : ∀ x ∈ (do return ⟨some (← m.knot), ← headerName? (SectionHeader.body line)⟩ :
      Option Naming), IsProper x.name) :
    Together (readStitch line) d (readStitch line) e fun _ d' _ e' => d'.Annotates e' := by
  refine Together.bind (together_checkClosed d e) ?_
  rintro _ _ _ _ ⟨rfl, rfl, hclosed, -⟩
  refine together_result_bind fun header hheader => together_get ?_
  have hsame := h.nearest?_eq hd.grown he h.holdsStitches_eq
  rw [hsame]
  cases hknot : e.nearest? holdsStitches with
  | none => exact together_throw _
  | some knot =>
    rw [hknot] at hsame
    have hname : IsProper header.name := by
      rw [hd.knot_eq hsame hclosed, headerName?, hheader] at hproper
      exact hproper _ rfl
    have hbare (d : Draft) (id : String) := bare_fresh d id (.stitch header.params) header.name
      (by simp)
    refine together_hang_bind fun c c' hhang hhang' => together_modify ?_
    have hc := h.hang he (he.sound.lt_of_nearest? hknot) ((hbare d _).withLevel 1)
      ((hbare e _).withLevel 1) ((resembles_fresh h.line _ _ _ header.name).withLevel rfl) rfl
      (.inr ⟨header.name, hname, rfl, rfl⟩) hhang hhang'
    exact h.into hc h.blocks _ _

omit h he in
/-- A label gives the same name, and without a label the node has none. -/
theorem sameName_labelledId (hd : Follows base m d) {level : Nat} {p : NodeId}
    (hp : d.weaveParent? level = some (d.content.kept p)) {label : Option (List Char)}
    (hproper : ∀ x ∈ m.labelNaming? level label, IsProper x.name) :
    d.content.SameName e.content (some p)
      (labelledId (d.content.node (d.content.kept p)) label)
      (labelledId (e.content.node p) label) := by
  cases label with
  | none => exact .inl ⟨endsInNumber_nextChildId _, endsInNumber_nextChildId _⟩
  | some name =>
    obtain ⟨s, outer, hscopes, -⟩ := hd.exists_closing hp
    refine .inr ⟨name, hproper ⟨some (s.closing level).top, name⟩ ?_, rfl, rfl⟩
    rw [labelNaming?, hscopes]
    rfl

/-- A choice or gather is hung where its level is accepted, and its text is read into it. -/
theorem together_strand {level : Nat} {p : NodeId} {n n' : Node}
    (hp : e.weaveParent? level = some p) (hbare : n.Bare) (hbare' : n'.Bare)
    (hstrand : n.isStrand = true) (hresembles : n.Resembles n')
    (hid : d.content.SameName e.content (some p) n.id n'.id) (text : List Char) :
    Together
      (Draft.hang (d.content.kept p) n >>= fun i => moveTo (some i) >>= fun _ => do
        unless text.isEmpty do addText i text) d
      (Draft.hang p n' >>= fun i => moveTo (some i) >>= fun _ => do
        unless text.isEmpty do addText i text) e fun _ d' _ e' => d'.Annotates e' := by
  refine together_hang_bind fun c c' hhang hhang' => together_modify_bind ?_
  have hcomment : n.isComment = false := by
    cases hn : n.isComment with
    | false => rfl
    | true =>
      rw [Node.isStrand, Node.isChoice_of_isComment hn, Node.isGather_of_isComment hn] at hstrand
      cases hstrand
  have hstrand' : n'.isStrand = true := by
    rw [← hstrand]
    unfold Node.isStrand Node.isChoice Node.isGather
    rw [hresembles.kind]
  have hc := h.hang he (he.sound.lt_of_nearest? hp) hbare hbare' hresembles hcomment hid hhang
    hhang'
  have hgrown := he.grow (.branch hp (.inr (acceptsLevel_of_isBlock level)) (hbare'.withLevel _)
    (by
      change (n'.isStitch || n'.isChoice || n'.isGather) = true
      rw [Bool.or_assoc, ← Node.isStrand, hstrand', Bool.or_true]) hhang')
  have hinto := h.into hc h.blocks d.start e.start
  have hkept : c.kept e.content.size = d.content.size := by
    rw [hc.2, h.content.kept_size]
  have hbody := hinto.together_body hgrown text rfl
  rw [hkept] at hbody
  exact hbody

/-- A choice is read in step. -/
theorem together_readChoice (hd : Follows base m d) {marker : Char} {line : List Char}
    (hproper : ∀ x ∈ m.choiceNaming? marker line, IsProper x.name) :
    Together (readChoice marker line) d (readChoice marker line) e fun _ d' _ e' =>
      d'.Annotates e' := by
  unfold readChoice
  refine together_get ?_
  have hsame := h.nearest?_eq hd.grown he (h.acceptsLevel_eq (1 + (stripMarkers marker line).1))
  dsimp only
  rw [weaveParent?, weaveParent?, hsame]
  cases hparent : e.nearest? (acceptsLevel (1 + (stripMarkers marker line).1)) with
  | none => exact together_throw _
  | some parent =>
    refine together_result_bind fun c hread => together_get ?_
    rw [hparent] at hsame
    have hlabel : ∀ x ∈ m.labelNaming? (1 + (stripMarkers marker line).1) c.label,
        IsProper x.name := by
      rw [choiceNaming?] at hproper
      dsimp only at hproper
      rwa [hread] at hproper
    exact h.together_strand he hparent (bare_choiceNode ..) (bare_choiceNode ..) rfl
      ((resembles_fresh h.line _ _ _ c.display).withLevel rfl) (sameName_labelledId hd hsame hlabel)
      c.body

/-- A gather is read in step. -/
theorem together_readGather (hd : Follows base m d) {line : List Char}
    (hproper : ∀ x ∈ m.gatherNaming? line, IsProper x.name) :
    Together (readGather line) d (readGather line) e fun _ d' _ e' => d'.Annotates e' := by
  unfold readGather
  refine together_get ?_
  have hsame := h.nearest?_eq hd.grown he (h.acceptsLevel_eq (1 + (stripMarkers '-' line).1))
  dsimp only
  rw [weaveParent?, weaveParent?, hsame]
  cases hparent : e.nearest? (acceptsLevel (1 + (stripMarkers '-' line).1)) with
  | none => exact together_throw _
  | some parent =>
    refine together_result_bind fun label hread => together_get ?_
    rw [hparent] at hsame
    have hlabel : ∀ x ∈ m.labelNaming? (1 + (stripMarkers '-' line).1) label.1,
        IsProper x.name := by
      rw [gatherNaming?] at hproper
      dsimp only at hproper
      rwa [hread] at hproper
    have hbare (d : Draft) (id : String) := bare_fresh d id .gather [] (by simp)
    exact h.together_strand he hparent ((hbare d _).withLevel _) ((hbare e _).withLevel _) rfl
      ((resembles_fresh h.line _ _ _ []).withLevel rfl) (sameName_labelledId hd hsame hlabel)
      label.2

/-- A statement is read in step. -/
theorem together_readStatement (line : List Char) :
    Together (readStatement line) d (readStatement line) e fun _ d' _ e' => d'.Annotates e' := by
  unfold readStatement
  refine together_get ?_
  rw [h.current]
  cases hparent : e.current with
  | none => exact together_throw _
  | some parent =>
    refine together_result_bind fun st _ => ?_
    refine Together.bind (h.together_leaf he line hparent fun n hn => ?_)
      fun _ _ _ _ hd' => together_pure hd'.1
    rw [Node.isContainer, Node.isComment, hn]
    exact ⟨rfl, rfl⟩

/-- A block is opened in step. -/
theorem together_openBlock (header : List Char) :
    Together (openBlock header) d (openBlock header) e fun _ d' _ e' => d'.Annotates e' := by
  unfold openBlock
  refine together_get ?_
  rw [h.current]
  cases hparent : e.current with
  | none => exact together_throw _
  | some parent =>
    refine together_result_bind fun r hr => ?_
    have hbare (d : Draft) (id : String) := bare_fresh d id (.block r.1 r.2) []
      fun mode options hblock => by
        cases hblock
        exact lines_eq_nil_of_readBlockHeader hr
    obtain ⟨mode, options⟩ := r
    dsimp only
    rw [hangNext, hangNext, bind_assoc, bind_assoc]
    refine together_get (together_hang_bind fun c c' hhang hhang' => together_modify ?_)
    have hc := h.hang he (he.sound.current hparent) (hbare d _) (hbare e _)
      (resembles_fresh h.line _ _ _ []) rfl
      (.inl ⟨endsInNumber_nextChildId _, endsInNumber_nextChildId _⟩) hhang hhang'
    refine h.into hc ?_ _ _
    rw [List.map_cons, h.content.kept_size, h.blocks]

/-- A line outside of the blocks is read in step. -/
theorem together_readPlain (hd : Follows base m d) {line : List Char}
    (hproper : ∀ x ∈ m.plainNaming? line, IsProper x.name) :
    Together (readPlain line) d (readPlain line) e fun _ d' _ e' => d'.Annotates e' := by
  unfold readPlain
  split
  · refine h.together_readKnot he fun name hname => hproper ⟨none, name⟩ ?_
    exact Option.mem_map.2 ⟨name, hname, rfl⟩
  · next tail hne =>
    rw [plainNaming?.eq_2 m tail hne] at hproper
    exact h.together_readStitch he hd hproper
  · exact h.together_readChoice he hd hproper
  · exact h.together_readChoice he hd hproper
  · next hknot hstitch hchoice hsticky =>
    rw [plainNaming?.eq_5 m line hknot hstitch hchoice hsticky] at hproper
    split
    · next hgather =>
      rw [if_pos hgather] at hproper
      exact h.together_readGather he hd hproper
    · split
      · exact h.together_openBlock he _
      · split
        · exact h.together_readStatement he _
        · refine together_get ?_
          rw [h.current]
          cases hparent : e.current with
          | none => exact together_pure h
          | some parent => exact h.together_addText he _ hparent

omit he in
/-- A block has the same mode for both readers. -/
theorem blockMode_eq (block : NodeId) :
    d.blockMode (d.content.kept block) = e.blockMode block := by
  have hkind := (h.content.node block).kind
  unfold blockMode
  cases hblock : (e.content.node block).kind with
  | block mode options =>
    rw [hblock] at hkind
    obtain ⟨list, hlist, -⟩ := Node.kind_without_eq_block.1 hkind
    rw [hlist]
  | _ =>
    rw [hblock] at hkind
    split
    · next mode list hlist =>
      rw [Node.without, hlist] at hkind
      cases hkind
    · rfl

omit he in
/-- A block is closed in step. -/
theorem together_closeBlock :
    Together closeBlock d closeBlock e fun _ d' _ e' => d'.Annotates e' := by
  refine together_modify ?_
  have hblocks := h.blocks
  cases hopen : e.blocks with
  | nil =>
    rw [hopen] at hblocks
    rw [hblocks]
    exact h
  | cons block blocks =>
    rw [hopen] at hblocks
    rw [hblocks]
    exact ⟨h.content, h.line, h.content.parent block, rfl⟩

/-- An option of a block begins in step. -/
theorem together_startOption (block : NodeId) (body : List Char) :
    Together (startOption (d.content.kept block) (d.blockMode (d.content.kept block)) body) d
      (startOption block (e.blockMode block) body) e fun _ d' _ e' => d'.Annotates e' := by
  rw [h.blockMode_eq]
  refine together_modify ?_
  obtain ⟨hcontent, hkept⟩ := h.content.modify he.sound.content block
    (Node.prolongs_addOption · _) (fun n => (Node.alike_addOption n _).isComment_eq)
    (fun _ _ hcopies => hcopies.addOption
      (if e.blockMode block = .conditional then optionGuard body else none))
  refine ⟨hcontent, h.line, ?_, ?_⟩
  · rw [Option.map_some, hkept]
  · rw [hkept, h.blocks]

/-- A line without its comment is read. -/
theorem together_readCode (hd : Follows base m d) {line : List Char}
    (hproper : ∀ x ∈ m.codeNaming? line, IsProper x.name) :
    Together (readCode line) d (readCode line) e fun _ d' _ e' => d'.Annotates e' := by
  induction line using readCode.induct generalizing m d e with
  | case1 =>
    rw [readCode]
    exact together_pure h
  | case2 c rest ihclosing ihbody =>
    rw [readCode]
    refine together_get ?_
    have hmode := hd.mode?_eq
    have hsame := h.blocks
    cases hblocks : e.blocks with
    | nil =>
      rw [hblocks, List.map_nil] at hsame
      rw [hsame]
      rw [hsame, List.head?_nil, Option.map_none] at hmode
      rw [codeNaming?, hmode] at hproper
      exact h.together_readPlain he hd hproper
    | cons block blocks =>
      rw [hblocks, List.map_cons] at hsame
      rw [hsame]
      rw [hsame, List.head?_cons, Option.map_some] at hmode
      rw [codeNaming?, hmode] at hproper
      dsimp only at hproper ⊢
      rw [← h.blockMode_eq]
      split
      · next hcloses =>
        rw [if_pos hcloses] at hproper
        exact Together.bind (ihclosing h he hd hproper) fun _ _ _ _ hd' => hd'.together_closeBlock
      · next hcloses =>
        rw [if_neg hcloses] at hproper
        split
        · next hbegins =>
          rw [if_pos hbegins] at hproper
          have hstart := h.together_startOption he block (Text.trim rest)
          rw [← h.blockMode_eq] at hstart
          refine Together.bind ((hstart.left (hd.ends_startOption hsame _)).right he
            (reads_startOption _ _ hblocks)) ?_
          rintro _ d' _ e' ⟨⟨hd', hfollows⟩, he', -⟩
          split
          · exact together_pure hd'
          · next hsequence =>
            rw [if_neg hsequence] at hproper
            exact ihbody hd' he' hfollows hproper
        · next hbegins =>
          rw [if_neg hbegins] at hproper
          exact h.together_readPlain he hd hproper

/-! ## Comments -/

/-- A comment that is not for the author is read with the others and without them. -/
theorem together_readComment {comment : List Char} (hsilent : isAuthoring comment = false) :
    Together (readComment comment) d (readComment comment) e fun _ d' _ e' => d'.Annotates e' := by
  unfold readComment
  refine together_get ?_
  rw [h.current]
  cases hparent : e.current with
  | none => exact together_pure h
  | some parent =>
    refine together_result_bind fun r hr => ?_
    cases r with
    | background name =>
      refine together_modify ?_
      obtain ⟨hcontent, hkept⟩ := h.content.modify he.sound.content parent
        (f := fun n => { n with background := some name })
        (fun n => ⟨rfl, rfl, rfl, rfl, rfl, fun _ => List.prefix_refl _⟩) (fun _ => rfl)
        fun _ _ hcopies => ⟨hcopies.kind, hcopies.line, hcopies.text, hcopies.level, rfl,
          hcopies.parent, hcopies.children⟩
      refine ⟨hcontent, h.line, ?_, ?_⟩
      · rw [hkept, hparent, ← hparent, ← h.current]
      · rw [hkept, h.blocks]
    | comment once conditions text =>
      rw [isAuthoring, hr] at hsilent
      cases hsilent
    | silent => exact together_pure h

omit h he in
/-- Where an option of the innermost block has begun, the current container is no block without
options. -/
theorem options_ne_nil (hd : Follows base m d) (hbegun : m.isUnbegun = false) {p : NodeId}
    (hp : d.current = some p) (hblock : (d.content.node p).isBlock = true) :
    (d.content.node p).options ≠ [] := by
  obtain ⟨s, outer, hscopes, rfl⟩ := hd.exists_scope hp
  have hnested := hd.nested
  rw [hscopes] at hnested
  have hopens := hnested.1
  have htop : s.top = s.owner := by
    cases hstack : s.stack with
    | nil => rw [Scope.top, hstack, topOf]
    | cons entry rest =>
      have hstrand := (hopens.stack.mem (hstack ▸ List.mem_cons_self)).1
      rw [Scope.top, hstack, topOf] at hblock
      rw [Node.isStrand_of_isBlock hblock] at hstrand
      cases hstrand
  rw [htop] at hblock ⊢
  cases hmode : s.mode? with
  | none =>
    rw [hopens.unblocked hmode] at hblock
    cases hblock
  | some mode =>
    obtain ⟨-, options, hkind, hlength⟩ := hopens.block mode hmode
    rw [Node.options, hkind]
    rintro rfl
    rw [isUnbegun, hscopes, List.head?_cons, Option.any_some, hmode, ← hlength] at hbegun
    cases hbegun

/-- A comment for the author is read, or is not there. -/
theorem ends_readComment (hd : Follows base m d) (hbegun : m.isUnbegun = false)
    {comment : List Char} (hauthoring : isAuthoring comment = true) :
    Ends (readComment comment) d fun _ d' => d'.Annotates e := by
  unfold readComment
  refine ends_get ?_
  have hcurrent := h.current
  rw [hcurrent]
  cases hparent : e.current with
  | none => exact ends_pure h
  | some parent =>
    rw [hparent, Option.map_some] at hcurrent
    refine ends_result_bind fun r hr => ?_
    rw [isAuthoring, hr] at hauthoring
    cases r with
    | background name | silent => cases hauthoring
    | comment once conditions text =>
      have hp := he.sound.current hparent
      refine Ends.bind (R := fun _ d' => d'.Annotates e) ?_ fun _ _ hd' => ends_pure hd'
      refine ends_get ?_
      rintro _ _ hrun
      obtain ⟨c, hhang, -, rfl⟩ := ends_hang _ _ _ _ _ hrun
      obtain ⟨hcontent, hkept⟩ := h.content.note he.sound.content he.tree hd.grown.tree hp rfl
        (endsInNumber_nextChildId _) (options_ne_nil hd hbegun hcurrent) hhang
      refine ⟨hcontent, h.line, ?_, ?_⟩
      · change d.current = e.current.map c.kept
        rw [hcurrent, hparent, Option.map_some, hkept parent hp]
      · change d.blocks = e.blocks.map c.kept
        rw [h.blocks]
        exact (List.map_congr_left fun b hb => hkept b (he.sound.blocks hb)).symm

/-- A line is read with its comment for the author and without it. -/
theorem together_readLine (hd : Follows base m d) {raw : List Char}
    (hproper : ∀ x ∈ m.lineNaming? raw, IsProper x.name) (hdiscreet : m.isDiscreet raw = true) :
    Together (readLine raw) d (readLine (uncommented raw)) e fun _ d' _ e' => d'.Annotates e' := by
  have hsplit := splitComment_uncommented raw
  unfold readLine
  unfold lineNaming? at hproper
  unfold isDiscreet at hdiscreet
  generalize splitComment (uncommented raw) = split at hsplit
  subst hsplit
  generalize splitComment raw = split at hproper hdiscreet
  obtain ⟨code, comment⟩ := split
  dsimp only at hproper hdiscreet ⊢
  cases hfile : included? code with
  | some file =>
    exact together_modify ⟨h.content, h.line, h.current, h.blocks⟩
  | none =>
    rw [hfile] at hproper hdiscreet
    refine Together.bind (((h.together_readCode he hd hproper).left (hd.ends_readCode code)).right
      he (reads_readCode e code)) ?_
    rintro _ d' _ e' ⟨⟨hd', hfollows⟩, he', -⟩
    cases comment with
    | none => exact together_pure hd'
    | some comment =>
      cases hauthoring : isAuthoring comment with
      | false =>
        rw [Option.filter_some_pos (by rw [hauthoring]; rfl)]
        exact hd'.together_readComment he' hauthoring
      | true =>
        rw [Option.filter_some_neg (by simp [hauthoring])]
        refine together_of_ends (hd'.ends_readComment he' hfollows ?_ hauthoring)
        simpa [hauthoring] using hdiscreet

omit he in
/-- Lines are read with their comments for the author and without them. -/
theorem together_readLines (he : e.Grown) (hd : Follows base m d) {lines : List (List Char)}
    {file : String} {line : Nat}
    (hproper : ∀ x ∈ declarations file m line lines, IsProper x.name)
    (hdiscreet : m.areDiscreet lines = true) :
    Together (readLines lines) d (readLines (lines.map uncommented)) e fun _ d' _ e' =>
      d'.Annotates e' := by
  induction lines generalizing m d e line with
  | nil =>
    refine fun a d' a' e' hrun hrun' => ?_
    obtain ⟨rfl, rfl, -, -⟩ := together_checkClosed d e a d' a' e' hrun hrun'
    exact h
  | cons raw rest ih =>
    rw [declarations] at hproper
    obtain ⟨hraw, hrest⟩ := List.forall_mem_append.1 hproper
    obtain ⟨hraw', hrest'⟩ := Bool.and_eq_true_iff.1 hdiscreet
    have hnext : ({ d with line := d.line + 1 } : Draft).Annotates { e with line := e.line + 1 } :=
      ⟨h.content, congrArg (· + 1) h.line, h.current, h.blocks⟩
    have hfollows := hd.note (d.line + 1) d.includes
    have hgrown := he.grow (.note (e.line + 1) e.includes)
    refine together_modify_bind (Together.bind ((((hnext.together_readLine hgrown hfollows
      (fun x hx => ?_) hraw').left (hfollows.ends_readLine raw)).right hgrown
        (reads_readLine _ _))) ?_)
    · exact hraw ⟨x, file, line + 1⟩ (Option.mem_toList.2 (Option.mem_map.2 ⟨x, hx, rfl⟩))
    · rintro _ d' _ e' ⟨⟨hd', hfollows'⟩, he', -⟩
      exact ih hd' he' hfollows' hrest hrest'

end Readers

end Annotates

end Draft

end Narrative
