import Narrative.Proofs.Content.Ids
import Narrative.Proofs.Source.ChoiceLines
import Narrative.Proofs.Source.Growth

/-!
# The nodes of a choice line

A choice line adds a choice under its parent and the texts that are played under the choice, each
with its place for an id. Nothing else of the content changes, and reading goes on inside the
choice. When one of the ids is taken, reading stops there.
-/

namespace Narrative

namespace Content

variable {c c' : Content} {p : NodeId} {n : Node} {parts : List (List Char)}

/-- The id of a text under a node. -/
def textId (id : String) (position : Nat) : String :=
  id ++ "." ++ toString position

/-- The id of a text has the parts of its node and its number. -/
theorem idParts_textId (id : String) (position : Nat) :
    idParts (textId id position) = idParts id ++ [Nat.toDigits 10 position] := by
  rw [textId, idParts_dot, idParts_toString]

/-- The id of a text is not that of its node. -/
theorem ne_textId (id : String) (position : Nat) : id ≠ textId id position := by
  intro heq
  have hlength := congrArg (fun id => (idParts id).length) heq
  rw [idParts_textId, List.length_append] at hlength
  exact absurd hlength (by simp)

/-- Texts at different positions have different ids. -/
theorem textId_injective {id : String} {position position' : Nat}
    (h : textId id position = textId id position') : position = position' := by
  have hparts := congrArg idParts h
  rw [idParts_textId, idParts_textId] at hparts
  exact toDigits_injective (List.cons.inj (List.append_cancel_left hparts)).1

/-- A text under a node. -/
def textUnder (i : NodeId) (n : Node) (position : Nat) (text : List Char) : Node where
  id := textId n.id position
  file := n.file
  line := n.line
  kind := .text
  text := String.ofList text
  parent := some i
  level := n.level

/-- Content with a further node under a parent, and texts under this node. -/
structure Sprouts (c : Content) (p : NodeId) (n : Node) (parts : List (List Char))
    (c' : Content) : Prop where
  /-- The node and the texts are added at the end. -/
  size : c'.size = c.size + 1 + parts.length
  /-- The node is the first of them, with the texts for children. -/
  node : c'.node c.size =
    { n with parent := some p, children := List.range' (c.size + 1) parts.length }
  /-- The texts follow in order. -/
  text {k : Nat} (hk : k < parts.length) :
    c'.node (c.size + 1 + k) = textUnder c.size n k parts[k]
  /-- The parent has a further child. -/
  parent : c'.node p = (c.node p).addChild c.size
  /-- The other nodes stay. -/
  other {i : Nat} : i < c.size → i ≠ p → c'.node i = c.node i

/-- A node that has just been hung has no texts under it. -/
theorem sprouts_of_hang? (hp : p < c.size) (hchildren : n.children = [])
    (hhang : c.hang? p n = some c') : c.Sprouts p n [] c' where
  size := size_of_hang? hhang
  node := by
    rw [node_of_hang? hhang hp, if_pos rfl, List.length_nil, List.range'_zero]
    cases n
    cases hchildren
    rfl
  text := nofun
  parent := by rw [node_of_hang? hhang hp, if_neg (Nat.ne_of_lt hp), if_pos rfl]
  other := by
    intro i hi hne
    rw [node_of_hang? hhang hp, if_neg (Nat.ne_of_lt hi), if_neg hne]

namespace Sprouts

variable (h : c.Sprouts p n parts c')

include h

/-- The nodes that were there keep their ids. -/
theorem id_of_lt {i : Nat} (hi : i < c.size) : (c'.node i).id = (c.node i).id := by
  by_cases hparent : i = p
  · rw [hparent, h.parent, addChild_id]
  · rw [h.other hi hparent]

/-- The id of the next text is free when it was free before the node was added. -/
theorem find?_eq_none_iff :
    c'.find? (textId n.id parts.length) = none ↔ c.find? (textId n.id parts.length) = none := by
  rw [Content.find?_eq_none_iff, Content.find?_eq_none_iff]
  constructor
  · intro hfree i hi
    rw [← h.id_of_lt hi]
    exact hfree i (by rw [h.size]; omega)
  · intro hfree i hi
    rcases Nat.lt_trichotomy i c.size with hold | rfl | hnew
    · rw [h.id_of_lt hold]
      exact hfree i hold
    · rw [h.node]
      exact ne_textId n.id _
    · obtain ⟨k, rfl⟩ := Nat.exists_eq_add_of_le hnew
      have hk : k < parts.length := by
        rw [h.size] at hi
        omega
      rw [h.text hk]
      exact fun heq => Nat.ne_of_lt hk (textId_injective heq)

/-- The next id under the choice is that of the text behind the ones it has. -/
theorem nextChildId (hn : n.isBlock = false) :
    (c'.node c.size).nextChildId = textId n.id parts.length := by
  rw [h.node]
  unfold Node.isBlock at hn
  unfold Node.nextChildId
  split
  · next hkind =>
    dsimp only at hkind
    rw [hkind] at hn
    cases hn
  · rw [List.length_range']
    rfl

/-- A further text is hung under the node. -/
theorem hang? (hp : p < c.size) (hn : n.isBlock = false) {text : List Char} {leaf : Node}
    {c'' : Content} (hleaf : { leaf with parent := some c.size } =
      textUnder c.size n parts.length text) (hhang : c'.hang? c.size leaf = some c'') :
    c.Sprouts p n (parts ++ [text]) c'' := by
  have hlt : c.size < c'.size := by
    rw [h.size]
    omega
  have hnode := node_of_hang? hhang hlt
  have hold {i : Nat} (hi : i < c.size) : c''.node i = c'.node i := by
    rw [hnode, if_neg (Nat.ne_of_lt (Nat.lt_trans hi hlt)), if_neg (Nat.ne_of_lt hi)]
  refine ⟨?_, ?_, ?_, ?_, ?_⟩
  · rw [size_of_hang? hhang, h.size, List.length_append]
    rfl
  · rw [hnode, if_neg (Nat.ne_of_lt hlt), if_pos rfl, h.node, h.size, List.length_append,
      List.length_singleton, List.range'_concat]
    unfold Node.isBlock at hn
    unfold Node.addChild
    split
    · next hkind =>
      dsimp only at hkind
      rw [hkind] at hn
      cases hn
    · dsimp only
      rw [Nat.one_mul]
  · intro k hk
    rw [List.length_append, List.length_singleton] at hk
    rcases Nat.lt_or_eq_of_le (Nat.le_of_lt_succ hk) with hk | rfl
    · have hnew : c.size + 1 + k ≠ c'.size := by
        rw [h.size]
        omega
      have hchild : c.size + 1 + k ≠ c.size := by omega
      rw [hnode, if_neg hnew, if_neg hchild, h.text hk, List.getElem_append_left hk]
    · rw [hnode, if_pos h.size.symm, hleaf]
      simp
  · rw [hold hp, h.parent]
  · intro i hi hne
    rw [hold hi, h.other hi hne]

end Sprouts

end Content

namespace Draft

variable {d : Draft} {base : Content} {p : NodeId} {n : Node} {parts : List (List Char)}

/-- Hanging a node changes the content only, and stops where the id is taken. -/
theorem hang_apply {level : Nat}
    (hlevel : (if n.level = 0 then (d.content.node p).level else n.level) = level) :
    hang p n d =
      match d.content.hang? p { n with level } with
      | none => (.error (.duplicateId n.id), d)
      | some content => (.ok d.content.size, { d with content }) := by
  rw [hang, Trial.get_bind_apply, hlevel, Trial.bind_apply, add_apply, Content.hang?]
  cases d.content.insert? { n with level } <;> rfl

/-- A node whose id is free is hung. -/
theorem hang_of_free {level : Nat}
    (hlevel : (if n.level = 0 then (d.content.node p).level else n.level) = level)
    (hfree : d.content.find? n.id = none) :
    ∃ content, d.content.hang? p { n with level } = some content ∧
      hang p n d = (.ok d.content.size, { d with content }) := by
  obtain ⟨content, hhang⟩ : ∃ content, d.content.hang? p { n with level } = some content := by
    unfold Content.hang? Content.insert?
    rw [hfree]
    exact ⟨_, rfl⟩
  exact ⟨content, hhang, by rw [hang_apply hlevel, hhang]⟩

/-- A node whose id is taken is refused. -/
theorem hang_of_taken (p : NodeId) (htaken : (d.content.find? n.id).isSome) :
    hang p n d = (.error (.duplicateId n.id), d) := by
  rw [hang_apply rfl, Content.hang?, Content.insert?, if_pos htaken]
  rfl

/-- The next text that is played is hung under the choice unless its id is taken. -/
theorem hangNext_text (hp : p < base.size) (hn : n.isBlock = false)
    (hsprouts : base.Sprouts p n parts d.content) (hfile : n.file = d.file)
    (hline : n.line = d.line) (part : List Char) :
    let id := Content.textId n.id parts.length
    let run := hangNext base.size .text part d
    (base.find? id = none ∧ ∃ content, run = (.ok d.content.size, { d with content }) ∧
      base.Sprouts p n (parts ++ [part]) content) ∨
    (base.find? id).isSome ∧ run = (.error (.duplicateId id), d) := by
  have hlevel : (d.content.node base.size).level = n.level := by rw [hsprouts.node]
  dsimp only
  rw [hangNext, Trial.get_bind_apply, hsprouts.nextChildId hn]
  have hfree_iff := hsprouts.find?_eq_none_iff
  cases hfree : base.find? (Content.textId n.id parts.length) with
  | none =>
    obtain ⟨content, hhang, hrun⟩ := hang_of_free (p := base.size)
      (n := d.fresh (Content.textId n.id parts.length) .text part) hlevel (hfree_iff.2 hfree)
    refine .inl ⟨rfl, content, hrun, hsprouts.hang? hp hn ?_ hhang⟩
    rw [Content.textUnder, hfile, hline]
    rfl
  | some i =>
    refine .inr ⟨rfl, hang_of_taken _ (Option.isSome_iff_ne_none.2 fun hnone => ?_)⟩
    rw [hfree_iff.1 hnone] at hfree
    cases hfree

/-- A reader whose result is discarded does the same. -/
theorem discard_apply {α : Type} (b : Build α) (d : Draft) :
    (discard b : Build Unit) d = ((b d).1.map fun _ => (), (b d).2) := by
  change ((fun _ => ()) <$> b) d = _
  rw [map_eq_pure_bind, Trial.bind_apply]
  obtain ⟨_ | a, d'⟩ := b d <;> rfl

/-- All texts that are played are hung under the choice in order, unless one of their ids is
taken. -/
theorem forM_hangNext_text (hp : p < base.size) (hn : n.isBlock = false)
    (hsprouts : base.Sprouts p n parts d.content) (hfile : n.file = d.file)
    (hline : n.line = d.line) (todo : List (List Char)) :
    let run := (todo.forM fun part => do discard <| hangNext base.size .text part : Build Unit) d
    ((∀ k, parts.length ≤ k → k < (parts ++ todo).length →
        base.find? (Content.textId n.id k) = none) ∧
      ∃ content, run = (.ok (), { d with content }) ∧
        base.Sprouts p n (parts ++ todo) content) ∨
    ∃ k < (parts ++ todo).length, (base.find? (Content.textId n.id k)).isSome ∧
      ∃ d', run = (.error (.duplicateId (Content.textId n.id k)), d') := by
  induction todo generalizing d parts with
  | nil =>
    refine .inl ⟨fun k hle hlt => ?_, d.content, rfl, ?_⟩
    · rw [List.append_nil] at hlt
      exact absurd hle (Nat.not_le_of_lt hlt)
    · rwa [List.append_nil]
  | cons part todo ih =>
    rcases hangNext_text hp hn hsprouts hfile hline part with
      ⟨hfree, content, hfirst, hgrown⟩ | ⟨htaken, hfirst⟩
    · have hrest : ((part :: todo).forM fun part => do
            discard <| hangNext base.size .text part : Build Unit) d =
          (todo.forM fun part => do
            discard <| hangNext base.size .text part : Build Unit) { d with content } :=
        Trial.bind_of_ok ((discard_apply _ _).trans (by rw [hfirst]; rfl))
      rw [List.append_cons]
      rcases ih (d := { d with content }) hgrown hfile hline with
        ⟨hids, content', hrun, hdone⟩ | ⟨k, hk, htaken, d', hrun⟩
      · refine .inl ⟨fun k hle hlt => ?_, content', hrest.trans hrun, hdone⟩
        rcases Nat.eq_or_lt_of_le hle with rfl | hlt'
        · exact hfree
        · exact hids k (by rw [List.length_append]; exact hlt') hlt
      · exact .inr ⟨k, hk, htaken, d', hrest.trans hrun⟩
    · refine .inr ⟨parts.length, by simp, htaken, d, ?_⟩
      exact Trial.bind_eq_error.2 (.inl ((discard_apply _ _).trans (by rw [hfirst]; rfl)))

/-- Reading goes on inside the choice with the texts that are played. -/
theorem finishChoice_apply (i : NodeId) (c : ChoiceLine) (d : Draft) :
    finishChoice i c d =
      ((if c.body.isEmpty then [] else textParts c.body).forM fun part => do
        discard <| hangNext i .text part : Build Unit) { d with current := some i } := by
  rw [finishChoice, moveTo, Trial.modify_bind_apply]
  cases c.body.isEmpty <;> rfl

end Draft

namespace ChoiceLine.Spelling

open Draft

variable {s : Spelling} {d : Draft} {p : NodeId}

/-- The node of a choice that hangs under a parent. -/
def node (s : Spelling) (d : Draft) (p : NodeId) : Node where
  id := labelledId (d.content.node p) (s.label.map fun part => Text.trim part.1)
  file := d.file
  line := d.line
  kind := .choice s.repeatable (s.conditions.map fun part => String.ofList (Text.trim part.1))
  text := String.ofList s.shown
  level := 1 + s.gaps.length

/-- The ids that a choice and the texts under it get. -/
def ids (s : Spelling) (d : Draft) (p : NodeId) : List String :=
  (s.node d p).id :: (List.range s.played.length).map (Content.textId (s.node d p).id)

/-- Of the reading of a choice line only the adding of its nodes is left. -/
theorem WellFormed.readLine_eq (h : s.WellFormed)
    (hp : d.weaveParent? (1 + s.gaps.length) = some p) :
    readLine s.text d = (hang p (s.node d p) >>= fun i => finishChoice i s.spelled) d := by
  have hrepeatable : (s.marker == '+') = s.repeatable := by
    unfold marker
    cases s.repeatable <;> rfl
  rw [h.readLine_text, readChoice, h.stripMarkers_line]
  dsimp only
  rw [Trial.get_bind_apply, hp]
  dsimp only
  rw [h.read_line, hrepeatable]
  rfl

/-- A choice line is read back as it is written. Either its ids are free, and the choice with the
texts that are played is added under its parent, or reading stops at an id that is taken. What is
offered and played is the text without its brackets, unless these part an arrow. -/
theorem reads_back (h : s.WellFormed) (hd : d.Sound)
    (hp : d.weaveParent? (1 + s.gaps.length) = some p) :
    (((∀ id ∈ s.ids d p, d.content.find? id = none) ∧
        ∃ content, readLine s.text d =
            (.ok (), { d with content, current := some d.content.size }) ∧
          d.content.Sprouts p (s.node d p) s.played content) ∨
      ∃ id ∈ s.ids d p, (d.content.find? id).isSome ∧
        ∃ d', readLine s.text d = (.error (.duplicateId id), d')) ∧
    (¬ arrow <:+: s.before ++ s.aside →
      (s.node d p).text = String.ofList (Text.trim (s.before ++ s.aside)) ∧
      ((s.node d p).isFallback = true ↔ ∀ c ∈ s.before ++ s.aside, Text.isBlank c = true)) ∧
    (¬ arrow <:+: s.before ++ s.after → s.played = s.parts) := by
  refine ⟨?_, fun harrow => ⟨?_, ?_⟩, h.played_eq⟩
  · have hlt := hd.lt_of_nearest? hp
    rw [h.readLine_eq hp]
    cases hfree : d.content.find? (s.node d p).id with
    | some i =>
      have htaken : (d.content.find? (s.node d p).id).isSome = true := by rw [hfree]; rfl
      refine .inr ⟨_, List.mem_cons_self, htaken, d, ?_⟩
      exact Trial.bind_eq_error.2 (.inl (hang_of_taken p htaken))
    | none =>
      have hlevel : (s.node d p).level ≠ 0 := Nat.ne_of_gt (Nat.lt_add_right _ Nat.one_pos)
      obtain ⟨content, hhang, hrun⟩ := hang_of_free (if_neg hlevel) hfree
      have hsprouts := Content.sprouts_of_hang? hlt rfl hhang
      rw [Trial.bind_of_ok hrun, finishChoice_apply]
      have htexts := forM_hangNext_text (d := { d with content, current := some d.content.size })
        hlt rfl hsprouts rfl rfl s.played
      rcases htexts with ⟨hids, content', hrest, hdone⟩ | ⟨k, hk, htaken, hrest⟩
      · refine .inl ⟨List.forall_mem_cons.2 ⟨hfree, fun id hid => ?_⟩, content', hrest, hdone⟩
        obtain ⟨k, hk, rfl⟩ := List.mem_map.1 hid
        exact hids k (Nat.zero_le k) (List.mem_range.1 hk)
      · have hmem := List.mem_map_of_mem (f := Content.textId (s.node d p).id) (List.mem_range.2 hk)
        exact .inr ⟨_, List.mem_cons_of_mem _ hmem, htaken, hrest⟩
  · rw [node, shown_eq harrow]
  · have hempty : (s.node d p).isFallback = (Text.trim (s.before ++ s.aside)).isEmpty := by
      rw [← shown_eq harrow, Bool.eq_iff_iff, List.isEmpty_iff, ← String.ofList_eq_empty_iff,
        ← String.isEmpty_iff]
      rfl
    rw [hempty, List.isEmpty_iff, Text.trim_eq_nil_iff]

/-- A line with all parts. -/
def leaving : Spelling where
  indent := [' ', ' ']
  repeatable := true
  gaps := [[' '], []]
  label := some ("go ".toList, [' '])
  conditions := [("met > 0".toList, []), (" !left".toList, [' '])]
  before := "Go ".toList
  aside := "left".toList
  after := " at once.".toList
  target := some "barn".toList

/-- The parts of the line can be told from each other. -/
theorem wellFormed_leaving : leaving.WellFormed := by decide +kernel

/-- A draft in which a knot has been read. -/
def hut : Draft :=
  (readLine "== hut".toList { content := {}, file := "hut", line := 1 }).2

/-- The content with the hut is sound. -/
theorem sound_hut : hut.Sound := by
  have hempty : Draft.Sound { content := {}, file := "hut", line := 1 } :=
    ⟨Content.sound_empty, nofun, nofun⟩
  exact hempty.grows (reads_readLine _ "== hut".toList _ _ rfl).1

/-- The choice gets its label for an id, and its text and its divert are read one by one. -/
theorem reads_back_leaving : leaving.text =
      "  + +(go ) \x7bmet > 0\x7d\x7b !left\x7d Go [left] at once. -> barn".toList ∧ ∃ content,
    readLine leaving.text hut = (.ok (), { hut with content, current := some 1 }) ∧
    (content.node 1).kind = .choice true ["met > 0", "!left"] ∧
    (content.node 1).id = "hut.go" ∧ (content.node 1).text = "Go left" ∧
    (content.node 2).text = "Go  at once. <>" ∧ (content.node 3).text = "-> barn" := by
  have hread := (reads_back wellFormed_leaving sound_hut (by decide +kernel :
    hut.weaveParent? (1 + leaving.gaps.length) = some 0)).1
  have hfree : ∀ id ∈ leaving.ids hut 0, hut.content.find? id = none := by decide +kernel
  rcases hread with ⟨-, content, hrun, hsprouts⟩ | ⟨id, hid, htaken, -⟩
  · have hsize : hut.content.size = 1 := by decide +kernel
    have hplayed : leaving.played = ["Go  at once. <>".toList, "-> barn".toList] := by
      decide +kernel
    have hnode := hsprouts.node
    have hfirst := hsprouts.text (k := 0) (by rw [hplayed]; decide)
    have hsecond := hsprouts.text (k := 1) (by rw [hplayed]; decide)
    simp only [hsize, hplayed, List.getElem_cons_zero, List.getElem_cons_succ]
      at hrun hnode hfirst hsecond
    refine ⟨by decide +kernel, content, hrun, ?_⟩
    rw [hnode, hfirst, hsecond]
    decide +kernel
  · rw [hfree id hid] at htaken
    cases htaken

/-- A line whose brackets part an arrow. -/
def pointing : Spelling where
  repeatable := false
  gaps := [[' ']]
  before := "x-".toList
  aside := ">y".toList
  after := "z".toList

/-- An arrow that the brackets part is taken for one of a divert. -/
theorem reads_pointing : pointing.WellFormed ∧ pointing.text = "* x-[>y]z".toList ∧
    String.ofList (Text.trim (pointing.before ++ pointing.aside)) = "x->y" ∧
    (readLine pointing.text hut).1.isOk = true ∧
    ((readLine pointing.text hut).2.content.node 1).text = "x" := by
  decide +kernel

end ChoiceLine.Spelling

end Narrative
