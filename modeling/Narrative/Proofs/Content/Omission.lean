import Narrative.Proofs.Content.Tree

/-!
# Content without some of its comments

A comment that is taken out of a story no longer hangs under its node. All nodes keep their
positions and their ids, so that a name stands for the same node with the comment and without it.
-/

namespace Narrative

/-! ## Comments -/

/-- Whether the node is a comment. -/
def Node.isComment (n : Node) : Bool :=
  match n.kind with
  | .comment .. => true
  | _ => false

namespace Node

variable {n : Node} (h : n.isComment = true)

include h

/-- The kind of a comment says so. -/
theorem kind_of_isComment : ∃ once conditions, n.kind = .comment once conditions := by
  unfold isComment at h
  split at h
  · next once conditions hkind => exact ⟨once, conditions, hkind⟩
  · cases h

/-- A comment is no container. -/
theorem isContainer_of_isComment : n.isContainer = false := by
  obtain ⟨once, conditions, hkind⟩ := kind_of_isComment h
  simp [isContainer, hkind]

/-- A comment is no stitch. -/
theorem isStitch_of_isComment : n.isStitch = false := by
  obtain ⟨once, conditions, hkind⟩ := kind_of_isComment h
  simp [isStitch, hkind]

/-- A comment is no choice. -/
theorem isChoice_of_isComment : n.isChoice = false := by
  obtain ⟨once, conditions, hkind⟩ := kind_of_isComment h
  simp [isChoice, hkind]

/-- A comment is no gather. -/
theorem isGather_of_isComment : n.isGather = false := by
  obtain ⟨once, conditions, hkind⟩ := kind_of_isComment h
  simp [isGather, hkind]

/-- A comment is no block. -/
theorem isBlock_of_isComment : n.isBlock = false := by
  obtain ⟨once, conditions, hkind⟩ := kind_of_isComment h
  simp [isBlock, hkind]

/-- A comment leads nowhere. -/
theorem divertTarget?_of_isComment : n.divertTarget? = none := by
  obtain ⟨once, conditions, hkind⟩ := kind_of_isComment h
  simp [divertTarget?, hkind]

/-- A comment is no divert. -/
theorem isDivert_of_isComment : n.isDivert = false := by
  rw [isDivert, divertTarget?_of_isComment h]
  rfl

omit h in
/-- A knot is no block. -/
theorem isBlock_of_isKnot (hknot : n.isKnot = true) : n.isBlock = false := by
  cases hblock : n.isBlock with
  | false => rfl
  | true =>
    obtain ⟨mode, options, hkind⟩ := kind_of_isBlock hblock
    simp [isKnot, hkind] at hknot

end Node

/-- Nodes that are alike are both comments, or none is. -/
theorem Node.Alike.isComment_eq {m n : Node} (h : m.Alike n) : m.isComment = n.isComment := by
  obtain hkind | ⟨hm, hn⟩ := h
  · rw [Node.isComment, Node.isComment, hkind]
  · obtain ⟨_, _, hm⟩ := Node.kind_of_isBlock hm
    obtain ⟨_, _, hn⟩ := Node.kind_of_isBlock hn
    rw [Node.isComment, Node.isComment, hm, hn]

/-- Whether a node of the content is a comment. -/
def Content.isComment (c : Content) (i : NodeId) : Bool :=
  (c.node i).isComment

/-! ## Content without them -/

variable {omitted : NodeId → Bool}

namespace Node

/-- The node without the omitted ones under it. -/
def without (omitted : NodeId → Bool) (n : Node) : Node :=
  { n with
    kind := match n.kind with
      | .block mode options =>
        .block mode (options.map fun o => { o with lines := o.lines.filter (!omitted ·) })
      | kind => kind
    children := n.children.filter (!omitted ·) }

section Without

variable (omitted) (n : Node)

/-- A node keeps its id. -/
@[simp] theorem id_without : (n.without omitted).id = n.id := rfl

/-- A node keeps its line. -/
@[simp] theorem line_without : (n.without omitted).line = n.line := rfl

/-- A node keeps its text. -/
@[simp] theorem text_without : (n.without omitted).text = n.text := rfl

/-- A node keeps the node it hangs under. -/
@[simp] theorem parent_without : (n.without omitted).parent = n.parent := rfl

/-- A node keeps its image. -/
@[simp] theorem background_without : (n.without omitted).background = n.background := rfl

/-- A container stays one. -/
@[simp] theorem isContainer_without : (n.without omitted).isContainer = n.isContainer := by
  unfold isContainer without
  cases n.kind <;> rfl

/-- A knot stays one. -/
@[simp] theorem isKnot_without : (n.without omitted).isKnot = n.isKnot := by
  unfold isKnot without
  cases n.kind <;> rfl

/-- A function stays one. -/
@[simp] theorem isFunction_without : (n.without omitted).isFunction = n.isFunction := by
  unfold isFunction without
  cases n.kind <;> rfl

/-- A stitch stays one. -/
@[simp] theorem isStitch_without : (n.without omitted).isStitch = n.isStitch := by
  unfold isStitch without
  cases n.kind <;> rfl

/-- A choice stays one. -/
@[simp] theorem isChoice_without : (n.without omitted).isChoice = n.isChoice := by
  unfold isChoice without
  cases n.kind <;> rfl

/-- A gather stays one. -/
@[simp] theorem isGather_without : (n.without omitted).isGather = n.isGather := by
  unfold isGather without
  cases n.kind <;> rfl

/-- A block stays one. -/
@[simp] theorem isBlock_without : (n.without omitted).isBlock = n.isBlock := by
  unfold isBlock without
  cases n.kind <;> rfl

/-- A section stays one. -/
@[simp] theorem isSection_without : (n.without omitted).isSection = n.isSection := by
  unfold isSection without
  cases n.kind <;> rfl

/-- A node keeps its parameters. -/
@[simp] theorem params_without : (n.without omitted).params = n.params := by
  unfold params without
  cases n.kind <;> rfl

/-- A fallback stays one. -/
@[simp] theorem isFallback_without : (n.without omitted).isFallback = n.isFallback := by
  rw [isFallback, isChoice_without, text_without, isFallback]

/-- A divert keeps its target. -/
@[simp] theorem divertTarget?_without : (n.without omitted).divertTarget? = n.divertTarget? := by
  unfold divertTarget? without
  cases n.kind <;> rfl

/-- A divert stays one. -/
@[simp] theorem isDivert_without : (n.without omitted).isDivert = n.isDivert := by
  rw [isDivert, divertTarget?_without, isDivert]

/-- Play goes through the same nodes but for the omitted ones. -/
theorem childrenAt_without (selection : Nat) :
    (n.without omitted).childrenAt selection = (n.childrenAt selection).filter (!omitted ·) := by
  unfold childrenAt without
  cases n.kind with
  | block mode options =>
    simp only [List.getElem?_map]
    cases options[selection]? <;> rfl
  | _ => rfl

end Without

end Node

namespace Content

/-- The content in which the omitted nodes hang under no node. -/
def without (omitted : NodeId → Bool) (c : Content) : Content :=
  ⟨c.nodes.map (·.without omitted)⟩

section Without

variable (omitted) (c : Content)

/-- The content keeps all nodes, also those that hang nowhere. -/
@[simp] theorem size_without : (c.without omitted).size = c.size :=
  Array.size_map

/-- The nodes of the content are those without the omitted ones under them. -/
@[simp] theorem node_without (i : NodeId) :
    (c.without omitted).node i = (c.node i).without omitted := by
  simp only [node, without, Array.getD_eq_getD_getElem?, Array.getElem?_map]
  cases c.nodes[i]? <;> rfl

/-- An id leads to the same node. -/
@[simp] theorem find?_without (id : String) : (c.without omitted).find? id = c.find? id :=
  Array.findIdx?_map

/-- The nodes above a node are the same. -/
@[simp] theorem lineage_without (i : NodeId) :
    (c.without omitted).lineage i = c.lineage i :=
  lineage_congr (fun i => by rw [node_without, Node.parent_without]) i

/-- A label leads to the same node. -/
@[simp] theorem findByLabel?_without (name : String) :
    (c.without omitted).findByLabel? name = c.findByLabel? name := by
  have hlabelled : (c.without omitted).labelled name = c.labelled name := by
    simp only [labelled, size_without, node_without, Node.isContainer_without, Node.id_without]
  rw [findByLabel?, hlabelled, findByLabel?]

end Without

end Content

end Narrative
