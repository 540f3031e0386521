import Narrative.Proofs.Content.Ids

/-!
# Copies of content

Content can be copied so that its nodes stand at other positions and, where they have no names, have
other ids. What play reads off the nodes is the same in the copy, and a name without numbers stands
for the copy of the node it stands for.
-/

namespace Narrative

/-! ## Names without numbers -/

/-- A part of an id that says at which position a node stands. -/
def IsNumber (part : List Char) : Prop :=
  part ≠ [] ∧ ∀ c ∈ part, c.isDigit = true

instance (part : List Char) : Decidable (IsNumber part) :=
  decidable_of_iff (part ≠ [] ∧ part.all Char.isDigit = true) (by rw [IsNumber, List.all_eq_true])

/-- The digits of a number are one. -/
theorem isNumber_toDigits (n : Nat) : IsNumber (Nat.toDigits 10 n) :=
  ⟨Nat.toDigits_ne_nil, fun _ => isDigit_of_mem_number⟩

/-- A name that stands for no node by its position: none of its parts is a number. -/
def Unnumbered (name : String) : Prop :=
  ∀ part ∈ idParts name, ¬ IsNumber part

instance (name : String) : Decidable (Unnumbered name) :=
  inferInstanceAs (Decidable (∀ part ∈ idParts name, _))

/-! ## Copies of nodes -/

/-- The option with its lines at other positions. -/
def BlockOption.moved (place : NodeId → NodeId) (o : BlockOption) : BlockOption :=
  { o with lines := o.lines.map place }

/-- The kind with the nodes that it lists at other positions. -/
def NodeKind.moved (place : NodeId → NodeId) : NodeKind → NodeKind
  | .block mode options => .block mode (options.map (·.moved place))
  | kind => kind

/-- The node `m` is the node `n` with its neighbours at other positions, and perhaps with another
id. -/
structure Node.Copies (place : NodeId → NodeId) (m n : Node) : Prop where
  /-- It is of the same kind. -/
  kind : m.kind = n.kind.moved place
  /-- It is from the same line. -/
  line : m.line = n.line
  /-- It has the same text. -/
  text : m.text = n.text
  /-- It is at the same level. -/
  level : m.level = n.level
  /-- It declares the same background. -/
  background : m.background = n.background
  /-- It hangs under the copy of the parent. -/
  parent : m.parent = n.parent.map place
  /-- The copies of the children hang under it, unless it is a block. -/
  children : n.isBlock = false → m.children = n.children.map place

namespace Node.Copies

variable {place : NodeId → NodeId} {m n : Node} (h : m.Copies place n)

include h

/-- The copy of a container is one. -/
theorem isContainer : m.isContainer = n.isContainer := by
  unfold Node.isContainer
  rw [h.kind]
  cases n.kind <;> rfl

/-- The copy of a knot is one. -/
theorem isKnot : m.isKnot = n.isKnot := by
  unfold Node.isKnot
  rw [h.kind]
  cases n.kind <;> rfl

/-- The copy of a function is one. -/
theorem isFunction : m.isFunction = n.isFunction := by
  unfold Node.isFunction
  rw [h.kind]
  cases n.kind <;> rfl

/-- The copy of a stitch is one. -/
theorem isStitch : m.isStitch = n.isStitch := by
  unfold Node.isStitch
  rw [h.kind]
  cases n.kind <;> rfl

/-- The copy of a choice is one. -/
theorem isChoice : m.isChoice = n.isChoice := by
  unfold Node.isChoice
  rw [h.kind]
  cases n.kind <;> rfl

/-- The copy of a gather is one. -/
theorem isGather : m.isGather = n.isGather := by
  unfold Node.isGather
  rw [h.kind]
  cases n.kind <;> rfl

/-- The copy of a block is one. -/
theorem isBlock : m.isBlock = n.isBlock := by
  unfold Node.isBlock
  rw [h.kind]
  cases n.kind <;> rfl

/-- The copy of a section is one. -/
theorem isSection : m.isSection = n.isSection := by
  unfold Node.isSection
  rw [h.kind]
  cases n.kind <;> rfl

/-- The copy has the same parameters. -/
theorem params : m.params = n.params := by
  unfold Node.params
  rw [h.kind]
  cases n.kind <;> rfl

/-- The copy of a fallback is one. -/
theorem isFallback : m.isFallback = n.isFallback := by
  rw [Node.isFallback, h.isChoice, h.text, Node.isFallback]

/-- The copy of a divert has the same target. -/
theorem divertTarget? : m.divertTarget? = n.divertTarget? := by
  unfold Node.divertTarget?
  rw [h.kind, h.text]
  cases n.kind <;> rfl

/-- The copy of a divert is one. -/
theorem isDivert : m.isDivert = n.isDivert := by
  rw [Node.isDivert, h.divertTarget?, Node.isDivert]

/-- Play goes through the copies of the nodes. -/
theorem childrenAt (selection : Nat) :
    m.childrenAt selection = (n.childrenAt selection).map place := by
  unfold Node.childrenAt
  rw [h.kind]
  cases hkind : n.kind with
  | block mode options =>
    simp only [NodeKind.moved, List.getElem?_map]
    cases options[selection]? <;> rfl
  | _ => exact h.children (by rw [Node.isBlock, hkind])

end Node.Copies

/-! ## Copies of content -/

namespace Content

/-- The content `c` holds a copy of `d`, in which each node has the place that `place` says. -/
structure Copies (place : NodeId → NodeId) (c d : Content) : Prop where
  /-- Nodes have different places. -/
  injective : Function.Injective place
  /-- There are no fewer nodes. -/
  size_le : d.size ≤ c.size
  /-- Each node has its copy. -/
  node (i : NodeId) : (c.node (place i)).Copies place (d.node i)
  /-- Above a copy are the copies of the nodes above. -/
  lineage (i : NodeId) : c.lineage (place i) = (d.lineage i).map place
  /-- A node under whose parents all have names has the same id. -/
  id {i : NodeId} : Unnumbered (d.node i).id → (c.node (place i)).id = (d.node i).id
  /-- A name without numbers is the id of the copy. -/
  find? {name : String} : Unnumbered name → c.find? name = (d.find? name).map place
  /-- Behind the id of a node it is the rest of the id of the copy. -/
  under? {name : String} (i : NodeId) : Unnumbered name →
    c.find? ((c.node (place i)).id ++ "." ++ name) =
      (d.find? ((d.node i).id ++ "." ++ name)).map place
  /-- It is the label of the copy. -/
  findByLabel? {name : String} : Unnumbered name →
    c.findByLabel? name = (d.findByLabel? name).map place

end Content

end Narrative
