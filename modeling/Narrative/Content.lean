import Narrative.Statement

/-!
# Content

The nodes of a story in the order in which they were read. A node is addressed by its position;
it also has a dotted id, unique in the story, under which diverts and saved games know it. Content
does not change while the story is played.
-/

namespace Narrative

/-- The position of a node. -/
abbrev NodeId := Nat

/-- How a block in braces chooses the option that is played. -/
inductive BlockMode where
  /-- The first option whose guard holds. -/
  | conditional
  /-- The options in turn, then the last one for ever. -/
  | stopping
  /-- The options in turn, over and over. -/
  | cycle
  /-- The options in turn, then nothing. -/
  | once
  /-- An option at random. -/
  | shuffle
deriving DecidableEq, Repr

/-- The mode of a sequence block, named by a word in any mix of upper and lower case. -/
def BlockMode.ofKeyword? (word : List Char) : Option BlockMode :=
  match String.ofList (word.map Char.toLower) with
  | "stopping" => some stopping
  | "cycle" => some cycle
  | "once" => some once
  | "shuffle" => some shuffle
  | _ => none

/-- One of the alternatives of a block. -/
structure BlockOption where
  /-- The condition under which the option is played; without one it always may be. -/
  guard : Option String
  /-- The nodes of the option in order. -/
  lines : List NodeId
deriving DecidableEq, Repr, Inhabited

/-- What a node is. -/
inductive NodeKind where
  /-- A top-level section. -/
  | knot (params : List String)
  /-- A top-level section that is called from expressions. -/
  | function (params : List String)
  /-- A section inside a knot. -/
  | stitch (params : List String)
  /-- A choice of the player, offered again after it was taken when it is repeatable. -/
  | choice (repeatable : Bool) (conditions : List String)
  /-- The place where the branches of choices come together. -/
  | gather
  /-- A block of alternatives. -/
  | block (mode : BlockMode) (options : List BlockOption)
  /-- A line of text; a divert when it begins with an arrow. -/
  | text
  /-- A statement. -/
  | statement (s : Statement)
  /-- A comment for the author's tools, shown once or each time. -/
  | comment (once : Bool) (conditions : List String)
deriving DecidableEq, Repr, Inhabited

/-- A node of a story. -/
structure Node where
  /-- The dotted id. -/
  id : String
  /-- The file the node was read from. -/
  file : String
  /-- The line it was read from, counted from one. -/
  line : Nat
  /-- What the node is. -/
  kind : NodeKind
  /-- The text as it is written: of a line, of a choice or of a comment. -/
  text : String
  /-- The node this one hangs under. -/
  parent : Option NodeId := none
  /-- The nodes under this one, unless it is a block. -/
  children : List NodeId := []
  /-- The depth of nesting: zero for knots, one for stitches, one more than the number of markers
  for choices and gathers, and that of the parent for other nodes. -/
  level : Nat := 0
  /-- The background picture declared for the node. -/
  background : Option String := none
deriving DecidableEq, Repr, Inhabited

namespace Node

/-- Whether play can be inside the node. -/
def isContainer (n : Node) : Bool :=
  match n.kind with
  | .text | .statement _ | .comment .. => false
  | _ => true

/-- Whether the node is a knot that is not a function. -/
def isKnot (n : Node) : Bool :=
  match n.kind with
  | .knot _ => true
  | _ => false

/-- Whether the node is a function. -/
def isFunction (n : Node) : Bool :=
  match n.kind with
  | .function _ => true
  | _ => false

/-- Whether the node is a stitch. -/
def isStitch (n : Node) : Bool :=
  match n.kind with
  | .stitch _ => true
  | _ => false

/-- Whether the node is a choice. -/
def isChoice (n : Node) : Bool :=
  match n.kind with
  | .choice .. => true
  | _ => false

/-- Whether the node is a gather. -/
def isGather (n : Node) : Bool :=
  match n.kind with
  | .gather => true
  | _ => false

/-- Whether the node is a block. -/
def isBlock (n : Node) : Bool :=
  match n.kind with
  | .block .. => true
  | _ => false

/-- Whether the node is a section, which can have parameters. -/
def isSection (n : Node) : Bool :=
  match n.kind with
  | .knot _ | .function _ | .stitch _ => true
  | _ => false

/-- Whether the node is a choice without a text, which the player never sees. -/
def isFallback (n : Node) : Bool :=
  n.isChoice && n.text.isEmpty

/-- The parameters of a section. -/
def params (n : Node) : List String :=
  match n.kind with
  | .knot ps | .function ps | .stitch ps => ps
  | _ => []

/-- The options of a block. -/
def options (n : Node) : List BlockOption :=
  match n.kind with
  | .block _ options => options
  | _ => []

/-- Where a divert leads, with its arguments. -/
def divertTarget? (n : Node) : Option (List Char) :=
  match n.kind with
  | .text => (Text.after? ['-', '>'] n.text.toList).map Text.trim
  | _ => none

/-- Whether the node is a divert. -/
def isDivert (n : Node) : Bool :=
  n.divertTarget?.isSome

/-- The nodes under this one when the option at `selection` is the one that is played. -/
def childrenAt (n : Node) (selection : Nat) : List NodeId :=
  match n.kind with
  | .block _ options => (options[selection]?.map (·.lines)).getD []
  | _ => n.children

/-- The node with a further child, which goes into the last option of a block. A block without
options gets its first one. -/
def addChild (n : Node) (child : NodeId) : Node :=
  match n.kind with
  | .block mode options =>
    let last := options.getLast?.getD ⟨none, []⟩
    let options := options.dropLast ++ [⟨last.guard, last.lines ++ [child]⟩]
    { n with kind := .block mode options }
  | _ => { n with children := n.children ++ [child] }

/-- The node with a further option, if it is a block. -/
def addOption (n : Node) (guard : Option String) : Node :=
  match n.kind with
  | .block mode options => { n with kind := .block mode (options ++ [⟨guard, []⟩]) }
  | _ => n

/-- The id of the next child without a name of its own: the id of the node and the position of the
child, for a block also that of the option. -/
def nextChildId (n : Node) : String :=
  match n.kind with
  | .block _ options =>
    let position := (options.getLast?.map (·.lines.length)).getD 0
    n.id ++ "." ++ toString (options.length - 1) ++ "." ++ toString position
  | _ => n.id ++ "." ++ toString n.children.length

end Node

/-- The nodes of a story. -/
structure Content where
  /-- The nodes in the order in which they were read. -/
  nodes : Array Node := #[]
deriving DecidableEq, Repr, Inhabited

namespace Content

/-- The number of nodes. -/
def size (c : Content) : Nat :=
  c.nodes.size

/-- The node at a position. -/
def node (c : Content) (i : NodeId) : Node :=
  c.nodes.getD i default

/-- The position of the node with an id. -/
def find? (c : Content) (id : String) : Option NodeId :=
  c.nodes.findIdx? (·.id == id)

/-- Adds a node at the end, unless its id is taken. -/
def insert? (c : Content) (n : Node) : Option Content :=
  if (c.find? n.id).isSome then none else some ⟨c.nodes.push n⟩

/-- Changes the node at a position. -/
def modify (c : Content) (i : NodeId) (f : Node → Node) : Content :=
  ⟨c.nodes.modify i f⟩

/-- Hangs the node `child` under `parent`. -/
def attach (c : Content) (parent child : NodeId) : Content :=
  (c.modify child fun n => { n with parent := some parent }).modify parent (·.addChild child)

/-- The nodes above a position within a number of steps, the nearest first. -/
def above (c : Content) : (steps : Nat) → NodeId → List NodeId
  | 0, _ => []
  | steps + 1, i =>
    match (c.node i).parent with
    | none => []
    | some p => p :: c.above steps p

/-- The nodes above a position, the nearest first. A parent is read before its children, so there
are no more of them than the position says. -/
def ancestors (c : Content) (i : NodeId) : List NodeId :=
  c.above i i

/-- The node at a position and those above it. -/
def lineage (c : Content) (i : NodeId) : List NodeId :=
  i :: c.ancestors i

/-- The containers whose id ends in a point and a name. -/
def labelled (c : Content) (name : String) : List NodeId :=
  (List.range c.size).filter fun i =>
    (c.node i).isContainer && ('.' :: name.toList).isSuffixOf (c.node i).id.toList

/-- The container whose id ends in a point and a name, when there is exactly one. -/
def findByLabel? (c : Content) (name : String) : Option NodeId :=
  match c.labelled name with
  | [i] => some i
  | _ => none

end Content

end Narrative
