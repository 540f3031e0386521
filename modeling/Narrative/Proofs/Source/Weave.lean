import Narrative.Source.Draft

/-!
# The weave of a source

Choices and gathers hang under each other by their number of markers. What hangs where can be read
off a source without its nodes: each section, and each option of an open block, keeps a stack of the
choices and gathers that are open in it. A choice or gather closes those of its level and deeper
ones, hangs under the one that is then on top, and goes on top itself; everything else hangs under
the top. An empty stack stands for the section or the block.
-/

namespace Narrative

namespace Weave

/-! ## What lines enter -/

/-- What a line enters into the weave. -/
inductive Entry where
  /-- A knot or a function. -/
  | knot
  /-- A stitch. -/
  | stitch
  /-- A choice or a gather, with its level. -/
  | strand (level : Nat)
  /-- A text, a statement or a comment. -/
  | leaf
  /-- A block that opens with some options. -/
  | block (mode : BlockMode) (options : Nat)
  /-- An option of the innermost open block. -/
  | option
  /-- The end of the innermost open block. -/
  | close

namespace Entry

/-- What a line of text enters. -/
def ofText (text : List Char) : List Entry :=
  (textParts text).map fun _ => leaf

/-- What the text behind a choice or a gather enters. -/
def ofBody (text : List Char) : List Entry :=
  if text.isEmpty then [] else ofText text

/-- What a choice enters. -/
def ofChoice (marker : Char) (line : List Char) : List Entry :=
  let (markers, rest) := stripMarkers marker line
  strand (1 + markers) ::
    match ChoiceLine.read rest with
    | .ok c => ofBody c.body
    | .error _ => []

/-- What a gather enters. -/
def ofGather (line : List Char) : List Entry :=
  let (markers, rest) := stripMarkers '-' line
  strand (1 + markers) ::
    match readGatherLabel rest with
    | .ok (_, text) => ofBody text
    | .error _ => []

/-- What the header of a block enters, given without its brace. -/
def ofHeader (header : List Char) : List Entry :=
  match readBlockHeader (Text.trim header) with
  | .ok (mode, options) => [block mode options.length]
  | .error _ => []

/-- What a line enters that neither closes a block nor begins an option. -/
def ofPlain (line : List Char) : List Entry :=
  match line with
  | '=' :: '=' :: _ => [knot]
  | '=' :: _ => [stitch]
  | '*' :: _ => ofChoice '*' line
  | '+' :: _ => ofChoice '+' line
  | _ =>
    if line.head? = some '-' ∧ !Text.startsWithArrow line then ofGather line
    else if line.head? = some '\x7b' ∧ !line.contains '\x7d' then ofHeader line.tail
    else if Statement.isWritten line then [leaf]
    else ofText line

/-- What a line without its comment enters, given the mode of the innermost open block. -/
def ofCode (mode? : Option BlockMode) (line : List Char) : List Entry :=
  match line with
  | [] => []
  | c :: rest =>
    match mode? with
    | none => ofPlain (c :: rest)
    | some mode =>
      if closesBlock 0 (c :: rest) then
        ofCode mode? (Text.trim (c :: rest).dropLast) ++ [close]
      else if Draft.beginsOption mode (c :: rest) then
        option :: if mode = .conditional then [] else ofCode mode? (Text.trim rest)
      else ofPlain (c :: rest)
termination_by line.length
decreasing_by
  · have := Text.length_trim_le (c :: rest).dropLast
    simp only [List.length_dropLast, List.length_cons] at this ⊢
    omega
  · have := Text.length_trim_le rest
    simp only [List.length_cons]
    omega

/-- What the comment of a line enters. -/
def ofComment (comment : List Char) : List Entry :=
  match Remark.read comment with
  | .ok (.comment ..) => [leaf]
  | _ => []

/-- What a line enters, given the mode of the innermost open block. -/
def ofLine (mode? : Option BlockMode) (raw : List Char) : List Entry :=
  let (code, comment) := splitComment raw
  match included? code with
  | some _ => []
  | none => ofCode mode? code ++ (comment.map ofComment).getD []

end Entry

/-! ## The stacks -/

/-- The node under which things hang: the top of a stack, or the node that holds the stack. -/
def topOf (owner : NodeId) : List (NodeId × Nat) → NodeId
  | [] => owner
  | entry :: _ => entry.1

/-- A section, or an open block with the option that is being read. -/
structure Scope where
  /-- The section or the block. -/
  owner : NodeId
  /-- The mode of a block. -/
  mode? : Option BlockMode := none
  /-- How many options of a block have begun. -/
  options : Nat := 0
  /-- The choices and gathers that are open, with their levels, the innermost first. -/
  stack : List (NodeId × Nat) := []

namespace Scope

/-- The node under which things hang. -/
def top (s : Scope) : NodeId :=
  topOf s.owner s.stack

/-- The option that is being read, unless the scope is a section. -/
def option? (s : Scope) : Option (NodeId × Nat) :=
  s.mode?.map fun _ => (s.owner, s.options - 1)

/-- The scope after something was hung under its top. In a block, what stands in front of every
option begins the first one. -/
def written (s : Scope) : Scope :=
  if s.stack.isEmpty then { s with options := max s.options 1 } else s

/-- The scope in which the choices and gathers of a level and deeper ones are closed. -/
def closing (s : Scope) (level : Nat) : Scope :=
  { s with stack := s.stack.filter (·.2 < level) }

/-- The scope with a choice or gather that is open. -/
def push (s : Scope) (i : NodeId) (level : Nat) : Scope :=
  { s with stack := (i, level) :: s.stack }

/-- The scope of a block whose next option begins. -/
def begun (s : Scope) : Scope :=
  { s with options := s.options + 1, stack := [] }

end Scope

/-- The options of open blocks that are being read, the innermost first. -/
def within (scopes : List Scope) : List (NodeId × Nat) :=
  scopes.filterMap (·.option?)

/-- Where a node stands. -/
structure Place where
  /-- The node that it hangs under. -/
  parent : Option NodeId
  /-- The options of open blocks in which it is written. -/
  within : List (NodeId × Nat)
deriving DecidableEq

end Weave

/-- The stacks while a source is read, and where its nodes stand. -/
structure Weave where
  /-- The position of the next node. -/
  next : NodeId
  /-- The knot or function whose stitches are read. -/
  knot : Option NodeId := none
  /-- The section and the open blocks in it, the innermost first. -/
  scopes : List Weave.Scope := []
  /-- Where the nodes that were read stand. -/
  places : List Weave.Place := []

namespace Weave

/-- The mode of the innermost open block. -/
def mode? (m : Weave) : Option BlockMode :=
  m.scopes.head?.bind (·.mode?)

/-- The weave with a further node, which goes on with the given scopes. -/
def place (m : Weave) (parent : Option NodeId) (within : List (NodeId × Nat))
    (scopes : List Scope) : Weave :=
  { m with next := m.next + 1, places := m.places ++ [⟨parent, within⟩], scopes }

/-- Enters something into the weave. Before the first section there is nothing to hang it under. -/
def enter (m : Weave) : Entry → Weave
  | .knot => { m.place none [] [{ owner := m.next }] with knot := some m.next }
  | .stitch => m.place m.knot [] [{ owner := m.next }]
  | .strand level =>
    match m.scopes with
    | [] => m
    | s :: outer =>
      let s := s.closing level
      m.place (some s.top) (within (s.written :: outer)) (s.written.push m.next level :: outer)
  | .leaf =>
    match m.scopes with
    | [] => m
    | s :: outer => m.place (some s.top) (within (s.written :: outer)) (s.written :: outer)
  | .block mode options =>
    match m.scopes with
    | [] => m
    | s :: outer =>
      m.place (some s.top) (within (s.written :: outer))
        ({ owner := m.next, mode? := some mode, options } :: s.written :: outer)
  | .option =>
    match m.scopes with
    | [] => m
    | s :: outer => { m with scopes := s.begun :: outer }
  | .close =>
    match m.scopes with
    | [] => m
    | s :: outer => if s.mode?.isSome then { m with scopes := outer } else m

/-- Enters one thing after another. -/
def enterAll (m : Weave) (entries : List Entry) : Weave :=
  entries.foldl enter m

/-- Reads a line. -/
def readLine (m : Weave) (raw : List Char) : Weave :=
  m.enterAll (Entry.ofLine m.mode? raw)

/-- The weave of a source whose first node has the given position. -/
def ofText (next : NodeId) (text : List Char) : Weave :=
  (Text.lines text).foldl readLine { next }

end Weave

end Narrative
