import Narrative.Story.Basic

/-!
# The cursor at rest

After each step the cursor is brought to rest on a node that can be played or offered. Blocks,
gathers and fallback choices are entered on the way; an exhausted block is left; and from an
exhausted choice or gather play converges on the nearest gather that follows it.
-/

namespace Narrative

/-- The position after a node in a list of children. When the list does not have the node, it is
beyond all. -/
def positionAfter (children : List NodeId) (i : NodeId) : Nat :=
  ((children.findIdx? (· == i)).map (· + 1)).getD beyondAll

/-- Where play goes on after an exhausted choice or gather. -/
inductive Landing where
  /-- Inside a gather. -/
  | gather (i : NodeId)
  /-- At a choice, which is a child of `parent` at a position. -/
  | choice (parent : NodeId) (position : Nat)
deriving DecidableEq

namespace Story

/-- The first gather among the children of `parent` from a position on, or the first choice before
it when choices are taken. -/
def landingAmong? (s : Story) (parent : NodeId) (takesChoice : Bool) :
    (position : Nat) → List NodeId → Option Landing
  | _, [] => none
  | position, i :: rest =>
    if (s.node i).isGather then some (.gather i)
    else if takesChoice && (s.node i).isChoice then some (.choice parent position)
    else s.landingAmong? parent takesChoice (position + 1) rest

/-- The landing nearest to the first node of a line of descent, whose parent is the second, and so
on upward. Choices count among the siblings of that first node only. -/
def landingAbove? (s : Story) (takesChoice : Bool) : List NodeId → Option Landing
  | child :: parent :: above =>
    let siblings := s.children parent
    let start := positionAfter siblings child
    s.landingAmong? parent takesChoice start (siblings.drop start) <|>
      s.landingAbove? false (parent :: above)
  | _ => none

/-- Where play goes on after an exhausted choice or gather. After a gather the choices that directly
follow it are collected next. -/
def landing? (s : Story) (exhausted : NodeId) : Option Landing :=
  s.landingAbove? (s.node exhausted).isGather (s.content.lineage exhausted)

/-- Moves the cursor into a node. -/
def moveInto (s : Story) (i : NodeId) : Story :=
  { s with
    container := some i
    index := 0
    background := (s.node i).background <|> s.background
    memory := s.memory.visit i }

/-- Enters a node; in a block the option for this visit is chosen first. -/
def enter (w : World) (i : NodeId) : Run Story Unit := do
  think w fun stage ctx => stage.selectOption ctx i
  modify (·.moveInto i)

/-- Leaves an exhausted block for the node that follows it. -/
def leaveBlock (s : Story) (block : NodeId) : Story :=
  match (s.node block).parent with
  | none => { s with container := none }
  | some parent =>
    { s with container := some parent, index := positionAfter (s.children parent) block }

/-- Ends the story where its content ends. -/
def runOut (s : Story) : Story :=
  { s with container := none }

/-- One move of the cursor toward rest, where the container `c` is exhausted; whether it has to
move on. -/
def settleExhausted (w : World) (c : NodeId) : Run Story Bool := do
  let s ← get
  let n := s.node c
  if n.isBlock then
    modify (·.leaveBlock c)
    return n.parent.isSome
  else if !s.choices.isEmpty then return false
  else
    match if n.isChoice || n.isGather then s.landing? c else none with
    | some (.gather i) =>
      enter w i
      return true
    | some (.choice parent position) =>
      modify fun s => { s with container := some parent, index := position }
      return true
    | none =>
      modify runOut
      return false

/-- One move of the cursor toward rest, where `i` is the node at the cursor; whether it has to move
on. -/
def settleAt (w : World) (i : NodeId) : Run Story Bool := do
  let s ← get
  let n := s.node i
  if n.isFallback && s.choices.isEmpty then
    if ← isAvailable w i then enter w i else modify fun s => { s with index := s.index + 1 }
    return true
  else if n.isBlock then
    enter w i
    return true
  else if n.isGather then
    if s.choices.isEmpty then
      enter w i
      return true
    else
      modify fun s => { s with processing := false }
      return false
  else return false

/-- One move of the cursor toward rest; whether it has to move on. -/
def settleOnce (w : World) : Run Story Bool := do
  let s ← get
  match s.container, s.cursor? with
  | none, _ => return false
  | some c, none => settleExhausted w c
  | some _, some i => settleAt w i

/-- Moves the cursor until it is at rest. -/
def settleWithin (w : World) : (moves : Nat) → Run Story Unit
  | 0 => Run.unfinished
  | moves + 1 => do
    if ← settleOnce w then settleWithin w moves

/-- Brings the cursor to rest. It moves forward only, and each node is entered, left, passed or
converged from at most once, which bounds the number of moves. -/
def settle (w : World) : Run Story Unit := do
  settleWithin w (4 * (← get).content.size + 4)

end Story

end Narrative
