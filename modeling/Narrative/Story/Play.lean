import Narrative.Story.Divert

/-!
# Play

A story is pulled: it is advanced by one unit of text at a time until a choice has to be taken or
it ends. A unit goes on as long as the next node continues it, because of glue, because choices
are gathered silently, or because the unit is still blank.
-/

namespace Narrative

/-- The mark that joins two pieces of text. -/
def glue : List Char := ['<', '>']

/-- Whether a text begins with glue. -/
def startsWithGlue (text : String) : Bool :=
  (Text.after? glue text.toList).isSome

namespace Story

/-- Collects a choice if it is available. A fallback choice is entered at once when no other choice
is pending, and dropped otherwise. -/
def addChoice (w : World) (i : NodeId) : Run Story Unit := do
  if ← isAvailable w i then
    modify fun s =>
      if (s.node i).isFallback then
        if s.choices.isEmpty then
          { s with container := some i, index := 0, memory := s.memory.visit i }
        else s
      else { s with choices := s.choices ++ [i] }

/-- Collects a comment unless it has been collected already. -/
def addComment (s : Story) (i : NodeId) : Story :=
  if s.comments.contains i then s else { s with comments := s.comments ++ [i] }

/-- Plays the node at the cursor; the result is its text. -/
def resolve (w : World) (i : NodeId) : Play (List Char) := do
  let s ← get
  let n := s.node i
  match n.kind with
  | .text =>
    if n.isDivert then return glue
    else
      let count := (s.memory.mark i).count
      let text ← ExceptT.lift (think w fun _ ctx => Directive.expand ctx count n.text.toList)
      modify fun s => { s with memory := s.memory.visit i }
      return text
  | .choice .. =>
    addChoice w i
    return []
  | .comment .. =>
    modify (·.addComment i)
    return []
  | .statement t =>
    act w fun stage ctx => stage.execute ctx n.line t
    return []
  | _ => return []

/-- Ends the story by a divert. -/
def finish (s : Story) : Story :=
  { s with container := none, running := false, choices := [] }

/-- The story with the cursor past the node that was played. A fallback choice that was entered when
it was played is already where play goes on. -/
def pass (s : Story) (i : NodeId) : Story :=
  if s.container = some i then s else { s with index := s.index + 1 }

/-- Moves the cursor past the node that was played, or where its divert leads. -/
def step (w : World) (i : NodeId) : Play Unit := do
  let n := (← get).node i
  if n.isDivert then
    match ← takeDivert w n with
    | some (target, args) =>
      enterWith w target args
      modify fun s => { s with choices := [] }
      settle w
    | none => modify finish
  else
    modify (·.pass i)
    settle w

/-- Whether a unit goes on with a node. The unit is given backwards, its last character first. -/
def continuesInto (s : Story) (host : Host) (next : NodeId) (backwards : List Char) : Bool :=
  let n := s.node next
  if startsWithGlue n.text || glue.reverse.isPrefixOf backwards || backwards.all Text.isBlank then
    true
  else if (n.isChoice && !n.isFallback) || n.isStitch then true
  else
    match s.peekDivert host n with
    | none => false
    | some none => true
    | some (some target) =>
      (s.children target).head?.any fun first => startsWithGlue (s.node first).text

/-- Plays the node at the cursor and moves on; the result is its text. -/
def playNode (w : World) (i : NodeId) : Play (List Char) := do
  let text ← resolve w i
  step w i
  return text

/-- Whether a unit goes on with the next node, if there is one to be played. -/
def goesOn (s : Story) (host : Host) (backwards : List Char) : Bool :=
  s.processing && s.current?.any fun next => s.continuesInto host next backwards

/-- Plays nodes as long as they continue the unit, of which `backwards` holds what has been played,
the last character first: a unit grows and is looked at where it ends. -/
def playUnit (w : World) : (steps : Nat) → (backwards : List Char) → Play (List Char)
  | 0, _ => ExceptT.lift Run.unfinished
  | steps + 1, backwards => do
    match (← get).current? with
    | none => return backwards.reverse
    | some i =>
      let backwards := (← playNode w i).reverse ++ backwards
      if (← get).goesOn w.host backwards then playUnit w steps backwards
      else return backwards.reverse

/-- Puts the choice of an interrupt in front of the pending ones, unless it is among them. -/
def addInterruptChoice (w : World) (i : Interrupt) : Run Story Unit := do
  if ← fires w i (i.kind == .choice) then
    let s ← get
    match s.content.find? i.id with
    | none => return
    | some choice =>
      unless s.choices.contains choice do
        if ← isAvailable w choice then modify fun s => { s with choices := choice :: s.choices }

/-- Adds the choices of all interrupts to the pending ones. -/
def addInterruptChoices (w : World) : List Interrupt → Run Story Unit
  | [] => return
  | i :: rest => do
    addInterruptChoice w i
    addInterruptChoices w rest

/-- Appends a text to the transcript unless it is empty. -/
def record (s : Story) (text : String) : Story :=
  if text.isEmpty then s else { s with transcript := s.transcript ++ [text] }

/-- Plays the next unit of text. -/
def advance (w : World) : Play String := do
  unless (← get).hasMore do throw .nothingPending
  let unit ← playUnit w w.steps []
  let s ← get
  unless s.hasMore do addInterruptChoices w s.interrupts
  let text := String.ofList (Text.cleanUp unit)
  modify (·.record text)
  return text

/-- Plays units of text within a number of steps. -/
def advanceWithin (w : World) : (steps : Nat) → Play (List String)
  | 0 => ExceptT.lift Run.unfinished
  | steps + 1 => do
    if (← get).hasMore then
      let text ← advance w
      let rest ← advanceWithin w steps
      return if text.isEmpty then rest else text :: rest
    else return []

/-- Plays all units of text up to the next choice or the end, and leaves out the empty ones. -/
def advanceAll (w : World) : Play (List String) :=
  advanceWithin w w.steps

/-- The texts of some choices as they are shown. -/
def choiceTexts (w : World) : List NodeId → Run Story (List String)
  | [] => return []
  | i :: rest => do return (← shownText w i) :: (← choiceTexts w rest)

/-- The texts of the pending choices as they are shown. -/
def pendingTexts (w : World) : Run Story (List String) := do
  choiceTexts w (← get).choices

/-- The text of a pending choice as it is shown. -/
def pendingText? (w : World) (index : Nat) : Run Story (Option String) := do
  match (← get).choices[index]? with
  | none => return none
  | some i => return some (← shownText w i)

/-- The story with the cursor in a choice that was taken. The interrupt that offered it is used
up. -/
def take (s : Story) (choice : NodeId) : Story :=
  let id := (s.node choice).id
  { s with
    interrupts := s.interrupts.map fun i => if i.id = id then i.finish else i
    container := some choice
    index := 0
    choices := []
    processing := true
    memory := s.memory.visit choice }

/-- The error of taking a choice that is not pending. -/
def noSuchChoice (s : Story) (index : Nat) : StoryError :=
  .choiceOutOfRange index (s.sources.files.headD "")
    ((s.container.map fun c => (s.node c).id).getD "null") s.index

/-- Takes a pending choice and goes on inside it. -/
def choose (w : World) (index : Nat) : Play Unit := do
  let s ← get
  match s.choices[index]? with
  | none => throw (s.noSuchChoice index)
  | some choice =>
    modify (·.take choice)
    settle w

/-- The first of the collected comments from a position on whose conditions hold. One that is shown
once is dropped. -/
def commentFrom (w : World) : (position : Nat) → List NodeId → Run Story (Option String)
  | _, [] => return none
  | position, i :: rest => do
    match ((← get).node i).kind with
    | .comment once conditions =>
      if ← think w fun _ ctx => ctx.allHold conditions then
        if once then modify fun s => { s with comments := s.comments.eraseIdx position }
        return some (← shownText w i)
      else commentFrom w (position + 1) rest
    | _ => commentFrom w (position + 1) rest

/-- The comment to be shown now. -/
def currentComment (w : World) : Run Story (Option String) := do
  commentFrom w 0 (← get).comments

/-- Adds an interrupt whose source has been read. Its choice is read unless a node has its id. -/
def overlay (i : Interrupt) (s : Story) : Except StoryError Unit × Story :=
  if i.kind = .choice ∧ (s.content.find? i.id).isNone then
    match s.content.readDetached i.text.toList i.id (i.file.getD "interrupt") with
    | (.error e, content) => (.error (.parse e), { s with sources := { s.sources with content } })
    | (.ok _, content) =>
      (.ok (), { s with sources := { s.sources with content }, interrupts := s.interrupts ++ [i] })
  else (.ok (), { s with interrupts := s.interrupts ++ [i] })

/-- Adds an interrupt, reading the source it needs and its choice. -/
def addInterrupt (host : Host) (i : Interrupt) (s : Story) : Except StoryError Unit × Story :=
  match i.file with
  | none => overlay i s
  | some file =>
    match s.sources.require host file with
    | (.error e, sources) => (.error e, { s with sources })
    | (.ok (), sources) => overlay i { s with sources }

/-- A story that starts at a knot, or at the stitch with which the knot begins. The background is
that of the knot. -/
def atStart (sources : Sources) (start : NodeId) (seed : Nat) : Story :=
  let s : Story := { sources, container := some start }
  { s with
    container := some (s.descend start)
    background := (s.node start).background
    memory :=
      { globals := .ofList [("TRUE", .int 1), ("FALSE", .int 0)], dice := .ofSeed seed } }

/-- Reads a story and brings it to its start. -/
def load (w : World) (main : String) (seed : Nat) : Option (Except StoryError Story) :=
  match Sources.ofMain w.host main with
  | .error e => some (.error e)
  | .ok (start, sources) =>
    (settle w (atStart sources start seed)).map fun (_, s) => .ok s

end Story

end Narrative
