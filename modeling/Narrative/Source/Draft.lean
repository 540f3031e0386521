import Narrative.Source.Line

/-!
# Building content from a source

A source is read line by line. The draft remembers the container that the next line belongs to and
the blocks that are open. Choices and gathers are nested by their number of markers; text,
statements and comments go under the current container. A fault stops the reading, and the nodes
read before it stay.
-/

namespace Narrative

/-- The content read so far and the place where reading goes on. -/
structure Draft where
  /-- The nodes read so far, from this source and from those before it. -/
  content : Content
  /-- The file being read. -/
  file : String
  /-- The line being read, counted from one. -/
  line : Nat := 0
  /-- The container that the next line belongs to. -/
  current : Option NodeId := none
  /-- The open blocks, the innermost first. -/
  blocks : List NodeId := []
  /-- The knot at which this source starts. -/
  start : Option NodeId := none
  /-- The files that this source includes, in the order in which they are written. -/
  includes : List String := []
deriving DecidableEq, Repr

/-- A step of reading, which changes the draft and may find a fault. -/
abbrev Build := ExceptT SourceFault (StateM Draft)

namespace Draft

/-- A fresh node at the place being read. -/
def fresh (d : Draft) (id : String) (kind : NodeKind) (text : List Char) : Node :=
  { id, file := d.file, line := d.line, kind, text := String.ofList text }

/-- Adds a node to the content. -/
def add (n : Node) : Build NodeId := do
  let d ← get
  match d.content.insert? n with
  | none => throw (.duplicateId n.id)
  | some content =>
    set { d with content }
    return d.content.size

/-- Adds a node under `parent`. A node without a level of its own takes that of its parent. -/
def hang (parent : NodeId) (n : Node) : Build NodeId := do
  let d ← get
  let level := if n.level = 0 then (d.content.node parent).level else n.level
  let id ← add { n with level }
  modify fun d => { d with content := d.content.attach parent id }
  return id

/-- Adds a node under `parent` with the next positional id. -/
def hangNext (parent : NodeId) (kind : NodeKind) (text : List Char) : Build NodeId := do
  let d ← get
  hang parent (d.fresh (d.content.node parent).nextChildId kind text)

/-- Adds a line of text under `parent`. -/
def addText (parent : NodeId) (text : List Char) : Build Unit :=
  (textParts text).forM fun part => do discard <| hangNext parent .text part

/-- Makes a node the container of the next line. -/
def moveTo (i : Option NodeId) : Build Unit :=
  modify fun d => { d with current := i }

/-- Result of a reader that does not depend on the draft. -/
def result {α : Type} (r : Except SourceFault α) : Build α :=
  ExceptT.mk (pure r)

/-- Fails when a block is open. -/
def checkClosed : Build Unit := do
  unless (← get).blocks.isEmpty do throw .unclosedBlock

/-- Reads the header of a knot or function. The first knot is the start, but one that has no
children when the next knot begins gives way to that knot. -/
def readKnot (line : List Char) : Build Unit := do
  checkClosed
  let header := SectionHeader.body line
  let isFunction := Text.after? "function ".toList header
  let ⟨name, params⟩ ← result (SectionHeader.read ((isFunction.map Text.trim).getD header))
  if name.isEmpty then throw .namelessKnot
  let kind := if isFunction.isSome then .function params else .knot params
  let id ← add ((← get).fresh (String.ofList name) kind name)
  modify fun d =>
    let isPlaceholder := d.start.all fun s => (d.content.node s).children.isEmpty
    { d with
      start := if isFunction.isNone && isPlaceholder then some id else d.start
      current := some id }

/-- Whether a node holds stitches. -/
def holdsStitches (n : Node) : Bool :=
  n.isKnot || n.isFunction

/-- The nearest node with a property among the current container and those above it. -/
def nearest? (d : Draft) (p : Node → Bool) : Option NodeId :=
  d.current.bind fun i => (d.content.lineage i).find? fun j => p (d.content.node j)

/-- Reads the header of a stitch. -/
def readStitch (line : List Char) : Build Unit := do
  checkClosed
  let ⟨name, params⟩ ← result (SectionHeader.read (SectionHeader.body line))
  let d ← get
  match d.nearest? holdsStitches with
  | none => throw .orphanStitch
  | some knot =>
    let id := (d.content.node knot).id ++ "." ++ String.ofList name
    moveTo (← hang knot { d.fresh id (.stitch params) name with level := 1 })

/-- Whether a choice or gather of the given level can hang under a node: choices and gathers hold
deeper ones only. -/
def acceptsLevel (level : Nat) (n : Node) : Bool :=
  !((n.isChoice || n.isGather) && level ≤ n.level)

/-- The node under which a choice or gather of the given level hangs. -/
def weaveParent? (d : Draft) (level : Nat) : Option NodeId :=
  d.nearest? (acceptsLevel level)

/-- The id of a choice or gather under `parent`. -/
def labelledId (parent : Node) (label : Option (List Char)) : String :=
  match label with
  | some name => parent.id ++ "." ++ String.ofList name
  | none => parent.nextChildId

/-- The node of a choice. -/
def choiceNode (d : Draft) (id : String) (repeatable : Bool) (level : Nat) (c : ChoiceLine) :
    Node :=
  { d.fresh id (.choice repeatable c.conditions) c.display with level }

/-- Goes on inside a choice that has just been added, and adds its played text. -/
def finishChoice (id : NodeId) (c : ChoiceLine) : Build Unit := do
  moveTo (some id)
  unless c.body.isEmpty do addText id c.body

/-- Reads a choice. -/
def readChoice (marker : Char) (line : List Char) : Build Unit := do
  let (markers, rest) := stripMarkers marker line
  let level := 1 + markers
  match (← get).weaveParent? level with
  | none => throw .orphanChoice
  | some parent =>
    let c ← result (ChoiceLine.read rest)
    let d ← get
    let id := labelledId (d.content.node parent) c.label
    finishChoice (← hang parent (d.choiceNode id (marker == '+') level c)) c

/-- Reads a choice that hangs under no node and has the given id. -/
def readDetached (line : List Char) (id : String) : Build NodeId := do
  match line with
  | marker :: _ =>
    unless marker == '*' || marker == '+' do throw .unmarkedChoice
    let (markers, rest) := stripMarkers marker line
    let c ← result (ChoiceLine.read rest)
    let i ← add ((← get).choiceNode id (marker == '+') (1 + markers) c)
    finishChoice i c
    return i
  | [] => throw .unmarkedChoice

/-- Reads a gather. -/
def readGather (line : List Char) : Build Unit := do
  let (markers, rest) := stripMarkers '-' line
  let level := 1 + markers
  match (← get).weaveParent? level with
  | none => throw .orphanGather
  | some parent =>
    let (label, text) ← result (readGatherLabel rest)
    let d ← get
    let id ← hang parent
      { d.fresh (labelledId (d.content.node parent) label) .gather [] with level }
    moveTo (some id)
    unless text.isEmpty do addText id text

/-- Reads a statement. -/
def readStatement (line : List Char) : Build Unit := do
  match (← get).current with
  | none => throw .orphanStatement
  | some parent =>
    let s ← result ((Statement.ofLine line).mapError .statement)
    discard <| hangNext parent (.statement s) line

/-- Reads the header of a block, given without its brace. -/
def openBlock (header : List Char) : Build Unit := do
  match (← get).current with
  | none => throw .orphanBlock
  | some parent =>
    let (mode, options) ← result (readBlockHeader (Text.trim header))
    let id ← hangNext parent (.block mode options) []
    modify fun d => { d with blocks := id :: d.blocks, current := some id }

/-- The mode of an open block. -/
def blockMode (d : Draft) (block : NodeId) : BlockMode :=
  match (d.content.node block).kind with
  | .block mode _ => mode
  | _ => .conditional

/-- Whether a line begins an option of a block: after a hyphen that begins no arrow, and in a
conditional block with a colon at its end. -/
def beginsOption (mode : BlockMode) (line : List Char) : Bool :=
  line.head? == some '-' && !Text.startsWithArrow line &&
    (mode != .conditional || line.getLast? == some ':')

/-- Begins an option of a block, given the text behind the hyphen. -/
def startOption (block : NodeId) (mode : BlockMode) (body : List Char) : Build Unit :=
  modify fun d =>
    let guard := if mode = .conditional then optionGuard body else none
    { d with content := d.content.modify block (·.addOption guard), current := some block }

/-- Closes the innermost open block and goes on under the node that holds it. -/
def closeBlock : Build Unit :=
  modify fun d =>
    match d.blocks with
    | [] => d
    | block :: blocks => { d with blocks, current := (d.content.node block).parent }

/-- Reads a line that neither closes a block nor begins an option. -/
def readPlain (line : List Char) : Build Unit :=
  match line with
  | '=' :: '=' :: _ => readKnot line
  | '=' :: _ => readStitch line
  | '*' :: _ => readChoice '*' line
  | '+' :: _ => readChoice '+' line
  | _ =>
    if line.head? = some '-' ∧ !Text.startsWithArrow line then readGather line
    else if line.head? = some '\x7b' ∧ !line.contains '\x7d' then openBlock line.tail
    else if Statement.isWritten line then readStatement line
    else do
      match (← get).current with
      | none => return
      | some parent => addText parent line

/-- Reads a line without its comment. What stands in front of a closing brace, and the text of an
option of a sequence, are lines of their own. -/
def readCode (line : List Char) : Build Unit :=
  match line with
  | [] => return
  | c :: rest => do
    let d ← get
    match d.blocks with
    | [] => readPlain (c :: rest)
    | block :: _ =>
      if closesBlock 0 (c :: rest) then
        readCode (Text.trim (c :: rest).dropLast)
        closeBlock
      else if beginsOption (d.blockMode block) (c :: rest) then
        let body := Text.trim rest
        startOption block (d.blockMode block) body
        unless d.blockMode block = .conditional do readCode body
      else readPlain (c :: rest)
termination_by line.length
decreasing_by
  · have := Text.length_trim_le (c :: rest).dropLast
    simp only [List.length_dropLast, List.length_cons] at this ⊢
    omega
  · have := Text.length_trim_le rest
    simp only [List.length_cons]
    omega

/-- Reads the comment of a line. Before the first knot comments are ignored. -/
def readComment (comment : List Char) : Build Unit := do
  match (← get).current with
  | none => return
  | some parent =>
    match ← result (Remark.read comment) with
    | .background name =>
      modify fun d =>
        { d with content := d.content.modify parent ({ · with background := some name }) }
    | .comment once conditions text =>
      discard <| hangNext parent (.comment once conditions) text.toList
    | .silent => return

/-- Reads a line. The comment of a line that includes a file is ignored. -/
def readLine (raw : List Char) : Build Unit := do
  let (code, comment) := splitComment raw
  match included? code with
  | some file => modify fun d => { d with includes := d.includes ++ [file] }
  | none =>
    readCode code
    if let some comment := comment then readComment comment

/-- Reads the lines of a source to its end, where no block may be open. -/
def readLines : List (List Char) → Build Unit
  | [] => checkClosed
  | raw :: rest => do
    modify fun d => { d with line := d.line + 1 }
    readLine raw
    readLines rest

/-- Runs a reader and gives a fault the place where it was found. -/
def locate {α : Type} (d : Draft) (b : Build α) : Except SourceError α × Draft :=
  match b.run d with
  | (.ok a, d) => (.ok a, d)
  | (.error fault, d) => (.error ⟨d.file, d.line, fault⟩, d)

end Draft

/-- What a source contributes besides its nodes. -/
structure Source where
  /-- The knot at which it starts, if it has one. -/
  start : Option NodeId
  /-- The files it includes. -/
  includes : List String
deriving DecidableEq, Repr

/-- Reads a source into content. The content is returned with all nodes read, also when a fault
stops the reading. -/
def Content.read (content : Content) (file : String) (text : List Char) :
    Except SourceError Source × Content :=
  match ({ content, file } : Draft).locate (Draft.readLines (Text.lines text)) with
  | (.ok _, d) => (.ok ⟨d.start, d.includes⟩, d.content)
  | (.error e, d) => (.error e, d.content)

/-- Reads a choice under no node into content. -/
def Content.readDetached (content : Content) (line : List Char) (id file : String) :
    Except SourceError NodeId × Content :=
  match ({ content, file, line := 1 } : Draft).locate (Draft.readDetached (Text.trim line) id) with
  | (r, d) => (r, d.content)

end Narrative
