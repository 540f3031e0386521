import Narrative.SavedGame.Basic
import Narrative.Story.Play

/-!
# Saving and restoring

Saving takes down what changes while a story is played; restoring puts it back into a story of the
same sources. Sources that the saved game names and the story lacks are read first. A saved game
that does not fit stops the restoring, and what was restored before it stays.
-/

namespace Narrative

/-- The saved form of a value. -/
def SavedValue.ofValue : Value → SavedValue
  | .null => .null
  | .bool b => .bool b
  | .number n => .number n.text
  | .str s => .str s
  | .container id => .divert id
  | .object key => .object key

/-- The value that was saved; a number that cannot be read is null, and an object has to be known
to the host. -/
def SavedValue.toValue (host : Host) : SavedValue → Except StoryError Value
  | .bool b => .ok (.bool b)
  | .number text => .ok (((Decimal.parse? text.toList).map Value.number).getD .null)
  | .str s => .ok (.str s)
  | .divert id => .ok (.container id)
  | .object key => if host.hasObject key then .ok (.object key) else .error (.unknownObject key)
  | .null => .ok .null

/-- The map with the same names and other values. -/
def NameMap.mapValues {β γ : Type} (f : β → γ) (m : NameMap β) : NameMap γ :=
  .ofList (m.toList.map fun (name, v) => (name, f v))

namespace Story

/-- What is saved of a node. -/
def savedNode (s : Story) (i : NodeId) : SavedNode :=
  let mark := s.memory.mark i
  { count := mark.count
    params := mark.scope.mapValues SavedValue.ofValue
    selection := if (s.node i).isBlock then some mark.selection else none }

/-- The nodes that were visited. -/
def visited (s : Story) : List NodeId :=
  (List.range s.content.size).filter fun i => (s.memory.mark i).count != 0

/-- The ids of some nodes. -/
def ids (s : Story) (is : List NodeId) : List String :=
  is.map fun i => (s.node i).id

/-- The saved form of a story. -/
def save (s : Story) : SavedGame :=
  { files := s.sources.files
    content := .ofList (s.visited.map fun i => ((s.node i).id, s.savedNode i))
    container := s.container.map fun c => (s.node c).id
    index := s.index
    text := s.transcript
    choices := s.ids s.choices
    comments := s.ids s.comments
    image := s.background
    globals := s.memory.globals.mapValues SavedValue.ofValue
    running := s.running
    processing := s.processing }

/-- A step of restoring, which changes the story and may fail. -/
abbrev Restoring := ExceptT StoryError (StateM Story)

/-- Reads the sources that the story lacks. -/
def requireFiles (host : Host) : List String → Restoring Unit
  | [] => return
  | file :: rest => do
    let s ← get
    let (loaded, sources) := s.sources.require host file
    set { s with sources }
    match loaded with
    | .ok () => requireFiles host rest
    | .error e => throw e

/-- The values that were saved. -/
def restoredValues (host : Host) :
    List (String × SavedValue) → Except StoryError (List (String × Value))
  | [] => .ok []
  | (name, v) :: rest => do
    let v ← v.toValue host
    return (name, v) :: (← restoredValues host rest)

/-- The mark of a node as it was saved. Only sections have parameters, and only blocks have a chosen
option. -/
def restoredMark (n : Node) (saved : SavedNode) (scope : List (String × Value)) : Mark :=
  { visits := saved.count
    scope := if n.isSection then .ofList scope else .empty
    selection := if n.isBlock then saved.selection.getD 0 else 0 }

/-- Restores the marks of nodes; those that the story lacks are passed over. -/
def restoreMarks (host : Host) : List (String × SavedNode) → Restoring Unit
  | [] => return
  | (id, saved) :: rest => do
    let s ← get
    match s.content.find? id with
    | none => restoreMarks host rest
    | some i =>
      match restoredValues host saved.params.toList with
      | .error e => throw e
      | .ok scope =>
        let mark := restoredMark (s.node i) saved scope
        set { s with memory := s.memory.modifyMark i fun _ => mark }
        restoreMarks host rest

/-- Restores the cursor. -/
def restoreCursor (container : Option String) (index : Nat) : Restoring Unit := do
  let s ← get
  match container with
  | none => set { s with container := none, index }
  | some id =>
    match s.content.find? id with
    | none => throw (.unknownContainer id)
    | some c => set { s with container := some c, index }

/-- Restores the pending choices one by one. -/
def restoreChoices : List String → Restoring Unit
  | [] => return
  | id :: rest => do
    let s ← get
    match s.content.find? id with
    | none => throw (.unknownContainer id)
    | some i =>
      if (s.node i).isChoice then
        set { s with choices := s.choices ++ [i] }
        restoreChoices rest
      else throw (.notAChoice id)

/-- Restores the global variables one by one. -/
def restoreGlobals (host : Host) : List (String × SavedValue) → Restoring Unit
  | [] => return
  | (name, v) :: rest => do
    match v.toValue host with
    | .error e => throw e
    | .ok v =>
      modify fun s => { s with memory := s.memory.setGlobal name v }
      restoreGlobals host rest

/-- Restores a saved game step by step. -/
def restoring (host : Host) (g : SavedGame) : Restoring Unit := do
  requireFiles host g.files
  modify fun s => { s with memory := { s.memory with marks := {} } }
  restoreMarks host g.content.toList
  restoreCursor g.container g.index
  modify fun s => { s with transcript := g.text, choices := [] }
  restoreChoices g.choices
  modify fun s =>
    { s with
      comments := g.comments.filterMap s.content.find?
      background := g.image
      memory := { s.memory with globals := .empty } }
  restoreGlobals host g.globals.toList
  modify fun s => { s with running := g.running, processing := g.processing }

/-- Restores a saved game. The story is returned with all that was restored, also when the saved
game does not fit. -/
def restore (host : Host) (g : SavedGame) (s : Story) : Except StoryError Unit × Story :=
  (restoring host g).run s

end Story

end Narrative
