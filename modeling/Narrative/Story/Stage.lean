import Narrative.Directive
import Narrative.Host
import Narrative.Story.Memory

/-!
# Names on stage

An expression is evaluated at a place of a story. A name there is a parameter of a section around
the place, the number of visits of a container, or a global variable, and diverts find containers
by their id, by an id relative to the sections around the place, or by a label that is unique.
-/

namespace Narrative

/-- Where an expression is evaluated. -/
structure Stage where
  /-- The host. -/
  host : Host
  /-- The content of the story. -/
  content : Content
  /-- The container being played; none after the end. -/
  here : Option NodeId

namespace Stage

variable (s : Stage)

/-- The container being played and those above it. -/
def lineage : List NodeId :=
  (s.here.map s.content.lineage).getD []

/-- The sections around the place, the nearest first. -/
def sections : List NodeId :=
  s.lineage.filter fun i => (s.content.node i).isSection

/-- The container being played and the sections above it. -/
def surroundings : List NodeId :=
  match s.lineage with
  | [] => []
  | i :: above => i :: above.filter fun j => (s.content.node j).isSection

/-- The node with an id that extends that of a node. -/
def under? (i : NodeId) (name : String) : Option NodeId :=
  s.content.find? ((s.content.node i).id ++ "." ++ name)

/-- The nearest section around the place that has a parameter of the given name. -/
def binder? (m : Memory) (name : String) : Option NodeId :=
  s.sections.find? fun i => (m.mark i).scope.contains name

/-- The value of a parameter. -/
def parameter? (m : Memory) (name : String) : Option Value :=
  (s.binder? m name).bind fun i => (m.mark i).scope.get? name

/-- Stores a value in the nearest parameter of a name, or else in the global variable. -/
def assign (m : Memory) (name : String) (value : Value) : Memory :=
  match s.binder? m name with
  | some i => m.modifyMark i fun k => { k with scope := k.scope.insert name value }
  | none => m.setGlobal name value

/-- Whether the visits of a node can be read by name. -/
def isCounted (i : NodeId) : Bool :=
  (s.content.node i).isContainer && !(s.content.node i).isFunction

/-- The container whose visits a name stands for: the one with that id, or else the nearest one
with that id relative to the place or to a section around it. -/
def counted? (name : String) : Option NodeId :=
  (s.content.find? name).filter s.isCounted <|>
    s.surroundings.findSome? fun i => (s.under? i name).filter s.isCounted

/-- How often the container was visited that a name stands for. -/
def countOf? (m : Memory) (name : String) : Option Nat :=
  (s.counted? name).map fun i => (m.mark i).count

/-- The address in a name that is written as a reference with an arrow. -/
def reference? (name : String) : Option String :=
  (Text.after? ['-', '>'] name.toList).map fun address => String.ofList (Text.trim address)

/-- Whether a name stands for a value. -/
def hasVariable (m : Memory) (name : String) : Bool :=
  if name.toList.head?.all Char.isDigit then false
  else if name = "this" then s.here.isSome
  else if (s.binder? m name).isSome then true
  else
    match reference? name with
    | some address => (s.content.find? address).isSome
    | none => (s.countOf? m name).isSome || m.globals.contains name

/-- The value that a name stands for; an unknown name is zero. -/
def valueOf (m : Memory) (name : String) : Value :=
  if name = "this" then (s.here.map fun i => Value.str (s.content.node i).id).getD .null
  else
    match s.parameter? m name, reference? name with
    | some v, _ => v
    | none, some address =>
      if (s.content.find? address).isSome then .container address else .int 0
    | none, none =>
      match s.countOf? m name, m.globals.get? name with
      | some count, _ => .int count
      | none, some v => v
      | none, none => .int 0

/-- The function of the story with a name. -/
def function? (name : String) : Option NodeId :=
  (s.content.find? name).filter fun i => (s.content.node i).isFunction

/-- Whether a name can be called. -/
def hasFunction (name : String) : Bool :=
  Builtin.isName name || (s.function? name).isSome

/-- Whether a divert can lead to a node. -/
def isTarget (i : NodeId) : Bool :=
  (s.content.node i).isContainer

/-- The node a divert to a name leads to. The name is an id, an id relative to the container above
the place or to a section around it, a unique label, or a global variable that holds a
reference. -/
def target? (m : Memory) (name : String) : Option NodeId :=
  let parent := (s.here.bind fun i => (s.content.node i).parent).toList
  (s.content.find? name).filter s.isTarget <|>
    (parent ++ s.sections).findSome? (fun i => (s.under? i name).filter s.isTarget) <|>
    s.content.findByLabel? name <|>
    match m.globals.get? name with
    | some (.container id) => s.content.find? id
    | _ => none

/-- The name of a divert relative to the container above the place, for messages. -/
def qualified (name : String) : String :=
  match s.here.bind fun i => (s.content.node i).parent with
  | some p => if name.toList.contains '.' then name else (s.content.node p).id ++ "." ++ name
  | none => name

/-- A reference to the node that a divert to an address leads to. -/
def address? (m : Memory) (address : String) : Option Value :=
  (s.target? m address).map fun i => .container (s.content.node i).id

/-- The context for expressions at the place, with a way to call functions. -/
def contextWith (call : String → List Value → Eval Memory Value) : Context Memory where
  names m := { hasVariable := s.hasVariable m, hasFunction := s.hasFunction }
  value m name := s.valueOf m name
  call := call
  method := s.host.method
  roll bound m :=
    let (index, dice) := m.dice.roll s.host.random bound
    (index, { m with dice })

end Stage

end Narrative
