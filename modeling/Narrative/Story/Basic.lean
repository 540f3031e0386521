import Narrative.Source.Load
import Narrative.Story.Function
import Narrative.Story.Interrupt

/-!
# Stories

A story in play is its content, the memory of what happened, and a cursor: the container being
played and the position of the next node in it. Choices and comments met on the way are collected.
This module holds the story and what can be read off it; play changes it.
-/

namespace Narrative

/-- The position beyond every child of a node. -/
def beyondAll : Nat := 18446744073709551615

/-- What a story is played in. -/
structure World where
  /-- The host. -/
  host : Host
  /-- How deeply calls of functions may nest. -/
  depth : Nat
  /-- How many nodes may be played in a row. -/
  steps : Nat

/-- A story in play. -/
structure Story where
  /-- The sources read so far. -/
  sources : Sources
  /-- The interrupts in the order in which they were added. -/
  interrupts : List Interrupt := []
  /-- The container being played; none after the end. -/
  container : Option NodeId
  /-- The position of the next node in the container. -/
  index : Nat := 0
  /-- The texts shown so far. -/
  transcript : List String := []
  /-- The choices the player can take. -/
  choices : List NodeId := []
  /-- The comments collected. -/
  comments : List NodeId := []
  /-- The background picture. -/
  background : Option String := none
  /-- Whether play has not been diverted to the end. -/
  running : Bool := true
  /-- Whether play is not waiting for a choice. -/
  processing : Bool := true
  /-- What expressions read and change. -/
  memory : Memory := {}
deriving DecidableEq, Inhabited

/-- A computation on a story that may stop with an error and keeps the state it has reached. -/
abbrev Play := ExceptT StoryError (Run Story)

namespace Story

/-- The nodes of a story. -/
def content (s : Story) : Content :=
  s.sources.content

/-- A node of a story. -/
def node (s : Story) (i : NodeId) : Node :=
  s.content.node i

/-- The nodes that play goes through inside a node. -/
def children (s : Story) (i : NodeId) : List NodeId :=
  s.memory.children s.content i

/-- The place where expressions are evaluated now. -/
def stage (s : Story) (host : Host) : Stage :=
  { host, content := s.content, here := s.container }

/-- The node at the cursor. Beyond all positions there is none. -/
def cursor? (s : Story) : Option NodeId :=
  s.container.bind fun c => if s.index < beyondAll then (s.children c)[s.index]? else none

/-- The node that is played next. -/
def current? (s : Story) : Option NodeId :=
  if s.running then s.cursor? else none

/-- Whether there is a text to be played before the next choice. -/
def hasMore (s : Story) : Bool :=
  s.processing && s.running && s.cursor?.isSome

/-- Whether the story is over. -/
def isEnded (s : Story) : Bool :=
  s.container.isNone

/-- A computation on the memory that expressions at the cursor have access to. -/
def think {α : Type} (w : World) (f : Stage → Context Memory → Run Memory α) : Run Story α :=
  fun s =>
    let stage := s.stage w.host
    (f stage (stage.context w.depth) s.memory).map fun (a, memory) => (a, { s with memory })

/-- A computation on the memory that may stop with an error of the story. -/
def act {α : Type} (w : World) (f : Stage → Context Memory → Act α) : Play α :=
  ExceptT.mk (think w fun stage ctx => (f stage ctx).run)

/-- Whether a condition holds at the cursor. -/
def holds (w : World) (source : String) : Run Story Bool :=
  think w fun _ ctx => ctx.holds source

/-- A text of a node as it is shown, with its directives resolved. -/
def shownText (w : World) (i : NodeId) : Run Story String := do
  let s ← get
  let count := (s.memory.mark i).count
  let text ← think w fun _ ctx => Directive.expand ctx count (s.node i).text.toList
  return String.ofList (Text.cleanUp text)

/-- The value of an expression at the cursor. -/
def evaluate (w : World) (source : String) : Run Story (Except ExprError Value) :=
  think w fun _ ctx => (ctx.evalText source.toList).run

/-- Whether a choice is offered: its conditions hold, and it is repeatable or was never taken. Other
nodes are not offered. -/
def isAvailable (w : World) (i : NodeId) : Run Story Bool := do
  let s ← get
  match (s.node i).kind with
  | .choice repeatable conditions =>
    if !repeatable && (s.memory.mark i).count > 0 then return false
    else think w fun _ ctx => ctx.allHold conditions
  | _ => return false

/-- The global variable of a name. -/
def global? (s : Story) (name : String) : Option Value :=
  s.memory.globals.get? name

/-- Stores a value in a parameter at the cursor or in a global variable. -/
def assign (s : Story) (host : Host) (name : String) (value : Value) : Story :=
  { s with memory := (s.stage host).assign s.memory name value }

/-- Starts the dice from a seed. -/
def reseed (s : Story) (seed : Nat) : Story :=
  { s with memory := { s.memory with dice := .ofSeed seed } }

end Story

end Narrative
