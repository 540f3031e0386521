import Narrative.Text

/-!
# Interrupts

A host can overlay a running story with interrupts: a choice that is put in front of the pending
ones, or a redirection of a divert to another place. An interrupt is used up once it fires.
-/

namespace Narrative

/-- What an interrupt does. -/
inductive InterruptKind where
  /-- Offers a choice. -/
  | choice
  /-- Redirects a divert. -/
  | divert
deriving DecidableEq, Repr

/-- An overlay of a running story. -/
structure Interrupt where
  /-- The id of the interrupt, and of the node of its choice. -/
  id : String
  /-- What it does. -/
  kind : InterruptKind
  /-- The choice line, or the two places around an arrow. -/
  text : String
  /-- The condition under which it fires; blank for none. -/
  condition : String := ""
  /-- A source that it needs. -/
  file : Option String := none
  /-- Whether it may fire. -/
  active : Bool := true
  /-- Whether it has fired. -/
  done : Bool := false
deriving DecidableEq, Repr

namespace Interrupt

/-- Whether the interrupt can still fire. -/
def isLive (i : Interrupt) : Bool :=
  i.active && !i.done

/-- The interrupt after it has fired. -/
def finish (i : Interrupt) : Interrupt :=
  { i with active := false, done := true }

/-- The text of a redirection between two places. -/
def redirection (origin destination : String) : String :=
  origin ++ " -> " ++ destination

/-- The place a redirection replaces and the place it leads to. -/
def redirect? (i : Interrupt) : Option (List Char × List Char) :=
  match i.kind with
  | .choice => none
  | .divert =>
    (Text.cutAt? ['-', '>'] i.text.toList).map fun (origin, destination) =>
      (Text.trim origin, Text.trim destination)

/-- Whether the condition is blank, so that it always holds. -/
def isUnconditional (i : Interrupt) : Bool :=
  (Text.trim i.condition.toList).isEmpty

end Interrupt

end Narrative
