import Narrative.Proofs.Computation
import Narrative.Story.Play

/-!
# The nodes that are played

Advancing a story plays one node after another. Each of them adds its text to the unit, and a divert
leads play to another place or to the end of the story.
-/

namespace Narrative

/-- A node that was played. -/
structure Visit where
  /-- The node. -/
  node : NodeId
  /-- The text that it added to the unit. -/
  fragment : List Char
  /-- Where it led play if it is a divert; the inner none is the end of the story. -/
  destination : Option (Option NodeId)
deriving DecidableEq

namespace Story

/-- Where a node leads play if it is a divert. -/
def destination? (w : World) (i : NodeId) (s : Story) : Option (Option NodeId) :=
  if (s.node i).isDivert then
    match takeDivert w (s.node i) s with
    | some (.ok target, _) => some (target.map (·.1))
    | _ => none
  else none

/-- The nodes that are played in a unit of text, of which `backwards` has been played before. -/
def visitsWithin (w : World) : (steps : Nat) → (backwards : List Char) → Story → List Visit
  | 0, _, _ => []
  | steps + 1, backwards, s =>
    match s.current? with
    | none => []
    | some i =>
      match playNode w i s with
      | some (.ok fragment, t) =>
        let backwards := fragment.reverse ++ backwards
        ⟨i, fragment, destination? w i s⟩ ::
          if t.goesOn w.host backwards then visitsWithin w steps backwards t else []
      | _ => []

/-- The nodes that are played when a story is advanced. -/
def visits (w : World) (s : Story) : List Visit :=
  if s.hasMore then visitsWithin w w.steps [] s else []

end Story

end Narrative
