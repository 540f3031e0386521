import Narrative.Proofs.Story.Reachable

/-!
# Where play enters

Play enters containers in several ways. The entrances of a run are computed here beside the run, by
the same recursion: where the cursor is brought to rest, where a divert leads, where a fallback choice
is played and where the player takes a choice.
-/

namespace Narrative

/-- How play comes into a container. -/
inductive Manner where
  /-- The story starts in it. -/
  | start
  /-- A divert leads to it. -/
  | divert
  /-- The player takes it. -/
  | choice
  /-- It is a fallback choice that is played where no choice is pending. -/
  | fallback
  /-- It is a block, a gather or a fallback choice that is next where the cursor comes to rest. -/
  | passage
  /-- It is a gather on which play converges. -/
  | convergence
deriving DecidableEq

/-- An entrance of play into a container. -/
structure Entrance where
  /-- How play came. -/
  manner : Manner
  /-- The container. -/
  node : NodeId
deriving DecidableEq

namespace Story

/-! ## Coming to rest -/

/-- Whether a choice is found available. -/
def isOffered (w : World) (i : NodeId) (s : Story) : Bool :=
  (isAvailable w i s).any (·.1)

/-- What is entered where the container `c` is exhausted. -/
def exhaustedEntrance? (c : NodeId) (s : Story) : Option Entrance :=
  let n := s.node c
  if n.isBlock || !s.choices.isEmpty then none
  else
    match if n.isChoice || n.isGather then s.landing? c else none with
    | some (.gather i) => some ⟨.convergence, i⟩
    | _ => none

/-- What is entered where the node `i` is at the cursor. -/
def passageEntrance? (w : World) (i : NodeId) (s : Story) : Option Entrance :=
  let n := s.node i
  if n.isFallback && s.choices.isEmpty then
    if s.isOffered w i then some ⟨.passage, i⟩ else none
  else if n.isBlock || n.isGather && s.choices.isEmpty then some ⟨.passage, i⟩
  else none

/-- What is entered in one move of the cursor toward rest. -/
def settlingEntrance? (w : World) (s : Story) : Option Entrance :=
  match s.container, s.cursor? with
  | none, _ => none
  | some c, none => s.exhaustedEntrance? c
  | some _, some i => s.passageEntrance? w i

/-- What is entered until the cursor is at rest. -/
def settlingEntrances (w : World) : (moves : Nat) → Story → List Entrance
  | 0, _ => []
  | moves + 1, s => (s.settlingEntrance? w).toList ++
    match settleOnce w s with
    | some (true, t) => settlingEntrances w moves t
    | _ => []

/-- What is entered when the cursor is brought to rest. -/
def restEntrances (w : World) (s : Story) : List Entrance :=
  settlingEntrances w (4 * s.content.size + 4) s

/-! ## Playing -/

/-- What is entered when a node is played: a fallback choice where no choice is pending. -/
def fallbackEntrances (w : World) (i : NodeId) (s : Story) : List Entrance :=
  if (s.node i).isFallback && s.choices.isEmpty && s.isOffered w i then [⟨.fallback, i⟩] else []

/-- What is entered when the cursor moves past a node or where its divert leads. -/
def stepEntrances (w : World) (i : NodeId) (s : Story) : List Entrance :=
  if (s.node i).isDivert then
    match takeDivert w (s.node i) s with
    | some (.ok (some (target, args)), t) =>
      match enterWith w target args t with
      | some (.ok (), u) => ⟨.divert, target⟩ :: restEntrances w { u with choices := [] }
      | _ => []
    | _ => []
  else restEntrances w (s.pass i)

/-- What is entered when a node is played and the cursor moves on. -/
def nodeEntrances (w : World) (i : NodeId) (s : Story) : List Entrance :=
  s.fallbackEntrances w i ++
    match resolve w i s with
    | some (.ok _, t) => t.stepEntrances w i
    | _ => []

/-- What is entered in a unit of text, of which `backwards` has been played before. -/
def unitEntrances (w : World) : (steps : Nat) → (backwards : List Char) → Story → List Entrance
  | 0, _, _ => []
  | steps + 1, backwards, s =>
    match s.current? with
    | none => []
    | some i => s.nodeEntrances w i ++
      match playNode w i s with
      | some (.ok fragment, t) =>
        if t.goesOn w.host (fragment.reverse ++ backwards) then
          unitEntrances w steps (fragment.reverse ++ backwards) t
        else []
      | _ => []

/-! ## Whole runs -/

/-- What is entered when a story is asked for an action. -/
def actionEntrances (w : World) (s : Story) : Action → List Entrance
  | .advance => if s.hasMore then unitEntrances w w.steps [] s else []
  | .choose index =>
    match s.choices[index]? with
    | some i => ⟨.choice, i⟩ :: (s.take i).restEntrances w
    | none => []
  | _ => []

/-- What is entered when a story is asked for one action after another. -/
def runEntrances (w : World) : List Action → Story → List Entrance
  | [], _ => []
  | action :: rest, s => s.actionEntrances w action ++
    match perform w action s with
    | some (_, t) => runEntrances w rest t
    | none => []

/-- What is entered when a story is brought to its start: the section it starts in and what follows
until the cursor is at rest. -/
def startEntrances (w : World) (s : Story) : List Entrance :=
  (s.container.map (Entrance.mk .start)).toList ++ s.restEntrances w

/-- What is entered when a story is loaded from a file and a seed and asked for some actions. -/
def entrances (w : World) (main : String) (seed : Nat) (actions : List Action) : List Entrance :=
  match Sources.ofMain w.host main with
  | .error _ => []
  | .ok (start, sources) =>
    let s := atStart sources start seed
    s.startEntrances w ++
      match settle w s with
      | some (_, t) => t.runEntrances w actions
      | none => []

end Story

end Narrative
