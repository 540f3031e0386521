import Narrative.Story.Cursor

/-!
# Diverts

A divert names a place and may pass arguments to it. A live interrupt can lead it elsewhere. The
name `END` ends the story.
-/

namespace Narrative

/-- The name of the end of a story. -/
def endName : List Char := "END".toList

/-- The pieces between the commas of an argument list that are neither quoted nor in parentheses;
there is always at least one. -/
def splitArguments : (depth : Nat) → (quoted : Bool) → List Char → List (List Char)
  | _, _, [] => [[]]
  | depth, quoted, c :: rest =>
    if c = ',' ∧ !quoted ∧ depth = 0 then [] :: splitArguments depth quoted rest
    else
      let depth :=
        if quoted then depth
        else if c = '(' then depth + 1
        else if c = ')' then depth - 1
        else depth
      match splitArguments depth (if c = '"' then !quoted else quoted) rest with
      | [] => [[c]]
      | piece :: pieces => (c :: piece) :: pieces

/-- Splits a target into its name and its arguments. The last argument is dropped when it is
blank. -/
def splitCall (target : List Char) : List Char × List (List Char) :=
  let target := Text.trim target
  match Text.cut? '(' target with
  | none => (target, [])
  | some (name, rest) =>
    let rest := Text.trimEnd rest
    let inner := if rest.getLast? = some ')' then rest.dropLast else rest
    let pieces := (splitArguments 0 false inner).map Text.trim
    let last := pieces.getLast?.getD []
    (Text.trim name, if last.isEmpty then pieces.dropLast else pieces)

namespace Story

/-- A knot that begins with a stitch is entered at that stitch. -/
def descend (s : Story) (i : NodeId) : NodeId :=
  if (s.node i).isKnot then
    match (s.children i).head? with
    | some first => if (s.node first).isStitch then first else i
    | none => i
  else i

/-- The story after an interrupt has fired; the global variable `event` names it. -/
def fire (s : Story) (position : Nat) (i : Interrupt) : Story :=
  { s with
    interrupts := s.interrupts.modify position Interrupt.finish
    memory := s.memory.setGlobal "event" (.str i.id) }

/-- Whether an interrupt fires at an occasion for it. The condition is evaluated only if nothing
else keeps the interrupt from firing. -/
def fires (w : World) (i : Interrupt) (occasion : Bool) : Run Story Bool :=
  if !i.isLive || !occasion then return false
  else if i.isUnconditional then return true
  else holds w i.condition

/-- The name that a divert to `target` leads to, given the interrupts from a position on. The first
live one for that target whose condition holds redirects it and is used up. -/
def redirectBy (w : World) (target : List Char) :
    (position : Nat) → List Interrupt → Run Story (List Char)
  | _, [] => return target
  | position, i :: rest => do
    match i.redirect? with
    | some (origin, destination) =>
      if ← fires w i (origin == target) then
        modify (·.fire position i)
        return destination
      else redirectBy w target (position + 1) rest
    | none => redirectBy w target (position + 1) rest

/-- The values of the arguments of a divert, from left to right. -/
def evaluateArguments (w : World) (line : Nat) : List (List Char) → Play (List Value)
  | [] => return []
  | arg :: rest => do
    match ← evaluate w (String.ofList arg) with
    | .ok v => return v :: (← evaluateArguments w line rest)
    | .error e => throw (.expr (String.ofList arg) line e)

/-- Where a divert node leads, with the values of its arguments; none is the end of the story. -/
def takeDivert (w : World) (n : Node) : Play (Option (NodeId × List Value)) := do
  let (name, args) := splitCall (n.divertTarget?.getD [])
  if name = endName then return none
  let name ← redirectBy w name 0 (← get).interrupts
  if name = endName then return none
  let s ← get
  let stage := s.stage w.host
  let name := String.ofList name
  match stage.target? s.memory name with
  | none => throw (.unknownDivert name (stage.qualified name) n.line)
  | some i => return some (s.descend i, ← evaluateArguments w n.line args)

/-- Where a divert node would lead without interrupts: the inner none is the end of the story, the
outer one a place that does not exist. -/
def peekDivert (s : Story) (host : Host) (n : Node) : Option (Option NodeId) :=
  n.divertTarget?.bind fun target =>
    let (name, _) := splitCall target
    if name = endName then some none
    else ((s.stage host).target? s.memory (String.ofList name)).map fun i => some (s.descend i)

/-- Enters the target of a divert. A section takes the values of its parameters. -/
def enterWith (w : World) (i : NodeId) (args : List Value) : Play Unit := do
  let n := (← get).node i
  if n.isSection then
    if n.params.length = args.length then
      unless n.params.isEmpty do
        modify fun s => { s with memory := s.memory.bind i n.params args }
    else throw (.parameterMismatch n.id)
  enter w i

end Story

end Narrative
