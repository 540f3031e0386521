import Narrative.Story.Error
import Narrative.Story.Stage

/-!
# Statements and functions

Statements are executed at a place of the story and change its memory only. A function of the
story is a section whose body is executed when an expression calls it: its first text or return
statement gives the value. Calls may nest to a limited depth; beyond it they do not finish.
-/

namespace Narrative

/-- A computation on the memory of a story that may stop with an error of the story. -/
abbrev Act := ExceptT StoryError (Run Memory)

/-- A text as it is shown: glue becomes a space, runs of blanks become single spaces, and the ends
are trimmed. -/
def Text.unglued : List Char → List Char
  | [] => []
  | '<' :: '>' :: rest => ' ' :: unglued rest
  | c :: rest => c :: unglued rest

/-- The text as it is shown to the player. -/
def Text.cleanUp (cs : List Char) : List Char :=
  Text.unwords (Text.words (Text.unglued cs))

/-- A computation that does not finish. -/
def Run.unfinished {σ α : Type} : Run σ α :=
  fun _ => none

namespace Context

variable {σ : Type} (ctx : Context σ)

/-- Whether a condition holds; one without a value does not. -/
def holds (source : String) : Run σ Bool := do
  match ← (ctx.evalText source.toList).run with
  | .ok v => return v.holds
  | .error _ => return false

/-- Whether all conditions hold; those after the first that does not are not evaluated. -/
def allHold : List String → Run σ Bool
  | [] => return true
  | source :: rest => do
    if ← ctx.holds source then allHold rest else return false

/-- The position of the first guard that holds, or the number of guards. -/
def firstHolding : List (Option String) → Run σ Nat
  | [] => return 0
  | none :: _ => return 0
  | some source :: rest => do
    if ← ctx.holds source then return 0 else return (← firstHolding rest) + 1

/-- The option of a block that is played on the visit with the given number of earlier ones; the
number of options for none. -/
def chooseOption (mode : BlockMode) (options : List BlockOption) (count : Nat) : Run σ Nat :=
  match mode with
  | .conditional => ctx.firstHolding (options.map (·.guard))
  | .cycle => return count % max 1 options.length
  | .once => return min count options.length
  | .shuffle => if options.isEmpty then return 0 else ctx.draw options.length
  | .stopping => return min count (options.length - 1)

end Context

namespace Stage

variable (s : Stage)

/-- Chooses the option of a block for this visit; other nodes have none. -/
def selectOption (ctx : Context Memory) (i : NodeId) : Run Memory Unit := do
  match (s.content.node i).kind with
  | .block mode options =>
    let selection ← ctx.chooseOption mode options ((← get).mark i).count
    modify (·.select i selection)
  | _ => return

/-- The value of an expression in a statement. -/
def evaluate (ctx : Context Memory) (source : String) (line : Nat) : Act Value := do
  match ← (ctx.evalText source.toList).run with
  | .ok v => return v
  | .error e => throw (.expr source line e)

/-- The reference that a declaration or assignment names. -/
def refer (declaration address : String) (line : Nat) : Act Value := do
  match s.address? (← get) address with
  | some v => return v
  | none => throw (.invalidAddress declaration address line)

/-- The value that a declaration gives its variable. -/
def initialValue (ctx : Context Memory) (name : String) (line : Nat) : Initializer → Act Value
  | .bool b => return .bool b
  | .number n => return .number n
  | .str t => return .str t
  | .divert address => s.refer (name ++ " = -> " ++ address) address line
  | .expr source => evaluate ctx source line

/-- The value of the right-hand side of an assignment. -/
def assignedValue (ctx : Context Memory) (name source : String) (line : Nat) : Act Value :=
  match reference? (String.ofList (Text.trim source.toList)) with
  | some address => s.refer (name ++ " = " ++ source) address line
  | none => evaluate ctx source line

/-- Executes a statement. Outside of a function a return does nothing. -/
def execute (ctx : Context Memory) (line : Nat) : Statement → Act Unit
  | .declare name init => do
    let v ← s.initialValue ctx name line init
    modify fun m => s.assign m name v
  | .assign name source => do
    unless s.hasVariable (← get) name do throw (.undefinedVariable name line)
    let v ← s.assignedValue ctx name source line
    modify fun m => s.assign m name v
  | .eval source => discard <| evaluate ctx source line
  | .result _ => return

/-- Plays a node of a function body, where `block` plays the chosen option of a block. A value
ends the body. -/
def playLine (ctx : Context Memory) (block : NodeId → Act (Option Value)) (i : NodeId) :
    Act (Option Value) := do
  let n := s.content.node i
  match n.kind with
  | .text =>
    let count := ((← get).mark i).count
    modify (·.visit i)
    let text ← Directive.expand ctx count n.text.toList
    return some (.str (String.ofList (Text.cleanUp text)))
  | .statement (.result none) => return some (.str "")
  | .statement (.result (some source)) => return some (← evaluate ctx source n.line)
  | .statement t =>
    s.execute ctx n.line t
    return none
  | .block .. =>
    s.selectOption ctx i
    modify (·.visit i)
    block i
  | _ => return none

/-- Plays nodes of a function body until one gives a value. -/
def playLines (ctx : Context Memory) (block : NodeId → Act (Option Value)) :
    List NodeId → Act (Option Value)
  | [] => return none
  | i :: rest => do
    match ← s.playLine ctx block i with
    | some v => return some v
    | none => playLines ctx block rest

/-- Plays the body of a function or of a block in one, where blocks nest to a limited depth. -/
def playBody (ctx : Context Memory) : (nesting : Nat) → NodeId → Act (Option Value)
  | 0, _ => ExceptT.lift Run.unfinished
  | nesting + 1, i => do
    s.playLines ctx (playBody ctx nesting) ((← get).children s.content i)

/-- Calls the function at the place `s`, a function of the story. Blocks nest less deeply than
there are nodes. -/
def callFunction (ctx : Context Memory) (f : NodeId) (args : List Value) : Eval Memory Value := do
  let n := s.content.node f
  if n.params.length = args.length then
    modify fun m => (m.bind f n.params args).visit f
    match ← (s.playBody ctx (s.content.size + 1) f).run with
    | .ok v => return v.getD (.str "")
    | .error e => throw (.function n.id e.message)
  else throw (.arity n.id n.params.length args.length)

/-- Calls a function of the story or of the language, where calls nest to the given depth. The
body of a function is played with the function as its place. -/
def call : (depth : Nat) → Stage → String → List Value → Eval Memory Value
  | 0, _, _, _ => ExceptT.lift Run.unfinished
  | depth + 1, s, name, args =>
    match s.function? name with
    | some f =>
      let inner := { s with here := some f }
      inner.callFunction (inner.contextWith (call depth inner)) f args
    | none =>
      ((s.contextWith (call depth s)).callBuiltin? name args).getD
        (throw (.unknownIdentifier name))

/-- The context for expressions at a place, where calls nest to the given depth. -/
def context (depth : Nat) : Context Memory :=
  s.contextWith (call depth s)

end Stage

end Narrative
