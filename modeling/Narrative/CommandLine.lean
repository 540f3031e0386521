import Narrative.Text

/-!
# The command line

The arguments with which the player is started: the story, flags that may be bundled, and settings
whose value is attached to their letter or follows as the next argument.
-/

namespace Narrative

/-- Which settings file is read. -/
inductive SettingsFile where
  /-- The first one found in the usual places. -/
  | search
  /-- None. -/
  | skip
  /-- The given one. -/
  | file (path : String)
deriving DecidableEq, Repr

/-- The arguments of the player. -/
structure CommandLine where
  /-- Which settings file is read. -/
  config : SettingsFile := .search
  /-- The seed of the dice. -/
  seed : Option Nat := none
  /-- The saved game to go on with. -/
  load : Option String := none
  /-- The file the game is saved to. -/
  save : Option String := none
  /-- Whether banner and prompt are left out. -/
  quiet : Bool := false
  /-- Whether everything is logged. -/
  debug : Bool := false
  /-- The story. -/
  story : String := ""
deriving DecidableEq, Repr

/-- Why arguments cannot be understood. -/
inductive UsageError where
  /-- A setting without its value. -/
  | missingValue (flag : Char)
  /-- A seed that is not a natural number of 64 bits. -/
  | invalidSeed (value : String)
  /-- A letter that is no flag. -/
  | unknownOption (flag : Char)
  /-- No story. -/
  | missingStory
  /-- More than one story. -/
  | tooManyArguments (count : Nat)
deriving DecidableEq, Repr

/-- The text of an error as the player shows it. -/
def UsageError.message : UsageError → String
  | missingValue flag => "-" ++ String.singleton flag ++ " requires an argument"
  | invalidSeed value => "invalid seed: " ++ value
  | unknownOption flag => "unknown option: -" ++ String.singleton flag
  | missingStory =>
    "usage: ink [-f[<file>]] [-s<seed>] [-l<save>] [-w<save>] [-qd] <story.ink>"
  | tooManyArguments count => "too many arguments (" ++ toString count ++ ")"

namespace CommandLine

/-- The greatest seed. -/
def maxSeed : Nat := 18446744073709551615

/-- The arguments with the value of a setting. -/
def assign (c : CommandLine) (flag : Char) (value : String) : Except UsageError CommandLine :=
  match flag with
  | 's' =>
    match Text.natural? maxSeed value.toList with
    | some seed => .ok { c with seed := some seed }
    | none => .error (.invalidSeed value)
  | 'l' => .ok { c with load := some value }
  | _ => .ok { c with save := some value }

/-- Reads a bundle of flags. The result names a setting at the end of the bundle, whose value is the
next argument. -/
def readBundle (c : CommandLine) : List Char → Except UsageError (CommandLine × Option Char)
  | [] => .ok (c, none)
  | flag :: rest =>
    match flag with
    | 'd' => readBundle { c with debug := true } rest
    | 'q' => readBundle { c with quiet := true } rest
    | 'f' =>
      let config := if rest.isEmpty then .skip else .file (String.ofList rest)
      .ok ({ c with config }, none)
    | _ =>
      if flag = 's' ∨ flag = 'l' ∨ flag = 'w' then
        if rest.isEmpty then .ok (c, some flag)
        else (c.assign flag (String.ofList rest)).map (·, none)
      else .error (.unknownOption flag)

/-- The arguments with the story, which has to be the only argument that is no flag. -/
def finish (c : CommandLine) : (stories : List String) → Except UsageError CommandLine
  | [] => .error .missingStory
  | [story] => .ok { c with story }
  | stories => .error (.tooManyArguments stories.length)

/-- Whether an argument is a bundle of flags; a single hyphen is not. -/
def isBundle (arg : String) : Bool :=
  arg.toList.head? == some '-' && arg != "-"

/-- Reads arguments, given the stories among those read before. Two hyphens end the flags. -/
def readFrom (c : CommandLine) (stories : List String) :
    List String → Except UsageError CommandLine
  | [] => c.finish stories
  | arg :: rest =>
    if arg = "--" then c.finish (stories ++ rest)
    else if isBundle arg then
      match c.readBundle arg.toList.tail with
      | .error e => .error e
      | .ok (c, none) => readFrom c stories rest
      | .ok (c, some flag) =>
        match rest with
        | [] => .error (.missingValue flag)
        | value :: rest =>
          match c.assign flag value with
          | .error e => .error e
          | .ok c => readFrom c stories rest
    else readFrom c (stories ++ [arg]) rest

/-- Reads the arguments of the player. -/
def read (args : List String) : Except UsageError CommandLine :=
  readFrom {} [] args

end CommandLine

end Narrative
