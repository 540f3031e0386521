import Narrative.Player

/-!
# The program

Runs the player on the files, the input and the output of the system. Files are read before the
story is started, and all decisions are those of the player.
-/

namespace Narrative

/-- Whether a code of the system, which comes with either sign, is the given number. -/
def isCode (code number : UInt32) : Bool :=
  code == number || code == 0 - number

/-- Why a file of the system cannot be read or written. -/
def ioReason : IO.Error → String
  | .noFileOrDirectory .. => FileFault.missing.message
  | .inappropriateType _ code details =>
    if isCode code 20 then FileFault.notAFolder.message
    else if isCode code 21 then FileFault.isAFolder.message
    else details
  | .permissionDenied .. => "Permission denied (os error 13)"
  | .invalidArgument file code details =>
    if isCode code 36 then FileFault.nameTooLong.message
    else toString (IO.Error.invalidArgument file code details)
  | e => toString e

/-- The text of a file of the system, or why it cannot be read. -/
def readText (path : String) : IO (Except String String) := do
  try return .ok (← IO.FS.readFile path)
  catch e => return .error (ioReason e)

/-- Writes a file of the system, or says why it cannot be written. -/
def writeText (path text : String) : IO (Except String Unit) := do
  try
    IO.FS.writeFile path text
    return .ok ()
  catch e => return .error (ioReason e)

/-- Reads sources and what they include, as far as they can be read. -/
partial def readSources (folder : String) (known : List (String × Except String String)) :
    List String → IO (List (String × Except String String))
  | [] => return known
  | file :: rest => do
    if (known.lookup file).isSome then readSources folder known rest
    else
      let text ← readText (Desk.sourcePath folder file)
      let included := match text with
        | .ok text => includedFiles text.toList
        | .error _ => []
      readSources folder ((file, text) :: known) (included ++ rest)

/-- The places where settings are searched. -/
def settingsPaths : IO (List String) := do
  let home := (← IO.getEnv "HOME").map (· ++ "/.config")
  let config := (← IO.getEnv "XDG_CONFIG_HOME").filter fun path => path.toList.head? == some '/'
  return ((config <|> home).map (· ++ "/ink/inkrc")).toList ++ ["./inkrc"]

/-- The files that the player may read, by path, with those of the sources by name. -/
def gather (c : CommandLine) :
    IO (List (String × Except String String) × List (String × Except String String)) := do
  let explicit ← match c.config with
    | .file path => pure [path]
    | .skip => pure []
    | .search => settingsPaths
  let plain ← (explicit ++ c.load.toList).mapM fun path => do return (path, ← readText path)
  let saved := plain.filterMap fun (path, text) =>
    if c.load = some path then text.toOption.bind fun text => SavedGame.read? text.toList else none
  match splitStoryPath c.story with
  | none => return (plain, [])
  | some (folder, file) =>
    let sources ← readSources folder [] (file :: saved.flatMap (·.files))
    let located := sources.map fun (name, text) => (Desk.sourcePath folder name, text)
    return (plain ++ located, sources)

/-- Mixes the bits of a word. -/
def mixed (word : UInt64) : UInt64 :=
  let word := (word ^^^ (word >>> 30)) * 0xBF58476D1CE4E5B9
  let word := (word ^^^ (word >>> 27)) * 0x94D049BB133111EB
  word ^^^ (word >>> 31)

/-- The random numbers of the system: the seed and the number of draws are mixed. -/
def systemRandom : RandomSource where
  draw seed earlier bound :=
    (mixed (.ofNat seed + .ofNat (earlier.length + 1) * 0x9E3779B97F4A7C15)).toNat % bound
  draw_lt _ _ _ h := Nat.mod_lt _ h

/-- The desk of a player that runs on the files of the system. -/
def systemDesk (args : List String) : IO Desk := do
  let (files, sources) ← match CommandLine.read args with
    | .ok c => gather c
    | .error _ => pure ([], [])
  return {
    read := fun path => (files.lookup path).getD (.error FileFault.missing.message)
    has := fun path => (files.lookup path).any fun
      | .ok _ => true
      | .error reason => reason != FileFault.missing.message
    settingsPaths := ← settingsPaths
    sourceNames := sources.map (·.1)
    isTerminal := ← (← IO.getStdout).isTty
    seed := ← IO.rand 0 4294967295
    random := systemRandom }

/-- Serves the requests of the player until it stops; the result is the exit code. -/
partial def converse (turn : Option Turn) : IO UInt32 := do
  match turn with
  | none =>
    IO.eprintln (Turn.message "the story does not go on")
    return 1
  | some t =>
    t.messages.forM fun line => IO.eprintln line
    IO.print t.out
    (← IO.getStdout).flush
    match t.request with
    | .stop failed => return if failed then 1 else 0
    | .write p path text => converse (p.written path (← writeText path text))
    | .line p =>
      let line ← (← IO.getStdin).getLine
      if line.isEmpty then return 0 else converse (p.answer line)

end Narrative

/-- Runs the player with the arguments of the command line. -/
def main (args : List String) : IO UInt32 := do
  Narrative.converse ((← Narrative.systemDesk args).start args)
