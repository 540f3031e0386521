import Narrative.CommandLine
import Narrative.Console
import Narrative.Folder
import Narrative.SavedGame.Diagnosis
import Narrative.SavedGame.Restore
import Narrative.Settings

/-!
# The player

The player shows a story on the console and reads the player's choices line by line. It is a
dialogue: each turn prints something and then asks for a line, asks for a file to be written, or
stops.
-/

namespace Narrative

/-- What the player is started with. -/
structure Desk where
  /-- The text of the file at a path, or why it cannot be read. -/
  read : (path : String) → Except String String
  /-- Whether there is anything at a path. -/
  has : (path : String) → Bool
  /-- The places where settings are searched. -/
  settingsPaths : List String
  /-- The names of all sources that a story may be made of, unless a saved game names others. -/
  sourceNames : List String
  /-- Whether the output is a terminal. -/
  isTerminal : Bool := false
  /-- The seed of the dice when none is given. -/
  seed : Nat := 0
  /-- Where random numbers come from. -/
  random : RandomSource := .least
  /-- How deeply calls of functions may nest. -/
  depth : Nat := 100000
  /-- How many nodes may be played in a row. -/
  playSteps : Nat := 10000000

/-- A story being played on the console. -/
structure Player where
  /-- What the story is played in. -/
  world : World
  /-- The console. -/
  console : Console
  /-- The story. -/
  story : Story
  /-- The file the game is saved to. -/
  savePath : Option String

/-- What the player wants after a turn. -/
inductive Request where
  /-- A line of input; at the end of the input it stops. -/
  | line (p : Player)
  /-- A file written. -/
  | write (p : Player) (path text : String)
  /-- Nothing more. -/
  | stop (failed : Bool)

/-- What the player prints and what it wants then. -/
structure Turn where
  /-- What is printed. -/
  out : String := ""
  /-- The lines that are printed as messages. -/
  messages : List String := []
  /-- What the player wants. -/
  request : Request

namespace Turn

/-- A message as it is printed. -/
def message (text : String) : String :=
  "ink: " ++ text

/-- A turn that stops because of a failure. -/
def fail (out text : String) : Turn :=
  { out, messages := [message text], request := .stop true }

/-- A turn with something printed before it. -/
def after (out : String) (t : Turn) : Turn :=
  { t with out := out ++ t.out }

end Turn

namespace Player

/-- Prompts for a line. -/
def ask (p : Player) (out : String) : Turn :=
  { out := out ++ p.console.prompt, request := .line p }

/-- Shows what can be chosen and prompts, or stops when the story is over. -/
def offer (p : Player) (out : String) : Option Turn := do
  let (choices, story) ← Story.pendingTexts p.world p.story
  if choices.isEmpty then return { out, request := .stop false }
  else return ({ p with story } : Player).ask (out ++ p.console.choices choices)

/-- Shows the comment that belongs to the text, if there is one. -/
def remark (p : Player) : Option (String × Player) := do
  let (comment, story) ← Story.currentComment p.world p.story
  return ((comment.map p.console.note).getD "", { p with story })

/-- Plays up to the next choice. -/
def proceed (p : Player) : Option Turn := do
  let (units, story) ← (Story.advanceAll p.world).run p.story
  match units with
  | .error e => return .fail "" e.message
  | .ok units =>
    let p := { p with story }
    let out := String.join (units.map p.console.text)
    if units.isEmpty then p.offer out
    else
      let (note, p) ← p.remark
      p.offer (out ++ note)

/-- Takes a pending choice and plays on. -/
def choose (p : Player) (index : Nat) : Option Turn := do
  let (taken, story) ← (Story.choose p.world index).run p.story
  match taken with
  | .error e => return .fail "" e.message
  | .ok () => ({ p with story } : Player).proceed

/-- The greatest number that is read as a choice. -/
def maxChoice : Nat := 18446744073709551615

/-- Answers a line of input: a command or the number of a choice. -/
def answer (p : Player) (line : String) : Option Turn :=
  let input := Text.trim line.toList
  let count := p.story.choices.length
  if input = "quit".toList then some { request := .stop false }
  else if input = "save".toList then
    match p.savePath with
    | some path => some { request := .write p path (String.ofList p.story.save.write) }
    | none => some (p.ask (p.console.note "No save file; start with -w<file>."))
  else
    match Text.natural? maxChoice input with
    | some n =>
      if 1 ≤ n ∧ n ≤ count then p.choose (n - 1)
      else some (p.ask (p.console.note ("Choose a number from 1 to " ++ toString count ++ ".")))
    | none => some (p.ask (p.console.note ("Choose a number from 1 to " ++ toString count ++ ".")))

/-- Goes on after a file was to be written. -/
def written (p : Player) (path : String) (result : Except String Unit) : Turn :=
  match result with
  | .ok () => p.ask (p.console.note ("Saved to " ++ path ++ "."))
  | .error reason => .fail "" ("IO error: " ++ reason)

end Player

/-- The folder and the file of a story's path, if it names a file. -/
def splitStoryPath (path : String) : Option (String × String) :=
  let absolute := path.toList.head? == some '/'
  let steps := (Text.splitOn '/' path.toList).map String.ofList
  let isStep := fun (s : String) => s != "" && s != "."
  let kept := steps.filter isStep
  match kept.getLast? with
  | none => none
  | some ".." => none
  | some file =>
    let folder := "/".intercalate kept.dropLast
    some (if absolute then "/" ++ folder else if folder.isEmpty then "." else folder, file)

namespace Desk

/-- The desk of a player that runs in a folder. Any file of the folder may be a source, and any file
that one of them includes. -/
def ofFolder (f : Folder) (args : List String) : Desk :=
  let story := (((CommandLine.read args).toOption.bind fun c => splitStoryPath c.story).map (·.2))
  { read := fun path => (f.read path).mapError (·.message)
    has := f.has
    settingsPaths := ["./config/ink/inkrc", "./inkrc"]
    sourceNames :=
      story.toList ++ f.files.toList.flatMap fun (_, text) => includedFiles text.toList }

/-- The path of a source in the folder of its story; an absolute path stands for itself. -/
def sourcePath (folder file : String) : String :=
  if file.toList.head? = some '/' then file else folder ++ "/" ++ file

/-- The host of a story in a folder, whose sources may have the given names too. -/
def host (d : Desk) (folder : String) (names : List String) : Host :=
  let sources := (names ++ d.sourceNames).filterMap fun file =>
    ((d.read (sourcePath folder file)).toOption).map (file, ·)
  let refusal := fun file =>
    match d.read (sourcePath folder file) with
    | .ok _ => "source is not among those named"
    | .error reason => reason
  { Host.ofSources (.ofList sources) refusal with random := d.random }

/-- The path of the settings file, if one is read. -/
def settingsPath? (d : Desk) : SettingsFile → Option String
  | .skip => none
  | .file path => some path
  | .search => d.settingsPaths.find? d.has

/-- The settings and the warnings about them, or why they cannot be read. -/
def settings (d : Desk) (c : CommandLine) : Except String (Settings × List String) :=
  match d.settingsPath? c.config with
  | none => .ok ({}, [])
  | some path =>
    match d.read path with
    | .error reason => .error ("cannot read config " ++ path ++ ": " ++ reason)
    | .ok text =>
      let (settings, errors) := Settings.read text.toList
      .ok (settings, errors.map fun e => "warning: " ++ path ++ ": " ++ e.message)

/-- Restores the saved game at a path, or says why it cannot be restored. -/
def restore (d : Desk) (folder path : String) (s : Story) : Except String Story :=
  match d.read path with
  | .error reason => .error ("IO error: " ++ reason)
  | .ok text =>
    match SavedGame.read text with
    | .error e => .error ("JSON error: " ++ e.message)
    | .ok g =>
      match s.restore (d.host folder g.files) g with
      | (.ok (), s) => .ok s
      | (.error e, _) => .error e.message

/-- Loads the story, assigns the variables of the settings, and restores the saved game if one is
given. -/
def prepare (d : Desk) (c : CommandLine) (settings : Settings) (folder file : String) :
    Option (Except String Player) := do
  let host := d.host folder []
  let world : World := { host, depth := d.depth, steps := d.playSteps }
  let seed := (c.seed <|> settings.seed).getD d.seed
  match ← Story.load world file seed with
  | .error e => return .error e.message
  | .ok s =>
    let s := settings.vars.foldl (fun s (name, raw) => s.assign host name (Settings.valueOf raw)) s
    let console : Console :=
      { width := settings.width, styled := d.isTerminal && !c.quiet, quiet := c.quiet }
    let restored : Except String Story := match c.load with
      | none => .ok s
      | some path => d.restore folder path s
    return restored.map fun story => { world, console, story, savePath := c.save <|> settings.save }

/-- The first turn of a story that is played. -/
def begin (d : Desk) (c : CommandLine) (settings : Settings) : Option Turn := do
  match splitStoryPath c.story with
  | none => return .fail "" ("invalid story path: " ++ c.story)
  | some (folder, file) =>
    match ← d.prepare c settings folder file with
    | .error text => return .fail "" text
    | .ok p => return (← p.proceed).after (p.console.banner file)

/-- The first turn of the player with the given arguments. -/
def start (d : Desk) (args : List String) : Option Turn :=
  match CommandLine.read args with
  | .error e => some (.fail "" e.message)
  | .ok c =>
    match d.settings c with
    | .error text => some (.fail "" text)
    | .ok (settings, warnings) =>
      (d.begin c settings).map fun t =>
        { t with messages := warnings.map Turn.message ++ t.messages }

end Desk

end Narrative
