import Narrative.Value

/-!
# Settings of the player

The player reads its settings from a file of lines. A line that begins with `set` assigns a setting,
with or without an equals sign; blank lines, lines that begin with a semicolon and other commands
are passed over. A line that cannot be understood is reported and changes nothing.
-/

namespace Narrative

/-- The settings of the player. -/
structure Settings where
  /-- The seed of the dice. -/
  seed : Option Nat := none
  /-- The file the game is saved to. -/
  save : Option String := none
  /-- What is logged. -/
  log : Option String := none
  /-- The width at which text is wrapped; zero for no wrapping. -/
  width : Nat := 0
  /-- The variables assigned after a story is loaded, in order, with their values as written. -/
  vars : List (String × String) := []
deriving DecidableEq, Repr, Inhabited

/-- Why a line with a setting changes nothing. -/
inductive SettingFault where
  /-- Nothing is set. -/
  | missingArgument
  /-- A name without a value. -/
  | missingValue (name : String)
  /-- A value without a name. -/
  | emptyName
  /-- A seed that is not a natural number of 64 bits. -/
  | invalidSeed (value : String)
  /-- A width that is not a natural number of 64 bits. -/
  | invalidWidth (value : String)
  /-- A variable without a name. -/
  | emptyVariable
  /-- A name that is no setting. -/
  | unknownSetting (name : String)
deriving DecidableEq, Repr

/-- The text of a fault as the player shows it. -/
def SettingFault.message : SettingFault → String
  | missingArgument => "set: requires an argument"
  | missingValue name => "set: missing value for '" ++ name ++ "'"
  | emptyName => "set: setting name cannot be empty"
  | invalidSeed value => "set: seed must be an integer, got '" ++ value ++ "'"
  | invalidWidth value => "set: width must be a number, got '" ++ value ++ "'"
  | emptyVariable => "set: variable name cannot be empty"
  | unknownSetting name => "set: unknown setting '" ++ name ++ "'"

/-- A fault and the line it was found in, counted from one. -/
structure SettingError where
  /-- The line. -/
  line : Nat
  /-- What is wrong with it. -/
  fault : SettingFault
deriving DecidableEq, Repr

/-- The text of an error with its line. -/
def SettingError.message (e : SettingError) : String :=
  "line " ++ toString e.line ++ ": " ++ e.fault.message

namespace Settings

/-- The characters that separate the words of a line. -/
def isSeparator (c : Char) : Bool :=
  c == ' ' || c == '\t' || c == '\n' || c == '\r' || c == '\x0c'

/-- The greatest natural number of 64 bits. -/
def maxWord : Nat := 18446744073709551615

/-- The arguments of a line. Double quotes hold separators together, and inside of them a backslash
stands for the character that follows it. The characters of the current argument are given in
reverse. An argument without characters does not count. -/
def splitArguments (quoted : Bool) (current : List Char) : List Char → List (List Char)
  | [] => if current.isEmpty then [] else [current.reverse]
  | '"' :: rest => splitArguments (!quoted) current rest
  | '\\' :: c :: rest =>
    if quoted then splitArguments quoted (c :: current) rest
    else splitArguments quoted ('\\' :: current) (c :: rest)
  | c :: rest =>
    if quoted && c == '\\' then splitArguments quoted current rest
    else if isSeparator c && !quoted then
      if current.isEmpty then splitArguments quoted [] rest
      else current.reverse :: splitArguments quoted [] rest
    else splitArguments quoted (c :: current) rest

/-- The name and the value that the arguments of a line assign. -/
def assignment : List (List Char) → Except SettingFault (List Char × List Char)
  | [] => .error .missingArgument
  | first :: rest =>
    match Text.cut? '=' first with
    | some (name, value) => .ok (name, Text.unwords (value :: rest))
    | none =>
      if rest.isEmpty then .error (.missingValue (String.ofList first))
      else .ok (first, Text.unwords rest)

/-- The settings with one of them assigned. -/
def assign (s : Settings) (name value : List Char) : Except SettingFault Settings :=
  let text := String.ofList value
  match String.ofList name with
  | "" => .error .emptyName
  | "seed" =>
    match Text.natural? maxWord value with
    | some seed => .ok { s with seed := some seed }
    | none => .error (.invalidSeed text)
  | "save" => .ok { s with save := some text }
  | "log" => .ok { s with log := some text }
  | "width" =>
    match Text.natural? maxWord value with
    | some width => .ok { s with width }
    | none => .error (.invalidWidth text)
  | setting =>
    match Text.after? "var.".toList name with
    | some [] => .error .emptyVariable
    | some key => .ok { s with vars := s.vars ++ [(String.ofList key, text)] }
    | none => .error (.unknownSetting setting)

/-- The arguments of a line that sets something. -/
def setting? (line : List Char) : Option (List (List Char)) :=
  let command := line.takeWhile (!isSeparator ·)
  if command = "set".toList then
    some (splitArguments false [] (Text.trim (line.drop (command.length + 1))))
  else none

/-- Reads one line. -/
def readLine (s : Settings) (line : List Char) : Except SettingFault Settings :=
  match setting? (Text.trim line) with
  | none => .ok s
  | some arguments => do
    let (name, value) ← assignment arguments
    s.assign name value

/-- Reads the lines of a file from a line number on. -/
def readLines (s : Settings) : (line : Nat) → List (List Char) → Settings × List SettingError
  | _, [] => (s, [])
  | line, text :: rest =>
    match s.readLine text with
    | .ok s => readLines s (line + 1) rest
    | .error fault =>
      let (s, errors) := readLines s (line + 1) rest
      (s, ⟨line, fault⟩ :: errors)

/-- Reads settings and reports the lines that cannot be understood. -/
def read (text : List Char) : Settings × List SettingError :=
  readLines {} 1 (Text.lines text)

/-- The value of a variable as it is written: a truth value, a number, or else a text. -/
def valueOf (raw : String) : Value :=
  match raw with
  | "true" => .bool true
  | "false" => .bool false
  | _ => ((Decimal.parse? raw.toList).map Value.number).getD (.str raw)

end Settings

end Narrative
