import Narrative.Decimal.Literal

/-!
# Statements

A line of a story that begins with `VAR` declares a global variable; one that begins with a tilde
assigns a variable, returns from a function or evaluates an expression for its effects. Statements
are classified when the story is read and executed when play reaches them.
-/

namespace Narrative

/-- What a declaration gives its variable. -/
inductive Initializer where
  /-- A truth value. -/
  | bool (b : Bool)
  /-- A number. -/
  | number (n : Decimal)
  /-- A quoted text. -/
  | str (s : String)
  /-- A reference to the container at an address. -/
  | divert (address : String)
  /-- The value of an expression. -/
  | expr (source : String)
deriving DecidableEq, Repr

/-- A statement of the story language. -/
inductive Statement where
  /-- Declares a global variable. -/
  | declare (name : String) (init : Initializer)
  /-- Assigns a known variable. -/
  | assign (name source : String)
  /-- Returns from a function, possibly with a value. -/
  | result (source : Option String)
  /-- Evaluates an expression for its effects. -/
  | eval (source : String)
deriving DecidableEq, Repr

/-- Why a line is no statement. -/
inductive StatementError where
  /-- A tilde without anything after it. -/
  | empty
  /-- A declaration that is not a name, an equals sign and a value. -/
  | malformed
  /-- A declaration with nothing after the equals sign. -/
  | missingValue (name : String)
  /-- A declared text with an arrow in it. -/
  | divertInText (name : String)
deriving DecidableEq, Repr

/-- The text of the error as the author of a story sees it. -/
def StatementError.message : StatementError → String
  | empty => "Empty variable statement"
  | malformed =>
    "Invalid variable declaration. Expected values, values, and/or operators after '='."
  | missingValue name => "Variable " ++ name ++ " is declared without a value"
  | divertInText name => "String value of " ++ name ++ " may not contain a divert"

namespace Statement

/-- The characters a variable name can begin with. -/
def startsName (c : Char) : Bool :=
  c.isAlpha || c == '_'

/-- The characters a variable name can go on with. -/
def continuesName (c : Char) : Bool :=
  c.isAlphanum || c == '_' || c == '.'

/-- The name and the trimmed right-hand side of an assignment. The right-hand side does not begin
with a second equals sign and goes on to the end of the line. -/
def assignment? (cs : List Char) : Option (String × List Char) :=
  match Text.trimStart cs with
  | [] => none
  | c :: rest =>
    if startsName c then
      match Text.trimStart (rest.dropWhile continuesName) with
      | '=' :: d :: value =>
        if d = '=' || value.contains '\n' then none
        else some (String.ofList (c :: rest.takeWhile continuesName), Text.trim (d :: value))
      | _ => none
    else none

/-- The text between two quotes that begin and end the value. -/
def unquoted? : List Char → Option (List Char)
  | '"' :: rest => if rest.getLast? = some '"' then some rest.dropLast else none
  | _ => none

/-- What the right-hand side of the declaration of `name` gives. -/
def initializer (name : String) (value : List Char) : Except StatementError Initializer :=
  if value.isEmpty then .error (.missingValue name)
  else if value = "true".toList then .ok (.bool true)
  else if value = "false".toList then .ok (.bool false)
  else
    match Decimal.parse? value, unquoted? value, Text.after? ['-', '>'] value with
    | some n, _, _ => .ok (.number n)
    | none, some s, _ =>
      if (Text.cutAt? ['-', '>'] s).isSome then .error (.divertInText name)
      else .ok (.str (String.ofList s))
    | none, none, some address => .ok (.divert (String.ofList (Text.trim address)))
    | none, none, none => .ok (.expr (String.ofList value))

/-- Reads a declaration without its keyword. -/
def declaration (cs : List Char) : Except StatementError Statement :=
  match assignment? cs with
  | none => .error .malformed
  | some (name, value) => (initializer name value).map (.declare name)

/-- Reads a statement without its tilde. -/
def action (body : List Char) : Except StatementError Statement :=
  if body.isEmpty then .error .empty
  else if body = "return".toList then .ok (.result none)
  else
    match Text.after? "return ".toList body, assignment? body with
    | some value, _ => .ok (.result (some (String.ofList (Text.trim value))))
    | none, some (name, value) => .ok (.assign name (String.ofList value))
    | none, none => .ok (.eval (String.ofList body))

/-- Whether a line is written as a statement. -/
def isWritten (line : List Char) : Bool :=
  (Text.after? "VAR ".toList line).isSome || (Text.after? ['~', ' '] line).isSome || line == ['~']

/-- Reads a statement line. -/
def ofLine (line : List Char) : Except StatementError Statement :=
  match Text.after? "VAR ".toList line with
  | some rest => declaration (Text.trim rest)
  | none => action (Text.trim ((Text.after? ['~'] line).getD line))

end Statement

end Narrative
