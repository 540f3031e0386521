import Narrative.Text

/-!
# The console

What the player prints: text wrapped at a width, numbered choices, notes, the banner and the
prompt. On a terminal some of it is styled.
-/

namespace Narrative

/-- How a run of output is styled. -/
inductive Style where
  /-- Bold text. -/
  | strong
  /-- Bold coloured text. -/
  | number
  /-- Slanted grey text. -/
  | note
deriving DecidableEq, Repr

namespace Style

/-- A control sequence of the terminal. -/
def control (code : String) : String :=
  "\x1b[" ++ code ++ "m"

/-- The control sequences that switch a style on: the colour first, then the attribute. -/
def start : Style → String
  | strong => control "1"
  | number => control "38;5;14" ++ control "1"
  | note => control "38;5;8" ++ control "3"

/-- The control sequence that switches all styles off. -/
def stop : String :=
  control "0"

end Style

/-- How the player prints. -/
structure Console where
  /-- The width at which text is wrapped; zero for no wrapping. -/
  width : Nat := 0
  /-- Whether output is styled. -/
  styled : Bool := false
  /-- Whether banner and prompt are left out. -/
  quiet : Bool := false
deriving DecidableEq, Repr

/-- Puts words on lines: a word goes on the line `current` if it fits, or else begins the next
one. -/
def fillLines (width : Nat) (current : List Char) : List (List Char) → List (List Char)
  | [] => [current]
  | word :: rest =>
    if current.length + 1 + word.length ≤ width then
      fillLines width (current ++ ' ' :: word) rest
    else current :: fillLines width word rest

/-- The lines of a text that are as full as the width allows. A word that is longer than a line
stands alone, and a width of zero keeps the text as it is. -/
def wrap (width : Nat) (text : List Char) : List (List Char) :=
  if width = 0 then [text]
  else
    match Text.words text with
    | [] => [[]]
    | word :: rest => fillLines width word rest

namespace Console

/-- The name and version of the player. -/
def program : String := "ink 0.1.0"

/-- A text in a style, if output is styled. -/
def styledText (c : Console) (style : Style) (text : String) : String :=
  if c.styled then style.start ++ text ++ Style.stop else text

/-- What is printed before a story. -/
def banner (c : Console) (title : String) : String :=
  if c.quiet then ""
  else
    c.styledText .strong (program ++ ": " ++ title) ++
      "\nType a choice number, `save' or `quit'.\n\n"

/-- A unit of text. -/
def text (c : Console) (text : String) : String :=
  String.join ((wrap c.width text.toList).map fun line => String.ofList line ++ "\n")

/-- A side note. -/
def note (c : Console) (text : String) : String :=
  c.styledText .note text ++ "\n"

/-- A list of choices, numbered from a number on. -/
def choicesFrom (c : Console) : (number : Nat) → List String → String
  | _, [] => ""
  | number, choice :: rest =>
    c.styledText .number (toString number ++ ".") ++ " " ++ choice ++ "\n" ++
      c.choicesFrom (number + 1) rest

/-- The pending choices. -/
def choices (c : Console) (choices : List String) : String :=
  "\n" ++ c.choicesFrom 1 choices

/-- What is printed before a line is read. -/
def prompt (c : Console) : String :=
  if c.quiet then "" else c.styledText .strong "> "

end Console

end Narrative
