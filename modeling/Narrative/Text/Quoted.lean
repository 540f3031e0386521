import Narrative.Text.Extending
import Narrative.Text.Unprintable

/-!
# Quoted text

A text in double quotes as it is shown to the author of a story: quotes, backslashes and characters
that do not show by themselves are escaped.
-/

namespace Narrative.Text

/-- Whether a character shows by itself, wherever it stands. -/
def isShown (c : Char) : Bool :=
  !isExtending c && !isUnprintable c

/-- A character as it is shown between quotes. -/
def showChar (c : Char) : List Char :=
  match c with
  | '"' => ['\\', '"']
  | '\\' => ['\\', '\\']
  | '\t' => ['\\', 't']
  | '\r' => ['\\', 'r']
  | '\n' => ['\\', 'n']
  | '\x00' => ['\\', '0']
  | _ =>
    if isShown c then [c] else '\\' :: 'u' :: '\x7b' :: Nat.toDigits 16 c.toNat ++ ['\x7d']

/-- A text in quotes. -/
def quoted (cs : List Char) : List Char :=
  '"' :: cs.flatMap showChar ++ ['"']

end Narrative.Text
