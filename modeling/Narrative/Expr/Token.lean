import Narrative.Expr.Operator
import Narrative.Decimal.Literal

/-!
# Tokens

An expression is read as a sequence of tokens separated by spaces, tabs and line ends. Each token
is kept with the piece of text it was read from and the position of that piece, so that nothing of
the text is lost but the separators.
-/

namespace Narrative

/-- The smallest meaningful piece of an expression. -/
inductive Token where
  /-- A number; the words `true` and `false` are the numbers one and zero. -/
  | number (n : Decimal)
  /-- A quoted text. -/
  | str (s : String)
  /-- A name, possibly with points in it. -/
  | ident (name : String)
  /-- An operator. -/
  | operator (op : Operator)
  /-- An opening parenthesis. -/
  | opening
  /-- A closing parenthesis. -/
  | closing
  /-- A comma between arguments. -/
  | comma
  /-- Something else, with its first character and the byte position where it begins. -/
  | unknown (c : Char) (position : Nat)
  /-- The end of the expression. -/
  | finish
deriving DecidableEq, Repr

namespace Token

/-- Whether a minus sign right after this token has no left operand. -/
def expectsOperand : Token → Bool
  | operator _ | opening | comma => true
  | _ => false

end Token

/-- A token with the text it stands for. -/
structure Lexeme where
  /-- The byte position of the first character. -/
  position : Nat
  /-- The characters of the token. -/
  chars : List Char
  /-- What the characters mean. -/
  token : Token
deriving DecidableEq, Repr

namespace Lexeme

/-- The characters that separate tokens. -/
def isSeparator (c : Char) : Bool :=
  c == ' ' || c == '\t' || c == '\r' || c == '\n'

/-- The characters a name can begin with. -/
def startsName (c : Char) : Bool :=
  c.isAlpha || c == '_'

/-- The characters a name can go on with. -/
def continuesName (c : Char) : Bool :=
  c.isAlphanum || c == '_' || c == '.'

/-- What follows a run of digits. -/
def afterDigits (cs : List Char) : List Char :=
  cs.dropWhile Char.isDigit

/-- What follows a fraction, if the text begins with a point and a digit. -/
def afterFraction : List Char → List Char
  | '.' :: d :: rest => if d.isDigit then afterDigits rest else '.' :: d :: rest
  | cs => cs

/-- What follows an exponent, if the text begins with one; a lone `e` is not an exponent. -/
def afterExponent : List Char → List Char
  | [] => []
  | mark :: rest =>
    let digits := match rest with
      | '+' :: ds => ds
      | '-' :: ds => ds
      | ds => ds
    if Decimal.isExponentMark mark && digits.head?.any Char.isDigit then afterDigits digits
    else mark :: rest

/-- How many characters a number has beyond its first one. -/
def numberExtent (rest : List Char) : Nat :=
  rest.length - (afterExponent (afterFraction (afterDigits rest))).length

/-- The number that begins with `c`, of which all characters are consumed even if they denote no
number. -/
def number (position : Nat) (c : Char) (rest : List Char) : Token × Nat :=
  let extent := numberExtent rest
  match Decimal.parse? (c :: rest.take extent) with
  | some n => (.number n, extent)
  | none => (.unknown c position, extent)

/-- The text up to the next quote, or up to the end of the expression when it is not closed. -/
def quoted (rest : List Char) : Token × Nat :=
  let body := rest.takeWhile (· != '"')
  let closing := if body.length < rest.length then 1 else 0
  (.str (String.ofList body), body.length + closing)

/-- The meaning of a word. -/
def word (cs : List Char) : Token :=
  match String.ofList cs with
  | "and" => .operator .and
  | "or" => .operator .or
  | "true" => .number .one
  | "false" => .number .zero
  | name => .ident name

/-- The name or word that begins with `c`. -/
def name (c : Char) (rest : List Char) : Token × Nat :=
  let tail := rest.takeWhile continuesName
  (word (c :: tail), tail.length)

/-- The token of one character, or the token of two when a given character follows. -/
def paired (single : Token) (pairs : List (Char × Token)) (rest : List Char) : Token × Nat :=
  match rest.head?.bind fun d => pairs.lookup d with
  | some token => (token, 1)
  | none => (single, 0)

/-- The token that begins with `c` at a byte position, and how many characters it takes from the
rest of the text. The flag says whether an operand is expected, where a minus is a sign. -/
def read (operand : Bool) (position : Nat) (c : Char) (rest : List Char) : Token × Nat :=
  let digitNext := rest.head?.any Char.isDigit
  if c.isDigit then number position c rest
  else if c == '.' && digitNext then number position c rest
  else if c == '-' && operand && (digitNext || rest.head? == some '.') then number position c rest
  else if startsName c then name c rest
  else
    match c with
    | '-' => (.operator (if operand then .neg else .sub), 0)
    | '"' => quoted rest
    | '+' => (.operator .add, 0)
    | '*' => (.operator .mul, 0)
    | '/' => (.operator .div, 0)
    | '%' => (.operator .rem, 0)
    | '^' => (.operator .pow, 0)
    | '&' => paired (.unknown c position) [('&', .operator .and)] rest
    | '|' => paired (.unknown c position) [('|', .operator .or)] rest
    | '!' => paired (.unknown c position) [('=', .operator .ne)] rest
    | '<' => paired (.operator .lt) [('=', .operator .le), ('>', .operator .ne)] rest
    | '>' => paired (.operator .gt) [('=', .operator .ge)] rest
    | '=' => paired (.operator .eq) [('=', .operator .eq)] rest
    | '(' => (.opening, 0)
    | ')' => (.closing, 0)
    | ',' => (.comma, 0)
    | _ => (.unknown c position, 0)

/-- The lexemes of a text that begins at a byte position. -/
def scan (operand : Bool) (position : Nat) : List Char → List Lexeme
  | [] => []
  | c :: rest =>
    if isSeparator c then scan operand (position + c.utf8Size) rest
    else
      let (token, extent) := read operand position c rest
      let chars := c :: rest.take extent
      ⟨position, chars, token⟩ ::
        scan token.expectsOperand (position + Text.byteSize chars) (rest.drop extent)
termination_by cs => cs.length
decreasing_by
  · simp
  · simp only [List.length_drop, List.length_cons]; omega

/-- The lexemes of an expression. -/
def ofChars (cs : List Char) : List Lexeme :=
  scan true 0 cs

end Lexeme

/-- The tokens of an expression, with the mark of its end. -/
def Token.ofChars (cs : List Char) : List Token :=
  (Lexeme.ofChars cs).map (·.token) ++ [.finish]

end Narrative
