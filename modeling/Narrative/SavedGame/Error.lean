import Narrative.Decimal.Double
import Narrative.Text.Quoted

/-!
# Errors in a saved game

The faults that keep a text from being a saved game, and the place where the first of them was
found.
-/

namespace Narrative

/-- What a document has at some place. -/
inductive JsonKind where
  /-- The word `null`. -/
  | null
  /-- A truth value. -/
  | bool (b : Bool)
  /-- A number as it is written. -/
  | number (literal : List Char)
  /-- A string. -/
  | string (text : List Char)
  /-- An array. -/
  | array
  /-- An object. -/
  | object
deriving DecidableEq, Repr

namespace JsonKind

/-- The greatest integer that is shown exactly, that of an unsigned 64-bit word. -/
def maxInteger : Nat := 18446744073709551615

/-- The greatest magnitude of a negative integer that is shown exactly, that of a signed 64-bit
word. -/
def maxNegative : Nat := 9223372036854775808

/-- The integer that a number is, if it is written as one and fits a 64-bit word. -/
def integer? : JsonKind → Option Int
  | number ('-' :: digits) =>
    (Decimal.digits? digits).bind fun n =>
      if n ≠ 0 ∧ n ≤ maxNegative then some (-n) else none
  | number digits =>
    (Decimal.digits? digits).bind fun n => if n ≤ maxInteger then some n else none
  | _ => none

/-- The text of what was found, as an error shows it. -/
def message (found : JsonKind) : String :=
  match found with
  | null => "null"
  | bool b => "boolean `" ++ (if b then "true" else "false") ++ "`"
  | number literal =>
    match found.integer? with
    | some n => "integer `" ++ toString n ++ "`"
    | none => "floating point `" ++ String.ofList (Double.text literal) ++ "`"
  | string text => "string " ++ String.ofList (Text.quoted text)
  | array => "sequence"
  | object => "map"

end JsonKind

/-- Why a text is not a saved game. -/
inductive SaveFault where
  /-- The text ends in an array. -/
  | endInArray
  /-- The text ends in an object. -/
  | endInObject
  /-- The text ends in a string. -/
  | endInString
  /-- The text ends where a value is wanted. -/
  | endInValue
  /-- A key without a colon. -/
  | expectedColon
  /-- An item of an array that neither another item nor the end follows. -/
  | expectedItemEnd
  /-- A member of an object that neither another member nor the end follows. -/
  | expectedMemberEnd
  /-- A letter that does not begin a known word. -/
  | expectedWord
  /-- A character that begins no value. -/
  | expectedValue
  /-- A backslash with something else than an escape. -/
  | invalidEscape
  /-- A number that misses a digit or has a superfluous zero. -/
  | invalidNumber
  /-- A number beyond the range of doubles. -/
  | numberTooLarge
  /-- A control character in a string. -/
  | controlCharacter
  /-- A key that is not a string. -/
  | keyNotString
  /-- Half of a surrogate pair with something else than the other half. -/
  | loneHalf
  /-- Half of a surrogate pair with something else than an escape. -/
  | unpairedHalf
  /-- A comma before the end of an array or object. -/
  | trailingComma
  /-- Something behind the end. -/
  | trailingText
  /-- Arrays and objects nested too deeply. -/
  | tooDeep
  /-- A value of another kind than the wanted one. -/
  | wrongKind (found : JsonKind) (wanted : String)
  /-- A value of the wanted kind that is out of range. -/
  | outOfRange (found : JsonKind) (wanted : String)
  /-- An array with too few items. -/
  | tooShort (size : Nat) (wanted : String)
  /-- A record without one of its fields. -/
  | missing (field : String)
  /-- A record with a field given twice. -/
  | duplicate (field : String)
  /-- A name of a type that is none of the known ones. -/
  | unknownType (name : String) (known : List String)
deriving DecidableEq, Repr

namespace SaveFault

/-- A name between backquotes. -/
def marked (name : String) : String :=
  "`" ++ name ++ "`"

/-- The text of a fault. -/
def message : SaveFault → String
  | endInArray => "EOF while parsing a list"
  | endInObject => "EOF while parsing an object"
  | endInString => "EOF while parsing a string"
  | endInValue => "EOF while parsing a value"
  | expectedColon => "expected `:`"
  | expectedItemEnd => "expected `,` or `]`"
  | expectedMemberEnd => "expected `,` or `\x7d`"
  | expectedWord => "expected ident"
  | expectedValue => "expected value"
  | invalidEscape => "invalid escape"
  | invalidNumber => "invalid number"
  | numberTooLarge => "number out of range"
  | controlCharacter =>
    "control character (\\u0000-\\u001F) found while parsing a string"
  | keyNotString => "key must be a string"
  | loneHalf => "lone leading surrogate in hex escape"
  | unpairedHalf => "unexpected end of hex escape"
  | trailingComma => "trailing comma"
  | trailingText => "trailing characters"
  | tooDeep => "recursion limit exceeded"
  | wrongKind found wanted => "invalid type: " ++ found.message ++ ", expected " ++ wanted
  | outOfRange found wanted => "invalid value: " ++ found.message ++ ", expected " ++ wanted
  | tooShort size wanted => "invalid length " ++ toString size ++ ", expected " ++ wanted
  | missing field => "missing field " ++ marked field
  | duplicate field => "duplicate field " ++ marked field
  | unknownType name known =>
    "unknown variant " ++ marked name ++ ", expected one of " ++
      ", ".intercalate (known.map marked)

end SaveFault

/-- A fault with the place where it was found. -/
structure SaveError where
  /-- What is wrong. -/
  fault : SaveFault
  /-- The line, counted from one. -/
  line : Nat
  /-- The number of bytes read in that line. -/
  column : Nat
deriving DecidableEq, Repr

namespace SaveError

/-- The error of a fault that was found when some last bytes of a text had not been read. -/
def locate (text : String) (fault : SaveFault) (unread : Nat) : SaveError :=
  let lineFeed := '\n'.toNat.toUInt8
  let seen := (text.toUTF8.toList.take (text.utf8ByteSize - unread)).reverse
  { fault
    line := 1 + seen.count lineFeed
    column := (seen.takeWhile (· != lineFeed)).length }

/-- The text of an error with its place. -/
def message (e : SaveError) : String :=
  e.fault.message ++ " at line " ++ toString e.line ++ " column " ++ toString e.column

end SaveError

end Narrative
