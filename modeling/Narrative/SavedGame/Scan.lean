import Narrative.SavedGame.Error
import Narrative.SavedGame.Json

/-!
# Scans of JSON documents

A scan walks over a document from its start and stops at the first fault. It is used on texts that
could not be read: what is well formed is read as usual, and only what is not is looked into.

Parts of a document that are of no interest are passed over loosely. There strings may have halves
of surrogate pairs, and some faults at the end of the text or behind a comma are told differently.
-/

namespace Narrative

/-- A walk over a text up to a fault, which comes with the number of bytes behind it. -/
abbrev Scan := StateT (List Char) (Except (SaveFault × Nat))

namespace Scan

/-- Stops with a fault found some bytes ahead. -/
def stopAhead {α : Type} (ahead : Nat) (fault : SaveFault) : Scan α := do
  throw (fault, Text.byteSize (← get) - ahead)

/-- Stops with a fault. -/
def stop {α : Type} (fault : SaveFault) : Scan α :=
  stopAhead 0 fault

/-- Stops with a fault that the next byte shows. -/
def stopNext {α : Type} (fault : SaveFault) : Scan α :=
  stopAhead 1 fault

/-- The next character that is not space. -/
def next? : Scan (Option Char) := do
  modify Json.skipSpace
  return (← get).head?

/-- Passes over a character. -/
def skip : Scan Unit :=
  modify (List.drop 1)

/-- Passes over the end of an array or object if it comes next. -/
def skipEnd (bracket : Char) : Scan Unit := do
  if (← next?) = some bracket then skip

/-! ## Scalars -/

/-- Passes over the letters of a word. -/
def letters : List Char → Scan Unit
  | [] => return
  | c :: cs => do
    match (← get).head? with
    | none => stop .endInValue
    | some d =>
      if d = c then
        skip
        letters cs
      else stopNext .expectedWord

/-- Stops at the fault of a string, behind its opening quote. -/
def stringFault {α : Type} (loose : Bool) : List Char → Except (SaveFault × Nat) α
  | '\\' :: 'u' :: a :: b :: c :: d :: rest =>
    match Json.hexCode? a b c d with
    | none => .error (.invalidEscape, Text.byteSize (a :: b :: c :: d :: rest) - 4)
    | some code =>
      if loose then stringFault loose rest
      else if Json.isLowHalf code then .error (.loneHalf, Text.byteSize rest)
      else if Json.isHighHalf code then
        match rest with
        | '\\' :: 'u' :: a :: b :: c :: d :: rest =>
          match Json.hexCode? a b c d with
          | none => .error (.invalidEscape, Text.byteSize (a :: b :: c :: d :: rest) - 4)
          | some low =>
            if Json.isLowHalf low then stringFault loose rest
            else .error (.loneHalf, Text.byteSize rest)
        | '\\' :: 'u' :: rest => escapeEnd rest
        | ['\\'] => .error (.endInString, 0)
        | '\\' :: rest => .error (.unpairedHalf, Text.byteSize rest - 1)
        | [] => .error (.endInString, 0)
        | rest => .error (.unpairedHalf, Text.byteSize rest - 1)
      else stringFault loose rest
  | '\\' :: 'u' :: rest => escapeEnd rest
  | ['\\'] => .error (.endInString, 0)
  | '\\' :: c :: rest =>
    if (Json.escapeCode? c).isSome then stringFault loose rest
    else .error (.invalidEscape, Text.byteSize (c :: rest) - 1)
  | c :: rest =>
    if c.toNat < 0x20 then
      .error (.controlCharacter, Text.byteSize (c :: rest) - (if loose then 0 else 1))
    else stringFault loose rest
  | [] => .error (.endInString, 0)
where
  /-- Stops at an escape that fewer than four characters follow. -/
  escapeEnd (rest : List Char) : Except (SaveFault × Nat) α :=
    if 4 ≤ Text.byteSize rest then .error (.invalidEscape, Text.byteSize rest - 4)
    else .error (.endInString, 0)

/-- Passes over a string behind its opening quote. -/
def string (loose : Bool) : Scan (List Char) := fun cs =>
  match Json.readString cs with
  | some (some text, rest) => .ok (text.toList, rest)
  | some (none, rest) => if loose then .ok ([], rest) else stringFault loose cs
  | none => stringFault loose cs

/-- Stops where a digit is missing. -/
def digitMissing {α : Type} (loose : Bool) : Scan α := do
  if (← get).isEmpty ∧ !loose then stop .endInValue else stopNext .invalidNumber

/-- Stops at the fault of an exponent. -/
def exponentFault {α : Type} (loose : Bool) : Scan α := do
  skip
  match ← get with
  | '+' :: _ => skip
  | '-' :: _ => skip
  | _ => pure ()
  digitMissing loose

/-- Stops at the fault of a number. -/
def numberFault {α : Type} (loose : Bool) : Scan α := do
  if (← get).head? = some '-' then skip
  match Json.readWhole (← get) with
  | none =>
    match ← get with
    | '0' :: rest =>
      set rest
      stopNext .invalidNumber
    | _ => digitMissing loose
  | some (_, '.' :: rest) =>
    set rest
    match Json.readDigits rest with
    | none => digitMissing loose
    | some (_, rest) =>
      set rest
      exponentFault loose
  | some (_, rest) =>
    set rest
    exponentFault loose

/-- Passes over a number. -/
def number (loose : Bool) : Scan (List Char) := do
  match Json.readNumber (← get) with
  | none => numberFault loose
  | some (literal, rest) =>
    set rest
    if loose ∨ (JsonKind.number literal).integer?.isSome then return literal
    match Double.read literal with
    | .ok _ => return literal
    | .error left => throw (.numberTooLarge, Text.byteSize rest + left)

/-- Passes over a value that is neither an array nor an object. -/
def scalar (loose : Bool) : Scan JsonKind := do
  match ← next? with
  | none => stop .endInValue
  | some 'n' =>
    letters "null".toList
    return .null
  | some 't' =>
    letters "true".toList
    return .bool true
  | some 'f' =>
    letters "false".toList
    return .bool false
  | some '"' =>
    skip
    return .string (← string loose)
  | some c =>
    if c = '-' ∨ c.isDigit then return .number (← number loose) else stopNext .expectedValue

/-! ## Arrays and objects -/

/-- Goes to the next item of an array, if there is one. -/
def nextItem (loose first : Bool) : Scan Bool := do
  match ← next? with
  | none => stop .endInArray
  | some ']' => return false
  | some c =>
    if first then return true
    else if c = ',' then
      skip
      match ← next? with
      | none => stop .endInValue
      | some ']' => if loose then return true else stopNext .trailingComma
      | some _ => return true
    else stopNext .expectedItemEnd

/-- Goes behind the next key of an object, if there is one. -/
def nextKey (loose first : Bool) : Scan (Option String) := do
  match ← next? with
  | none => stop .endInObject
  | some '\x7d' => return none
  | some c =>
    if first then key
    else if c = ',' then
      skip
      match ← next? with
      | none => stop (if loose then .endInObject else .endInValue)
      | some '\x7d' => stopNext (if loose then .keyNotString else .trailingComma)
      | some _ => key
    else stopNext .expectedMemberEnd
where
  /-- Passes over a key. -/
  key : Scan (Option String) := do
    if (← next?) = some '"' then
      skip
      return String.ofList (← string loose)
    else stopNext .keyNotString

/-- Passes over a colon. -/
def colon : Scan Unit := do
  match ← next? with
  | none => stop .endInObject
  | some ':' => skip
  | some _ => stopNext .expectedColon

/-- Passes over the items of an array and its end. Each item takes a character, so the length of the
text bounds their number. -/
def items (loose : Bool) (item : Scan Unit) : (bound : Nat) → (first : Bool) → Scan Unit
  | 0, _ => return
  | bound + 1, first => do
    if ← nextItem loose first then
      item
      items loose item bound false
    else skip

/-- Passes over the members of an object and its end. -/
def members (loose : Bool) (value : Scan Unit) : (bound : Nat) → (first : Bool) → Scan Unit
  | 0, _ => return
  | bound + 1, first => do
    match ← nextKey loose first with
    | none => skip
    | some _ =>
      colon
      value
      members loose value bound false

/-- Passes over an array behind its opening bracket. -/
def array (loose : Bool) (item : Scan Unit) : Scan Unit := do
  items loose item ((← get).length + 1) true

/-- Passes over an object behind its opening brace. -/
def object (loose : Bool) (value : Scan Unit) : Scan Unit := do
  members loose value ((← get).length + 1) true

/-- Passes over a document in which arrays and objects nest up to a depth. -/
def document (loose : Bool) (depth : Nat) : Scan JsonKind := do
  match ← next? with
  | some '[' =>
    match depth with
    | 0 => stopNext .tooDeep
    | depth + 1 =>
      skip
      array loose (discard (document loose depth))
      return .array
  | some '\x7b' =>
    match depth with
    | 0 => stopNext .tooDeep
    | depth + 1 =>
      skip
      object loose (discard (document loose depth))
      return .object
  | _ => scalar loose

/-- Passes over a document of no interest. -/
def ignored : Scan Unit := do
  discard (document true ((← get).length + 1))

end Scan

end Narrative
