import Narrative.SavedGame.Basic
import Narrative.SavedGame.Scan

/-!
# What is wrong with a saved game

A text that is not a saved game is scanned once more to tell its player what is wrong with it and
where. The scan knows the parts of a saved game in their kinds. A record that misses a field, or
gives one twice, is found faulty at its end if that comes next.
-/

namespace Narrative

namespace Scan

/-! ## Kinds of values -/

/-- Passes over a value that is wanted to be a scalar and has no fault as that. -/
def wanted (name : String) (fault? : JsonKind → Option SaveFault) : Scan JsonKind := do
  match ← next? with
  | some '[' => stop (.wrongKind .array name)
  | some '\x7b' => stop (.wrongKind .object name)
  | _ =>
    let found ← scalar false
    match fault? found with
    | none => return found
    | some fault => stop fault

/-- Passes over a value of a kind. -/
def ofKind (name : String) (isKind : JsonKind → Bool) : Scan Unit :=
  discard (wanted name fun found => if isKind found then none else some (.wrongKind found name))

/-- Passes over a value that begins with something else than wanted. -/
def refuse (name : String) : Scan Unit :=
  ofKind name fun _ => false

/-- The kind of a truth value. -/
def isBool : JsonKind → Bool
  | .bool _ => true
  | _ => false

/-- The kind of a string. -/
def isString : JsonKind → Bool
  | .string _ => true
  | _ => false

/-- The name of the kind of a truth value. -/
def boolName : String := "a boolean"

/-- The name of the kind of a string. -/
def stringName : String := "a string"

/-- Passes over a truth value. -/
def bool : Scan Unit :=
  ofKind boolName isBool

/-- Passes over a string. -/
def text : Scan Unit :=
  ofKind stringName isString

/-- Passes over a string or the word `null`. -/
def nullableText : Scan Unit :=
  ofKind stringName fun found => isString found || found == .null

/-- What is wrong with a value that is wanted to be a natural number up to a bound. -/
def naturalFault? (name : String) (bound : Nat) (found : JsonKind) : Option SaveFault :=
  match found.integer? with
  | none => some (.wrongKind found name)
  | some n => if 0 ≤ n ∧ n ≤ bound then none else some (.outOfRange found name)

/-- Passes over a natural number up to a bound. -/
def natural (name : String) (bound : Nat) : Scan Unit :=
  discard (wanted name (naturalFault? name bound))

/-- Passes over a natural number up to a bound or the word `null`. -/
def nullableNatural (name : String) (bound : Nat) : Scan Unit :=
  discard <| wanted name fun found =>
    if found = .null then none else naturalFault? name bound found

/-- Passes over an array. -/
def arrayOf (item : Scan Unit) : Scan Unit := do
  if (← next?) = some '[' then
    skip
    array false item
  else refuse "a sequence"

/-- Passes over an object with values of a kind. -/
def mapOf (value : Scan Unit) : Scan Unit := do
  if (← next?) = some '\x7b' then
    skip
    object false value
  else refuse "a map"

/-! ## Records -/

/-- A field of a record. -/
structure Field where
  /-- The name. -/
  name : String
  /-- Whether the field may be missing. -/
  optional : Bool
  /-- Passes over the value. -/
  value : Scan Unit

/-- Passes over the end of an array that should have no more items. -/
def arrayEnd : Scan Unit := do
  match ← next? with
  | none => stop .endInArray
  | some ']' => skip
  | some ',' =>
    skip
    if (← next?) = some ']' then stopNext .trailingComma else stopNext .trailingText
  | some _ => stopNext .trailingText

/-- Passes over the fields of a record that is written as an array, the first of them at a place.
Fields that may be missing may be missing at the end. -/
def fieldItems (kind : String) : (place : Nat) → List Field → Scan Unit
  | _, [] => arrayEnd
  | place, f :: fs => do
    if ← nextItem false (place == 0) then
      f.value
      fieldItems kind (place + 1) fs
    else if f.optional then fieldItems kind (place + 1) fs
    else
      skip
      stop (.tooShort place kind)

/-- Passes over the fields of a record that is written as an object, and over members that are none.
Some fields were given before. -/
def fieldMembers (fields : List Field) :
    (bound : Nat) → (given : List String) → (first : Bool) → Scan Unit
  | 0, _, _ => return
  | bound + 1, given, first => do
    match ← nextKey false first with
    | none =>
      skip
      match fields.find? fun f => !f.optional && !given.contains f.name with
      | some f => stop (.missing f.name)
      | none => return
    | some key =>
      match fields.find? (·.name == key) with
      | none =>
        colon
        ignored
        fieldMembers fields bound given false
      | some f =>
        if given.contains key then
          skipEnd '\x7d'
          stop (.duplicate key)
        else
          colon
          f.value
          fieldMembers fields bound (key :: given) false

/-- Passes over a record. -/
def record (name : String) (fields : List Field) : Scan Unit := do
  let kind := "struct " ++ name
  match ← next? with
  | some '[' =>
    skip
    fieldItems (kind ++ " with " ++ toString fields.length ++ " elements") 0 fields
  | some '\x7b' =>
    skip
    fieldMembers fields ((← get).length + 1) [] true
  | _ => refuse kind

/-! ## Values -/

/-- The name of the kind of a value. -/
def valueName : String := "adjacently tagged enum SavedValue"

/-- The name of the kind of the absent value. -/
def nullName : String := "unit variant SavedValue::Null"

/-- The types of values. -/
def typeNames : List String :=
  ["bool", "number", "str", "divert", "object", "null"]

/-- Passes over the name of a type. -/
def typeName : Scan String := do
  let name := "variant identifier"
  let found ← wanted name fun
    | .string text =>
      let type := String.ofList text
      if typeNames.contains type then none else some (.unknownType type typeNames)
    | found => some (.wrongKind found name)
  match found with
  | .string text => return String.ofList text
  | _ => return ""

/-- Passes over a type: its name, or an object with the name as its only key and the value `null`.
-/
def type : Scan String := do
  match ← next? with
  | none => stop .endInValue
  | some '"' => typeName
  | some '\x7b' =>
    skip
    match ← next? with
    | none => stop .endInObject
    | some '"' => pure ()
    | some '\x7d' => stopNext .expectedValue
    | some _ => stopNext .keyNotString
    let name ← typeName
    colon
    ofKind "unit" (· == .null)
    match ← next? with
    | none => stop .endInObject
    | some '\x7d' =>
      skip
      return name
    | some _ => stop .expectedValue
  | some _ => stopNext .expectedValue

/-- Passes over the content of a value of a type. -/
def content (type : String) : Scan Unit := do
  match type, ← next? with
  | "bool", _ => bool
  | "null", some '[' =>
    skip
    match ← next? with
    | some ']' => skip
    | some ',' =>
      skip
      discard next?
    | _ => pure ()
    stop (.wrongKind .array nullName)
  | "null", some '\x7b' =>
    skip
    skipEnd '\x7d'
    stop (.wrongKind .object nullName)
  | "null", _ => ofKind nullName (· == .null)
  | _, _ => text

/-- What is wrong with a content that was read before its type. -/
def contentFault? (type : String) (found : JsonKind) : Option SaveFault :=
  let (isKind, name) : (JsonKind → Bool) × String :=
    match type with
    | "bool" => (isBool, boolName)
    | "null" => ((· == .null), nullName)
    | _ => (isString, stringName)
  if isKind found then none else some (.wrongKind found name)

/-- The key of the type of a value. -/
def typeKey : String := "type"

/-- The key of the content of a value. -/
def contentKey : String := "value"

/-- Goes behind the next key of a value that is one of the two known ones, if there is one. -/
def valueKey : (bound : Nat) → (first : Bool) → Scan (Option String)
  | 0, _ => return none
  | bound + 1, first => do
    match ← nextKey false first with
    | none => return none
    | some key =>
      if key = typeKey ∨ key = contentKey then return some key
      else
        colon
        ignored
        valueKey bound false

/-- Passes over the rest of a value that has its type and its content. -/
def valueRest : Scan Unit := do
  match ← valueKey ((← get).length + 1) false with
  | none => skip
  | some key =>
    skipEnd '\x7d'
    stop (.duplicate key)

/-- Passes over a value behind the key of its type. -/
def typeFirst : Scan Unit := do
  colon
  let type ← type
  match ← valueKey ((← get).length + 1) false with
  | none =>
    skip
    if type != "null" then stop (.missing contentKey)
  | some key =>
    if key = contentKey then
      colon
      content type
      valueRest
    else
      skipEnd '\x7d'
      stop (.duplicate typeKey)

/-- Passes over a value behind the key of its content, in which arrays and objects nest up to a
depth. -/
def contentFirst (depth : Nat) : Scan Unit := do
  colon
  let found ← document false depth
  match ← valueKey ((← get).length + 1) false with
  | none =>
    skip
    stop (.missing typeKey)
  | some key =>
    if key = typeKey then
      colon
      match contentFault? (← type) found with
      | none => valueRest
      | some fault =>
        skipEnd '\x7d'
        stop fault
    else
      skipEnd '\x7d'
      stop (.duplicate contentKey)

/-- Passes over a value, in whose content arrays and objects nest up to a depth. -/
def value (depth : Nat) : Scan Unit := do
  match ← next? with
  | some '[' =>
    skip
    if ← nextItem false true then
      let type ← typeName
      if ← nextItem false false then
        content type
        arrayEnd
      else
        skip
        stop (.tooShort 1 valueName)
    else
      skip
      stop (.tooShort 0 valueName)
  | some '\x7b' =>
    skip
    match ← valueKey ((← get).length + 1) true with
    | none =>
      skip
      stop (.missing typeKey)
    | some key => if key = typeKey then typeFirst else contentFirst depth
  | _ => refuse valueName

/-! ## Saved games -/

/-- How deeply arrays and objects may nest in a saved game. -/
def maxDepth : Nat := 127

/-- Passes over what is saved of a node. Its parameters are four levels deep. -/
def savedNode : Scan Unit :=
  record "SavedContent"
    [⟨"count", false, natural "u32" SavedNode.maxCount⟩,
      ⟨"variables", true, mapOf (value (maxDepth - 5))⟩,
      ⟨"selection", true, nullableNatural "usize" SavedNode.maxIndex⟩]

/-- Passes over a saved game. -/
def savedGame : Scan Unit :=
  record "SaveState"
    [⟨"files", false, arrayOf text⟩, ⟨"content", false, mapOf savedNode⟩,
      ⟨"container", true, nullableText⟩, ⟨"index", false, natural "usize" SavedNode.maxIndex⟩,
      ⟨"text", true, arrayOf text⟩, ⟨"choices", true, arrayOf text⟩,
      ⟨"comments", true, arrayOf text⟩, ⟨"image", true, nullableText⟩,
      ⟨"variables", true, mapOf (value (maxDepth - 3))⟩, ⟨"running", false, bool⟩,
      ⟨"processing", true, bool⟩]

/-- Passes over a text that is a saved game with nothing but space behind it. -/
def wholeText : Scan Unit := do
  savedGame
  if (← next?).isSome then stopNext .trailingText

end Scan

namespace SavedGame

/-- What is wrong with a text that is not a saved game, and where. -/
def diagnose (text : String) : SaveError :=
  match Scan.wholeText.run text.toList with
  | .error (fault, unread) => .locate text fault unread
  | .ok _ => .locate text .trailingText 0

/-- Reads a saved game, or says what is wrong. -/
def read (text : String) : Except SaveError SavedGame :=
  match read? text.toList with
  | some g => .ok g
  | none => .error (diagnose text)

end SavedGame

end Narrative
