import Narrative.NameMap
import Narrative.SavedGame.Json

/-!
# Saved games

A saved game holds what changes while a story is played. The content is not saved: it is read from
the sources again, and nodes are named by their ids, which the sources determine. This module gives
saved games their written form.
-/

namespace Narrative

/-- The saved form of a value. -/
inductive SavedValue where
  /-- A truth value. -/
  | bool (b : Bool)
  /-- A number in plain notation. -/
  | number (text : String)
  /-- A text. -/
  | str (s : String)
  /-- A reference to a container by its id. -/
  | divert (id : String)
  /-- An object of the host by its key. -/
  | object (key : String)
  /-- The absence of a value. -/
  | null
deriving DecidableEq, Repr, Inhabited

/-- What is saved of a node that was visited. -/
structure SavedNode where
  /-- How often it was visited. -/
  count : Nat
  /-- The parameters of a section. -/
  params : NameMap SavedValue := .empty
  /-- The chosen option of a block. -/
  selection : Option Nat := none
deriving DecidableEq, Inhabited

/-- A saved game. -/
structure SavedGame where
  /-- The files that were read. -/
  files : List String
  /-- The nodes that were visited, by id. -/
  content : NameMap SavedNode
  /-- The container being played. -/
  container : Option String := none
  /-- The position of the next node in the container. -/
  index : Nat
  /-- The texts shown so far. -/
  text : List String := []
  /-- The pending choices by id. -/
  choices : List String := []
  /-- The collected comments by id. -/
  comments : List String := []
  /-- The background picture. -/
  image : Option String := none
  /-- The global variables. -/
  globals : NameMap SavedValue := .empty
  /-- Whether play has not been diverted to the end. -/
  running : Bool
  /-- Whether play is not waiting for a choice. -/
  processing : Bool := false
deriving DecidableEq, Inhabited

namespace Json

/-! ## Encoding -/

/-- A string document. -/
def ofString (s : String) : Json :=
  string (some s)

/-- A number document. -/
def ofNat (n : Nat) : Json :=
  number (Nat.toDigits 10 n)

/-- An array of strings. -/
def ofStrings (ss : List String) : Json :=
  array (ss.map ofString)

/-- A string, or the word `null`. -/
def ofString? (s : Option String) : Json :=
  (s.map ofString).getD null

/-- An object with the entries of a map in the order of their names. -/
def ofMap {β : Type} (encode : β → Json) (m : NameMap β) : Json :=
  object (m.toList.map fun (name, v) => (some name, encode v))

/-! ## Decoding -/

/-- The text of a string. -/
def string? : Json → Option String
  | string text => text
  | _ => none

/-- A truth value. -/
def bool? : Json → Option Bool
  | bool b => some b
  | _ => none

/-- A natural number up to a bound, written with digits only. -/
def nat? (bound : Nat) : Json → Option Nat
  | number literal =>
    let n := literal.foldl (fun n c => 10 * n + (c.toNat - '0'.toNat)) 0
    if literal.all Char.isDigit ∧ n ≤ bound then some n else none
  | _ => none

/-- A value, or none for the word `null`. -/
def nullable? {β : Type} (decode : Json → Option β) : Json → Option (Option β)
  | null => some none
  | j => (decode j).map some

/-- The strings of an array. -/
def strings? : Json → Option (List String)
  | array items => items.mapM string?
  | _ => none

/-- The entries of an object as a map, where the last entry of a name counts. -/
def map? {β : Type} (decode : Json → Option β) : Json → Option (NameMap β)
  | object members => do
    let entries ← members.mapM fun (key, v) => do return (← key, ← decode v)
    return .ofList entries
  | _ => none

/-- The fields of a record, none for those that are missing. A record is an object, whose keys have
to be texts and in which a field may occur once only and other members are ignored; or an array of
the first fields in their order. -/
def fields? (names : List String) : Json → Option (List (Option Json))
  | object members => do
    let keys ← members.mapM (·.1)
    names.mapM fun name =>
      match (keys.zip (members.map (·.2))).filter (·.1 == name) with
      | [] => some none
      | [(_, v)] => some (some v)
      | _ => none
  | array items =>
    if items.length ≤ names.length then
      some (items.map some ++ List.replicate (names.length - items.length) none)
    else none
  | _ => none

/-- A field that has to be present. -/
def required? {β : Type} (decode : Json → Option β) (field : Option Json) : Option β :=
  field.bind decode

/-- A field that has a default. -/
def optional? {β : Type} (fallback : β) (decode : Json → Option β) : Option Json → Option β
  | none => some fallback
  | some j => decode j

end Json

namespace SavedValue

/-- The document of a value of some type. -/
def tagged (type : String) (content : Json) : Json :=
  .object [(some "type", .ofString type), (some "value", content)]

/-- The document of a value. -/
def toJson : SavedValue → Json
  | bool b => tagged "bool" (.bool b)
  | number text => tagged "number" (.ofString text)
  | str s => tagged "str" (.ofString s)
  | divert id => tagged "divert" (.ofString id)
  | object key => tagged "object" (.ofString key)
  | null => .object [(some "type", .ofString "null")]

/-- The name of a type, which may also be the only key of an object with the value `null`. -/
def typeName? : Json → Option String
  | .object [(name, .null)] => name
  | j => j.string?

/-- The value of a type with the given content; only null may lack it. -/
def ofContent? (type : String) (content : Option Json) : Option SavedValue :=
  match type with
  | "bool" => (content.bind Json.bool?).map bool
  | "number" => (content.bind Json.string?).map number
  | "str" => (content.bind Json.string?).map str
  | "divert" => (content.bind Json.string?).map divert
  | "object" => (content.bind Json.string?).map object
  | "null" =>
    match content with
    | none => some null
    | some .null => some null
    | some _ => none
  | _ => none

/-- The value that a document denotes. As an array it has to be complete and to name its type. -/
def ofJson? (j : Json) : Option SavedValue := do
  match ← j.fields? ["type", "value"] with
  | [some type, content] =>
    match j, content with
    | .array _, none => none
    | .array _, some _ => ofContent? (← type.string?) content
    | _, _ => ofContent? (← typeName? type) content
  | _ => none

end SavedValue

namespace SavedNode

/-- The greatest number of visits that can be saved. -/
def maxCount : Nat := 4294967295

/-- The greatest position that can be saved. -/
def maxIndex : Nat := 18446744073709551615

/-- The document of a node, without parameters or selection if there are none. -/
def toJson (n : SavedNode) : Json :=
  .object <|
    [(some "count", .ofNat n.count)] ++
      (if n.params.isEmpty then []
        else [(some "variables", .ofMap SavedValue.toJson n.params)]) ++
      (n.selection.map fun i => (some "selection", Json.ofNat i)).toList

/-- The node that a document denotes. -/
def ofJson? (j : Json) : Option SavedNode := do
  match ← j.fields? ["count", "variables", "selection"] with
  | [count, params, selection] =>
    return {
      count := ← Json.required? (Json.nat? maxCount) count
      params := ← Json.optional? .empty (Json.map? SavedValue.ofJson?) params
      selection := ← Json.optional? none (Json.nullable? (Json.nat? maxIndex)) selection }
  | _ => none

end SavedNode

namespace SavedGame

/-- The document of a saved game. -/
def toJson (g : SavedGame) : Json :=
  .object
    [(some "files", .ofStrings g.files), (some "content", .ofMap SavedNode.toJson g.content),
      (some "container", .ofString? g.container), (some "index", .ofNat g.index),
      (some "text", .ofStrings g.text), (some "choices", .ofStrings g.choices),
      (some "comments", .ofStrings g.comments), (some "image", .ofString? g.image),
      (some "variables", .ofMap SavedValue.toJson g.globals), (some "running", .bool g.running),
      (some "processing", .bool g.processing)]

/-- The names of the parts of a saved game. -/
def fieldNames : List String :=
  ["files", "content", "container", "index", "text", "choices", "comments", "image", "variables",
    "running", "processing"]

/-- The saved game that a document denotes. -/
def ofJson? (j : Json) : Option SavedGame := do
  match ← j.fields? fieldNames with
  | [files, content, container, index, text, choices, comments, image, globals, running,
      processing] =>
    return {
      files := ← Json.required? Json.strings? files
      content := ← Json.required? (Json.map? SavedNode.ofJson?) content
      container := ← Json.optional? none (Json.nullable? Json.string?) container
      index := ← Json.required? (Json.nat? SavedNode.maxIndex) index
      text := ← Json.optional? [] Json.strings? text
      choices := ← Json.optional? [] Json.strings? choices
      comments := ← Json.optional? [] Json.strings? comments
      image := ← Json.optional? none (Json.nullable? Json.string?) image
      globals := ← Json.optional? .empty (Json.map? SavedValue.ofJson?) globals
      running := ← Json.required? Json.bool? running
      processing := ← Json.optional? false Json.bool? processing }
  | _ => none

/-- The written form of a saved game. -/
def write (g : SavedGame) : List Char :=
  g.toJson.render 0

/-- Reads a saved game. -/
def read? (cs : List Char) : Option SavedGame :=
  (Json.parse? cs).bind ofJson?

end SavedGame

end Narrative
