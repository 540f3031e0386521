import Narrative.NameMap
import Narrative.Text

/-!
# Folders

A folder of text files, with folders inside it. A path leads through folders to a place; every step
but the last has to end at a folder. Of what lies outside, only the folders above are known, and the
null file, which is empty whatever is written to it.
-/

namespace Narrative

/-- Why a file cannot be read or written. -/
inductive FileFault where
  /-- There is nothing at the path. -/
  | missing
  /-- A file stands where a folder is needed. -/
  | notAFolder
  /-- A folder stands where a file is needed. -/
  | isAFolder
  /-- The path or one of its steps is too long. -/
  | nameTooLong
  /-- The path has a null character. -/
  | nullInName
deriving DecidableEq, Repr

/-- The text of a fault as the system reports it. -/
def FileFault.message : FileFault → String
  | missing => "No such file or directory (os error 2)"
  | notAFolder => "Not a directory (os error 20)"
  | isAFolder => "Is a directory (os error 21)"
  | nameTooLong => "File name too long (os error 36)"
  | nullInName => "file name contained an unexpected NUL byte"

/-- The steps from a folder to a place. They begin with steps up when the place lies above the
folder, and with an empty step when they start at the root of all folders. -/
abbrev Place := List String

/-- A folder of text files. -/
structure Folder where
  /-- The texts of the files by the steps to them, which are separated by slashes. -/
  files : NameMap String := .empty
  /-- The folders inside. -/
  folders : List Place := []

namespace Folder

/-- The step to the folder above. -/
def up : String := ".."

/-- The root of all folders. -/
def root : Place := [""]

/-- The null file. -/
def nullFile : Place := ["", "dev", "null"]

/-- The path of a place. -/
def joined (place : Place) : String :=
  "/".intercalate place

/-- Whether there is a file at a place. -/
def isFile (f : Folder) (place : Place) : Bool :=
  f.files.contains (joined place) || place == nullFile

/-- Whether there is a folder at a place. -/
def isFolder (f : Folder) (place : Place) : Bool :=
  f.folders.contains place || place.all (· == up) || place == root || place == nullFile.dropLast

/-- The steps of a path, of which some may be empty or points. -/
def steps (path : String) : List String :=
  (Text.splitOn '/' path.toList).map String.ofList

/-- The place a step leads to. Above the root there is the root itself. -/
def next (here : Place) (step : String) : Place :=
  if step = "" ∨ step = "." then here
  else if step = up then
    if here.all (· == up) then here ++ [up] else if here = root then here else here.dropLast
  else here ++ [step]

/-- The place at which a path starts. -/
def start (path : String) : Place :=
  if path.toList.head? == some '/' then root else []

/-- The folder with a file added, and with the folders on the way to it. -/
def add (f : Folder) (path text : String) : Folder :=
  let (place, folders) :=
    (steps path).foldl (fun (here, passed) step => (next here step, here :: passed))
      (start path, f.folders)
  { files := f.files.insert (joined place) text, folders }

/-- The folder of some files with their paths. -/
def ofFiles (files : List (String × String)) : Folder :=
  files.foldl (fun f (path, text) => f.add path text) {}

/-! ## Following paths -/

/-- The greatest number of bytes of a step. -/
def maxStepSize : Nat := 255

/-- The greatest number of bytes of a path. -/
def maxPathSize : Nat := 4095

/-- Makes sure that a place is a folder. -/
def requireFolder (f : Folder) (place : Place) : Except FileFault Unit :=
  if f.isFile place then .error .notAFolder
  else if f.isFolder place then .ok ()
  else .error .missing

/-- Follows steps from a place; whether there is anything at the last one is left open. -/
def follow (f : Folder) (here : Place) : List String → Except FileFault Place
  | [] => .ok here
  | step :: rest => do
    f.requireFolder here
    if maxStepSize < step.utf8ByteSize then .error .nameTooLong
    else follow f (next here step) rest

/-- Makes sure that a path can be followed at all. -/
def checkPath (path : String) : Except FileFault Unit :=
  if path.contains '\x00' then .error .nullInName
  else if maxPathSize < path.utf8ByteSize then .error .nameTooLong
  else if path.isEmpty then .error .missing
  else .ok ()

/-- The place a path leads to. -/
def locate (f : Folder) (path : String) : Except FileFault Place := do
  checkPath path
  f.follow (start path) (steps path)

/-- Whether there is a file or a folder at a path. -/
def has (f : Folder) (path : String) : Bool :=
  match f.locate path with
  | .ok place => f.isFile place || f.isFolder place
  | .error _ => false

/-- The text of the file at a path. -/
def read (f : Folder) (path : String) : Except FileFault String := do
  let place ← f.locate path
  if f.isFolder place then .error .isAFolder
  else if f.isFile place then .ok ((f.files.get? (joined place)).getD "")
  else .error .missing

/-- The steps before the last name of a path, if the path is written like that of a folder, with a
slash behind the name. -/
def folderSteps? (path : String) : Option (List String) :=
  match (steps path).reverse with
  | "" :: rest =>
    match rest.dropWhile (· == "") with
    | [] => none
    | step :: rest => if step = "." ∨ step = up then none else some rest.reverse
  | _ => none

/-- The folder with a file written. No file is written under a path like that of a folder. -/
def write (f : Folder) (path text : String) : Except FileFault Folder := do
  checkPath path
  match folderSteps? path with
  | some steps =>
    f.requireFolder (← f.follow (start path) steps)
    .error .isAFolder
  | none =>
    let place ← f.locate path
    if f.isFolder place then .error .isAFolder
    else if place == nullFile then .ok f
    else .ok { f with files := f.files.insert (joined place) text }

end Folder

end Narrative
