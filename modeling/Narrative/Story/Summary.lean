import Narrative.Story.Basic
import Narrative.Text.Quoted

/-!
# Summaries

A story in one line, for its author.
-/

namespace Narrative.Story

/-- A text in quotes. -/
def quotedString (s : String) : String :=
  String.ofList (Text.quoted s.toList)

/-- The files, the cursor and the number of pending choices in one line. -/
def summary (s : Story) : String :=
  let container := match s.container with
    | none => "None"
    | some c => "Some(" ++ quotedString (s.node c).id ++ ")"
  "Story \x7b files: [" ++ ", ".intercalate (s.sources.files.map quotedString) ++
    "], container: " ++ container ++ ", index: " ++ toString s.index ++ ", choices: " ++
    toString s.choices.length ++ ", running: " ++ (if s.running then "true" else "false") ++ " \x7d"

end Narrative.Story
