import Narrative.Host
import Narrative.Source.Draft
import Narrative.Story.Error

/-!
# Loading sources

A story is a main source and the sources it includes, each read once into common content. Includes
are read depth first, in the order in which they are written. A source that cannot be opened or
read stops the loading, and what was read before it stays.
-/

namespace Narrative

/-- The sources of a story that have been read. -/
structure Sources where
  /-- Their nodes. -/
  content : Content := {}
  /-- Their files in the order in which they were read. -/
  files : List String := []
deriving DecidableEq, Repr, Inhabited

namespace Sources

/-- Reads the pending files that have not been read yet, and what they include. The result is the
start of the file `main` if it is among them. Each round opens another source of the host, so the
number of its sources bounds the rounds. -/
def loadPending (host : Host) (main : String) :
    (budget : Nat) → (pending : List String) → (start : Option NodeId) → Sources →
      Except StoryError (Option NodeId) × Sources
  | budget, pending, start, s =>
    match pending.dropWhile s.files.contains with
    | [] => (.ok start, s)
    | file :: rest =>
      match budget, host.sources.get? file with
      | budget + 1, some text =>
        match s.content.read file text.toList with
        | (.error e, content) => (.error (.parse e), { s with content })
        | (.ok source, content) =>
          loadPending host main budget (source.includes ++ rest)
            (if file = main then source.start else start)
            { content, files := s.files ++ [file] }
      | _, _ => (.error (.source file (host.refusal file)), s)

/-- Reads a file and what it includes, unless it has been read already. The result is the start of
the file. -/
def load (s : Sources) (host : Host) (file : String) :
    Except StoryError (Option NodeId) × Sources :=
  loadPending host file host.sources.entries.length [file] none s

/-- Reads a file and what it includes, unless it has been read already. -/
def require (s : Sources) (host : Host) (file : String) : Except StoryError Unit × Sources :=
  if s.files.contains file then (.ok (), s)
  else
    match s.load host file with
    | (.ok _, s) => (.ok (), s)
    | (.error e, s) => (.error e, s)

/-- The sources of a story and the knot at which it starts. -/
def ofMain (host : Host) (main : String) : Except StoryError (NodeId × Sources) :=
  match ({} : Sources).load host main with
  | (.error e, _) => .error e
  | (.ok none, _) => .error (.parse ⟨main, 0, .noRoot⟩)
  | (.ok (some start), s) => .ok (start, s)

end Sources

end Narrative
