import Narrative.Statement

/-!
# Errors in a source

The structural faults that stop the reading of a source, and the place where they were found.
-/

namespace Narrative

/-- What is wrong with a line of a source. -/
inductive SourceFault where
  /-- A block is still open at a header or at the end. -/
  | unclosedBlock
  /-- Two nodes with one id. -/
  | duplicateId (id : String)
  /-- A knot without a name. -/
  | namelessKnot
  /-- A stitch before the first knot. -/
  | orphanStitch
  /-- A parameter list without its closing parenthesis. -/
  | unclosedParams
  /-- A choice before the first knot. -/
  | orphanChoice
  /-- A label of a choice without its closing parenthesis. -/
  | unclosedChoiceLabel
  /-- A condition of a choice without its closing brace. -/
  | unclosedCondition
  /-- A gather before the first knot. -/
  | orphanGather
  /-- A label of a gather without its closing parenthesis. -/
  | unclosedGatherLabel
  /-- A statement before the first knot. -/
  | orphanStatement
  /-- A line that is written as a statement but is none. -/
  | statement (error : StatementError)
  /-- A block before the first knot. -/
  | orphanBlock
  /-- A header of a block that does not end in a colon. -/
  | unendedBlockCondition
  /-- A condition of a comment without its closing brace. -/
  | unclosedCommentCondition
  /-- An injected choice without a choice marker. -/
  | unmarkedChoice
  /-- A story without a knot to start at. -/
  | noRoot
deriving DecidableEq, Repr

/-- The text of a fault found in a file, as the author of a story sees it. -/
def SourceFault.message (file : String) : SourceFault → String
  | unclosedBlock => "Conditional block is not closed by '\x7d'"
  | duplicateId id => "Duplicate id " ++ id
  | namelessKnot => "Knot header without a name"
  | orphanStitch => "Stitch without a containing Knot"
  | unclosedParams => "Parameter list is not closed by ')'"
  | orphanChoice =>
    "A choice must be nested within another knot, parent or choice/gather structure"
  | unclosedChoiceLabel => "Choice label is not closed by ')'"
  | unclosedCondition => "Choice condition is not closed by '\x7d'"
  | orphanGather => "A gather must be nested within a knot or stitch"
  | unclosedGatherLabel => "Gather label is not closed by ')'"
  | orphanStatement => "Declaration is not inside a knot/container"
  | statement error => error.message
  | orphanBlock => "Conditional block is not inside a knot/container"
  | unendedBlockCondition => "Error in conditional block; condition not ended by ':'"
  | unclosedCommentCondition => "Comment condition is not closed by '\x7d'"
  | unmarkedChoice => "An interrupt choice must start with '*' or '+'"
  | noRoot => "Could not detect a root knot node in " ++ file

/-- A fault with the place where it was found. -/
structure SourceError where
  /-- The file. -/
  file : String
  /-- The line, counted from one; zero when the fault belongs to no line. -/
  line : Nat
  /-- What is wrong. -/
  fault : SourceFault
deriving DecidableEq, Repr

/-- The text of an error with its place. -/
def SourceError.message (e : SourceError) : String :=
  e.file ++ ":" ++ toString e.line ++ ": " ++ e.fault.message e.file

end Narrative
