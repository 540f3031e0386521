import Narrative.Expr.Error
import Narrative.Source.Error

/-!
# Story errors

The ways in which loading, playing or restoring a story fails.
-/

namespace Narrative

/-- Why a story cannot go on. -/
inductive StoryError where
  /-- An expression without a value. -/
  | expr (source : String) (line : Nat) (error : ExprError)
  /-- A divert to a place that does not exist, also in its qualified form. -/
  | unknownDivert (target qualified : String) (line : Nat)
  /-- A section entered with the wrong number of arguments. -/
  | parameterMismatch (id : String)
  /-- A choice that is not pending. -/
  | choiceOutOfRange (index : Nat) (file container : String) (position : Nat)
  /-- Nothing left to play. -/
  | nothingPending
  /-- A reference to a place that does not exist, in a declaration or assignment. -/
  | invalidAddress (declaration address : String) (line : Nat)
  /-- An assignment to an unknown name. -/
  | undefinedVariable (name : String) (line : Nat)
  /-- A saved choice that is a node of another kind. -/
  | notAChoice (id : String)
  /-- A saved node that does not exist. -/
  | unknownContainer (id : String)
  /-- A saved object that the host does not have. -/
  | unknownObject (key : String)
  /-- A source that cannot be opened. -/
  | source (file reason : String)
  /-- A source that cannot be read. -/
  | parse (error : SourceError)
deriving DecidableEq, Repr

/-- The text of an error as the author of a story sees it. -/
def StoryError.message : StoryError → String
  | expr text line error =>
    "Error evaluating expression " ++ text ++ " on line " ++ toString line ++ ": " ++
      error.message
  | unknownDivert target qualified line =>
    "Attempt to divert to non-defined " ++ target ++ " or " ++ qualified ++ " in line " ++
      toString line
  | parameterMismatch id => "Mismatch in the parameter declaration in the call to " ++ id
  | choiceOutOfRange index file container position =>
    "Trying to select a choice " ++ toString index ++ " that does not exist in story: " ++ file ++
      " container: " ++ container ++ " cIndex: " ++ toString position
  | nothingPending => "advance() called with no content pending"
  | invalidAddress declaration address line =>
    "Invalid variable declaration " ++ declaration ++ " on line " ++ toString line ++ ": " ++
      address ++ " is not a valid address"
  | undefinedVariable name line =>
    "Variable " ++ name ++ " is not defined in variable expression on line " ++ toString line
  | notAChoice id => "Saved state refers to " ++ id ++ ", which is not a choice"
  | unknownContainer id => "Saved state refers to unknown container " ++ id
  | unknownObject key => "Saved state refers to unknown host object " ++ key
  | source file reason => "Cannot open story source " ++ file ++ ": " ++ reason
  | parse error => error.message

end Narrative
