import Narrative.Main
import Narrative.Story.Summary
import Narrative.Proofs.Expr.Acceptance
import Narrative.Proofs.Expr.Discipline
import Narrative.Proofs.Story.Discipline
import Narrative.Proofs.Story.Moves
import Narrative.Proofs.Story.Soundness
import Narrative.Proofs.Source.Reading
import Narrative.Proofs.Source.Loading
import Narrative.Proofs.Story.Reachable
import Narrative.Proofs.Story.Chance
import Narrative.Proofs.Decimal.Plain
import Narrative.Proofs.NameMap
import Narrative.Proofs.SavedGame.Restoring
import Narrative.Proofs.SavedGame.Lossless
import Narrative.Proofs.Content.Tree
import Narrative.Proofs.Story.Conservation
import Narrative.Proofs.Story.Counts
import Narrative.Proofs.Story.Ending
import Narrative.Proofs.Story.Pending
import Narrative.Proofs.Story.Progress
import Narrative.Proofs.Content.Preorder
import Narrative.Proofs.Source.Arena
import Narrative.Proofs.Story.Operations
import Narrative.Proofs.Source.Weave
import Narrative.Proofs.Source.Nesting
import Narrative.Proofs.Source.Following
import Narrative.Proofs.Source.Weaving
import Narrative.Proofs.Decimal.Rounding
import Narrative.Proofs.Decimal.Words
import Narrative.Proofs.Decimal.Arithmetic
import Narrative.Proofs.Story.Activation
import Narrative.Proofs.Story.Inquiry
import Narrative.Proofs.Story.Footprints
import Narrative.Proofs.Story.Excursions
import Narrative.Proofs.Source.Housing
import Narrative.Proofs.Story.Versions
import Narrative.Proofs.SavedGame.Misfits
import Narrative.Proofs.Story.Bindings
import Narrative.Proofs.SavedGame.Renewal
import Narrative.Proofs.SavedGame.Writing
import Narrative.Proofs.Story.References
import Narrative.Proofs.Story.Advancing
import Narrative.Proofs.Story.Converging
import Narrative.Proofs.Story.LookAhead
import Narrative.Proofs.Story.Losses
import Narrative.Proofs.Directive.Expansion
import Narrative.Proofs.Story.Tracking
import Narrative.Proofs.Story.Mentions
import Narrative.Proofs.Story.Fallbacks
import Narrative.Proofs.Directive.Sequence
import Narrative.Proofs.SavedGame.Carrying
import Narrative.Proofs.Story.Showings
import Narrative.Proofs.Story.Sequences
import Narrative.Proofs.Expr.Comparison
import Narrative.Proofs.Directive.Nesting
import Narrative.Proofs.Directive.Imbalance
import Narrative.Proofs.Story.Declarations
import Narrative.Proofs.Decimal.Canonical
import Narrative.Proofs.Decimal.Acceptance
import Narrative.Proofs.Decimal.Remainder
import Narrative.Proofs.Decimal.Power
import Narrative.Proofs.Story.Draws
import Narrative.Proofs.Source.Traversal
import Narrative.Proofs.CommandLine
import Narrative.Proofs.Source.Start
import Narrative.Proofs.Source.Duplicates
import Narrative.Proofs.Source.ChoiceNodes
import Narrative.Proofs.Console
import Narrative.Proofs.Settings
import Narrative.Proofs.Story.Arguments
import Narrative.Proofs.Expr.Spans
import Narrative.Proofs.Story.Labels
import Narrative.Proofs.Content.Annotation
