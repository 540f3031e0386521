/-!
# Ranges of characters

A large class of characters is given by the ranges of their codes.
-/

namespace Narrative.Text

/-- Closed ranges of the codes of characters. -/
abbrev CodeRanges := List (Nat × Nat)

namespace CodeRanges

/-- Whether the code of a character lies in one of the ranges. -/
def has (ranges : CodeRanges) (c : Char) : Bool :=
  ranges.any fun (first, last) => first ≤ c.toNat && c.toNat ≤ last

end CodeRanges

end Narrative.Text
