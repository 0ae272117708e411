/-!
# Character ranges

A property of characters that no rule computes is data: the runs of code points
that have it, each given by its first and last member.  `Text.inRanges` is the
membership test that the tables of this folder share.
-/

namespace Typeahead

namespace Text

/-- The runs of code points that make up a set of characters. -/
abbrev Ranges := List (Nat × Nat)

/-- A character belongs to the set when one of its runs reaches over it. -/
def inRanges (runs : Ranges) (c : Char) : Bool :=
  runs.any fun run => decide (run.1 ≤ c.toNat) && decide (c.toNat ≤ run.2)

end Text

end Typeahead
