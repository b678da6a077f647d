/-!
# Ranges of code points

Properties of characters are tables of ranges, in order and without overlaps.
-/

namespace Taxonomy.Text

/-- A range of code points, both ends included. -/
abbrev CodeRange := Nat × Nat

/-- The character lies in one of the ranges. -/
def isInRanges (ranges : List CodeRange) (c : Char) : Bool :=
  ranges.any fun range => range.1 ≤ c.toNat && c.toNat ≤ range.2

end Taxonomy.Text
