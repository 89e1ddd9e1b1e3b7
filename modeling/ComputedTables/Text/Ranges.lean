/-!
# Ranges of characters

A property of characters is given as the ranges of code points that have it.
-/

namespace ComputedTables.Text

/-- Whether a character lies in one of the ranges, which include their ends. -/
def inRanges (ranges : List (Nat × Nat)) (c : Char) : Bool :=
  ranges.any fun (first, last) => first ≤ c.toNat && c.toNat ≤ last

end ComputedTables.Text
