/-!
This module contains sets of characters that are given by ranges of code points.
-/

namespace ModuleLink

/--
A set of characters, as ranges of code points in increasing order; both ends belong to a range.
-/
abbrev CharRanges := List (Nat × Nat)

def CharRanges.contains (ranges : CharRanges) (c : Char) : Bool :=
  ranges.any fun (first, last) => decide (first ≤ c.toNat) && decide (c.toNat ≤ last)

end ModuleLink
