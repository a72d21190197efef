/-!
# Sets of characters as ranges of code points

The character classes of this library are finite unions of intervals of code points.

* `CharRanges` is such a union, in rising order;
* `CharRanges.has` is membership.
-/

namespace BranchForm

/-- Intervals of code points, both ends included. -/
abbrev CharRanges := List (Nat × Nat)

namespace CharRanges

/-- Whether a character lies in one of the intervals. -/
def has (ranges : CharRanges) (c : Char) : Bool :=
  ranges.any fun (low, high) => low ≤ c.toNat && c.toNat ≤ high

end CharRanges

end BranchForm
