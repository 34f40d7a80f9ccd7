/-!
# Ranges of characters

A property of characters is given by the ranges of code points that have it.
-/

namespace PredicateTree.Text

/-- Whether a character lies in one of the ranges, ends included. -/
def inRanges (ranges : Array (Nat × Nat)) (c : Char) : Bool :=
  ranges.any fun (first, last) => first ≤ c.toNat && c.toNat ≤ last

/-- The position of a character in the range that holds it. -/
def offsetIn? (ranges : Array (Nat × Nat)) (c : Char) : Option Nat :=
  (ranges.find? fun (first, last) => first ≤ c.toNat && c.toNat ≤ last).map fun (first, _) =>
    c.toNat - first

end PredicateTree.Text
