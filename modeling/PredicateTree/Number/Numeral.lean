import PredicateTree.Number.Binary

/-!
# Numerals

A numeral is an integer or a floating-point number, with NaN among the latter.  Comparison is exact:
an integer is never rounded to be compared.
-/

namespace PredicateTree

/-- An integer or a floating-point number. -/
inductive Numeral where
  | int (i : Int)
  | float (x : Float)

namespace Numeral

/-- The result that is no number. -/
def nan : Float := Number.ofBits false 0x7FF8000000000000

/-- The order of two numerals, if both are numbers. -/
def compare? : Numeral → Numeral → Option Ordering
  | .int i, .int j => some (compare i j)
  | .int i, .float y => if y.isNaN then none else some (Number.compareInt i y)
  | .float x, .int j => if x.isNaN then none else some (Number.compareInt j x).swap
  | .float x, .float y =>
    if x < y then some .lt else if y < x then some .gt else if x == y then some .eq else none

/-- Whether two numerals are equal numbers. -/
def equal (a b : Numeral) : Bool := a.compare? b == some .eq

theorem equal_int (i j : Int) : (int i).equal (int j) = decide (i = j) := by
  by_cases h : i = j <;> simp [equal, compare?, h]

end Numeral

end PredicateTree
