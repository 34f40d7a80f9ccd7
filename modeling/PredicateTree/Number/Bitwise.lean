/-!
# Bits of integers

The bitwise operations on integers in two's complement.  A negative integer is the complement of a
natural, so each operation reduces to one on naturals.
-/

namespace PredicateTree.Number

/-- Whether an integer fits a word of 64 bits, one of them for the sign. -/
def fitsWord (i : Int) : Bool := -0x8000000000000000 ≤ i && i < 0x8000000000000000

/-- The complement of an integer: every bit is turned round. -/
def complement (i : Int) : Int := -i - 1

/-- The naturals without the bits of another. -/
def without (m n : Nat) : Nat := m ^^^ (m &&& n)

/-- The bits that two integers share. -/
def bitAnd : Int → Int → Int
  | .ofNat m, .ofNat n => .ofNat (m &&& n)
  | .ofNat m, .negSucc n => .ofNat (without m n)
  | .negSucc m, .ofNat n => .ofNat (without n m)
  | .negSucc m, .negSucc n => .negSucc (m ||| n)

/-- The bits of either of two integers. -/
def bitOr : Int → Int → Int
  | .ofNat m, .ofNat n => .ofNat (m ||| n)
  | .ofNat m, .negSucc n => .negSucc (without n m)
  | .negSucc m, .ofNat n => .negSucc (without m n)
  | .negSucc m, .negSucc n => .negSucc (m &&& n)

/-- The bits of exactly one of two integers. -/
def bitXor : Int → Int → Int
  | .ofNat m, .ofNat n => .ofNat (m ^^^ n)
  | .ofNat m, .negSucc n => .negSucc (m ^^^ n)
  | .negSucc m, .ofNat n => .negSucc (m ^^^ n)
  | .negSucc m, .negSucc n => .ofNat (m ^^^ n)

end PredicateTree.Number
