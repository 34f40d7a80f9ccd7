import PredicateTree.Number.Decimal

/-!
# Decimal text with given places

A floating-point number written with a given number of digits after the point (`Form.fixed`), with
one digit before the point and an exponent (`Form.scientific`), or with a given number of digits in
the form that suits its size (`Form.general`).  The number is taken exactly and rounded once, a half
to the even digit (`roundedTo`, `scientific`).
-/

namespace PredicateTree.Number

/-- The ways to write a number with given places. -/
inductive Form where
  | fixed
  | scientific
  | general
deriving DecidableEq, Repr

/-- The magnitude of a finite number as a quotient of naturals. -/
def magnitude (p : Parts) : Nat × Nat :=
  let (up, down) := powerOfTwo p.exponent
  (p.significand * up, down)

/-- A quotient counted in units of a decimal place and rounded, a half to the even number. -/
def roundedTo (num den : Nat) (places : Int) : Nat :=
  let (up, down) := powerOfTen places
  roundHalfEven (num * up) (den * down)

/-- The number `d₀.d₁d₂…dₙ * 10 ^ exponent`, its digits given as the natural `d₀d₁d₂…dₙ`. -/
structure Scientific where
  digits : Nat
  exponent : Int
deriving DecidableEq, Repr

/-- A quotient rounded to so many digits after the first. -/
def scientific (num den places : Nat) : Scientific :=
  if num = 0 then ⟨0, 0⟩
  else
    let exponent := decimalPoint num den - 1
    let digits := roundedTo num den (places - exponent)
    if digits = Nat.pow 10 (places + 1) then ⟨Nat.pow 10 places, exponent + 1⟩
    else ⟨digits, exponent⟩

/-- How a number with given places is written. -/
structure PlacedLayout where
  form : Form
  /-- The digits after the point; in the general form, the digits after the first. -/
  places : Nat
  /-- Whether the point is always written, and the zeros at the end of a general form too. -/
  complete : Bool

/-- No floating-point number has more digits after its point, nor after its first digit; all digits
behind these are zeros. -/
def exactPlaces : Nat := 1100

namespace PlacedLayout

/-- The places of digits that may be other than zero. -/
def counted (layout : PlacedLayout) : Nat := min layout.places exactPlaces

/-- The zeros behind the digits that may be other than zero. -/
def zeros (layout : PlacedLayout) : List Char :=
  List.replicate (layout.places - layout.counted) '0'

/-- The digits before the point, and those after it. -/
def pointed (layout : PlacedLayout) (whole fraction : List Char) : List Char :=
  if fraction.isEmpty && !layout.complete then whole else whole ++ '.' :: fraction

/-- Digits without the zeros at their end. -/
def withoutZeros (ds : List Char) : List Char := (ds.reverse.dropWhile (· == '0')).reverse

/-- The digits after the point as they are written: the general form leaves out the zeros at their
end. -/
def fraction (layout : PlacedLayout) (ds : List Char) : List Char :=
  if layout.form = .general && !layout.complete then withoutZeros ds else ds ++ layout.zeros

/-- A natural with so many of its digits after the point. -/
def fixedText (layout : PlacedLayout) (digits places : Nat) : List Char :=
  let ds := Layout.padded (places + 1) digits
  let whole := ds.length - places
  layout.pointed (ds.take whole) (layout.fraction (ds.drop whole))

/-- One digit before the point, and an exponent. -/
def scientificText (layout : PlacedLayout) (s : Scientific) : List Char :=
  let ds := Layout.padded (layout.counted + 1) s.digits
  layout.pointed (ds.take 1) (layout.fraction (ds.drop 1)) ++
    'e' :: (if s.exponent < 0 then '-' else '+') ::
    Layout.padded decimal.exponentWidth s.exponent.natAbs

/-- The text of a quotient.  The general form has no exponent from a ten-thousandth to where all
digits stand before the point. -/
def text (layout : PlacedLayout) (num den : Nat) : List Char :=
  match layout.form with
  | .fixed => layout.fixedText (roundedTo num den layout.counted) layout.counted
  | .scientific => layout.scientificText (scientific num den layout.counted)
  | .general =>
    let s := scientific num den layout.counted
    if decimal.positionalFrom ≤ s.exponent && s.exponent ≤ layout.places then
      layout.fixedText s.digits (layout.counted - s.exponent).toNat
    else layout.scientificText s

end PlacedLayout

/-- The text of the magnitude of a number. -/
def placedText (layout : PlacedLayout) (x : Float) : List Char :=
  if x.isNaN then "nan".toList
  else if x.isInf then "inf".toList
  else
    let (num, den) := magnitude (parts x)
    layout.text num den

end PredicateTree.Number
