import PredicateTree.Number.Binary

/-!
# Decimal text of numbers

A floating-point number is written with the fewest digits that read back (`shortest`), laid out by
a `Layout`.  `decimal` is the layout of this library.
-/

namespace PredicateTree.Number

/-- The decimal number `0.d₁d₂…dₙ * 10 ^ point`, its digits given as the natural `d₁d₂…dₙ`. -/
structure Decimal where
  digits : Nat
  point : Int
deriving DecidableEq, Repr

/-- The number of decimal digits of a natural; zero has none. -/
def digitCount (n : Nat) : Nat := if n = 0 then 0 else (Nat.toDigits 10 n).length

/-- The place of the decimal point in a positive quotient: the least `k` with
`num / den < 10 ^ k`. -/
def decimalPoint (num den : Nat) : Int :=
  if den ≤ num then digitCount (num / den)
  else 1 - (digitCount ((den - 1) / num) : Int)

/-- Ten to an integer power, as a quotient of naturals. -/
def powerOfTen (e : Int) : Nat × Nat := (Nat.pow 10 e.toNat, Nat.pow 10 (-e).toNat)

/-- A positive quotient `value / den` and the interval around it of the quotients that round to the
same number. -/
structure Neighbourhood where
  low : Nat
  value : Nat
  high : Nat
  den : Nat
  /-- Whether the ends belong to the interval. -/
  closed : Bool

/-- The neighbourhood of a positive finite number.  The interval reaches half way to the next
number on both sides; below a power of two that is nearer. -/
def neighbourhood (p : Parts) : Neighbourhood :=
  let (up, down) := powerOfTwo (p.exponent - 2)
  let below := if p.significand = leadingBit ∧ -1074 < p.exponent then 1 else 2
  let four := 4 * p.significand
  ⟨(four - below) * up, four * up, (four + 2) * up, down, p.significand % 2 = 0⟩

namespace Neighbourhood

/-- Whether `digits * unit` lies in the interval, where the unit is `up / down`. -/
def holds (n : Neighbourhood) (up down digits : Nat) : Bool :=
  let x := digits * up * n.den
  let low := n.low * down
  let high := n.high * down
  if n.closed then low ≤ x && x ≤ high else low < x && x < high

/-- The nearer of the two neighbours of the value among the multiples of a unit, if one of them lies
in the interval. -/
def onGrid? (n : Neighbourhood) (up down : Nat) : Option Nat :=
  let scaled := n.value * down
  let unit := n.den * up
  let d := scaled / unit
  let rest := scaled % unit
  match n.holds up down d && d != 0, n.holds up down (d + 1) with
  | true, true => some (if 2 * rest < unit || (2 * rest == unit && d % 2 == 0) then d else d + 1)
  | true, false => some d
  | false, true => some (d + 1)
  | false, false => none

end Neighbourhood

/-- The decimal with the fewest digits that reads back as the number, and of those the nearest.
Seventeen digits always suffice. -/
def shortest (p : Parts) : Decimal :=
  let n := neighbourhood p
  let point := decimalPoint n.value n.den
  let attempt (count : Nat) : Option Decimal :=
    let (up, down) := powerOfTen (point - count)
    (n.onGrid? up down).map fun d =>
      if d = Nat.pow 10 count then ⟨Nat.pow 10 (count - 1), point + 1⟩ else ⟨d, point⟩
  ((List.range' 1 17).findSome? attempt).getD ⟨0, 1⟩

/-- How a decimal is laid out. -/
structure Layout where
  /-- The least exponent of the first digit that is written without an exponent. -/
  positionalFrom : Int
  /-- The first exponent of the first digit that is written with an exponent again. -/
  positionalTo : Int
  /-- The least number of digits of an exponent. -/
  exponentWidth : Nat

/-- Numbers from a ten-thousandth to below ten to the sixteenth are written without an exponent; an
exponent has a sign and at least two digits. -/
def decimal : Layout := ⟨-4, 16, 2⟩

namespace Layout

/-- Digits with zeros before them up to a width. -/
def padded (width n : Nat) : List Char :=
  let ds := Nat.toDigits 10 n
  List.replicate (width - ds.length) '0' ++ ds

/-- The text of a positive decimal. -/
def text (layout : Layout) (d : Decimal) : List Char :=
  let ds := Nat.toDigits 10 d.digits
  let exponent := d.point - 1
  if layout.positionalFrom ≤ exponent && exponent < layout.positionalTo then
    if d.point ≤ 0 then '0' :: '.' :: List.replicate (-d.point).toNat '0' ++ ds
    else
      let whole := d.point.toNat
      let fraction := ds.drop whole
      ds.take whole ++ List.replicate (whole - ds.length) '0' ++
        '.' :: (if fraction.isEmpty then ['0'] else fraction)
  else
    let mantissa := match ds with
      | [] => []
      | [a] => [a]
      | a :: rest => a :: '.' :: rest
    mantissa ++ 'e' :: (if exponent < 0 then '-' else '+') ::
      padded layout.exponentWidth exponent.natAbs

end Layout

/-- The text of a number that is finite or infinite. -/
def text (x : Float) : String :=
  let sign := if isNegative x then "-" else ""
  if x.isInf then sign ++ "inf"
  else
    let p := parts x
    if p.significand = 0 then sign ++ "0.0"
    else sign ++ String.ofList (decimal.text (shortest p))

end PredicateTree.Number
