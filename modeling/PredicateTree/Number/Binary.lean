/-!
# Binary floating point, exactly

A finite floating-point number is a significand times a power of two (`Parts`), and a positive
quotient of naturals has one nearest such number (`nearestBits?`).  Everything that must be exact or
correctly rounded goes through these two: conversion and division of integers, comparison with
integers, floors and remainders.
-/

namespace PredicateTree.Number

/-- The finite number `± significand * 2 ^ exponent`. -/
structure Parts where
  negative : Bool
  significand : Nat
  exponent : Int
deriving DecidableEq, Repr

/-- The bit of the sign, above the bits of the magnitude. -/
def signBit : Nat := 0x8000000000000000

/-- The leading bit of a significand of full length.  It is not stored. -/
def leadingBit : Nat := 0x10000000000000

/-- The bits of infinity: the largest exponent, and no significand. -/
def infiniteBits : Nat := 0x7FF0000000000000

/-- Whether the sign of a number is negative; zero has a sign too. -/
def isNegative (x : Float) : Bool := signBit ≤ x.toBits.toNat

/-- The parts of a finite number. -/
def parts (x : Float) : Parts :=
  let bits := x.toBits.toNat
  let field : Nat := bits / leadingBit % 2048
  let fraction : Nat := bits % leadingBit
  if field = 0 then ⟨isNegative x, fraction, -1074⟩
  else ⟨isNegative x, fraction + leadingBit, (field : Int) - 1075⟩

/-- Two to an integer power, as a quotient of naturals. -/
def powerOfTwo (e : Int) : Nat × Nat := (Nat.pow 2 e.toNat, Nat.pow 2 (-e).toNat)

/-- The quotient rounded to a natural number, a half to the even one. -/
def roundHalfEven (num den : Nat) : Nat :=
  let q := num / den
  let r := num % den
  if 2 * r < den then q
  else if den < 2 * r then q + 1
  else if q % 2 = 0 then q else q + 1

/-- The exponent of the largest power of two that is at most `num / den`. -/
def binaryExponent (num den : Nat) : Int :=
  let e : Int := (num.log2 : Int) - den.log2
  let (up, down) := powerOfTwo e
  if num * down < den * up then e - 1 else e

/-- The bits of the number nearest to the quotient `num / den`, if it is in range. -/
def nearestBits? (num den : Nat) : Option Nat :=
  if num = 0 then some 0
  else
    let unit := max (binaryExponent num den - 52) (-1074)
    let (up, down) := powerOfTwo unit
    let significand := roundHalfEven (num * down) (den * up)
    let bits := (unit + 1074).toNat * leadingBit + significand
    if bits < infiniteBits then some bits else none

/-- The number with the given sign and bits of its magnitude. -/
def ofBits (negative : Bool) (bits : Nat) : Float :=
  Float.ofBits (UInt64.ofNat (if negative then bits + signBit else bits))

/-- Positive or negative infinity. -/
def infinity (negative : Bool) : Float := ofBits negative infiniteBits

/-- Zero with a sign. -/
def zero (negative : Bool) : Float := ofBits negative 0

/-- The number nearest to a quotient with a sign. -/
def nearest? (negative : Bool) (num den : Nat) : Option Float :=
  (nearestBits? num den).map (ofBits negative)

/-- The number nearest to an integer. -/
def ofInt? (i : Int) : Option Float := nearest? (i < 0) i.natAbs 1

/-- The number nearest to the quotient of two integers; the divisor is not zero.  The sign of the
quotient follows the signs of both also where the dividend is zero. -/
def quotient? (a b : Int) : Option Float :=
  nearest? (decide (a < 0) != decide (b < 0)) a.natAbs b.natAbs

/-- A finite number as a quotient of an integer and a positive natural. -/
def ratio (x : Float) : Int × Nat :=
  let p := parts x
  let (up, down) := powerOfTwo p.exponent
  let num : Int := (p.significand * up : Nat)
  (if p.negative then -num else num, down)

/-- The order of an integer and a number that is finite or infinite. -/
def compareInt (i : Int) (x : Float) : Ordering :=
  if x.isInf then (if isNegative x then .gt else .lt)
  else
    let (num, den) := ratio x
    compare (i * den) num

/-- A finite number rounded toward negative infinity. -/
def floor (x : Float) : Int :=
  let (num, den) := ratio x
  num.fdiv den

/-- A finite number rounded toward zero. -/
def truncate (x : Float) : Int :=
  let (num, den) := ratio x
  num.tdiv den

/-- The remainder of a division of finite numbers that rounds toward zero; the divisor is not zero.
It is exact and has the sign of the dividend. -/
def remainder (x y : Float) : Float :=
  let p := parts x
  let q := parts y
  let unit := min p.exponent q.exponent
  let a := p.significand * Nat.pow 2 (p.exponent - unit).toNat
  let b := q.significand * Nat.pow 2 (q.exponent - unit).toNat
  let (up, down) := powerOfTwo unit
  (nearest? p.negative (a % b * up) down).getD x

end PredicateTree.Number
