import PredicateTree.Number.Numeral
import PredicateTree.Failure

/-!
# Arithmetic

The operations on numerals.  Integers are unbounded and stay integers, except that division gives a
floating-point number and so does a negative power; an integer that meets a floating-point number is
rounded to one first.  Floor division rounds toward negative infinity, and the remainder goes with
it: it has the sign of the divisor.
-/

namespace PredicateTree.Numeral

/-- The floating-point number nearest to a numeral. -/
def toFloat : Numeral → Except Failure Float
  | .int i =>
    match Number.ofInt? i with
    | some x => .ok x
    | none => .error .intTooLarge
  | .float x => .ok x

/-- Applies an operation to two integers, or else to the nearest floating-point numbers. -/
def lift (onInts : Int → Int → Except Failure Numeral)
    (onFloats : Float → Float → Except Failure Numeral) (a b : Numeral) :
    Except Failure Numeral :=
  match a, b with
  | .int i, .int j => onInts i j
  | a, b => do
    let x ← a.toFloat
    let y ← b.toFloat
    onFloats x y

/-- The sum of two numerals. -/
def add : Numeral → Numeral → Except Failure Numeral :=
  lift (fun i j => .ok (.int (i + j))) (fun x y => .ok (.float (x + y)))

/-- The difference of two numerals. -/
def subtract : Numeral → Numeral → Except Failure Numeral :=
  lift (fun i j => .ok (.int (i - j))) (fun x y => .ok (.float (x - y)))

/-- The product of two numerals. -/
def multiply : Numeral → Numeral → Except Failure Numeral :=
  lift (fun i j => .ok (.int (i * j))) (fun x y => .ok (.float (x * y)))

/-- The quotient of two numerals; that of integers is the nearest floating-point number. -/
def divide : Numeral → Numeral → Except Failure Numeral :=
  lift
    (fun i j =>
      if j = 0 then .error (.division .quotient)
      else match Number.quotient? i j with
        | some x => .ok (.float x)
        | none => .error .quotientTooLarge)
    (fun x y => if y == 0.0 then .error (.division .floatQuotient) else .ok (.float (x / y)))

/-- The remainder of floating-point numbers toward zero, infinities included. -/
def floatRemainder (x y : Float) : Float :=
  if x.isNaN || y.isNaN || x.isInf then nan
  else if y.isInf then x
  else Number.remainder x y

/-- The remainder of floating-point numbers that has the sign of the divisor. -/
def floatModulo (x y : Float) : Float :=
  let r := floatRemainder x y
  if r == 0.0 then Number.zero (Number.isNegative y)
  else if (y < 0.0) != (r < 0.0) then r + y
  else r

/-- The quotient of floating-point numbers rounded toward negative infinity. -/
def floatFloorDivide (x y : Float) : Float :=
  let r := floatRemainder x y
  let q := (x - r) / y
  let q := if r != 0.0 && ((y < 0.0) != (r < 0.0)) then q - 1.0 else q
  if q == 0.0 then Number.zero (Number.isNegative (x / y))
  else
    let f := q.floor
    if q - f > 0.5 then f + 1.0 else f

/-- The quotient of two numerals rounded toward negative infinity. -/
def floorDivide : Numeral → Numeral → Except Failure Numeral :=
  lift
    (fun i j => if j = 0 then .error (.division .floorQuotient) else .ok (.int (i.fdiv j)))
    (fun x y =>
      if y == 0.0 then .error (.division .floatFloorQuotient)
      else .ok (.float (floatFloorDivide x y)))

/-- The remainder of two numerals that goes with floor division. -/
def modulo : Numeral → Numeral → Except Failure Numeral :=
  lift
    (fun i j => if j = 0 then .error (.division .remainder) else .ok (.int (i.fmod j)))
    (fun x y =>
      if y == 0.0 then .error (.division .floatRemainder) else .ok (.float (floatModulo x y)))

/-- A power of floating-point numbers.  Zero has no negative power, and a finite power out of range
is a failure. -/
def floatPower (x y : Float) : Except Failure Numeral :=
  if x == 0.0 && y < 0.0 && !y.isInf then .error (.division .negativePower)
  else
    let z := x.pow y
    if z.isInf && !x.isInf && !y.isInf then .error .powerTooLarge else .ok (.float z)

/-- The number of bits up to which a power fits into memory. -/
def bitLimit : Nat := 0x100000000

/-- A natural power of an integer, unless it is too long for memory.  The powers of zero and of the
two units need no multiplication. -/
def intPower (i : Int) (n : Nat) : Except Failure Int :=
  if n = 0 then .ok 1
  else if i.natAbs ≤ 1 then .ok (if n % 2 = 0 then i.natAbs else i)
  else if bitLimit < i.natAbs.log2 * n then .error .outOfMemory
  else
    let magnitude : Int := Nat.pow i.natAbs n
    .ok (if i < 0 ∧ n % 2 = 1 then -magnitude else magnitude)

/-- A power of two numerals. -/
def power : Numeral → Numeral → Except Failure Numeral :=
  lift
    (fun i j =>
      if 0 ≤ j then (intPower i j.toNat).map .int
      else do
        let x ← toFloat (.int i)
        let y ← toFloat (.int j)
        floatPower x y)
    floatPower

/-- The negation of a numeral. -/
def negate : Numeral → Numeral
  | .int i => .int (-i)
  | .float x => .float (-x)

/-- The absolute value of a numeral. -/
def magnitude : Numeral → Numeral
  | .int i => .int i.natAbs
  | .float x => .float x.abs

end PredicateTree.Numeral
