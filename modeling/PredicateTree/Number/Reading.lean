import PredicateTree.Number.Binary
import PredicateTree.Text.Digit
import PredicateTree.Text.Case

/-!
# Reading numbers

Integers and floating-point numbers as text.  Blanks around a number do not count, digits may be of
any script, and one underscore may stand between two digits.  An integer may start with the prefix
of its base, `0x`, `0o` or `0b`; where no base is given the prefix tells it.
-/

namespace PredicateTree.Number

/-- A floating-point literal: a number that is finite or infinite, or none. -/
inductive FloatText where
  | number (x : Float)
  | notANumber

/-- Whether a character is a blank beside a number.  The separators among the control characters are
not. -/
def isMargin (c : Char) : Bool := c == ' ' || ('\t' ≤ c && c ≤ '\r')

/-- The common character that a character of a literal stands for: digits of every script stand for
the common ones, and blanks for spaces. -/
def literalChar? (c : Char) : Option Char :=
  if c.toNat < 127 then some c
  else if Text.isBlank c then some ' '
  else (Text.decimalValue? c).map Nat.digitChar

/-- The characters of a literal without the blanks around it.  At a character that stands for no
common one the literal breaks off, and a mark that no number has takes the place of the rest. -/
def literal (s : String) : List Char :=
  let cs := s.toList
  let readable := cs.takeWhile fun c => (literalChar? c).isSome
  let rest := if readable.length < cs.length then ['?'] else []
  Text.trim isMargin (readable.filterMap literalChar? ++ rest)

/-- Whether a text starts with a digit; `value` gives the value of a digit. -/
def startsWithDigit (value : Char → Option Nat) : List Char → Bool
  | c :: _ => (value c).isSome
  | [] => false

/-- The digits at the start of a text and the rest of it.  An underscore is passed over where it
stands between two digits. -/
def digitsFrom (value : Char → Option Nat) (afterDigit : Bool) :
    List Char → List Nat × List Char
  | [] => ([], [])
  | c :: rest =>
    match value c with
    | some d =>
      let (ds, tail) := digitsFrom value true rest
      (d :: ds, tail)
    | none =>
      if c = '_' && afterDigit && startsWithDigit value rest then digitsFrom value false rest
      else ([], c :: rest)

/-- The digits at the start of a text and the rest of it. -/
def leadingDigits (value : Char → Option Nat) (cs : List Char) : List Nat × List Char :=
  digitsFrom value false cs

/-- Digits of a base, last one first, taken two by two as digits of the square of the base. -/
def pairDigits (base : Nat) : List Nat → List Nat
  | d :: e :: ds => (d + base * e) :: pairDigits base ds
  | ds => ds

theorem length_pairDigits_le (base : Nat) (ds : List Nat) :
    (pairDigits base ds).length ≤ ds.length := by
  fun_induction pairDigits base ds with
  | case1 d e ds ih =>
    simp only [List.length_cons]
    omega
  | case2 => exact Nat.le_refl _

/-- The natural with the given digits, last one first.  Digits are joined two by two, so that long
numbers are built from parts of equal length. -/
def ofReversedDigits (base : Nat) : List Nat → Nat
  | [] => 0
  | [d] => d
  | d :: e :: ds => ofReversedDigits (base * base) ((d + base * e) :: pairDigits base ds)
termination_by ds => ds.length
decreasing_by
  have := length_pairDigits_le base ds
  simp only [List.length_cons]
  omega

theorem foldr_pairDigits (base : Nat) (ds : List Nat) :
    (pairDigits base ds).foldr (fun d n => d + base * base * n) 0 =
      ds.foldr (fun d n => d + base * n) 0 := by
  fun_induction pairDigits base ds with
  | case1 d e ds ih =>
    rw [List.foldr_cons, ih]
    simp only [List.foldr_cons, Nat.mul_add, Nat.mul_assoc, Nat.add_assoc]
  | case2 ds short =>
    match ds with
    | [] => rfl
    | [d] => simp
    | d :: e :: ds => exact absurd rfl (short d e ds)

/-- Every digit counts base times as much as the one after it. -/
theorem ofReversedDigits_eq (base : Nat) (ds : List Nat) :
    ofReversedDigits base ds = ds.foldr (fun d n => d + base * n) 0 := by
  fun_induction ofReversedDigits base ds with
  | case1 => rfl
  | case2 => simp
  | case3 base d e ds ih =>
    rw [ih, List.foldr_cons, foldr_pairDigits]
    simp only [List.foldr_cons, Nat.mul_add, Nat.mul_assoc, Nat.add_assoc]

/-- The natural with the given digits. -/
def ofDigits (base : Nat) (ds : List Nat) : Nat := ofReversedDigits base ds.reverse

/-- The sign at the start of a text, and the rest. -/
def leadingSign : List Char → Bool × List Char
  | '-' :: rest => (true, rest)
  | '+' :: rest => (false, rest)
  | cs => (false, cs)

/-- The value of a digit. -/
def digit? (c : Char) : Option Nat := if c.isDigit then some (c.toNat - '0'.toNat) else none

/-- The value of a digit of a base up to thirty-six. -/
def digitOfBase? (base : Nat) (c : Char) : Option Nat :=
  let letter (first : Char) := c.toNat - first.toNat + 10
  let d? :=
    if c.isLower then some (letter 'a')
    else if c.isUpper then some (letter 'A')
    else digit? c
  d?.bind fun d => if d < base then some d else none

/-- Why a text is no integer. -/
inductive IntFault where
  | notAnInteger
  /-- The text has more digits than conversion allows. -/
  | tooLong (digits : Nat)

/-- The greatest number of digits that conversion between text and integers allows. -/
def digitLimit : Nat := 4300

/-- The base of which a letter after a zero is the sign. -/
def prefixBase? (c : Char) : Option Nat :=
  if c = 'x' ∨ c = 'X' then some 16
  else if c = 'o' ∨ c = 'O' then some 8
  else if c = 'b' ∨ c = 'B' then some 2
  else none

/-- The digits of an integer literal, and the base that they are of. -/
structure IntDigits where
  base : Nat
  digits : List Char
  /-- Whether the literal can only be zero, because it starts with a zero and names no base. -/
  onlyZero : Bool := false

/-- The digits of an integer literal without its sign.  Base zero stands for the base that the
literal names, which is ten where it names none.  An underscore may follow a prefix. -/
def intDigits (base : Nat) (cs : List Char) : IntDigits :=
  let afterPrefix (rest : List Char) : List Char := match rest with
    | '_' :: rest => rest
    | rest => rest
  match cs with
  | '0' :: c :: rest =>
    match prefixBase? c with
    | some b =>
      if base = b ∨ base = 0 then ⟨b, afterPrefix rest, false⟩ else ⟨base, cs, false⟩
    | none => if base = 0 then ⟨10, cs, true⟩ else ⟨base, cs, false⟩
  | cs => if base = 0 then ⟨10, cs, false⟩ else ⟨base, cs, false⟩

/-- Whether the number of digits of a base is limited.  Bases that are powers of two are not. -/
def isLimited (base : Nat) : Bool := Nat.pow 2 base.log2 != base

/-- Reads an integer of the given base, or of the base that it names if that is zero.  A literal
that is too long is refused before what follows its digits is looked at. -/
def readInt (base : Nat) (s : String) : Except IntFault Int :=
  let (negative, body) := leadingSign (literal s)
  let literal := intDigits base body
  match leadingDigits (digitOfBase? literal.base) literal.digits with
  | ([], _) => .error .notAnInteger
  | (_, '_' :: _) => .error .notAnInteger
  | (ds, rest) =>
    if isLimited literal.base && digitLimit < ds.length then .error (.tooLong ds.length)
    else
      let n : Int := ofDigits literal.base ds
      if !rest.isEmpty || (literal.onlyZero && n != 0) then .error .notAnInteger
      else .ok (if negative then -n else n)

/-- The exponent at the end of a floating-point literal, and whether the text is one at all. -/
def readExponent : List Char → Option Int
  | [] => some 0
  | c :: rest =>
    if c = 'e' ∨ c = 'E' then
      let (negative, body) := leadingSign rest
      match leadingDigits digit? body with
      | ([], _) => none
      | (ds, []) => some (if negative then -(ofDigits 10 ds : Int) else ofDigits 10 ds)
      | _ => none
    else none

/-- The number of leading digits that decide which number is nearest, together with whether a digit
other than zero follows them.  The number half way between two neighbours has fewer digits. -/
def decidingDigits : Nat := 800

/-- The digits that decide which number is nearest, and how many fewer they are.  One digit stands
for all that follow. -/
def condensed (ds : List Nat) : List Nat × Nat :=
  match ds.drop decidingDigits with
  | [] => (ds, 0)
  | d :: rest =>
    let sticky := if (d :: rest).all (· == 0) then 0 else 1
    (ds.take decidingDigits ++ [sticky], rest.length)

/-- The number nearest to `digits * 10 ^ exponent`.  Exponents far out of range are cut short,
since they change nothing. -/
def ofScientific (negative : Bool) (digits : List Nat) (exponent : Int) : Float :=
  let significant := digits.dropWhile (· == 0)
  let top := exponent + significant.length
  if significant.isEmpty then zero negative
  else if 400 < top then infinity negative
  else if top < -400 then zero negative
  else
    let (ds, dropped) := condensed significant
    let n := ofDigits 10 ds
    let exponent := exponent + dropped
    match nearest? negative (n * Nat.pow 10 exponent.toNat) (Nat.pow 10 (-exponent).toNat) with
    | some x => x
    | none => infinity negative

/-- Reads a floating-point number. -/
def readFloat (s : String) : Option FloatText :=
  let (negative, body) := leadingSign (literal s)
  let word := Text.lower (String.ofList body)
  if word = "inf" ∨ word = "infinity" then some (.number (infinity negative))
  else if word = "nan" then some .notANumber
  else
    let (whole, rest) := leadingDigits digit? body
    let (fraction, rest) := match rest with
      | '.' :: rest => leadingDigits digit? rest
      | _ => ([], rest)
    if whole.isEmpty && fraction.isEmpty then none
    else (readExponent rest).map fun e =>
      .number (ofScientific negative (whole ++ fraction) (e - fraction.length))

end PredicateTree.Number
