import PredicateTree.Value.Container
import PredicateTree.Number.Arithmetic
import PredicateTree.Number.Places
import PredicateTree.Text.Directive
import PredicateTree.Text.Field

/-!
# Text templates

A text with directives, filled with arguments by the operator `%` (`Template.format`).  The last
character of a directive says what of its argument is shown: its text (`s`), its written form (`r`),
that in ASCII alone (`a`), an integer (`d`, `o`, `x`), a number with places (`f`, `e`, `g`), or a
character (`c`).

The pieces of a template are filled one after the other, and the first failure ends the work.  A
directive takes its arguments in the order in which they are written: the name, the width, the
precision, and then what is shown.
-/

namespace PredicateTree.Template

open PredicateTree.Text (Extent Directive Piece)

/-! ### Arguments -/

/-- The arguments that are left, and the value in which named ones are looked up. -/
structure Arguments where
  named : Option Value
  values : List Value

namespace Arguments

/-- Whether a value holds named arguments. -/
def holdsNames (s : Store) : Value → Bool
  | .list .. | .dict .. | .mapping .. | .union .. => true
  | .type t => (Value.enumerationMembers? t).isSome
  | v => (v.special? s "__getitem__").isSome

/-- The arguments that a value stands for: the items of a tuple, or else the value alone. -/
def ofValue (s : Store) (v : Value) : Arguments :=
  match v with
  | .tuple _ items => ⟨none, items⟩
  | v => ⟨if holdsNames s v then some v else none, [v]⟩

/-- The next argument. -/
def next (s : Arguments) : Except Fault (Value × Arguments) :=
  match s.values with
  | [] => .error (.failure .missingFormatArguments)
  | v :: values => .ok (v, { s with values := values })

/-- Goes on with a named argument, in place of all others. -/
def select (s : Arguments) : Text.ArgumentName → Action Arguments
  | .absent => pure s
  | .unclosed =>
    if s.named.isSome then Action.fail .unclosedName else Action.fail .namedArgumentsRequired
  | .named name =>
    match s.named with
    | some source => do return { s with values := [← source.item (.ofText name)] }
    | none => Action.fail .namedArgumentsRequired

/-- The size of an extent, at most `limit`: a number of the template, or an integer among the
arguments. -/
def size (s : Arguments) (limit : Nat) (tooBig unfit : Failure) : Extent →
    Except Fault (Int × Arguments)
  | .number n => if n ≤ limit then .ok (n, s) else .error (.failure tooBig)
  | .argument => do
    let (v, s) ← s.next
    match v.numeral? with
    | some (.int i) =>
      if -limit - 1 ≤ i ∧ i ≤ limit then return (i, s) else .error (.failure unfit)
    | _ => .error (.failure .extentNotAnInt)

/-- The greatest width. -/
def widthLimit : Nat := 0x7FFFFFFFFFFFFFFF

/-- The greatest precision. -/
def precisionLimit : Nat := 0x7FFFFFFF

/-- The width that a directive gives, if it gives one. -/
def width (s : Arguments) (d : Directive) : Except Fault (Option Int × Arguments) :=
  match d.width with
  | none => .ok (none, s)
  | some extent => do
    let (i, s) ← s.size widthLimit .widthTooBig .limitTooLarge extent
    return (some i, s)

/-- The precision that a directive gives, if it gives one.  A negative one counts as zero. -/
def precision (s : Arguments) (d : Directive) : Except Fault (Option Nat × Arguments) :=
  match d.precision with
  | none => .ok (none, s)
  | some extent => do
    let (i, s) ← s.size precisionLimit .precisionTooBig .precisionUnfit extent
    return (some i.toNat, s)

end Arguments

/-! ### Parts of a filled template -/

/-- A part of a filled template. -/
inductive Part where
  /-- A text that an argument is, or that stands for it everywhere. -/
  | given (mark : Nat) (text : String)
  /-- A text that is computed for an argument. -/
  | computed (text : String)
  /-- What is written digit by digit, or stands in the template. -/
  | written (text : String)

namespace Part

/-- The text of a part. -/
def text : Part → String
  | .given _ s | .computed s | .written s => s

/-- The part that shows an argument as a text. -/
def ofShown (v : Value) (text : String) : Part :=
  match v with
  | .bool _ => .given 0 text
  | .node (.parameter _) => .written text
  | _ => .computed text

end Part

/-- How an argument is set. -/
structure Setting where
  flags : List Char
  width : Option Int
  precision : Option Nat

namespace Setting

/-- Whether a sign or a blank stands before a number that is not negative. -/
def isSigned (s : Setting) : Bool := s.flags.contains '+' || s.flags.contains ' '

/-- Whether neither a width nor a precision is given. -/
def isOpen (s : Setting) : Bool := s.width.isNone && s.precision.isNone

/-- The setting of what has no precision. -/
def withoutPrecision (s : Setting) : Setting := { s with precision := none }

/-- Whether a text of some length is set as it is. -/
def fits (s : Setting) (length : Nat) : Bool :=
  s.width.all (fun w => w.natAbs ≤ length) && s.precision.all (length ≤ ·) && !s.isSigned

/-- The field of a text or, if `numeric`, of a number, which may have zeros before it. -/
def field (s : Setting) (numeric : Bool) : Except Fault Text.Field := do
  let width := (s.width.getD 0).natAbs
  requireRoom width
  return ⟨width, s.flags.contains '-' || s.width.any (· < 0), numeric && s.flags.contains '0'⟩

/-- A text as it is set: cut to the precision, in the field. -/
def ofText (s : Setting) (part : Part) : Except Fault Part := do
  let length := part.text.length
  if s.fits length then return part
  else
    let field ← s.field false
    let cs := part.text.toList
    return .written (String.ofList (field.set [] (cs.take (s.precision.getD length))))

/-- A number as it is set, with a mark between its sign and its digits. -/
def ofNumber (s : Setting) (negative : Bool) (mark digits : List Char) : Except Fault String := do
  let sign :=
    if negative then ['-']
    else if s.flags.contains '+' then ['+']
    else if s.flags.contains ' ' then [' ']
    else []
  let field ← s.field true
  return String.ofList (field.set (sign ++ mark) digits)

/-- The digits of an integer with zeros before them up to the precision. -/
def padded (s : Setting) (digits : List Char) : Except Fault (List Char) := do
  match s.precision with
  | none => return digits
  | some n =>
    if Arguments.precisionLimit - 3 < n then .error (.failure .precisionTooLarge)
    else
      requireRoom n
      return List.replicate (n - digits.length) '0' ++ digits

end Setting

/-! ### What directives show -/

/-- An integer that was asked for, or a failure of a directive for numbers, or for integers only,
where there is none. -/
def required (conversion : Char) (integral : Bool) (v : Value) (found : Action (Option Int)) :
    Action Int := do
  let refusal := Failure.formatNumber conversion integral (← Action.typeOf v)
  let found ← Action.handle found fun fault =>
    if fault.errorClass.isSubclass .type then Action.fail refusal else Action.raise fault
  match found with
  | some i => return i
  | none => Action.fail refusal

/-- A number without its fraction. -/
def whole (conversion : Char) (v : Value) : Action Int := do
  match v.numeral? with
  | some (.int i) => return i
  | some (.float x) =>
    if x.isNaN then Action.fail .notANumberToInt
    else if x.isInf then Action.fail .infinityToInt
    else return Number.truncate x
  | none =>
    let counts := v.isNumber (← Action.store)
    required conversion false v (if counts then v.integer? else pure none)

/-- A whole number in base ten. -/
def wholePart (s : Setting) (conversion : Char) (v : Value) : Action Part := do
  let i ← whole conversion v
  let digits ← s.padded (← intText i.natAbs).toList
  let text ← s.ofNumber (i < 0) [] digits
  return if v.fixedType = .int && s.isOpen || !s.fits text.length then .written text
    else .computed text

/-- An integer in base eight or sixteen, after the mark of the base if that is asked for. -/
def basePart (s : Setting) (conversion : Char) (v : Value) : Action Part := do
  let i ← required conversion true v v.index?
  let base := if conversion = 'o' then 8 else 16
  let digits ← s.padded (Nat.toDigits base i.natAbs)
  let digits := if conversion = 'X' then digits.map Char.toUpper else digits
  let mark := if s.flags.contains '#' then ['0', conversion] else []
  return .written (← s.ofNumber (i < 0) mark digits)

/-- The form of a number with places that a character asks for. -/
def formOf (conversion : Char) : Number.Form :=
  if conversion = 'f' ∨ conversion = 'F' then .fixed
  else if conversion = 'e' ∨ conversion = 'E' then .scientific
  else .general

/-- A number with places, six of them unless a precision is given. -/
def placedPart (s : Setting) (conversion : Char) (v : Value) : Action Part := do
  let x ← v.toReal
  let precision := s.precision.getD 6
  requireRoom precision
  let form := formOf conversion
  let places := if form = .general then precision - 1 else precision
  let text := Number.placedText ⟨form, places, s.flags.contains '#'⟩ x
  let text := if conversion.isUpper then text.map Char.toUpper else text
  return .written (← s.ofNumber (!x.isNaN && Number.isNegative x) [] text)

/-- A character: a text of one, or the code point that an integer is. -/
def characterOf (v : Value) : Action Char := do
  match v with
  | .str _ s => if s.length = 1 then return s.front else Action.fail .notACharacter
  | v =>
    let found ← Action.handle v.index? fun fault =>
      if fault.errorClass.isSubclass .type then pure none else Action.raise fault
    match found with
    | some i =>
      if 0 ≤ i ∧ i < 0x110000 then return Char.ofNat i.toNat
      else Action.fail .characterOutOfRange
    | none => Action.fail .notACharacter

/-- A text with the characters above ASCII escaped. -/
def inAscii (text : String) : String :=
  String.ofList (text.toList.flatMap fun c => if c.toNat < 128 then [c] else Text.codePoint c)

/-- An argument shown as a text. -/
def textPart (s : Setting) (v : Value) (shown : Action String) (edit : String → String) :
    Action Part := do
  match v with
  | .int .. =>
    let text ← shown
    if s.isOpen then return .written text else s.ofText (.computed text)
  | v => s.ofText (Part.ofShown v (edit (← shown)))

/-- What a directive shows of its argument. -/
inductive Conversion where
  | text
  | writtenForm
  | ascii
  | whole
  | base
  | placed
  | character

/-- The conversion that a character asks for. -/
def Conversion.ofChar? : Char → Option Conversion
  | 's' => some .text
  | 'r' => some .writtenForm
  | 'a' => some .ascii
  | 'd' | 'i' | 'u' => some .whole
  | 'o' | 'x' | 'X' => some .base
  | 'e' | 'E' | 'f' | 'F' | 'g' | 'G' => some .placed
  | 'c' => some .character
  | _ => none

/-- What a directive writes for an argument; `c` is the character of the conversion. -/
def Conversion.part (s : Setting) (c : Char) (v : Value) : Conversion → Action Part
  | .text =>
    match v with
    | .str mark t => s.ofText (.given mark t)
    | v => textPart s v v.plain id
  | .writtenForm => textPart s v v.shown id
  | .ascii => textPart s v v.shown inAscii
  | .whole => wholePart s c v
  | .base => basePart s c v
  | .placed => placedPart s c v
  | .character => do s.withoutPrecision.ofText (.written (String.singleton (← characterOf v)))

/-! ### Filling a template -/

/-- Fills a directive of a template. -/
def fillDirective (template : List Char) (d : Directive) (after : List Char) (s : Arguments) :
    Action (Part × Arguments) := do
  let s ← s.select d.name
  let (width, s) ← s.width d
  let (precision, s) ← s.precision d
  match d.conversion with
  | none => Action.fail .incompleteFormat
  | some c =>
    let (v, s) ← s.next
    match Conversion.ofChar? c with
    | some conversion => return (← conversion.part ⟨d.flags, width, precision⟩ c v, s)
    | none => Action.fail (.formatDirective c (template.length - after.length - 1))

/-- Fills pieces of a template; the arguments that are left over. -/
def fill (template : List Char) (s : Arguments) : List Piece → Action (List Part × Arguments)
  | [] => pure ([], s)
  | piece :: pieces => do
    let (part, s) ← match piece with
      | .plain text => pure (.written (String.ofList text), s)
      | .sign => pure (.written "%", s)
      | .directive d after => fillDirective template d after s
    let (parts, s) ← fill template s pieces
    return (part :: parts, s)

/-- The parts of a template filled with a value.  All arguments are used, unless they have names. -/
def parts (template : List Char) (argument : Value) : Action (List Part) := do
  let given := Arguments.ofValue (← Action.store) argument
  let (parts, left) ← fill template given (Text.templatePieces template)
  if left.values.isEmpty || left.named.isSome then return parts
  else Action.fail .unusedFormatArguments

/-- The text of several parts.  Where only the last one writes something, its text is all. -/
def joined (parts : List Part) : Action Value :=
  let text := String.join (parts.map Part.text)
  match parts.getLast? with
  | some (.given mark s) => if s = text then pure (.str mark s) else Action.textPiece text
  | some (.computed s) => if s = text then Action.newText text else Action.textPiece text
  | _ => Action.textPiece text

/-- A template, which is a text with a mark, filled with a value.  Without directives it stays
itself. -/
def format (mark : Nat) (template : String) (argument : Value) : Action Value := do
  let parts ← parts template.toList argument
  if template.contains '%' then joined parts else return .str mark template

end PredicateTree.Template
