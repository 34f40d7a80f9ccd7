import PredicateTree.Value.Container
import PredicateTree.Text.Case
import PredicateTree.Number.Bitwise

/-!
# Calls of text methods

What the methods of a text answer, and how they refuse arguments they are not made for.
-/

namespace PredicateTree.TextCall

/-- The integer that a value stands for as a limit on a number of changes, which fits a machine
word. -/
def wordIndex (v : Value) : Action Int := do
  let i ← v.index
  if Number.fitsWord i then return i else Action.fail .limitTooLarge

/-- The integer that a bound of a slice is, unless it is absent. -/
def bound? : Option Value → Action (Option Int)
  | none => return none
  | some .absent => return none
  | some v => do
    match ← v.index? with
    | some i => return some i
    | none => Action.fail .notASliceIndex

/-- A part of a text: the places where it starts and ends. -/
structure Slice where
  start : Nat
  stop : Nat
  /-- Whether the bounds are in order, so that even the empty text occurs in the part. -/
  proper : Bool

/-- The part of a text of length `n` that two optional bounds leave. -/
def slice (n : Nat) (first last : Option Value) : Action Slice := do
  let i? ← bound? first
  let j? ← bound? last
  let start := (i?.map (Text.sliceBound n)).getD 0
  let stop := (j?.map (Text.sliceBound n)).getD n
  return ⟨start, stop, i?.all (· ≤ (n : Int)) && start ≤ stop⟩

namespace Slice

/-- The length of a part. -/
def length (part : Slice) : Nat := part.stop - part.start

/-- Whether a part of a text starts with a text. -/
def startsWith (part : Slice) (s pattern : String) : Bool :=
  part.proper && pattern.length ≤ part.length &&
    Text.part s part.start pattern.length == pattern

/-- Whether a part of a text ends with a text. -/
def endsWith (part : Slice) (s pattern : String) : Bool :=
  part.proper && pattern.length ≤ part.length &&
    Text.part s (part.stop - pattern.length) pattern.length == pattern

/-- The place of the first occurrence of a text in a part of another. -/
def find? (part : Slice) (s pattern : String) : Option Nat :=
  if part.proper then Text.find? pattern s part.start part.stop else none

/-- The number of occurrences of a text in a part of another. -/
def count (part : Slice) (s pattern : String) : Nat :=
  if part.proper then
    Text.occurrences pattern.toList (Text.part s part.start part.length).toList
  else 0

end Slice

/-- A text argument, and the failure that stands for any other. -/
def text (v : Value) (refusal : StaticType → Failure) : Action String := do
  match v with
  | .str _ s => return s
  | v => Action.fail (refusal (← Action.typeOf v))

/-- The arguments of a search: a text and two optional bounds. -/
def searchArguments (name : String) (args : List Value) :
    Except Fault (Value × Option Value × Option Value) :=
  match args with
  | [v] => .ok (v, none, none)
  | [v, i] => .ok (v, some i, none)
  | [v, i, j] => .ok (v, some i, some j)
  | [] => .error (.failure (.arguments (.atLeast name false 1 0)))
  | _ => .error (.failure (.arguments (.atMost name 3 args.length)))

/-- The text that is looked for, and the part of the text of length `n` in which it is. -/
def searched (m : TextMethod) (n : Nat) (args : List Value) : Action (String × Slice) := do
  let (v, first, last) ← searchArguments m.name args
  let part ← slice n first last
  return (← text v fun t => .mustBeText t, part)

/-- Whether a part of a text has one of several affixes. -/
def hasAffix (matched : String → Bool) (refusal : StaticType → Failure) :
    List Value → Action Bool
  | [] => return false
  | v :: vs => do
    if matched (← text v refusal) then return true else hasAffix matched refusal vs

/-- The answer to a question about the start or the end of a text. -/
def affix (m : TextMethod) (test : Slice → String → Bool) (n : Nat) (args : List Value) :
    Action Bool := do
  let (v, first, last) ← searchArguments m.name args
  let part ← slice n first last
  match v with
  | .tuple _ items => hasAffix (test part) (fun t => .textAffixItem m.name t) items
  | v => hasAffix (test part) (fun t => .textAffix m.name t) [v]

/-- Fails unless there are no arguments. -/
def noArguments (m : TextMethod) (args : List Value) : Except Fault Unit :=
  if args.isEmpty then .ok ()
  else .error (.failure (.arguments (.none ("str." ++ m.name) args.length)))

/-- A limit on a number of changes; a negative one is none. -/
def limit (length : Nat) (i : Int) : Nat := if i < 0 then length + 1 else i.toNat

/-- The separator of a split and the limit on its cuts. -/
def splitArguments (args : List Value) : Action (Value × Int) := do
  match args with
  | [] => return (.absent, -1)
  | [v] => return (v, -1)
  | [v, n] => return (v, ← wordIndex n)
  | _ => Action.fail (.arguments (.atMost "split" 2 args.length))

/-- A text that was cut out of another; one that is all of the other is the other. -/
def cutOut (mark : Nat) (receiver piece : String) : Action Value :=
  if piece = receiver then pure (.str mark receiver) else Action.textPiece piece

/-- The pieces of a text as texts.  Without any cut at blanks the text is copied. -/
def split (mark : Nat) (receiver : String) (args : List Value) : Action (List Value) := do
  let (separator, count) ← splitArguments args
  let cuts := limit receiver.length count
  match separator with
  | .absent =>
    let words := (Text.words cuts receiver.toList).map String.ofList
    words.mapM (if count = 0 then Action.textPiece else cutOut mark receiver)
  | v =>
    let pattern ← text v fun t => .mustBeTextOrAbsent t
    if pattern.isEmpty then Action.fail .emptySeparator
    else
      let pieces := (Text.pieces pattern.toList cuts receiver.toList).map String.ofList
      pieces.mapM (cutOut mark receiver)

/-- The characters that are stripped off a text. -/
def strippedCharacters (args : List Value) : Except Fault (Char → Bool) :=
  match args with
  | [] | [.absent] => .ok Text.isBlank
  | [.str _ s] =>
    let stripped := s.toList.eraseDups
    .ok fun c => stripped.contains c
  | [_] => .error (.failure .stripArgument)
  | _ => .error (.failure (.arguments (.expectedAtMost "strip" 1 args.length)))

/-- The arguments of a replacement: what is replaced, by what, and how often. -/
def replaceArguments (args : List Value) : Except Fault (Value × Value × Option Value) :=
  match args with
  | [old, new] => .ok (old, new, none)
  | [old, new, n] => .ok (old, new, some n)
  | [] | [_] => .error (.failure (.arguments (.expectedAtLeast "replace" 2 args.length)))
  | _ => .error (.failure (.arguments (.expectedAtMost "replace" 3 args.length)))

/-- The text with occurrences replaced, if there is something to replace. -/
def replace (receiver : String) (args : List Value) : Action (Option String) := do
  let (pattern, replacement, count?) ← replaceArguments args
  let old ← text pattern fun t => .argumentAt "replace" 1 "str" t
  let new ← text replacement fun t => .argumentAt "replace" 2 "str" t
  let count ← match count? with
    | some n => wordIndex n
    | none => pure (-1)
  if count = 0 || pattern.identical replacement || !Text.occursIn old receiver then return none
  else
    let cs := Text.replaceFirst old.toList new.toList (limit receiver.length count)
      receiver.toList
    return some (String.ofList cs)

/-- Calls a method of a text that has a mark. -/
def call (mark : Nat) (receiver : String) (m : TextMethod) (args : List Value) :
    Action Value := do
  let n := receiver.length
  match m with
  | .upper =>
    noArguments m args
    Action.newText (Text.upper receiver)
  | .lower =>
    noArguments m args
    Action.newText (Text.lower receiver)
  | .allDigits =>
    noArguments m args
    return .bool (n != 0 && receiver.all Text.isDigit)
  | .startsWith => return .bool (← affix m (fun part => part.startsWith receiver) n args)
  | .endsWith => return .bool (← affix m (fun part => part.endsWith receiver) n args)
  | .count => do
    let (pattern, part) ← searched m n args
    Action.newInt (part.count receiver pattern)
  | .find => do
    let (pattern, part) ← searched m n args
    Action.newInt (((part.find? receiver pattern).map Int.ofNat).getD (-1))
  | .index => do
    let (pattern, part) ← searched m n args
    match part.find? receiver pattern with
    | some i => Action.newInt i
    | none => Action.fail .substringNotFound
  | .split => Action.newList (← split mark receiver args)
  | .strip => cutOut mark receiver (Text.stripped (← strippedCharacters args) receiver)
  | .replace =>
    match ← replace receiver args with
    | some result => Action.newText result
    | none => return .str mark receiver

end PredicateTree.TextCall
