import PredicateTree.Value.Shown
import PredicateTree.Value.Truth

/-!
# Equality of values

`Value.same` holds of two values that are the same thing or equal, which is how containers, and
trees with their literals, compare what they hold.  Trees are compared node by node, from the last
child to the first (`Node.sameBy`).  An object equals itself only, unless its class says more; the
answer that a class gives need not be a truth value.

It is the left one of two values that answers first, and a dictionary compares the values of the
other with its own: so a comparison goes over its first value, and is turned where the second one
stands on the left (`Value.sameBy`).  Two lists are compared by a function `inside`, which follows
so many of them into one another (`sameWithin`).
-/

namespace PredicateTree

/-- The value of the first entry whose key satisfies `p`. -/
def findEntry (p : Value → Action Bool) : List (Value × Value) → Action (Option Value)
  | [] => pure none
  | (k, v) :: rest => do if ← p k then return some v else findEntry p rest

/-- The value of an entry whose key satisfies `p`: of a certain one if its key does, or else of the
first. -/
def findEntryFrom (p : Value → Action Bool) (guess : Option (Value × Value))
    (entries : List (Value × Value)) : Action (Option Value) := do
  match guess with
  | some (k, v) => if ← p k then return some v else findEntry p entries
  | none => findEntry p entries

/-- Whether a test holds of all items of a list.  The first of which it does not hold decides. -/
def allHold {α : Type} (p : α → Action Bool) : List α → Action Bool
  | [] => pure true
  | a :: as => do if ← p a then allHold p as else return false

/-- Whether one type is another or extends it. -/
def Store.extends (s : Store) (t u : StaticType) : Bool := (s.lineage t).contains u

namespace Value

/-- Whether a value is an object. -/
def isObject : Value → Bool
  | .object _ => true
  | _ => false

/-- A read-only dictionary as the dictionary it shows. -/
def asDict : Value → Value
  | .mapping mark entries => .dict mark entries
  | v => v

/-! ### Answers of classes -/

/-- The first answer that one of two values gives to a question about itself and the other.  The left
one is asked first, unless the type of the right one extends that of the left one. -/
def firstAnswer (left right : Action (Option Value)) (v w : Value) : Action (Option Value) := do
  let s ← Action.store
  let (t, u) := (s.typeOf v, s.typeOf w)
  let (first, second) := if t ≠ u ∧ s.extends u t then (right, left) else (left, right)
  match ← first with
  | some answer => return some answer
  | none => second

/-- What the class of a value answers where the value is compared for equality. -/
def answerEqual? (v w : Value) : Action (Option Value) := do
  match ← v.askSpecial "__eq__" [w] with
  | some answer => return some answer
  | none =>
    if (← Action.typeOf v) = .eqAmbiguous then return some (← Action.newObject .ambiguous [])
    else return none

/-- What the class of a value answers where the value is compared for inequality: the answer to
equality turned round, unless it gives another. -/
def answerDiffers? (v w : Value) : Action (Option Value) := do
  match ← v.askSpecial "__ne__" [w] with
  | some answer => return some answer
  | none =>
    match ← v.answerEqual? w with
    | some answer => return some (.bool (!(← answer.truth)))
    | none => return none

/-- What the classes of two values answer to whether the values are equal. -/
def askedEqual? (v w : Value) : Action (Option Value) :=
  firstAnswer (v.answerEqual? w) (w.answerEqual? v.asDict) v w

/-- What the classes of two values answer to whether the values differ. -/
def askedDiffers? (v w : Value) : Action (Option Value) :=
  firstAnswer (v.answerDiffers? w) (w.answerDiffers? v.asDict) v w

/-- Whether an object and another value, which are not the same thing, are equal. -/
def objectsSame (v w : Value) : Action Bool := do
  match ← askedEqual? v w with
  | some answer => answer.truth
  | none => return false

/-- The answer to a comparison that needs no look at what the values hold: two values are integers
or texts, or the same thing, or the left one is a parameter, or one of them is an object.  The left
one is `b` if the comparison is turned. -/
@[inline]
def settled? (turned : Bool) (a b : Value) : Option (Action Bool) :=
  match a, b with
  | .int _ i, .int _ j => some (pure (i == j))
  | .str _ s, .str _ t => some (pure (s == t))
  | a, b =>
    let (left, right) := if turned then (b, a) else (a, b)
    if a.identical b then some (pure true)
    else if left.parameter?.isSome then some (pure false)
    else if a.isObject || b.isObject then some (objectsSame left right)
    else none

end Value

/-- Whether two choices are between the same types. -/
def sameMembers (ts us : List StaticType) : Bool :=
  ts.all (us.contains ·) && us.all (ts.contains ·)

/-- Whether two values are equal by comparison, given whether they are the same thing or equal.  A
result that is no number is equal to nothing. -/
def Value.equalGiven (same : Action Bool) (a b : Value) : Action Bool :=
  match a, b with
  | .float _ x, .float _ y => pure (x == y)
  | _, _ => same

/-- Compares two lists in the store; the second of them stands on the left if the comparison is
turned. -/
abbrev CompareInside := Bool → Nat → Nat → Action Bool

mutual

/-- Whether two values are the same thing or equal: `a` equal to `b`, or `b` to `a` if the
comparison is turned. -/
def Value.sameBy (inside : CompareInside) (turned : Bool) (a b : Value) : Action Bool :=
  match Value.settled? turned a b with
  | some answer => answer
  | none =>
    match a, b with
    | .list x, .list y => inside turned x y
    | .tuple _ xs, .tuple _ ys => allSame inside turned xs ys
    | .dict _ xs, .dict _ ys =>
      if xs.length = ys.length then
        if turned then allHold (fun (k, w) => entryHolds inside k w xs) ys
        else entriesSame inside ys xs ys
      else pure false
    | .dict _ xs, .mapping _ ys =>
      if xs.length = ys.length then allHold (fun (k, w) => entryHolds inside k w xs) ys
      else pure false
    | .mapping _ xs, .dict _ ys =>
      if xs.length = ys.length then entriesSame inside ys xs ys else pure false
    | .mapping _ xs, .mapping _ ys =>
      if xs.length = ys.length then
        if turned then entriesSame inside ys xs ys
        else allHold (fun (k, w) => entryHolds inside k w xs) ys
      else pure false
    | .union _ ts, .union _ us => pure (sameMembers ts us)
    | .method _ k r x, .method _ l s y => pure (k == l && r == s && x == y)
    | .bound _ r x, .bound _ s y => pure (r.identical s && x.identical y)
    | .node m, .node n => m.sameBy inside turned n
    | a, b =>
      match a.numeral?, b.numeral? with
      | some x, some y => pure (x.equal y)
      | _, _ => pure false
termination_by structural a

/-- Whether two lists hold the same values.  The first difference decides, or else the lengths. -/
def allSame (inside : CompareInside) (turned : Bool) : List Value → List Value → Action Bool
  | [], ys => pure ys.isEmpty
  | x :: xs, ys =>
    match ys with
    | [] => pure false
    | y :: ys => do
      if ← x.sameBy inside turned y then allSame inside turned xs ys else return false
termination_by structural xs => xs

/-- Whether two lists hold the same values.  The last difference decides. -/
def allSameBackward (inside : CompareInside) (turned : Bool) :
    List Value → List Value → Action Bool
  | [], ys => pure ys.isEmpty
  | x :: xs, ys =>
    match ys with
    | [] => pure false
    | y :: ys => do
      if ← allSameBackward inside turned xs ys then x.sameBy inside turned y else return false
termination_by structural xs => xs

/-- Whether a dictionary has every entry of another one, from first to last.  Each is looked for in
the same place first. -/
def entriesSame (inside : CompareInside) (entries : List (Value × Value)) :
    List (Value × Value) → List (Value × Value) → Action Bool
  | [], _ => pure true
  | (k, v) :: rest, ahead => do
    match ← findEntryFrom (fun l => k.sameBy inside true l) ahead.head? entries with
    | none => return false
    | some w =>
      if ← v.sameBy inside false w then entriesSame inside entries rest ahead.tail
      else return false
termination_by structural xs => xs

/-- Whether a dictionary has a key with a value. -/
def entryHolds (inside : CompareInside) (key value : Value) :
    List (Value × Value) → Action Bool
  | [] => pure false
  | (k, v) :: rest => do
    if ← k.sameBy inside false key then v.sameBy inside true value
    else entryHolds inside key value rest
termination_by structural xs => xs

/-- Whether two trees have the same shape, labels, types and parameters.  Parameters match only
themselves. -/
def Node.sameBy (inside : CompareInside) (turned : Bool) (a b : Node) : Action Bool :=
  if a.identical b then pure true
  else match a, b with
  | .literal _ v t, .literal _ w u => if t = u then v.sameBy inside turned w else pure false
  | .member _ e n o t, .member _ f k q u => do
    if t = u then
      if ← Value.equalGiven (n.sameBy inside turned k) n k then
        if !o.identical q then return false
        else if e.isAbsent || f.isAbsent then return e.isAbsent && f.isAbsent
        else e.sameBy inside turned f
      else return false
    else return false
  | .unary _ op x t, .unary _ op' y u =>
    if t = u ∧ op = op' then x.sameBy inside turned y else pure false
  | .binary _ op l r t, .binary _ op' l' r' u => do
    if t = u ∧ op = op' then
      if ← r.sameBy inside turned r' then l.sameBy inside turned l' else return false
    else return false
  | .conditional _ c x y t, .conditional _ c' x' y' u => do
    if t = u then
      if ← y.sameBy inside turned y' then
        if ← x.sameBy inside turned x' then c.sameBy inside turned c' else return false
      else return false
    else return false
  | .call _ f _ xs t, .call _ g _ ys u => do
    if t = u ∧ xs.length = ys.length then
      if ← allSameBackward inside turned xs ys then f.sameBy inside turned g else return false
    else return false
  | .lambda _ _ ps x, .lambda _ _ qs y => do
    if ps.length = qs.length then
      if ← x.sameBy inside turned y then allSameBackward inside turned ps qs else return false
    else return false
  | .unknown m k, .unknown n l =>
    if k = l then
      let left := if turned then Node.unknown n l else .unknown m k
      Action.raise (.malformed (.unknownKind (Text.quoted k)) (.node left))
    else pure false
  | _, _ => pure false
termination_by structural a

end

/-- Compares lists in the store, and follows so many of them into one another. -/
def sameWithin : Nat → CompareInside
  | 0, _, _, _ => Action.fail (.nestedTooDeep "in comparison")
  | fuel + 1, turned, x, y => do
    let xs ← Query.items x
    let ys ← Query.items y
    if xs.length = ys.length then allSame (sameWithin fuel) turned xs ys else return false

namespace Value

/-- Whether two values are the same thing or equal. -/
def same (a b : Value) : Action Bool := a.sameBy (sameWithin Query.nesting) false b

/-- Whether two values are equal by comparison, which a result that is no number is to nothing. -/
def equal (a b : Value) : Action Bool := equalGiven (a.same b) a b

end Value

end PredicateTree
