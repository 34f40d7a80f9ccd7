import PredicateTree.Value.Equality
import PredicateTree.Sorting.Runs

/-!
# Order of values

Numbers are ordered by size, texts by code point, and lists and tuples lexicographically
(`Value.ordered`).  Nothing else is ordered, unless a class says how its objects are, and a result
that is no number is neither less nor greater than any number.
-/

namespace PredicateTree

/-- The four comparisons by order. -/
inductive OrderRelation where
  | less
  | lessEqual
  | greater
  | greaterEqual
deriving DecidableEq, Repr

namespace OrderRelation

/-- The written symbol of a comparison. -/
def symbol : OrderRelation → String
  | .less => "<"
  | .lessEqual => "<="
  | .greater => ">"
  | .greaterEqual => ">="

/-- The comparison with its operands exchanged. -/
def converse : OrderRelation → OrderRelation
  | .less => .greater
  | .lessEqual => .greaterEqual
  | .greater => .less
  | .greaterEqual => .lessEqual

/-- Whether a comparison holds of two things in a given order. -/
def holds : OrderRelation → Ordering → Bool
  | .less, o => o == .lt
  | .lessEqual, o => o != .gt
  | .greater, o => o == .gt
  | .greaterEqual, o => o != .lt

end OrderRelation

/-- The order of two texts by code point. -/
def compareText (s t : String) : Ordering :=
  if s < t then .lt else if s = t then .eq else .gt

/-- The special name under which the class of a value says what a comparison by order answers. -/
def OrderRelation.specialName : OrderRelation → String
  | .less => "__lt__"
  | .lessEqual => "__le__"
  | .greater => "__gt__"
  | .greaterEqual => "__ge__"

/-- Two values that have no order, unless the class of one of them says more.  A read-only
dictionary leaves the comparison to the dictionary it shows, on the right-hand side with the
operands exchanged. -/
def unordered (r : OrderRelation) (a b : Value) : Action Value := do
  let asked ← Value.firstAnswer (a.asDict.askSpecial r.specialName [b])
    (b.askSpecial r.converse.specialName [a.asDict]) a b
  match asked with
  | some answer => return answer
  | none =>
    let (symbol, left, right) :=
      match ← Action.typeOf a, ← Action.typeOf b with
      | .mapping, .mapping => (r.converse.symbol, StaticType.dict, StaticType.dict)
      | .mapping, t => (r.symbol, .dict, t)
      | t, .mapping => (r.converse.symbol, .dict, t)
      | t, u => (r.symbol, t, u)
    Action.fail (.unordered symbol left right)

/-- Whether a comparison by order holds of two numbers; other values have no order. -/
def numeralsOrdered (r : OrderRelation) (a b : Value) : Action Value :=
  match a.numeral?, b.numeral? with
  | some x, some y => pure (.bool (((x.compare? y).map r.holds).getD false))
  | _, _ => unordered r a b

/-- Compares two lists in the store by order. -/
abbrev OrderInside := Nat → Nat → Action Value

mutual

/-- The answer to a comparison of two values by order. -/
def Value.orderedBy (inside : OrderInside) (r : OrderRelation) : Value → Value → Action Value
  | .str m s, b =>
    match b with
    | .str _ t => pure (.bool (r.holds (compareText s t)))
    | b => unordered r (.str m s) b
  | .list x, b =>
    match b with
    | .list y => inside x y
    | b => unordered r (.list x) b
  | .tuple m xs, b =>
    match b with
    | .tuple _ ys => listOrdered inside r xs ys
    | b => unordered r (.tuple m xs) b
  | .int m i, b =>
    match b with
    | .int _ j => pure (.bool (r.holds (compare i j)))
    | b => numeralsOrdered r (.int m i) b
  | a, b => numeralsOrdered r a b
termination_by structural v => v

/-- The answer to a comparison of two lists by order: the first items that differ decide, or else
the lengths. -/
def listOrdered (inside : OrderInside) (r : OrderRelation) :
    List Value → List Value → Action Value
  | [], ys => pure (.bool (r.holds (compare 0 ys.length)))
  | x :: xs, ys =>
    match ys with
    | [] => pure (.bool (r.holds .gt))
    | y :: ys => do
      if ← x.same y then listOrdered inside r xs ys else x.orderedBy inside r y
termination_by structural xs => xs

end

/-- Compares lists in the store, and follows so many of them into one another. -/
def orderedWithin (r : OrderRelation) : Nat → OrderInside
  | 0, _, _ => Action.fail (.nestedTooDeep "in comparison")
  | fuel + 1, x, y => do
    listOrdered (orderedWithin r fuel) r (← Query.items x) (← Query.items y)

namespace Value

/-- The answer to a comparison of two values by order, which is a truth value unless a class gives
another. -/
def ordered (r : OrderRelation) (a b : Value) : Action Value :=
  a.orderedBy (orderedWithin r Query.nesting) r b

/-- Whether a comparison by order holds of two values. -/
def isOrdered (r : OrderRelation) (a b : Value) : Action Bool := do (← a.ordered r b).truth

end Value

/-- Sorts values in ascending order; equals keep their order. -/
def sortValues (vs : List Value) : Action (List Value) := Sorting.sort (Value.isOrdered .less) vs

end PredicateTree
