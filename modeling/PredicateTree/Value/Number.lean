import PredicateTree.Value.Attribute
import PredicateTree.Number.Arithmetic

/-!
# Values as numbers

The numeral that a value is (`Value.numeral?`), and the number that an object stands for where its
class gives one: the integer that it is as an index (`Value.index?`), the integer that it becomes
(`Value.integer?`), and the floating-point number that it becomes (`Value.real?`).
-/

namespace PredicateTree.Value

/-- The numeral that a value is; truth values count as zero and one. -/
def numeral? : Value → Option Numeral
  | .bool b => some (.int (if b then 1 else 0))
  | .int _ i => some (.int i)
  | .float _ x => some (.float x)
  | _ => none

/-- The integer that a value is. -/
def ownInteger? (v : Value) : Option Int :=
  match v.numeral? with
  | some (.int i) => some i
  | _ => none

/-- An integer as a value: the value itself where that is an integer. -/
def ofIndex (v : Value) (i : Int) : Value :=
  match v with
  | .int .. => v
  | _ => .ofInt i

/-- The integer that a class gives under a special name for one of its objects. -/
def integerAsked? (v : Value) (name : String) : Action (Option Int) := do
  match ← v.askSpecial name [] with
  | none => return none
  | some w =>
    match w.ownInteger? with
    | some i => return some i
    | none => Action.fail (.answerNotInt name (← Action.typeOf w))

/-- The integer that a value is, or that its class says it is as an index. -/
def index? (v : Value) : Action (Option Int) := do
  match v.ownInteger? with
  | some i => return some i
  | none => v.integerAsked? "__index__"

/-- The integer that a value stands for as an index. -/
def index (v : Value) : Action Int := do
  match ← v.index? with
  | some i => return i
  | none => Action.fail (.notAnIndex (← Action.typeOf v))

/-- The integer that an object becomes when its fraction is cut off, if its class says so. -/
def truncated? (v : Value) : Action (Option Int) := do
  match ← v.askSpecial "__trunc__" [] with
  | none => return none
  | some w =>
    match ← w.index? with
    | some i => return some i
    | none => Action.fail (.notIntegral (← Action.typeOf w))

/-- The integer that the class of an object says it becomes. -/
def integer? (v : Value) : Action (Option Int) := do
  match ← v.integerAsked? "__int__" with
  | some i => return some i
  | none =>
    match ← v.integerAsked? "__index__" with
    | some i => return some i
    | none => v.truncated?

/-- Whether a value counts as a number: it is one, or its class says what number it becomes. -/
def isNumber (s : Store) (v : Value) : Bool :=
  v.numeral?.isSome ||
    ["__index__", "__int__", "__float__"].any fun name => (v.special? s name).isSome

/-- The floating-point number that the class of an object says it becomes. -/
def real? (v : Value) : Action (Option Float) := do
  match ← v.askSpecial "__float__" [] with
  | some (.float _ x) => return some x
  | some w => Action.fail (.answerNotFloat (← Action.typeOf v) (← Action.typeOf w))
  | none =>
    match ← v.integerAsked? "__index__" with
    | some i => (Numeral.int i).toFloat.mapError Fault.failure
    | none => return none

/-- The floating-point number that a value is or becomes. -/
def toReal (v : Value) : Action Float := do
  match v.numeral? with
  | some n => n.toFloat.mapError Fault.failure
  | none =>
    match ← v.real? with
    | some x => return x
    | none => Action.fail (.notARealNumber (← Action.typeOf v))

end PredicateTree.Value
