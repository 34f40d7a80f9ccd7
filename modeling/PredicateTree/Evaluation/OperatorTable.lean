import PredicateTree.Value.Container

/-!
# Operator tables

A table gives every operator that is a function its meaning.  Callers override some of the meanings
(`OperatorTable.resolve`); the short-circuit operators are control flow and cannot be overridden.
-/

namespace PredicateTree

/-- The meanings of the operators, as functions. -/
abbrev OperatorTable := OperatorKey → Value

namespace OperatorTable

/-- The table in which every operator has its own meaning. -/
def standard : OperatorTable := Value.operator

/-- A table with one meaning changed. -/
def override (t : OperatorTable) (key : OperatorKey) (f : Value) : OperatorTable :=
  fun k => if k = key then f else t k

/-- The key that a value is, where it names an operator that can be overridden. -/
def keyOf (v : Value) : Action OperatorKey :=
  match v with
  | .binaryOp op =>
    if op.isShortCircuit then Action.fail (.fixedOperator op.symbol) else pure (.binary op)
  | .unaryOp op => pure (.unary op)
  | v => do
    let text ← v.shown
    Action.fail (.notAnOperator text)

/-- A table with the meanings of a dictionary, from first to last.  Every key must be an operator
that can be overridden. -/
def overrideAll (t : OperatorTable) : List (Value × Value) → Action OperatorTable
  | [] => pure t
  | (k, f) :: rest => do
    let key ← keyOf k
    overrideAll (t.override key f) rest

/-- The complete table that overrides amount to. -/
def resolve (overrides : List (Value × Value)) : Action OperatorTable :=
  standard.overrideAll overrides

/-- The complete table that a value amounts to.  One that is false, as the absent value is, changes
nothing; its items must be operators, and it must be a dictionary. -/
def ofValue (v : Value) : Action OperatorTable := do
  if ← v.truth then
    match v.entries? with
    | some overrides => resolve overrides
    | none =>
      (← v.supply).fold (fun _ _ key => do let _ ← keyOf key) ()
      Action.fail (.notATable (← Action.typeOf v))
  else return standard

/-- The operators whose meaning is not their own. -/
def changed (t : OperatorTable) : List OperatorKey :=
  OperatorKey.all.filter fun k => !(t k).identical (.operator k)

end OperatorTable

end PredicateTree
