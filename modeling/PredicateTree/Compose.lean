import PredicateTree.Builder
import PredicateTree.Tree.Rename
import PredicateTree.Log

/-!
# Composing predicates

Two lambdas of one arity are composed by joining their bodies: the parameters of the second are
replaced, position by position, by those of the first (`compose`).  `conjunction` and `disjunction`
join with the short-circuit operators.
-/

namespace PredicateTree

/-- The mark of the tuple of the parameters, the parameters and the body of a value that should be a
lambda. -/
def requireLambda (purpose : String) (v : Value) : Action (Nat × List Value × Value) := do
  match v with
  | .node (.lambda _ row parameters body) => return (row, parameters, body)
  | v => Action.fail (.notALambda purpose (← Action.typeOf v))

/-- Joins two lambdas of one arity.  `merge` builds the new body from the body of the first and the
renamed body of the second. -/
def compose (first second : Value) (merge : Value → Value → Action Value) : Action Node := do
  let (row, ps, firstBody) ← requireLambda "compose: first must be" first
  let (_, qs, secondBody) ← requireLambda "compose: second must be" second
  if ps.length ≠ qs.length then Action.raise (.arity ps.length qs.length none)
  else do
    let entries ← Entries.ofList (qs.zip ps)
    let s ← Substitution.ofEntries entries
    let renamed ← replaceParameters s secondBody
    Action.note (.composing ps.length)
    Builder.lambdaOver row ps (← merge firstBody (.node renamed))

/-- The predicate that holds where both hold; the second is asked only where the first holds. -/
def conjunction (first second : Value) : Action Node :=
  compose first second fun a b => do return .node (← Builder.andAlso a b)

/-- The predicate that holds where one of two holds; the second is asked only where the first
fails. -/
def disjunction (first second : Value) : Action Node :=
  compose first second fun a b => do return .node (← Builder.orElse a b)

end PredicateTree
