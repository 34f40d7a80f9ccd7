import PredicateTree.Session

/-!
# Traces of folding

What a folding pass did: the sub-trees it replaced, in order, and those it left in place because
they failed (`FoldTrace`).  A trace becomes an object (`FoldTrace.toValue`), whose attributes a
caller may change.
-/

namespace PredicateTree

/-- The record of a folding pass. -/
structure FoldTrace where
  /-- The steps, last one first; each is an object with the tree before and the literal after. -/
  steps : List Value := []
  /-- The sub-trees left in place, last one first. -/
  skipped : List Value := []
  initial : Value := .absent
  final : Value := .absent

/-- A step as a new object. -/
def newFoldStep (before after : Value) : Action Value :=
  Action.newObject .foldStep [("before", before), ("after", after)]

namespace FoldTrace

/-- A trace as a new object. -/
def toValue (t : FoldTrace) : Action Value := do
  let steps ← Action.newList t.steps.reverse
  let skipped ← Action.newList t.skipped.reverse
  Action.newObject .foldTrace
    [("steps", steps), ("skipped", skipped), ("initial", t.initial), ("final", t.final)]

/-- The trace with one more step. -/
def addStep (t : FoldTrace) (step : Value) : FoldTrace := { t with steps := step :: t.steps }

/-- The trace with one more sub-tree left in place. -/
def skip (t : FoldTrace) (n : Node) : FoldTrace := { t with skipped := .node n :: t.skipped }

end FoldTrace

end PredicateTree
