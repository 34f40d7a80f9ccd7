import PredicateTree.Value.Function

/-!
# Hosts

What trees borrow from the values they compute with: calls of functions that run no code, truth,
members, and the texts of nodes and names for reports.  Evaluation is written over any host;
`Host.standard` is that of the values of this library.
-/

namespace PredicateTree

/-- The operations of the values that trees compute with. -/
structure Host where
  /-- Calls a value that is no lambda, no type and no method of an object. -/
  call : Value → List Value → Action Value
  /-- The truth of a value. -/
  truth : Value → Action Bool
  /-- A member of a value. -/
  member : Value → Value → Action Value
  /-- The text of a node in a report. -/
  describe : Node → Action String
  /-- The text of a name in a report. -/
  spell : Value → Action String

/-- The host of the values of this library. -/
def Host.standard : Host where
  call := Value.callFunction
  truth v := v.truth
  member v name := v.member name
  describe n := (Value.node n).shown
  spell name := name.formatted

end PredicateTree
