import PredicateTree.Tree.Children
import PredicateTree.Value.Equality

/-!
# Structural equality of trees

`structurallyEqual` compares two trees pair by pair with a stack of work.  Two nodes match if they
are the same node, or agree in kind, label and static type and have as many children, which match
pairwise; parameters match only themselves.
-/

namespace PredicateTree

namespace Node

/-- Whether two nodes of one kind agree in everything but their children.  Parameters do not. -/
def sameLabel (a b : Node) : Action Bool :=
  match a, b with
  | .literal _ v t, .literal _ w u => if t = u then v.same w else pure false
  | .member _ _ m o t, .member _ _ n q u => do
    if t = u then if ← m.equal n then return o.identical q else return false
    else return false
  | .unary _ op _ t, .unary _ op' _ u => pure (t = u && op == op')
  | .binary _ op _ _ t, .binary _ op' _ _ u => pure (t = u && op == op')
  | .conditional _ _ _ _ t, .conditional _ _ _ _ u => pure (t = u)
  | .call _ _ _ _ t, .call _ _ _ _ u => pure (t = u)
  | .lambda .., .lambda .. => pure true
  | .unknown _ k, .unknown _ l => pure (k == l)
  | _, _ => pure false

end Node

/-- The pairs of values that two lists of fields hold, last pair first. -/
def fieldPairs (fs gs : List Field) : List (Value × Value) :=
  ((fs.zip gs).map fun p => (p.1.value, p.2.value)).reverse

theorem total_sizeOf_fieldPairs (fs gs : List Field) :
    total (fun p => sizeOf p.1) (fieldPairs fs gs) ≤ total (fun f => sizeOf f.value) fs := by
  rw [fieldPairs, total_reverse, total_map]
  induction fs generalizing gs with
  | nil => exact Nat.zero_le _
  | cons f fs ih =>
    cases gs with
    | nil => exact Nat.zero_le _
    | cons g gs => exact Nat.add_le_add_left (ih gs) _

/-- Works off a stack of pairs. -/
def equalLoop : List (Value × Value) → Action Bool
  | [] => pure true
  | (.node a, .node b) :: rest => do
    if a.identical b then equalLoop rest
    else if ← a.sameLabel b then
      match _h : a.fields, b.fields with
      | .error stray, _ => stray.raise
      | _, .error stray => stray.raise
      | .ok fs, .ok gs =>
        if fs.length = gs.length then equalLoop (fieldPairs fs gs ++ rest) else return false
    else return false
  | (v, w) :: rest => do
    if ← v.same w then equalLoop rest else return false
termination_by stack => total (fun p => sizeOf p.1) stack
decreasing_by
  · simp only [total_cons, Value.node.sizeOf_spec]
    omega
  · have h1 := total_sizeOf_fieldPairs fs gs
    have h2 := total_sizeOf_fields _h
    simp only [total_append, total_cons, Value.node.sizeOf_spec]
    omega
  · simp only [total_cons]
    have : 0 < sizeOf v := by cases v <;> simp +arith
    omega

/-- Whether two trees have the same shape, labels, types and parameters. -/
def structurallyEqual (v w : Value) : Action Bool := equalLoop [(v, w)]

end PredicateTree
