import PredicateTree.Tree.Children

/-!
# Shallow classification

Two quick checks that look along a chain of member accesses only, down to the expression that owns
it: whether a node is constant because the chain starts at a literal (`isConstantSubtree`), and
whether it reads no parameter along the chain (`isParameterFree`).
-/

namespace PredicateTree

/-- The fault of a link whose owner is no node. -/
def strayOwner (link : Node) (owner : Value) : Action Bool := do
  let text ← owner.shown
  Action.raise (.malformed (.strayChild link.className "expression" text) (.node link))

/-- Follows a chain.  `constant` says whether the link itself was reached as a literal. -/
def constantAlong (constant : Bool) : Node → Action Bool
  | .member mark expression name owner type =>
    match expression with
    | .absent => pure constant
    | .node inner => constantAlong inner.isLiteral inner
    | stray => strayOwner (.member mark stray name owner type) stray
  | _ => pure constant
termination_by structural n => n

/-- Follows a chain until it meets a parameter. -/
def parameterFreeAlong : Node → Action Bool
  | .member mark expression name owner type =>
    match expression with
    | .absent => pure true
    | .node inner => parameterFreeAlong inner
    | stray => strayOwner (.member mark stray name owner type) stray
  | .parameter _ => pure false
  | _ => pure true
termination_by structural n => n

/-- Whether a node is a literal, or a chain of members that starts at one. -/
def isConstantSubtree (v : Value) : Action Bool := do
  let n ← v.requireTree
  if n.isLiteral then return true else constantAlong false n

/-- Whether a node is neither a parameter nor a chain of members that starts at one. -/
def isParameterFree (v : Value) : Action Bool := do
  let n ← v.requireTree
  parameterFreeAlong n

end PredicateTree
