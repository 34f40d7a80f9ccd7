import PredicateTree.Evaluation.Run
import PredicateTree.Folding.Trace
import PredicateTree.Tree.Classify

/-!
# Constant folding

`Machine.fold` evaluates one tree without inputs and wraps its value as a literal.
`Machine.foldConstants` folds every sub-tree that needs no input, from the leaves up, so that a
folded operand can make its operator foldable; a sub-tree that fails is left in place, or ends the
pass where it is strict.
-/

namespace PredicateTree

/-- How a tree is folded. -/
structure FoldOptions where
  /-- Whether the first failure ends the pass. -/
  strict : Bool := false
  /-- Whether calls over literals are folded too. -/
  foldCalls : Bool := false
  overrides : List (Value × Value) := []

/-- Whether a value is a literal node. -/
def Value.isLiteralNode (v : Value) : Bool := (v.node?.map (·.isLiteral)).getD false

/-- Whether a folding pass tries to fold a node: a chain of members that starts at a literal, an
operator or a conditional over literals, or, if calls are folded, a call over literals. -/
def Node.foldable (foldCalls : Bool) (n : Node) : Action Bool :=
  match n with
  | .member .. => do
    if ← isConstantSubtree (.node n) then isParameterFree (.node n) else return false
  | .unary _ _ x _ => pure x.isLiteralNode
  | .binary _ _ l r _ => pure (l.isLiteralNode && r.isLiteralNode)
  | .conditional _ c x y _ => pure (c.isLiteralNode && x.isLiteralNode && y.isLiteralNode)
  | .call _ f _ args _ => pure (foldCalls && f.isLiteralNode && args.all (·.isLiteralNode))
  | _ => pure false

/-- Runs an action; a fault of evaluation becomes part of the result. -/
def Action.attempt {α : Type} (x : Action α) : Action (Except Fault α) :=
  Action.handle (do return .ok (← x)) fun fault =>
    if fault.isEvaluation then pure (.error fault) else Action.raise fault

/-- The static type of a tree as that of a literal in its place, if the tree has one. -/
def keptType (t : StaticType) : Action (Option StaticType) := do
  if t = .object || ((← Action.store).typeValue t).isAbsent then return none else return some t

namespace Machine

/-- Evaluates a tree without inputs and wraps its value as a literal.  The literal keeps the static
type of the tree, unless nothing is known of that. -/
def fold (M : Machine) (overrides : List (Value × Value)) (v : Value) : Action Node := do
  let thunk ← Builder.lambda [] v
  let f ← M.compileLambda overrides (.node thunk)
  let w ← Action.call f []
  Builder.literal w (← keptType v.staticType)

/-- One step of a folding pass: a node over its folded children, folded itself if it can be. -/
def foldStep (M : Machine) (options : FoldOptions) (n : Node) (children : List Node) :
    StateT FoldTrace Action Node := do
  let current ← n.withChildren (children.map .node)
  if ← current.foldable options.foldCalls then
    match ← (M.fold options.overrides (.node current)).attempt with
    | .ok folded =>
      Action.note (.folded current folded)
      let step ← newFoldStep (.node current) (.node folded)
      modify fun t => t.addStep step
      return folded
    | .error fault =>
      if options.strict then throwThe Fault fault
      Action.note (.leftUnfolded current fault)
      modify fun t => t.skip current
      return current
  else return current

/-- Folds every sub-tree that needs no input. -/
def foldConstants (M : Machine) (options : FoldOptions) (v : Value) :
    Action (Node × FoldTrace) := do
  let (n, t) ← (foldTree (M.foldStep options) v).run { initial := v }
  return (n, { t with final := .node n })

end Machine

end PredicateTree
