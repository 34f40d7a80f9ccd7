import PredicateTree.Tree.Traversal

/-!
# Formatting trees

`format` writes a tree as an s-expression, as a fold.  With `showIds` every parameter carries its
serial number, so that parameters of one name can be told apart.  A tree is written as a text, unless
it is a literal or a parameter that goes by a name which is none.
-/

namespace PredicateTree

/-- The name of a parameter, with its serial number if that is shown. -/
def Parameter.text (showIds : Bool) (p : Parameter) : Action Value := do
  let name := (← Action.store).parameterName p
  if showIds then return .ofText ((← name.formatted) ++ "#" ++ toString p.uid) else return name

/-- The text of a node from the texts of its children. -/
def Node.render (showIds : Bool) (n : Node) (parts : List Value) : Action Value :=
  match n, parts with
  | .parameter p, _ => p.text showIds
  | .member _ _ name _ _, target :: _ => memberText Value.formatted target name
  | .unary _ op .., parts => operatorText Value.formatted op.symbol parts
  | .binary _ op .., parts => operatorText Value.formatted op.symbol parts
  | .conditional .., parts => choiceText parts
  | .call .., parts => callText parts
  | .lambda .., parts => lambdaText Value.formatted parts.dropLast (parts.getLastD .absent)
  | n, _ => n.text

/-- The s-expression of a tree.  A text that was computed is told apart from all others. -/
def format (showIds : Bool) (v : Value) : Action Value := do
  match ← foldTree (Node.render showIds) v with
  | .str 0 s => Action.newText s
  | w => return w

end PredicateTree
