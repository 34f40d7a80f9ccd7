import PredicateTree.Evaluation.OperatorTable
import PredicateTree.Tree.Traversal

/-!
# Compiling trees

`compileTree` turns a tree into code by a fold.  All of the tree is checked on the way, also the
parts that a run would not reach: a malformed node or a static member without an owner is reported
before anything runs.
-/

namespace PredicateTree

/-- The code of a binary node from the code of its operands. -/
def Code.ofBinary (t : OperatorTable) (site : Node) (op : BinaryOp) (left right : Code) : Code :=
  match op with
  | .andAlso => .both site left right
  | .orElse => .either site left right
  | op => .applyBinary site (t (.binary op)) left right

/-- The code of a node from the code of its children. -/
def Code.ofNode (t : OperatorTable) (n : Node) (children : List Code) : Action Code :=
  match n, children with
  | .literal _ v _, _ => pure (.constant v)
  | .parameter p, _ => pure (.variable p)
  | .member _ _ name _ _, target :: _ => pure (.readMember n target name)
  | .member _ _ name owner _, [] => do
    if owner.isAbsent then Action.raise (.malformed (.noOwner (← name.formatted)) (.node n))
    else return .readStatic n owner name
  | .unary _ op _ _, [operand] => pure (.applyUnary n (t (.unary op)) operand)
  | .binary _ op _ _ _, [left, right] => pure (.ofBinary t n op left right)
  | .conditional .., [test, ifTrue, ifFalse] => pure (.choose n test ifTrue ifFalse)
  | .call .., function :: arguments => pure (.call n function arguments)
  | .lambda _ _ parameters _, codes =>
    pure (.abstraction (parameters.filterMap (·.parameter?)) (codes.getLastD default))
  | n, _ => Action.raise (.malformed (.unknownKind (Text.quoted n.kindSymbol)) (.node n))

/-- The code of a tree. -/
def compileTree (t : OperatorTable) (v : Value) : Action Code := foldTree (Code.ofNode t) v

end PredicateTree
