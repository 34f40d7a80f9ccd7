import PredicateTree.Tree.Traversal

/-!
# Renaming parameters

`replaceParameters` gives a tree with every parameter of a substitution replaced, declarations
along with references.  Only the paths to replaced parameters are copied; every other sub-tree is
shared with the input.
-/

namespace PredicateTree

/-- A substitution of parameters for parameters. -/
abbrev Substitution := List (Parameter × Parameter)

namespace Substitution

/-- The parameter that replaces `p`: `p` itself where the substitution does not mention it. -/
def get (s : Substitution) (p : Parameter) : Parameter := (s.lookup p).getD p

/-- How a complaint names what should be replaced: by its name if it has one. -/
def nameOf (old : Value) : Action String := do
  match ← old.readAttribute? "name" with
  | some name => name.formatted
  | none => old.formatted

/-- The substitution that a dictionary describes.  Its values must be parameters; of its keys only
parameters can occur in a tree. -/
def ofEntries : List (Value × Value) → Action Substitution
  | [] => pure []
  | (old, new) :: rest =>
    match new.parameter? with
    | none => do
      let name ← nameOf old
      Action.fail (.replacement name (← Action.typeOf new))
    | some q => do
      let s ← ofEntries rest
      return match old.parameter? with
        | some p => (p, q) :: s
        | none => s

end Substitution

/-- A node with its parameters replaced, given its children with theirs replaced. -/
def renameStep (s : Substitution) (n : Node) (children : List Node) : Action Node :=
  match n with
  | .parameter p => pure (.parameter (s.get p))
  | n => n.withChildren (children.map .node)

/-- A tree with every parameter replaced. -/
def replaceParameters (s : Substitution) (v : Value) : Action Node := foldTree (renameStep s) v

end PredicateTree
