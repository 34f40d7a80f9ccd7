import PredicateTree.Proofs.Tree.Rebuilding

/-!
# Positions in trees

A position in a tree is the way to it from the root, by the places of children.  Two trees have the
same shape if they have the same positions.  `Node.Beside R` says so, with `R` between the nodes at
each position, in the form in which traversals build it up; `Node.Beside.at?` reads it off position
by position.

The label of a node is what it is besides its children and its identity.
-/

namespace PredicateTree

namespace Node

/-- What a node is besides its children and its identity. -/
inductive Label where
  | literal (value : Value) (type : StaticType)
  | parameter (p : Parameter)
  | member (name owner : Value) (type : StaticType)
  | unary (op : UnaryOp) (type : StaticType)
  | binary (op : BinaryOp) (type : StaticType)
  | conditional (type : StaticType)
  | call (type : StaticType)
  | lambda
  | unknown (kind : String)

/-- The label of a node. -/
def label : Node → Label
  | .literal _ value type => .literal value type
  | .parameter p => .parameter p
  | .member _ _ name owner type => .member name owner type
  | .unary _ op _ type => .unary op type
  | .binary _ op _ _ type => .binary op type
  | .conditional _ _ _ _ type => .conditional type
  | .call _ _ _ _ type => .call type
  | .lambda .. => .lambda
  | .unknown _ kind => .unknown kind

/-- The label with its parameter, if it is that of one, renamed. -/
def Label.renamed (ρ : Parameter → Parameter) : Label → Label
  | .parameter p => .parameter (ρ p)
  | l => l

/-- The node at a position. -/
def at? (n : Node) : List Nat → Option Node
  | [] => some n
  | i :: path => (n.childNodes.toOption.bind (·[i]?)).bind fun k => k.at? path

variable {R : Node → Node → Prop} {n m : Node} {ns : List Node}

theorem label_upon (n : Node) (mark row : Nat) (vs : List Value) :
    (n.upon mark row vs).label = n.label := by
  unfold upon
  split <;> rfl

theorem label_renamed_of_other (ρ : Parameter → Parameter) (other : n.asParameter? = none) :
    n.label.renamed ρ = n.label := by
  cases n with
  | parameter => cases other
  | _ => rfl

theorem at?_cons (hn : n.childNodes = .ok ns) (i : Nat) (path : List Nat) :
    n.at? (i :: path) = ns[i]?.bind (·.at? path) := by
  rw [at?, hn]
  rfl

/-- Two trees of one shape, with `R` between the nodes at each position. -/
inductive Beside (R : Node → Node → Prop) : Node → Node → Prop where
  | intro {n m : Node} {ns ms : List Node} (here : R n m) (left : n.childNodes = .ok ns)
      (right : m.childNodes = .ok ms) (length : ns.length = ms.length)
      (each : ∀ e ∈ ns.zip ms, Beside R e.1 e.2) : Beside R n m

namespace Beside

theorem of_children {ms : List Node} (here : R n m) (left : n.childNodes = .ok ns)
    (right : m.childNodes = .ok ms) (each : List.Forall₂ (Beside R) ns ms) : n.Beside R m :=
  .intro here left right each.length_eq (zip_of_forall₂ each)

theorem here (h : n.Beside R m) : R n m := by
  cases h
  assumption

theorem wellFormed (h : n.Beside R m) : n.WellFormed := by
  induction h with
  | @intro n m ns ms _ left _ length _ ih =>
    have hall : List.Forall₂ (fun k _ => k.WellFormed) ns ms := forall₂_of_zip length ih
    exact .intro ns left trivial (forall_of_forall₂ hall.flip fun _ _ _ h => h)

/-- At each position of either tree there is one of the other, and the trees there are of one shape
again. -/
theorem at? (h : n.Beside R m) (path : List Nat) :
    Option.Rel (Beside R) (n.at? path) (m.at? path) := by
  induction path generalizing n m with
  | nil => exact .some h
  | cons i path ih =>
    obtain @⟨_, _, ns, ms, _, left, right, length, each⟩ := h
    rw [at?_cons left, at?_cons right]
    by_cases hi : i < ns.length
    · have hi' : i < ms.length := length ▸ hi
      rw [List.getElem?_eq_getElem hi, List.getElem?_eq_getElem hi']
      have hmem : (ns[i], ms[i]) ∈ ns.zip ms := by
        have hzip : i < (ns.zip ms).length := by
          rw [List.length_zip]
          omega
        rw [← List.getElem_zip (h := hzip)]
        exact List.getElem_mem hzip
      exact ih (each _ hmem)
    · rw [List.getElem?_eq_none (by omega), List.getElem?_eq_none (by omega)]
      exact .none

end Beside

end Node

end PredicateTree
