import PredicateTree.Tree.Children
import PredicateTree.Tree.ParameterSet

/-!
# Traversals

Folding, walking and querying a tree.  No traversal recurses into the tree: each keeps a stack of
work, so the depth of a tree costs no depth of calls.  Every loop ends because the work on its stack
gets smaller (`total_sizeOf_childNodes`).

* `foldTree` combines the results for the children of a node, in order, into one for the node.
* `walk` lists the nodes of a tree in pre-order; `walkFirst` draws only the first of them.
* `parameterReferences` lists the occurrences of parameters, declarations included.
* `freeParameters` lists the parameters that are referred to but not bound inside the tree.
-/

namespace PredicateTree

/-- The size of a node, which bounds the work on it. -/
noncomputable def Node.work (n : Node) : Nat := sizeOf (Value.node n)

theorem total_work_childNodes {n : Node} {ns : List Node} (h : n.childNodes = .ok ns) :
    total Node.work ns + 1 < n.work := by
  have := total_sizeOf_childNodes h
  simp only [Node.work, Value.node.sizeOf_spec]
  unfold Node.work at *
  omega

/-! ### Folding -/

/-- What is left to do in a fold: a node to be looked at, or one whose children, so many of them,
have their results. -/
inductive Pending where
  | enter (n : Node)
  | leave (n : Node) (children : Nat)

namespace Pending

/-- The work that a pending item stands for. -/
noncomputable def work : Pending → Nat
  | .enter n => 2 * n.work
  | .leave .. => 1

end Pending

theorem total_work_enter (ns : List Node) :
    total Pending.work (ns.map .enter) = 2 * total Node.work ns := by
  induction ns with
  | nil => rfl
  | cons n ns ih =>
    simp only [List.map_cons, total_cons, ih, Pending.work]
    omega

section fold

variable {m : Type → Type} [Monad m] [MonadLiftT Action m] {β : Type}

/-- Works off a stack.  The results of the nodes that are done are kept last one first. -/
@[specialize]
def foldLoop (combine : Node → List β → m β) : List Pending → List β → m (List β)
  | [], results => pure results
  | .enter n :: rest, results => do
    match _h : n.childNodes with
    | .error stray => liftM (stray.raise : Action (List β))
    | .ok ns => foldLoop combine (ns.map .enter ++ .leave n ns.length :: rest) results
  | .leave n count :: rest, results => do
    let result ← combine n (results.take count).reverse
    foldLoop combine rest (result :: results.drop count)
termination_by stack => total Pending.work stack
decreasing_by
  · have := total_work_childNodes _h
    simp only [total_append, total_cons, total_work_enter, Pending.work]
    omega
  · simp only [total_cons, Pending.work]
    omega

/-- Combines a tree from its leaves up.  Every occurrence of a node is combined once, after all of
its children. -/
@[specialize]
def foldTree (combine : Node → List β → m β) (v : Value) : m β := do
  let n ← liftM v.requireTree
  match ← foldLoop combine [.enter n] [] with
  | result :: _ => pure result
  | [] => liftM (Action.raise (.malformed (.notANode n.classType) v) : Action β)

end fold

/-! ### Walking -/

/-- Works off a stack of nodes in pre-order.  The nodes visited are kept last one first. -/
def walkLoop : List Node → List Node → Except Stray (List Node)
  | [], visited => .ok visited.reverse
  | n :: rest, visited =>
    match _h : n.childNodes with
    | .error stray => .error stray
    | .ok ns => walkLoop (ns ++ rest) (n :: visited)
termination_by stack => total Node.work stack
decreasing_by
  have := total_work_childNodes _h
  simp only [total_append, total_cons]
  omega

/-- The nodes of a tree in pre-order. -/
def walk (v : Value) : Action (List Node) := do
  Stray.orRaise (walkLoop [← v.requireTree] [])

/-- The first nodes, so many of them, that a walk visits from a stack.  A node is visited before its
children are looked at, so what is wrong with the children of the last one does not show. -/
def walkFirst : Nat → List Value → Action (List Value)
  | 0, _ => pure []
  | _ + 1, [] => pure []
  | 1, v :: _ => pure [v]
  | count + 1, v :: rest => do
    let ns ← v.children
    return v :: (← walkFirst count (ns.map .node ++ rest))

/-! ### Parameters -/

/-- The occurrences of parameters in a tree, declarations included, in pre-order.  A value that is
no node is asked for its kind before it is refused. -/
def parameterReferences (v : Value) : Action (List Parameter) := do
  match v with
  | .node _ => return (← walk v).filterMap (·.asParameter?)
  | v =>
    let _ ← v.readAttribute "kind"
    Action.raise (.malformed (.notANode (← Action.typeOf v)) v)

/-- The parameters among a list of nodes. -/
def parametersOf (ns : List Node) : List Parameter := ns.filterMap (·.asParameter?)

/-- The nodes to look for free parameters in, below a node: the body of a lambda, or all
children. -/
def scopeOf (n : Node) (ns : List Node) : List Node :=
  match n with
  | .lambda .. => ns.drop (ns.length - 1)
  | _ => ns

/-- The parameters that a node binds in its scope. -/
def boundBy (n : Node) (ns : List Node) : List Parameter :=
  match n with
  | .lambda .. => parametersOf (ns.take (ns.length - 1))
  | _ => []

theorem total_work_scopeOf (n : Node) (ns : List Node) :
    total Node.work (scopeOf n ns) ≤ total Node.work ns := by
  unfold scopeOf
  split
  · rename_i m ps body
    have h := List.take_append_drop (ns.length - 1) ns
    rw [← h, total_append, h]
    exact Nat.le_add_left _ _
  · exact Nat.le_refl _

/-- Works off a stack of nodes with the parameters bound around them.  The free occurrences found
are kept last one first. -/
def freeLoop :
    List (Node × List Parameter) → List Parameter → Except Stray (List Parameter)
  | [], free => .ok free.reverse
  | (.parameter p, bound) :: rest, free =>
    freeLoop rest (if p ∈ bound then free else p :: free)
  | (n, bound) :: rest, free =>
    match _h : n.childNodes with
    | .error stray => .error stray
    | .ok ns => freeLoop ((scopeOf n ns).map (·, boundBy n ns ++ bound) ++ rest) free
termination_by stack => total (fun e => e.1.work) stack
decreasing_by
  · simp only [total_cons, Node.work, Value.node.sizeOf_spec]
    omega
  · have := total_work_childNodes _h
    have := total_work_scopeOf n ns
    rw [total_append, total_cons, total_map]
    change total Node.work (scopeOf n ns) + _ < n.work + _
    omega

/-- The parameters that a tree refers to and does not bind, each once, in the order of their first
free occurrence. -/
def freeParameters (v : Value) : Action (List Parameter) := do
  return distinct (← Stray.orRaise (freeLoop [(← v.requireTree, [])] []))

end PredicateTree
