import PredicateTree.Value.Shown
import PredicateTree.Measure

/-!
# Children of a node

The children of a node in their fixed order, and a node rebuilt with other children.

* `Node.fields` lists the children as they are, `Node.childNodes` checks them: the first that is
  missing, no node, or no parameter where a lambda declares one goes astray (`Stray`), and
  `Node.children` fails with the fault of that.
* `Node.withChildren` rebuilds a node and keeps everything but its children.  It gives back the very
  node where every new child is the old one, so what a change does not touch stays shared.
* `total_sizeOf_childNodes` is the measure by which every traversal ends.
-/

namespace PredicateTree

/-- A place of a child in a node. -/
structure Field where
  name : String
  value : Value
  /-- Whether a lambda declares a parameter here. -/
  declares : Bool := false

/-- The fields of several children under one name, numbered from `i`. -/
def numberedFields (name : String) (declares : Bool) (i : Nat) : List Value → List Field
  | [] => []
  | v :: vs => ⟨indexedField name i, v, declares⟩ :: numberedFields name declares (i + 1) vs

/-- Why a node does not have the children that it should have. -/
inductive Stray where
  /-- The node is of a kind outside the vocabulary. -/
  | unknownKind (mark : Nat) (kind : String)
  /-- What stands in a place of a child does not belong there. -/
  | child (parent : Node) (field : Field)

/-- The fault of a node that does not have the children it should have. -/
def Stray.fault : Stray → Action Fault
  | .unknownKind mark kind =>
    return .malformed (.unknownKind (Text.quoted kind)) (.node (.unknown mark kind))
  | .child parent f => strayFault parent f.name f.value f.value.shown

/-- Fails for a node that does not have the children it should have. -/
def Stray.raise {α : Type} (stray : Stray) : Action α := do Action.raise (← stray.fault)

/-- What was found out about a tree, or the fault of a node that is astray. -/
def Stray.orRaise {α : Type} : Except Stray α → Action α
  | .ok a => pure a
  | .error stray => stray.raise

namespace Node

/-- The children of a node, unchecked. -/
def fields : Node → Except Stray (List Field)
  | .literal .. => .ok []
  | .parameter _ => .ok []
  | .member _ expression .. =>
    .ok (if expression.isAbsent then [] else [⟨"expression", expression, false⟩])
  | .unary _ _ operand _ => .ok [⟨"operand", operand, false⟩]
  | .binary _ _ left right _ => .ok [⟨"left", left, false⟩, ⟨"right", right, false⟩]
  | .conditional _ test ifTrue ifFalse _ =>
    .ok [⟨"test", test, false⟩, ⟨"if_true", ifTrue, false⟩, ⟨"if_false", ifFalse, false⟩]
  | .call _ function _ arguments _ =>
    .ok (⟨"function", function, false⟩ :: numberedFields "arguments" false 0 arguments)
  | .lambda _ _ parameters body =>
    .ok (numberedFields "parameters" true 0 parameters ++ [⟨"body", body, false⟩])
  | .unknown mark kind => .error (.unknownKind mark kind)

/-- The node in a field: any node, or a parameter where a lambda declares one. -/
def checkField (parent : Node) (f : Field) : Except Stray Node :=
  match f.value with
  | .node n => if isProperChild f.declares (.node n) then .ok n else .error (.child parent f)
  | _ => .error (.child parent f)

/-- The nodes in several fields; the first field that holds none decides. -/
def checkFields (parent : Node) : List Field → Except Stray (List Node)
  | [] => .ok []
  | f :: fs => do
    let n ← checkField parent f
    return n :: (← checkFields parent fs)

/-- The children of a node: the declarations of a lambda before its body, the function of a call
before its arguments. -/
def childNodes (n : Node) : Except Stray (List Node) := do
  checkFields n (← n.fields)

/-- The children of a node, or the fault of a node that does not have those it should have. -/
def children (n : Node) : Action (List Node) := Stray.orRaise n.childNodes

end Node

/-- The node that a value should be. -/
def Value.requireTree (v : Value) : Action Node := do
  match v with
  | .node n => return n
  | v => Action.raise (.malformed (.notANode (← Action.typeOf v)) v)

/-- The children of the node that a value should be. -/
def Value.children (v : Value) : Action (List Node) := do
  (← v.requireTree).children

/-! ### The measure of traversals -/

section measure

theorem value_of_checkField {parent : Node} {f : Field} {n : Node}
    (h : parent.checkField f = .ok n) : f.value = .node n := by
  unfold Node.checkField at h
  split at h
  · rename_i m hv
    split at h
    · cases h
      exact hv
    · cases h
  · cases h

theorem map_value_of_checkFields {parent : Node} {fs : List Field} {ns : List Node}
    (h : parent.checkFields fs = .ok ns) : fs.map (·.value) = ns.map .node := by
  induction fs generalizing ns with
  | nil =>
    cases h
    rfl
  | cons f fs ih =>
    obtain ⟨n, hn, h⟩ := exists_of_bind_eq_ok h
    obtain ⟨ms, hms, h⟩ := exists_of_bind_eq_ok h
    cases h
    rw [List.map_cons, List.map_cons, value_of_checkField hn, ih hms]

theorem total_sizeOf_numberedFields (name : String) (declares : Bool) (i : Nat) (vs : List Value) :
    total (fun f => sizeOf f.value) (numberedFields name declares i vs) ≤ sizeOf vs := by
  induction vs generalizing i with
  | nil => simp [numberedFields]
  | cons v vs ih =>
    have := ih (i + 1)
    simp only [numberedFields, total_cons, List.cons.sizeOf_spec]
    omega

theorem total_sizeOf_fields {n : Node} {fs : List Field} (h : n.fields = .ok fs) :
    total (fun f => sizeOf f.value) fs < sizeOf n := by
  cases n with
  | unknown mark kind => simp [Node.fields] at h
  | member mark expression name owner type =>
    simp only [Node.fields, Except.ok.injEq] at h
    subst h
    split
    · simp only [total_nil, Node.member.sizeOf_spec]
      omega
    · simp only [total_cons, total_nil, Node.member.sizeOf_spec]
      omega
  | call mark function row arguments type =>
    simp only [Node.fields, Except.ok.injEq] at h
    subst h
    have := total_sizeOf_numberedFields "arguments" false 0 arguments
    simp only [total_cons, Node.call.sizeOf_spec]
    omega
  | lambda mark row parameters body =>
    simp only [Node.fields, Except.ok.injEq] at h
    subst h
    have := total_sizeOf_numberedFields "parameters" true 0 parameters
    simp only [total_append, total_cons, total_nil, Node.lambda.sizeOf_spec]
    omega
  | _ =>
    simp only [Node.fields, Except.ok.injEq] at h
    subst h
    simp <;> omega

/-- The children of a node are together smaller than the node. -/
theorem total_sizeOf_childNodes {n : Node} {ns : List Node} (h : n.childNodes = .ok ns) :
    total (fun k => sizeOf (Value.node k)) ns < sizeOf n := by
  obtain ⟨fs, hfs, h⟩ := exists_of_bind_eq_ok h
  have hs := total_sizeOf_fields hfs
  rw [← total_map (fun v : Value => sizeOf v) Field.value, map_value_of_checkFields h,
    total_map] at hs
  exact hs

end measure

/-! ### Rebuilding -/

namespace Node

/-- Whether new children are, one by one, the old ones. -/
def allIdentical : List Node → List Value → Bool
  | n :: ns, v :: vs => ((v.node?.map n.identical).getD false) && allIdentical ns vs
  | _, _ => true

/-- The first of several declarations that is no parameter, as a failure. -/
def requireDeclarations : List Value → Action Unit
  | [] => pure ()
  | v :: vs =>
    if v.parameter?.isSome then requireDeclarations vs
    else do Action.fail (.lambdaParameter (← v.shown))

/-- A node with a fresh mark and the label of `n`, over as many new children as `n` has. -/
def rebuilt (n : Node) (vs : List Value) : Action Node := do
  match n, vs with
  | .member _ _ name owner type, [e] => return .member (← Action.freshMark) e name owner type
  | .unary _ op _ type, [x] => return .unary (← Action.freshMark) op x type
  | .binary _ op _ _ type, [l, r] => return .binary (← Action.freshMark) op l r type
  | .conditional _ _ _ _ type, [c, x, y] => return .conditional (← Action.freshMark) c x y type
  | .call _ _ _ _ type, f :: args =>
    return .call (← Action.freshMark) f (← Action.freshMark) args type
  | .lambda .., vs =>
    let parameters := vs.dropLast
    requireDeclarations parameters
    return .lambda (← Action.freshMark) (← Action.freshMark) parameters (vs.getLastD .absent)
  | n, _ => return n

/-- A node of the same kind and with the same label over new children: the node itself where every
new child is the old one. -/
def withChildren (n : Node) (vs : List Value) : Action Node := do
  let old ← n.children
  if vs.length ≠ old.length then Action.fail (.childCount n.className old.length vs.length)
  else if allIdentical old vs then return n
  else n.rebuilt vs

end Node

end PredicateTree
