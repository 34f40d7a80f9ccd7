import PredicateTree.Tree.Children

/-!
# Well-formed trees

A tree is well formed if every node of it has the children that it should have.  `Node.All P` says
so and, at once, that every node has the property `P`, the declarations of lambdas included;
`Node.WellFormed` is the case without any further property.

The children of each kind of node are spelled out once (`Node.HasChildren`), which gives the
induction over well-formed trees kind by kind (`Node.All.induction`).
-/

namespace PredicateTree

namespace Node

/-- Every node of a tree has the children it should have, and the property `P`. -/
inductive All (P : Node → Prop) : Node → Prop where
  | intro {n : Node} (ns : List Node) (children : n.childNodes = .ok ns) (holds : P n)
      (below : ∀ m ∈ ns, All P m) : All P n

/-- Every node of a tree has the children it should have. -/
def WellFormed (n : Node) : Prop := n.All fun _ => True

/-- The parameters that a lambda declares, as its children. -/
def declarations (ps : List Parameter) : List Value := ps.map fun p => .node (.parameter p)

variable {P Q : Node → Prop} {n : Node}

/-! ### The children of each kind -/

theorem checkFields_append (parent : Node) (fs gs : List Field) :
    parent.checkFields (fs ++ gs) = do
      let ms ← parent.checkFields fs
      let ns ← parent.checkFields gs
      return ms ++ ns := by
  induction fs with
  | nil =>
    cases h : parent.checkFields gs <;>
      simp [checkFields, h, pure, bind, Except.bind, Except.pure]
  | cons f fs ih =>
    rw [List.cons_append, checkFields, checkFields, ih]
    cases parent.checkField f <;> cases parent.checkFields fs <;>
      cases parent.checkFields gs <;> rfl

theorem checkFields_arguments (parent : Node) (i : Nat) (args : List Node) :
    parent.checkFields (numberedFields "arguments" false i (args.map .node)) = .ok args := by
  induction args generalizing i with
  | nil => rfl
  | cons a args ih =>
    rw [List.map_cons, numberedFields, checkFields, ih]
    rfl

theorem checkFields_declarations (parent : Node) (i : Nat) (ps : List Parameter) :
    parent.checkFields (numberedFields "parameters" true i (declarations ps)) =
      .ok (ps.map .parameter) := by
  induction ps generalizing i with
  | nil => rfl
  | cons p ps ih =>
    rw [declarations, List.map_cons, numberedFields, checkFields]
    rw [declarations] at ih
    rw [ih]
    rfl

theorem childNodes_member (mark : Nat) (e : Node) (name owner : Value) (type : StaticType) :
    (member mark (.node e) name owner type).childNodes = .ok [e] := rfl

theorem childNodes_call (mark : Nat) (f : Node) (row : Nat) (args : List Node)
    (type : StaticType) :
    (Node.call mark (.node f) row (args.map .node) type).childNodes = .ok (f :: args) := by
  rw [childNodes, fields]
  change checkFields _ (⟨"function", .node f, false⟩ :: _) = _
  rw [checkFields, checkFields_arguments]
  rfl

theorem childNodes_lambda (mark row : Nat) (ps : List Parameter) (b : Node) :
    (Node.lambda mark row (declarations ps) (.node b)).childNodes =
      .ok (ps.map .parameter ++ [b]) := by
  rw [childNodes, fields]
  change checkFields _ _ = _
  rw [checkFields_append, checkFields_declarations]
  rfl

theorem declarations_of_checkFields {parent : Node} {i : Nat} {vs : List Value} {ns : List Node}
    (h : parent.checkFields (numberedFields "parameters" true i vs) = .ok ns) :
    ∃ ps, vs = declarations ps ∧ ns = ps.map .parameter := by
  induction vs generalizing i ns with
  | nil =>
    cases h
    exact ⟨[], rfl, rfl⟩
  | cons v vs ih =>
    obtain ⟨m, hm, h⟩ := exists_of_bind_eq_ok h
    obtain ⟨ms, hms, h⟩ := exists_of_bind_eq_ok h
    cases h
    obtain ⟨ps, rfl, rfl⟩ := ih hms
    have hv : v = .node m := value_of_checkField hm
    subst hv
    cases m with
    | parameter p => exact ⟨p :: ps, rfl, rfl⟩
    | _ => cases hm

theorem node_of_checkFields {parent : Node} {f : Field} {fs : List Field} {ns : List Node}
    (h : parent.checkFields (f :: fs) = .ok ns) :
    ∃ m ms, f.value = .node m ∧ parent.checkFields fs = .ok ms ∧ ns = m :: ms := by
  obtain ⟨m, hm, h⟩ := exists_of_bind_eq_ok h
  obtain ⟨ms, hms, h⟩ := exists_of_bind_eq_ok h
  cases h
  exact ⟨m, ms, value_of_checkField hm, hms, rfl⟩

theorem numbered_of_checkFields {parent : Node} {name : String} {declares : Bool} {i : Nat}
    {vs : List Value} {ns : List Node}
    (h : parent.checkFields (numberedFields name declares i vs) = .ok ns) : vs = ns.map .node := by
  rw [← map_value_of_checkFields h]
  clear h
  induction vs generalizing i with
  | nil => rfl
  | cons v vs ih => rw [numberedFields, List.map_cons, ← ih]

/-- A node that has the children that it should have, and these. -/
inductive HasChildren : Node → List Node → Prop where
  | literal (mark : Nat) (v : Value) (type : StaticType) : HasChildren (.literal mark v type) []
  | parameter (p : Parameter) : HasChildren (.parameter p) []
  | static (mark : Nat) (name owner : Value) (type : StaticType) :
      HasChildren (.member mark .absent name owner type) []
  | member (mark : Nat) (e : Node) (name owner : Value) (type : StaticType) :
      HasChildren (.member mark (.node e) name owner type) [e]
  | unary (mark : Nat) (op : UnaryOp) (x : Node) (type : StaticType) :
      HasChildren (.unary mark op (.node x) type) [x]
  | binary (mark : Nat) (op : BinaryOp) (l r : Node) (type : StaticType) :
      HasChildren (.binary mark op (.node l) (.node r) type) [l, r]
  | conditional (mark : Nat) (c x y : Node) (type : StaticType) :
      HasChildren (.conditional mark (.node c) (.node x) (.node y) type) [c, x, y]
  | call (mark : Nat) (f : Node) (row : Nat) (args : List Node) (type : StaticType) :
      HasChildren (.call mark (.node f) row (args.map .node) type) (f :: args)
  | lambda (mark row : Nat) (ps : List Parameter) (b : Node) :
      HasChildren (.lambda mark row (declarations ps) (.node b)) (ps.map .parameter ++ [b])

/-- Where the children of a node pass the check, the node is one of these kinds. -/
theorem hasChildren_of_childNodes {ns : List Node} (h : n.childNodes = .ok ns) :
    n.HasChildren ns := by
  cases n with
  | literal mark v type =>
    cases h
    exact .literal mark v type
  | parameter p =>
    cases h
    exact .parameter p
  | member mark expression name owner type =>
    obtain ⟨fs, hfs, hchecked⟩ := exists_of_bind_eq_ok h
    cases hfs
    cases expression with
    | absent =>
      cases hchecked
      exact .static mark name owner type
    | node e =>
      cases hchecked
      exact .member mark e name owner type
    | _ => cases hchecked
  | unary mark op operand type =>
    obtain ⟨x, _, hx, hnone, rfl⟩ := node_of_checkFields h
    cases hnone
    cases hx
    exact .unary mark op x type
  | binary mark op left right type =>
    obtain ⟨l, _, hl, hrest, rfl⟩ := node_of_checkFields h
    obtain ⟨r, _, hr, hnone, rfl⟩ := node_of_checkFields hrest
    cases hnone
    cases hl
    cases hr
    exact .binary mark op l r type
  | conditional mark test ifTrue ifFalse type =>
    obtain ⟨c, _, hc, hbranches, rfl⟩ := node_of_checkFields h
    obtain ⟨x, _, hx, hrest, rfl⟩ := node_of_checkFields hbranches
    obtain ⟨y, _, hy, hnone, rfl⟩ := node_of_checkFields hrest
    cases hnone
    cases hc
    cases hx
    cases hy
    exact .conditional mark c x y type
  | call mark function row arguments type =>
    obtain ⟨f, args, hf, hargs, rfl⟩ := node_of_checkFields h
    cases hf
    cases numbered_of_checkFields hargs
    exact .call mark f row args type
  | lambda mark row parameters body =>
    change checkFields _ (_ ++ _) = _ at h
    rw [checkFields_append] at h
    obtain ⟨ds, hds, hrest⟩ := exists_of_bind_eq_ok h
    obtain ⟨bs, hbs, hall⟩ := exists_of_bind_eq_ok hrest
    cases hall
    obtain ⟨ps, rfl, rfl⟩ := declarations_of_checkFields hds
    obtain ⟨b, _, hb, hnone, rfl⟩ := node_of_checkFields hbs
    cases hnone
    cases hb
    exact .lambda mark row ps b
  | unknown mark kind => cases h

theorem HasChildren.childNodes {ns : List Node} (h : n.HasChildren ns) : n.childNodes = .ok ns := by
  cases h with
  | call mark f row args type => exact childNodes_call mark f row args type
  | lambda mark row ps b => exact childNodes_lambda mark row ps b
  | _ => rfl

theorem lambda_of_childNodes {ns : List Node} (h : n.childNodes = .ok ns)
    (hl : n.kind? = some .lambda) : ∃ mark row ps b,
      n = .lambda mark row (declarations ps) (.node b) ∧ ns = ps.map .parameter ++ [b] := by
  cases hasChildren_of_childNodes h with
  | lambda mark row ps b => exact ⟨mark, row, ps, b, rfl, rfl⟩
  | _ => cases hl

/-! ### Trees kind by kind -/

namespace All

theorem holds (h : n.All P) : P n := by
  cases h
  assumption

theorem children (h : n.All P) : ∃ ns, n.childNodes = .ok ns ∧ ∀ m ∈ ns, m.All P := by
  cases h with
  | intro ns children _ below => exact ⟨ns, children, below⟩

theorem of_childNodes {ns : List Node} {m : Node} (h : n.All P) (hn : n.childNodes = .ok ns)
    (hm : m ∈ ns) : m.All P := by
  obtain ⟨ms, hms, below⟩ := h.children
  cases hn.symm.trans hms
  exact below m hm

theorem of_lambda {mark row : Nat} {ps : List Parameter} {b : Node}
    (h : (Node.lambda mark row (declarations ps) (.node b)).All P) : b.All P := by
  obtain ⟨ns, hns, below⟩ := h.children
  cases (childNodes_lambda mark row ps b).symm.trans hns
  exact below b (by simp)

theorem mono (h : n.All P) (imp : ∀ m, P m → Q m) : n.All Q := by
  induction h with
  | intro ns children holds _ ih => exact ⟨ns, children, imp _ holds, ih⟩

/-- What every node of a tree has, every node of every sub-tree has. -/
theorem subtrees (h : n.All P) : n.All fun m => m.All P := by
  induction h with
  | intro ns children holds below ih =>
    exact .intro ns children (.intro ns children holds below) ih

theorem and (h : n.All P) (h' : n.All Q) : n.All fun m => P m ∧ Q m := by
  induction h with
  | intro ns children holds _ ih =>
    obtain ⟨ms, hms, below⟩ := h'.children
    cases children.symm.trans hms
    exact ⟨ns, children, ⟨holds, h'.holds⟩, fun m hm => ih m hm (below m hm)⟩

theorem wellFormed (h : n.All P) : n.WellFormed := h.mono fun _ _ => trivial

/-- Induction over the well-formed trees, kind by kind. -/
@[elab_as_elim]
theorem induction {motive : (n : Node) → n.All P → Prop}
    (literal : ∀ mark v type h, P (.literal mark v type) → motive (.literal mark v type) h)
    (parameter : ∀ p h, P (.parameter p) → motive (.parameter p) h)
    (static : ∀ mark name owner type h, P (.member mark .absent name owner type) →
      motive (.member mark .absent name owner type) h)
    (member : ∀ mark e name owner type h (he : e.All P),
      P (.member mark (.node e) name owner type) → motive e he →
      motive (.member mark (.node e) name owner type) h)
    (unary : ∀ mark op x type h (hx : x.All P), P (.unary mark op (.node x) type) →
      motive x hx → motive (.unary mark op (.node x) type) h)
    (binary : ∀ mark op l r type h (hl : l.All P) (hr : r.All P),
      P (.binary mark op (.node l) (.node r) type) → motive l hl → motive r hr →
      motive (.binary mark op (.node l) (.node r) type) h)
    (conditional : ∀ mark c x y type h (hc : c.All P) (hx : x.All P) (hy : y.All P),
      P (.conditional mark (.node c) (.node x) (.node y) type) → motive c hc → motive x hx →
      motive y hy → motive (.conditional mark (.node c) (.node x) (.node y) type) h)
    (call : ∀ mark f row (args : List Node) type h (hf : f.All P) (hargs : ∀ a ∈ args, a.All P),
      P (.call mark (.node f) row (args.map .node) type) → motive f hf →
      (∀ a (ha : a ∈ args), motive a (hargs a ha)) →
      motive (.call mark (.node f) row (args.map .node) type) h)
    (lambda : ∀ mark row (ps : List Parameter) b h (hb : b.All P),
      P (.lambda mark row (declarations ps) (.node b)) → (∀ p ∈ ps, P (.parameter p)) →
      motive b hb → motive (.lambda mark row (declarations ps) (.node b)) h)
    (h : n.All P) : motive n h := by
  induction h with
  | @intro n ns children holds below ih =>
    cases hasChildren_of_childNodes children with
    | literal mark v type => exact literal mark v type _ holds
    | parameter p => exact parameter p _ holds
    | static mark name owner type => exact static mark name owner type _ holds
    | member mark e name owner type =>
      have he : e ∈ [e] := List.mem_singleton_self e
      exact member mark e name owner type _ (below e he) holds (ih e he)
    | unary mark op x type =>
      have hx : x ∈ [x] := List.mem_singleton_self x
      exact unary mark op x type _ (below x hx) holds (ih x hx)
    | binary mark op l r type =>
      have hl : l ∈ [l, r] := by simp
      have hr : r ∈ [l, r] := by simp
      exact binary mark op l r type _ (below l hl) (below r hr) holds (ih l hl) (ih r hr)
    | conditional mark c x y type =>
      have hc : c ∈ [c, x, y] := by simp
      have hx : x ∈ [c, x, y] := by simp
      have hy : y ∈ [c, x, y] := by simp
      exact conditional mark c x y type _ (below c hc) (below x hx) (below y hy) holds (ih c hc)
        (ih x hx) (ih y hy)
    | call mark f row args type =>
      have hf : f ∈ f :: args := List.mem_cons_self
      have hargs : ∀ a ∈ args, a ∈ f :: args := fun a ha => List.mem_cons_of_mem f ha
      exact call mark f row args type _ (below f hf) (fun a ha => below a (hargs a ha)) holds
        (ih f hf) fun a ha => ih a (hargs a ha)
    | lambda mark row ps b =>
      have hb : b ∈ ps.map .parameter ++ [b] := by simp
      have hps : ∀ p ∈ ps, Node.parameter p ∈ ps.map .parameter ++ [b] := fun p hp => by simp [hp]
      exact lambda mark row ps b _ (below b hb) holds
        (fun p hp => (below (.parameter p) (hps p hp)).holds) (ih b hb)

end All

end Node

end PredicateTree
