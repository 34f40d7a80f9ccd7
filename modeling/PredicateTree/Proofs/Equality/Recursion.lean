import PredicateTree.Proofs.Tree.Rebuilding
import PredicateTree.Tree.Equality

/-!
# Structural equality as recursion

`Node.Equal` says by recursion when two trees are equal: they are the same thing, or they are of one
kind, agree in type and label (`Node.Agree`) and have as many children, which are equal pairwise.
Parameters are equal only where they are the same thing.

Two trees are compared with a stack of pairs.  The pairs on a stack are compared one after the other
(`equalLoop_append`), and the pairs of children lie on top of what is left to do.  So the stack is
only a way to compute a recursion: two nodes that are not the same thing are compared by their labels,
and then by their children from the last pair to the first (`structurallyEqual_node`).
-/

namespace PredicateTree

/-! ### Identity -/

/-- Everything is one and the same thing as itself. -/
theorem Value.identical_self : ∀ v : Value, v.identical v = true
  | .bound m r f => by simp [identical, identical_self r, identical_self f]
  | .node n => n.identical_self
  | .tuple _ vs => by cases vs <;> simp [identical]
  | .absent | .bool _ | .int .. | .float .. | .str .. | .list _ | .dict .. | .mapping .. | .type _
  | .union .. | .mathematics | .named _ | .operator _ | .method .. | .objectMethod _ | .tracer ..
  | .raiser .. | .object _ | .binaryOp _ | .unaryOp _ | .nodeKind _ | .closure .. => by
    simp [identical]

theorem Node.identical_symm {n m : Node} (h : n.identical m = true) : m.identical n = true := by
  unfold identical at h
  split at h
  case h_10 => cases h
  all_goals
    cases beq_iff_eq.1 h
    exact beq_iff_eq.2 rfl

theorem Node.identical_trans {n m k : Node} (h : n.identical m = true)
    (h' : m.identical k = true) : n.identical k = true := by
  unfold identical at h
  split at h
  case h_10 => cases h
  all_goals
    cases beq_iff_eq.1 h
    cases k <;> exact h'

theorem Value.identical_symm {v w : Value} (h : v.identical w = true) : w.identical v = true := by
  fun_induction identical v w with
  | case25 n m => exact Node.identical_symm h
  | _ => simp_all [identical]

theorem Value.identical_trans {v w u : Value} (h : v.identical w = true)
    (h' : w.identical u = true) : v.identical u = true := by
  fun_induction identical v w generalizing u with
  | case25 n m =>
    cases u with
    | node k => exact Node.identical_trans h h'
    | _ => cases h'
  | case18 m r x n t y ihr ihx =>
    cases u with
    | bound k q z =>
      simp only [identical, Bool.and_eq_true, beq_iff_eq] at h h' ⊢
      exact ⟨⟨h.1.1.trans h'.1.1, ihr h.1.2 h'.1.2⟩, ihx h.2 h'.2⟩
    | _ => cases h'
  | case27 => cases h
  | _ => cases u <;> first | exact h' | cases h' | simp_all [identical]

theorem Value.settled?_self (turned : Bool) (v : Value) :
    settled? turned v v = some (pure true) := by
  cases v with
  | int | str => simp [settled?]
  | _ =>
    rw [settled?]
    · cases turned <;> simp [identical_self]
    · simp
    · simp

/-- Everything is the same as itself. -/
theorem Value.same_self (v : Value) : v.same v = pure true := by
  rw [same, sameBy.eq_def, settled?_self]

/-- Everything that is a number, if it counts as one, equals itself. -/
theorem Value.equal_self {v : Value} (h : ∀ mark x, v = .float mark x → (x == x) = true) :
    v.equal v = pure true := by
  cases v with
  | float mark x => rw [equal, equalGiven, h mark x rfl]
  | _ => exact same_self _

/-! ### The recursive definition -/

namespace Node

/-- Two nodes of one kind agree in type and label, where `R` says which values of literals agree and
`N` which names of members.  Parameters do not. -/
inductive Agree (R N : Value → Value → Prop) : Node → Node → Prop where
  | literal {mark mark' : Nat} {v w : Value} {type : StaticType} (value : R v w) :
      Agree R N (.literal mark v type) (.literal mark' w type)
  | member {mark mark' : Nat} {e e' m n o q : Value} {type : StaticType} (name : N m n)
      (owner : o.identical q = true) : Agree R N (.member mark e m o type) (.member mark' e' n q type)
  | unary {mark mark' : Nat} {op : UnaryOp} {x x' : Value} {type : StaticType} :
      Agree R N (.unary mark op x type) (.unary mark' op x' type)
  | binary {mark mark' : Nat} {op : BinaryOp} {l l' r r' : Value} {type : StaticType} :
      Agree R N (.binary mark op l r type) (.binary mark' op l' r' type)
  | conditional {mark mark' : Nat} {c c' x x' y y' : Value} {type : StaticType} :
      Agree R N (.conditional mark c x y type) (.conditional mark' c' x' y' type)
  | call {mark mark' row row' : Nat} {f f' : Value} {args args' : List Value}
      {type : StaticType} : Agree R N (.call mark f row args type) (.call mark' f' row' args' type)
  | lambda {mark mark' row row' : Nat} {ps ps' : List Value} {b b' : Value} :
      Agree R N (.lambda mark row ps b) (.lambda mark' row' ps' b')

theorem Agree.symm {R N R' N' : Value → Value → Prop} {n m : Node} (h : n.Agree R N m)
    (hR : ∀ {v w}, R v w → R' w v) (hN : ∀ {v w}, N v w → N' w v) : m.Agree R' N' n := by
  cases h with
  | literal value => exact .literal (hR value)
  | member name owner => exact .member (hN name) (Value.identical_symm owner)
  | _ => constructor

/-- Two trees are the same thing, or they agree in kind, type and label, and their children, as many
on both sides, are equal pairwise. -/
inductive Equal (R N : Value → Value → Prop) : Node → Node → Prop where
  | identical {n m : Node} (h : n.identical m = true) : Equal R N n m
  | agree {n m : Node} {ns ms : List Node} (label : Agree R N n m) (left : n.childNodes = .ok ns)
      (right : m.childNodes = .ok ms) (length : ns.length = ms.length)
      (each : ∀ e ∈ ns.zip ms, Equal R N e.1 e.2) : Equal R N n m

namespace Equal

variable {R N : Value → Value → Prop} {n m k : Node} {ns ms : List Node}

theorem refl (n : Node) : Equal R N n n := .identical n.identical_self

/-- Nodes that are not the same thing are equal if they agree and their children are equal. -/
theorem iff_children (hid : ¬ n.identical m = true) (hn : n.childNodes = .ok ns)
    (hm : m.childNodes = .ok ms) : Equal R N n m ↔
      Agree R N n m ∧ ns.length = ms.length ∧ ∀ e ∈ (ns.zip ms).reverse, Equal R N e.1 e.2 := by
  constructor
  · intro h
    cases h with
    | identical h => exact absurd h hid
    | agree label left right length each =>
      cases hn.symm.trans left
      cases hm.symm.trans right
      exact ⟨label, length, fun e he => each e (List.mem_reverse.1 he)⟩
  · rintro ⟨label, length, each⟩
    exact .agree label hn hm length fun e he => each e (List.mem_reverse.2 he)

end Equal

end Node

/-! ### Kinds -/

/-- Two nodes of one kind over children that are related by `Q`, kind by kind; `P` says which
parameters stand side by side. -/
inductive Node.Alongside (R N : Value → Value → Prop) (P : Parameter → Parameter → Prop)
    (Q : Node → Node → Prop) : Node → Node → Prop where
  | literal {mark mark' : Nat} {v w : Value} {type : StaticType} (h : R v w) :
      Alongside R N P Q (.literal mark v type) (.literal mark' w type)
  | parameter {p q : Parameter} (h : P p q) : Alongside R N P Q (.parameter p) (.parameter q)
  | static {mark mark' : Nat} {a b o q : Value} {type : StaticType} (hname : N a b)
      (howner : o.identical q = true) :
      Alongside R N P Q (.member mark .absent a o type) (.member mark' .absent b q type)
  | member {mark mark' : Nat} {e e' : Node} {a b o q : Value} {type : StaticType} (hname : N a b)
      (he : Q e e') :
      Alongside R N P Q (.member mark (.node e) a o type) (.member mark' (.node e') b q type)
  | unary {mark mark' : Nat} {op : UnaryOp} {x x' : Node} {type : StaticType} (hx : Q x x') :
      Alongside R N P Q (.unary mark op (.node x) type) (.unary mark' op (.node x') type)
  | binary {mark mark' : Nat} {op : BinaryOp} {l l' r r' : Node} {type : StaticType}
      (hl : Q l l') (hr : Q r r') :
      Alongside R N P Q (.binary mark op (.node l) (.node r) type)
        (.binary mark' op (.node l') (.node r') type)
  | conditional {mark mark' : Nat} {c c' x x' y y' : Node} {type : StaticType} (hc : Q c c')
      (hx : Q x x') (hy : Q y y') :
      Alongside R N P Q (.conditional mark (.node c) (.node x) (.node y) type)
        (.conditional mark' (.node c') (.node x') (.node y') type)
  | call {mark mark' row row' : Nat} {f f' : Node} {args args' : List Node} {type : StaticType}
      (hf : Q f f') (hargs : List.Forall₂ Q args args') :
      Alongside R N P Q (.call mark (.node f) row (args.map .node) type)
        (.call mark' (.node f') row' (args'.map .node) type)
  | lambda {mark mark' row row' : Nat} {ps qs : List Parameter} {b b' : Node}
      (hall : List.Forall₂ Q (ps.map .parameter ++ [b]) (qs.map .parameter ++ [b'])) :
      Alongside R N P Q (.lambda mark row (Node.declarations ps) (.node b))
        (.lambda mark' row' (Node.declarations qs) (.node b'))

/-- Nodes that agree are of one kind. -/
theorem Node.Agree.alongside {R N : Value → Value → Prop} {P : Parameter → Parameter → Prop}
    {Q : Node → Node → Prop} {n m : Node} {ns ms : List Node} (h : n.Agree R N m)
    (hn : n.childNodes = .ok ns) (hm : m.childNodes = .ok ms) (hall : List.Forall₂ Q ns ms) :
    n.Alongside R N P Q m := by
  cases h with
  | literal value => exact .literal value
  | member name owner =>
    cases Node.hasChildren_of_childNodes hn with
    | static =>
      cases hall
      cases Node.hasChildren_of_childNodes hm with
      | static => exact .static name owner
    | member =>
      obtain _ | ⟨he, ⟨⟩⟩ := hall
      cases Node.hasChildren_of_childNodes hm with
      | member => exact .member name he
  | unary =>
    cases Node.hasChildren_of_childNodes hn with
    | unary =>
      cases Node.hasChildren_of_childNodes hm with
      | unary =>
        obtain _ | ⟨hx, -⟩ := hall
        exact .unary hx
  | binary =>
    cases Node.hasChildren_of_childNodes hn with
    | binary =>
      cases Node.hasChildren_of_childNodes hm with
      | binary =>
        obtain _ | ⟨hl, _ | ⟨hr, -⟩⟩ := hall
        exact .binary hl hr
  | conditional =>
    cases Node.hasChildren_of_childNodes hn with
    | conditional =>
      cases Node.hasChildren_of_childNodes hm with
      | conditional =>
        obtain _ | ⟨hc, _ | ⟨hx, _ | ⟨hy, -⟩⟩⟩ := hall
        exact .conditional hc hx hy
  | call =>
    cases Node.hasChildren_of_childNodes hn with
    | call =>
      cases Node.hasChildren_of_childNodes hm with
      | call =>
        obtain _ | ⟨hf, hargs⟩ := hall
        exact .call hf hargs
  | lambda =>
    cases Node.hasChildren_of_childNodes hn with
    | lambda =>
      cases Node.hasChildren_of_childNodes hm with
      | lambda => exact .lambda hall

/-! ### The stack -/

theorem Node.fields_of_childNodes {n : Node} {ns : List Node} (h : n.childNodes = .ok ns) :
    ∃ fs, n.fields = .ok fs ∧ fs.map (·.value) = ns.map .node := by
  obtain ⟨fs, hfs, hchecked⟩ := exists_of_bind_eq_ok h
  exact ⟨fs, hfs, map_value_of_checkFields hchecked⟩

/-- A pair of nodes, as work. -/
def nodePair (e : Node × Node) : Value × Value := (.node e.1, .node e.2)

theorem fieldPairs_eq {fs gs : List Field} {ns ms : List Node}
    (hf : fs.map (·.value) = ns.map .node) (hg : gs.map (·.value) = ms.map .node) :
    fieldPairs fs gs = (ns.zip ms).reverse.map nodePair := by
  have hzip : (fs.zip gs).map (fun p => (p.1.value, p.2.value)) = (ns.zip ms).map nodePair := by
    have hvalues := (List.zip_map : _ = (fs.zip gs).map (Prod.map (·.value) (·.value)))
    rw [hf, hg, List.zip_map] at hvalues
    exact hvalues.symm
  rw [fieldPairs, hzip, List.map_reverse]

/-- Two nodes that are not the same thing are compared by their labels, and then their children are
work. -/
theorem equalLoop_node {a b : Node} {fs gs : List Field} (hid : ¬ a.identical b = true)
    (ha : a.fields = .ok fs) (hb : b.fields = .ok gs) (rest : List (Value × Value)) :
    equalLoop ((.node a, .node b) :: rest) = do
      if ← a.sameLabel b then
        if fs.length = gs.length then equalLoop (fieldPairs fs gs ++ rest) else return false
      else return false := by
  rw [equalLoop, if_neg hid]
  refine bind_congr fun agrees => ?_
  split
  · split
    · rename_i hstray
      cases ha.symm.trans hstray
    · rename_i hstray _
      cases hb.symm.trans hstray
    · rename_i hfs hgs
      cases ha.symm.trans hfs
      cases hb.symm.trans hgs
      rfl
  · rfl

/-- The pairs on a stack are compared one after the other. -/
theorem equalLoop_append (es fs : List (Value × Value)) :
    equalLoop (es ++ fs) = do if ← equalLoop es then equalLoop fs else return false := by
  induction es using equalLoop.induct with
  | case1 => rw [List.nil_append, equalLoop, pure_bind, if_pos rfl]
  | case2 a b rest hid ih =>
    rw [List.cons_append, equalLoop, if_pos hid, ih, equalLoop.eq_def ((.node a, .node b) :: rest)]
    simp only [hid, if_true]
  | case3 a b rest hid ih =>
    rw [List.cons_append, equalLoop, if_neg hid, equalLoop.eq_def ((.node a, .node b) :: rest)]
    simp only [if_neg hid, bind_assoc]
    refine bind_congr fun agrees => ?_
    cases agrees with
    | false => simp
    | true =>
      simp only [if_true]
      split
      · rw [Stray.raise, bind_assoc]
        rfl
      · rw [Stray.raise, bind_assoc]
        rfl
      · rename_i ks ls hks _
        split
        · rw [← List.append_assoc, ih ks ls hks]
        · rfl
  | case4 v w rest hne ih =>
    rw [List.cons_append, equalLoop, equalLoop]
    · simp only [bind_assoc]
      refine bind_congr fun agrees => ?_
      cases agrees with
      | false => rfl
      | true => exact ih
    · exact hne
    · exact hne

/-- Pairs of trees on a stack are compared one after the other. -/
theorem equalLoop_nodePairs (es : List (Node × Node)) :
    equalLoop (es.map nodePair) =
      allHold (fun e => structurallyEqual (.node e.1) (.node e.2)) es := by
  induction es with
  | nil => rw [List.map_nil, equalLoop, allHold]
  | cons e es ih =>
    rw [List.map_cons, ← List.singleton_append, equalLoop_append, ih, allHold]
    rfl

/-! ### Trees -/

variable {n m : Node} {ns ms : List Node}

theorem structurallyEqual_of_identical (h : n.identical m = true) :
    structurallyEqual (.node n) (.node m) = pure true := by
  rw [structurallyEqual, equalLoop, if_pos h, equalLoop]

/-- Two nodes that are not the same thing are compared by their labels, and then by their children,
the last ones first. -/
theorem structurallyEqual_node (hid : ¬ n.identical m = true) (hn : n.childNodes = .ok ns)
    (hm : m.childNodes = .ok ms) :
    structurallyEqual (.node n) (.node m) = do
      if ← n.sameLabel m then
        if ns.length = ms.length then
          allHold (fun e => structurallyEqual (.node e.1) (.node e.2)) (ns.zip ms).reverse
        else return false
      else return false := by
  obtain ⟨fs, hfs, hf⟩ := Node.fields_of_childNodes hn
  obtain ⟨gs, hgs, hg⟩ := Node.fields_of_childNodes hm
  have hlength : fs.length = ns.length := by
    simpa only [List.length_map] using congrArg List.length hf
  have hlength' : gs.length = ms.length := by
    simpa only [List.length_map] using congrArg List.length hg
  rw [structurallyEqual, equalLoop_node hid hfs hgs, List.append_nil, fieldPairs_eq hf hg,
    equalLoop_nodePairs, hlength, hlength']

end PredicateTree
