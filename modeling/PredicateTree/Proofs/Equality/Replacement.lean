import PredicateTree.Proofs.Equality.Recursion
import PredicateTree.Proofs.Tree.Positions
import PredicateTree.Value.Attribute

/-!
# Reading and replacing children

Reading the children of a node and replacing them are two functions that distinguish the kinds each
for itself.  They agree (`withChildren_lens`): what was put in the places of children is read back,
a node over its own children is the node, and of two replacements only the last one shows.  Only
children change, so what a node is besides them stays as it is (`Node.withChildren_label`), and
nodes of one label are equal as soon as their children are (`Node.structurallyEqual_of_label`).
-/

namespace PredicateTree

theorem allHold_of_forall {α : Type} {test : α → Action Bool} {as : List α}
    (h : ∀ a ∈ as, test a = pure true) : allHold test as = pure true := by
  induction as with
  | nil => rfl
  | cons a as ih =>
    rw [allHold, h a List.mem_cons_self, pure_bind, if_pos rfl]
    exact ih fun b hb => h b (List.mem_cons_of_mem a hb)

namespace Node

variable {n m r q : Node} {ns ms ks js : List Node} {c : Caller} {s : Session}

/-! ### Labels -/

/-- The fields that are no children of a node and tell it from other nodes of its class. -/
def labelFields : List String := ["kind", "type_", "op", "member", "owner"]

/-- Nodes of one label differ in their children only. -/
theorem field?_of_label (h : m.label = n.label) (store : Store) {name : String}
    (hname : name ∈ labelFields) : m.field? store name = n.field? store name := by
  simp only [labelFields, List.mem_cons, List.not_mem_nil, or_false] at hname
  cases n <;> cases m <;> cases h <;> rcases hname with rfl | rfl | rfl | rfl | rfl <;> rfl

theorem kind?_of_label (h : m.label = n.label) : m.kind? = n.kind? := by
  cases n <;> cases m <;> cases h <;> rfl

/-- Only a parameter has the label of one. -/
theorem eq_of_label_parameter {p : Parameter} (h : m.label = .parameter p) : m = .parameter p := by
  cases m <;> cases h
  rfl

/-- The name of a member, if the node is one, equals itself, as every text does. -/
def Named (n : Node) : Prop :=
  ∀ name owner type, n.label = .member name owner type → name.equal name = pure true

theorem Named.of_label (hn : n.Named) (h : m.label = n.label) : m.Named := by
  rwa [Named, h]

theorem sameLabel_of_label (other : r.asParameter? = none) (hnamed : r.Named)
    (h : q.label = r.label) : r.sameLabel q = pure true := by
  cases r with
  | parameter => cases other
  | literal _ v type =>
    cases q with
    | literal =>
      cases h
      rw [sameLabel, if_pos rfl, Value.same_self]
    | _ => cases h
  | member _ _ name owner type =>
    cases q with
    | member =>
      cases h
      rw [sameLabel, if_pos rfl, hnamed name owner type rfl, pure_bind, if_pos rfl,
        Value.identical_self]
    | _ => cases h
  | _ =>
    cases q <;> cases h
    simp [sameLabel]

/-- Nodes of one label are equal where their children are. -/
theorem structurallyEqual_of_label (hnamed : n.Named) (h : m.label = n.label)
    (hn : n.childNodes = .ok ns) (hm : m.childNodes = .ok ms)
    (hall : List.Forall₂ (fun k l => structurallyEqual (.node k) (.node l) = pure true) ns ms) :
    structurallyEqual (.node n) (.node m) = pure true := by
  by_cases hid : n.identical m = true
  · exact structurallyEqual_of_identical hid
  · have other : n.asParameter? = none := by
      cases n with
      | parameter p =>
        rw [eq_of_label_parameter h] at hid
        exact absurd (identical_self _) hid
      | _ => rfl
    rw [structurallyEqual_node hid hn hm, sameLabel_of_label other hnamed h, pure_bind, if_pos rfl,
      if_pos hall.length_eq]
    exact allHold_of_forall fun e he => zip_of_forall₂ hall e (List.mem_reverse.1 he)

/-! ### Replacing children -/

/-- What a node takes, every node of its label takes. -/
theorem Takes.of_label (hks : n.Takes ns ks) (h : m.label = n.label)
    (length : ms.length = ns.length) : m.Takes ms ks :=
  ⟨length.trans hks.length, fun hl => hks.declared (by rwa [← kind?_of_label h])⟩

/-- A node over new children is a node of its label over them. -/
theorem withChildren_label (hn : n.childNodes = .ok ns) (hks : n.Takes ns ks) (c : Caller)
    (s : Session) :
    ∃ m ms t, (n.withChildren (ks.map .node)).run c s = (.done m, t) ∧ m.childNodes = .ok ms ∧
      List.Forall₂ (fun k l => k.identical l = true) ms ks ∧ m.label = n.label := by
  rcases withChildren_cases hn hks c s with ⟨hid, hrun⟩ | ⟨used, -, hrun⟩
  · exact ⟨n, ns, s, hrun, hn, (allIdentical_iff hks.length).1 hid, rfl⟩
  · exact ⟨_, ks, _, hrun, (hasChildren_upon hn hks _ _).childNodes,
      List.forall₂_same.2 fun k _ => k.identical_self, label_upon n _ _ _⟩

/-- A node that has no children is left as it is. -/
theorem withChildren_childless (hn : n.childNodes = .ok []) (hks : n.Takes [] ks) :
    n.withChildren (ks.map .node) = pure n := by
  cases List.eq_nil_of_length_eq_zero hks.length.symm
  exact withChildren_self hn

/-- A node refuses children that are more or fewer than its own. -/
theorem withChildren_refuses (hn : n.childNodes = .ok ns) {vs : List Value}
    (hvs : vs.length ≠ ns.length) :
    n.withChildren vs = Action.fail (.childCount n.className ns.length vs.length) := by
  rw [withChildren, children, hn, Stray.orRaise, pure_bind, if_pos hvs]

/-- Children that were put in the places of others and replaced again do not show. -/
theorem withChildren_withChildren (hn : n.childNodes = .ok ns) (hm : m.childNodes = .ok ms)
    (hlabel : m.label = n.label) (length : ms.length = ns.length) (hnamed : n.Named)
    (hjs : n.Takes ns js) (c c' : Caller) (s s' : Session) :
    ∃ r q t t', (m.withChildren (js.map .node)).run c s = (.done r, t) ∧
      (n.withChildren (js.map .node)).run c' s' = (.done q, t') ∧
      structurallyEqual (.node r) (.node q) = pure true := by
  obtain ⟨r, rs, t, hr, hrs, hrjs, hrlabel⟩ :=
    withChildren_label hm (hjs.of_label hlabel length) c s
  obtain ⟨q, qs, t', hq, hqs, hqjs, hqlabel⟩ := withChildren_label hn hjs c' s'
  have hsame : r.label = n.label := hrlabel.trans hlabel
  have hall : List.Forall₂
      (fun k l => structurallyEqual (.node k) (.node l) = pure true) rs qs :=
    forall₂_of_both hrjs.flip hqjs.flip fun _ _ _ _ hk hl =>
      structurallyEqual_of_identical (identical_trans hk (identical_symm hl))
  exact ⟨r, q, t, t', hr, hq, structurallyEqual_of_label (hnamed.of_label hsame)
    (hqlabel.trans hsame.symm) hrs hqs hall⟩

end Node

/-- The children of a node and their replacement are a lens.  Over its own children a node comes
back as it is.  Over others that it takes, it is a node with the same fields otherwise, which has
these children, and it is the old node if each of them is the old child; a node without children
always is.  What was put in before shows no more after the next replacement (a name that equals
itself, as every text does, is told to be the same).  As many children as it has a node takes, and
no other number. -/
theorem withChildren_lens {n : Node} {ns : List Node} {s : Session} (hn : n.childNodes = .ok ns)
    (hold : n.Older s) (c : Caller) :
    n.withChildren (ns.map .node) = pure n ∧
    (∀ ks, n.Takes ns ks → ∃ m ms t, (n.withChildren (ks.map .node)).run c s = (.done m, t) ∧
      m.children = pure ms ∧ List.Forall₂ (fun k l => k.identical l = true) ms ks ∧
      (n.identical m = true ↔ List.Forall₂ (fun k l => k.identical l = true) ns ks) ∧
      (n.identical m = true → m = n ∧ t = s) ∧ (ns = [] → m = n) ∧
      (∀ store, ∀ name ∈ Node.labelFields, m.field? store name = n.field? store name) ∧
      (n.Named → ∀ js, n.Takes ns js → ∀ c' s', ∃ r q u u',
        (m.withChildren (js.map .node)).run c t = (.done r, u) ∧
        (n.withChildren (js.map .node)).run c' s' = (.done q, u') ∧
        structurallyEqual (.node r) (.node q) = pure true)) ∧
    ∀ vs : List Value, vs.length ≠ ns.length → ∃ f, n.withChildren vs = Action.raise f ∧
      f.errorClass = .value := by
  refine ⟨Node.withChildren_self hn, fun ks hks => ?_,
    fun vs hvs => ⟨_, Node.withChildren_refuses hn hvs, rfl⟩⟩
  obtain ⟨m, ms, t, hrun, hm, hms, hlabel⟩ := Node.withChildren_label hn hks c s
  have hiff := Node.identical_withChildren_iff hn hold hks hrun
  have hlength : ms.length = ns.length := hms.length_eq.trans hks.length.symm
  refine ⟨m, ms, t, hrun, ?_, hms, hiff, fun hid => ?_, ?_,
    fun store name hname => Node.field?_of_label hlabel store hname, fun hnamed js hjs c' s' =>
      Node.withChildren_withChildren hn hm hlabel hlength hnamed hjs c c' t s'⟩
  · rw [Node.children, hm, Stray.orRaise]
  · have hall := (Node.allIdentical_iff hks.length).2 (hiff.1 hid)
    rw [Node.withChildren_eq hn hks, if_pos hall] at hrun
    cases hrun
    exact ⟨rfl, rfl⟩
  · rintro rfl
    rw [Node.withChildren_childless hn hks] at hrun
    cases hrun
    rfl

/-- A function of one parameter gets another parameter and another body, then a third one of each;
it refuses to be left without children. -/
theorem withChildren_lens_lambda :
    let x : Parameter := ⟨1, "x", .int, 0⟩
    let y : Parameter := ⟨2, "y", .str, 0⟩
    let z : Parameter := ⟨3, "z", .bool, 0⟩
    let seven : Node := .literal 4 (.ofInt 7) .int
    let n : Node := .lambda 5 6 [.node (.parameter x)] (.node (.parameter x))
    let c : Caller := fun f _ s => (.done f, s)
    let s : Session := { nextMark := 7 }
    (∃ m ms t r q u u',
      (n.withChildren [.node (.parameter y), .node seven]).run c s = (.done m, t) ∧
      m.children = pure ms ∧
      List.Forall₂ (fun k l => k.identical l = true) ms [.parameter y, seven] ∧
      n.identical m = false ∧ m.field? {} "type_" = some (.type .callable) ∧
      (m.withChildren [.node (.parameter z), .node (.parameter z)]).run c t = (.done r, u) ∧
      (n.withChildren [.node (.parameter z), .node (.parameter z)]).run c s = (.done q, u') ∧
      structurallyEqual (.node r) (.node q) = pure true) ∧
    ∃ f, n.withChildren [] = Action.raise f ∧ f.errorClass = .value := by
  intro x y z seven n c s
  have hchildren : n.childNodes = .ok [.parameter x, .parameter x] := rfl
  have htakes (p : Parameter) (b : Node) : n.Takes [.parameter x, .parameter x] [.parameter p, b] :=
    ⟨rfl, fun _ r hr => ⟨p, List.mem_singleton.1 hr⟩⟩
  obtain ⟨-, hover, hrefused⟩ :=
    withChildren_lens (n := n) (s := s) hchildren (fun _ => by decide) c
  obtain ⟨m, ms, t, hrun, hms, hall, hsame, -, -, hfields, hagain⟩ := hover _ (htakes y seven)
  obtain ⟨r, q, u, u', hr, hq, hequal⟩ :=
    hagain (by rintro _ _ _ ⟨⟩) _ (htakes z (.parameter z)) c s
  refine ⟨⟨m, ms, t, r, q, u, u', hrun, hms, hall, ?_, hfields {} "type_" (by decide), hr, hq,
    hequal⟩, hrefused [] (by decide)⟩
  rw [Bool.eq_false_iff, Ne, hsame]
  rintro (_ | ⟨hx, -⟩)
  exact absurd hx (by decide)

end PredicateTree
