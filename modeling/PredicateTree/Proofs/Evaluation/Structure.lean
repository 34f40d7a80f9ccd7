import PredicateTree.Proofs.Evaluation.Containment
import PredicateTree.Proofs.Evaluation.Questions
import PredicateTree.Proofs.Traversal.Orders

/-!
# Structure before evaluation

Evaluation compiles all of a tree before it runs anything.  So a node about which there is a complaint
(`Value.complaint?`), because it has not the children it should have or is a static member without an
owner, ends an evaluation with the complaint, wherever it stands, and nothing else is done
(`Machine.evaluate_checks_first`).

Without such a node, no evaluation ends with the fault of a malformed tree, whatever is called and
whatever that fails with: a failure is reported against its node, and what makes the texts of reports
says nothing of malformed trees (`Node.code_spares`).
-/

namespace PredicateTree

/-! ### Static members without owners -/

/-- A static member without an owner, and its name. -/
def Node.lacksOwner? : Node → Option (Node × Value)
  | .member mark .absent name .absent type => some (.member mark .absent name .absent type, name)
  | _ => none

theorem Node.lacksOwner?_eq_none {n : Node} : n.lacksOwner? = none ↔ n.isOwned = true := by
  unfold lacksOwner? isOwned
  split <;> simp

theorem Node.eq_of_lacksOwner? {n site : Node} {name : Value}
    (h : n.lacksOwner? = some (site, name)) : site = n := by
  unfold lacksOwner? at h
  split at h
  · cases h
    rfl
  · cases h

theorem ownerlessAmong?_eq {ns : List Node}
    (h : ∀ n ∈ ns, n.ownerless? = n.postorder.findSome? Node.lacksOwner?) :
    ownerlessAmong? (ns.map .node) = (ns.flatMap Node.postorder).findSome? Node.lacksOwner? := by
  induction ns with
  | nil => rfl
  | cons n ns ih =>
    rw [List.flatMap_cons, List.findSome?_append, ← h n List.mem_cons_self,
      ← ih fun k hk => h k (List.mem_cons_of_mem n hk)]
    rfl

/-- The static member that compilation refuses is the first one without an owner in post-order. -/
theorem Node.ownerless?_eq {n : Node} (h : n.WellFormed) :
    n.ownerless? = n.postorder.findSome? lacksOwner? := by
  induction h with
  | @intro n ns children _ _ ih =>
    have hbelow := ownerlessAmong?_eq ih
    rw [postorder_of_ok children, List.findSome?_append, ← hbelow]
    cases hasChildren_of_childNodes children with
    | literal | parameter => rfl
    | static mark name owner type => cases owner <;> rfl
    | member | unary | binary | conditional =>
      simp only [List.map_cons, List.map_nil, ownerlessAmong?, Option.or_none]
      exact (Option.or_none).symm
    | call => exact (Option.or_none).symm
    | lambda mark row ps b =>
      rw [ownerlessAmong?_lambda]
      exact (Option.or_none).symm

/-! ### Complaints -/

/-- The nodes that stand in the tree which a value is.  A value that is no node stands for itself. -/
def Value.occurrences : Value → List Value
  | .node n => n.preorder.map .node
  | v => [v]

/-- The complaint about a value in a tree: it is no node, it has not the children it should have, or it
is a static member without an owner. -/
def Value.complaint? : Value → Option (Action Fault)
  | .node n =>
    match n.childNodes with
    | .error stray => some stray.fault
    | .ok _ => n.lacksOwner?.map fun (site, name) => do
      return .malformed (.noOwner (← name.formatted)) (.node site)
  | v => some do return .malformed (.notANode (← Action.typeOf v)) v

theorem all_isOwned_iff {n : Node} :
    n.All (·.isOwned) ↔ ∀ v ∈ (Value.node n).occurrences, v.complaint? = none := by
  rw [Node.all_iff, Value.occurrences, List.forall_mem_map]
  refine forall₂_congr fun k _ => ?_
  rw [Value.complaint?]
  cases hk : k.childNodes with
  | ok ns => simp [Node.stray?_of_ok hk, Node.lacksOwner?_eq_none]
  | error stray => simp [Node.stray?_of_error hk]

theorem isOwned_of_occurrences {v : Value} (h : ∀ w ∈ v.occurrences, w.complaint? = none) :
    ∃ n, v = .node n ∧ n.All (·.isOwned) := by
  cases v with
  | node n => exact ⟨n, rfl, all_isOwned_iff.2 h⟩
  | _ => cases h _ List.mem_cons_self

theorem isOwned_of_ownerless? {n : Node} (h : n.WellFormed) (hn : n.ownerless? = none) :
    n.All (·.isOwned) := by
  rw [Node.ownerless?_eq h, List.findSome?_eq_none_iff] at hn
  refine Node.all_iff.2 fun k hk => ⟨(Node.all_iff.1 h k hk).1, ?_⟩
  exact Node.lacksOwner?_eq_none.1 (hn k (n.postorder_perm.mem_iff.2 hk))

/-- What is refused of trees in which static members have no owners is one of these members. -/
theorem refusing_complaint {n : Node} {ns : List Node}
    (hns : ∀ k ∈ ns, k.WellFormed ∧ k ∈ n.preorder) {e : Node × Value}
    (he : ownerlessAmong? (ns.map .node) = some e) :
    ∃ w ∈ (Value.node n).occurrences, ∃ report, w.complaint? = some report ∧
      ∀ (α : Type) (x : Action α), refusing (some e) x = report >>= Action.raise := by
  rw [ownerlessAmong?_eq fun k hk => Node.ownerless?_eq (hns k hk).1] at he
  obtain ⟨m, hm, hlacks⟩ := List.exists_of_findSome?_eq_some he
  obtain ⟨k, hk, hm⟩ := List.mem_flatMap.1 hm
  have hmem : m ∈ k.preorder := k.postorder_perm.mem_iff.1 hm
  obtain ⟨hwell, hkn⟩ := hns k hk
  have hchildren := Node.childNodes_of_stray? (Node.all_iff.1 hwell m hmem).1
  refine ⟨.node m, List.mem_map_of_mem (Node.mem_preorder_trans hkn hmem), _,
    by rw [Value.complaint?, hchildren, hlacks]; rfl, fun α x => ?_⟩
  rw [refusing]
  simp only [bind_assoc, pure_bind]

/-- A tree about which there is a complaint compiles to nothing but a complaint. -/
theorem compileTree_of_complaint {v : Value} (h : ∃ w ∈ v.occurrences, w.complaint?.isSome) :
    ∃ w ∈ v.occurrences, ∃ report, w.complaint? = some report ∧
      ∀ t, compileTree t v = report >>= Action.raise := by
  cases v with
  | node n =>
    cases hfirst : n.preorder.findSome? Node.stray? with
    | none =>
      have hn := Node.wellFormed_iff.2 hfirst
      cases he : n.ownerless? with
      | none =>
        obtain ⟨w, hw, hcomplaint⟩ := h
        rw [all_isOwned_iff.1 (isOwned_of_ownerless? hn he) w hw] at hcomplaint
        cases hcomplaint
      | some e =>
        have hns : ∀ k ∈ [n], k.WellFormed ∧ k ∈ n.preorder := by
          simpa using ⟨hn, n.self_mem_preorder⟩
        obtain ⟨w, hw, report, hreport, hrefusing⟩ :=
          refusing_complaint hns (he ▸ Option.or_none : n.ownerless?.or none = some e)
        exact ⟨w, hw, report, hreport, fun t => by rw [compileTree_node hn, he, hrefusing]⟩
    | some stray =>
      obtain ⟨before, hbefore, hfold⟩ := recurse_of_malformed Action Code hfirst
      have hcompile (t : OperatorTable) : compileTree t (.node n) =
          refusing (ownerlessAmong? (before.map .node)) stray.raise := by
        have hk (k : Node) (hk : k ∈ before) :
            k.recurse (Code.ofNode t) = refusing k.ownerless? (pure (k.code t)) := by
          rw [← compileTree_node (hbefore k hk).1, compileTree,
            foldTree_eq_of_computes k.computes_recurse]
        rw [compileTree, foldTree_eq_of_computes n.computes_recurse, hfold, mapM_refusing hk,
          refusing_bind, pure_bind]
        rfl
      cases he : ownerlessAmong? (before.map .node) with
      | some e =>
        obtain ⟨w, hw, report, hreport, hrefusing⟩ := refusing_complaint hbefore he
        exact ⟨w, hw, report, hreport, fun t => by rw [hcompile, he, hrefusing]⟩
      | none =>
        obtain ⟨m, hm, hstray⟩ := List.exists_of_findSome?_eq_some hfirst
        refine ⟨.node m, List.mem_map_of_mem hm, stray.fault, ?_, fun t => ?_⟩
        · rw [Value.complaint?]
          cases hchildren : m.childNodes with
          | ok ns => rw [Node.stray?_of_ok hchildren] at hstray; cases hstray
          | error stray' =>
            rw [Node.stray?_of_error hchildren] at hstray
            cases hstray
            rfl
        · rw [hcompile, he]
          rfl
  | _ =>
    refine ⟨_, List.mem_cons_self, _, rfl, fun t => ?_⟩
    rw [compileTree, foldTree_recurse]
    rfl

/-! ### Faults of malformed trees -/

theorem child_of_checkFields {n : Node} {fs : List Field} {stray : Stray}
    (h : n.checkFields fs = .error stray) : ∃ f, stray = .child n f := by
  induction fs with
  | nil => cases h
  | cons f fs ih =>
    have hfield {stray : Stray} (hf : n.checkField f = .error stray) : stray = .child n f := by
      unfold Node.checkField at hf
      split at hf
      · split at hf
        · cases hf
        · cases hf
          rfl
      · cases hf
        rfl
    rw [Node.checkFields] at h
    cases hf : n.checkField f with
    | error stray' =>
      rw [hf] at h
      cases h
      exact ⟨f, hfield hf⟩
    | ok k =>
      rw [hf] at h
      cases hrest : n.checkFields fs with
      | error stray' =>
        rw [hrest] at h
        cases h
        exact ih hrest
      | ok ks =>
        rw [hrest] at h
        cases h

/-- What is said of a node that is astray is said of that node. -/
theorem fault_of_childNodes {n : Node} {stray : Stray} (hn : n.childNodes = .error stray)
    {c : Caller} {s t : Session} {f : Fault} (hf : stray.fault.run c s = (.done f, t)) :
    ∃ defect, f = .malformed defect (.node n) := by
  rw [Node.childNodes] at hn
  cases hfields : n.fields with
  | error stray' =>
    rw [hfields] at hn
    cases n with
    | unknown mark kind =>
      cases hfields
      cases hn
      cases hf
      exact ⟨_, rfl⟩
    | _ => cases hfields
  | ok fs =>
    rw [hfields] at hn
    obtain ⟨field, rfl⟩ := child_of_checkFields hn
    rw [Stray.fault] at hf
    generalize field.value = v at hf
    cases v with
    | absent =>
      cases hf
      exact ⟨_, rfl⟩
    | _ =>
      obtain ⟨text, u, -, hf⟩ := Action.exists_of_run_bind_done hf
      cases hf
      exact ⟨_, rfl⟩

/-- A complaint is the fault of a malformed tree, and names what it is about. -/
theorem fault_of_complaint {w : Value} {report : Action Fault} (h : w.complaint? = some report)
    {c : Caller} {s t : Session} {f : Fault} (hf : report.run c s = (.done f, t)) :
    ∃ defect, f = .malformed defect w := by
  cases w with
  | node n =>
    rw [Value.complaint?] at h
    split at h
    · rename_i stray hn
      cases h
      exact fault_of_childNodes hn hf
    · obtain ⟨⟨site, name⟩, hlacks, rfl⟩ := Option.map_eq_some_iff.1 h
      obtain ⟨text, u, -, hf⟩ := Action.exists_of_run_bind_done hf
      cases hf
      rw [Node.eq_of_lacksOwner? hlacks]
      exact ⟨_, rfl⟩
  | _ =>
    cases h
    cases hf
    exact ⟨_, rfl⟩

/-! ### Runs -/

/-- A fault that says of no tree that it is malformed. -/
def Fault.SparesTrees (f : Fault) : Prop := f.errorClass.isSubclass .malformedTree = false

theorem Fault.sparesTrees_of_isEvaluation {f : Fault} (h : f.isEvaluation = true) :
    f.SparesTrees := by
  rw [isEvaluation] at h
  rw [SparesTrees]
  generalize f.errorClass = e at h ⊢
  revert h
  cases e <;> decide

/-- The text of a node is made whatever is wrong with the tree. -/
theorem shown_sparesTrees (n : Node) (c : Caller) :
    (Value.node n).shown.RaisesOnly c Fault.SparesTrees := by
  have hanswer (w : Value) : (requireAnswer "__repr__" w).RaisesOnly c Fault.SparesTrees := by
    cases w with
    | str => exact Action.raisesOnly_pure _
    | _ => exact Action.RaisesOnly.bind (fun _ _ _ h => nomatch h) fun _ =>
        Action.raisesOnly_raise rfl
  refine Action.RaisesOnly.bind (Action.RaisesOnly.handle fun f => ?_) hanswer
  split
  · exact Action.raisesOnly_pure _
  · rename_i hf
    exact Action.raisesOnly_raise (Bool.eq_false_iff.2 hf)

/-- The name that a node goes by, if it has one, is a text. -/
def Value.NamedIn (s : Session) : Value → Prop
  | .node (.parameter p) => ∃ mark text, s.store.parameterName p = .str mark text
  | .node (.member _ _ name _ _) => ∃ mark text, name = .str mark text
  | _ => True

/-- Some parameters go by texts in the second of two sessions if they do in the first one. -/
def Session.KeepsNames (P : Parameter → Prop) (s t : Session) : Prop :=
  ∀ p, P p → (Value.node (.parameter p)).NamedIn s → (Value.node (.parameter p)).NamedIn t

theorem Session.Order.naming (P : Parameter → Prop) : Session.Order (Session.KeepsNames P) where
  noted h := by
    induction h with
    | refl => exact fun _ _ h => h
    | mark _ _ ih | line _ _ ih | object _ _ ih => exact ih
  trans h h' p hp hname := h' p hp (h p hp hname)

/-- An action that is begun after a session leaves a later one with its value, and any fault that it
ends with spares trees. -/
def Action.Spares {α : Type} (later : Session → Session → Prop) (c : Caller) (s : Session)
    (x : Action α) : Prop :=
  ∀ u, later s u → (∀ a t, x.run c u = (.done a, t) → later s t) ∧
    ∀ f t, x.run c u = (.raised f, t) → f.SparesTrees

section run

variable {later : Session → Session → Prop} {c : Caller} {s : Session} {α β : Type}

namespace Action.Spares

theorem pure (a : α) : (Pure.pure a : Action α).Spares later c s := by
  refine fun u hu => ⟨fun b t h => ?_, fun f t h => nomatch h⟩
  cases h
  exact hu

theorem raise {f : Fault} (hf : f.SparesTrees) : (Action.raise f : Action α).Spares later c s := by
  refine fun u hu => ⟨fun b t h => (nomatch h), fun g t h => ?_⟩
  cases h
  exact hf

theorem bind {x : Action α} {k : α → Action β} (hx : x.Spares later c s)
    (hk : ∀ a, (k a).Spares later c s) : (x >>= k).Spares later c s := by
  intro u hu
  obtain ⟨hdone, hraised⟩ := hx u hu
  rcases hrun : x.run c u with ⟨a | f | _, t⟩
  · rw [run_bind_done hrun]
    exact hk a t (hdone a t hrun)
  · rw [run_bind_raised hrun]
    refine ⟨fun b w h => (nomatch h), fun g w h => ?_⟩
    cases h
    exact hraised f t hrun
  · rw [run_bind_exhausted hrun]
    exact ⟨fun b w h => (nomatch h), fun g w h => (nomatch h)⟩

end Action.Spares

variable (hl : Session.Order later) (hc : ∀ f args, (Action.call f args).Advances later c)

include hl

/-- What fails at a node is reported there, and what does not leaves a later session. -/
theorem reporting_spares {site : Node} {activity : Action Activity} {passes : Fault → Bool}
    (ha : activity.RaisesOnly c Fault.SparesTrees)
    (hp : ∀ f, passes f = true → f.isEvaluation = true) {x : Action α}
    (hx : x.Advances later c) :
    (reporting Host.standard site activity passes x).Spares later c s :=
  fun u hu => ⟨fun _ _ h => hl.trans hu (hx.later_of_run (run_of_reporting_done h)),
    reporting_raisesOnly ha (shown_sparesTrees site c)
      (fun f hf => Fault.sparesTrees_of_isEvaluation (hp f hf)) (fun _ _ _ => rfl) x u⟩

theorem applyingAt_spares (site : Node) {x : Action α} (hx : x.Advances later c) :
    (applyingAt Host.standard site x).Spares later c s :=
  reporting_spares hl (Action.raisesOnly_pure _) (fun _ h => h) hx

include hc

theorem readingAt_spares (site : Node) (mark : Nat) (text : String) (v : Value) :
    (readingAt Host.standard site (.str mark text) v).Spares later c s := by
  refine reporting_spares hl ?_ ?_ (Value.member_advances hl hc v mark text)
  · exact Action.raisesOnly_pure (Activity.reading text)
  · intro f hf
    cases hf

/-- An operand is tested for truth, and what goes on from there goes on with either answer. -/
theorem testing_spares {x : Action Value} (hx : x.Spares later c s) (site : Node)
    {k : Bool → Action Value} (hk : ∀ b, (k b).Spares later c s) :
    (x >>= fun v => testingAt Host.standard site v >>= k).Spares later c s :=
  hx.bind fun v => (applyingAt_spares hl site (Value.truth_advances hl hc v)).bind hk

omit hl hc in
theorem runAll_spares {codes : List Code} {env : Environment}
    (each : ∀ code ∈ codes, (code.run Host.standard env).Spares later c s) :
    (runAll Host.standard codes env).Spares later c s := by
  induction codes with
  | nil => exact .pure []
  | cons code codes ih =>
    refine (each code List.mem_cons_self).bind fun v => ?_
    exact (ih fun k hk => each k (List.mem_cons_of_mem code hk)).bind fun vs => .pure (v :: vs)

omit hl hc in
theorem unboundAt_spares {p : Parameter}
    (h : ∀ u, later s u → (Value.node (.parameter p)).NamedIn u) :
    (unboundAt Host.standard p).Spares later c s := by
  intro u hu
  obtain ⟨mark, text, hp⟩ := h u hu
  have hstore : Action.store.run c u = (.done u.store, u) := rfl
  rw [unboundAt, Action.run_bind_done hstore, hp]
  exact Action.Spares.raise (f := .unbound (.node (.parameter p)) text) rfl u hu

/-- The code of a tree whose names are texts spares trees. -/
theorem Node.code_spares {n : Node}
    (h : n.All fun k => ∀ u, later s u → (Value.node k).NamedIn u) (t : OperatorTable)
    (env : Environment) : ((n.code t).run Host.standard env).Spares later c s := by
  induction h using Node.All.induction with
  | literal mark v type => exact .pure v
  | parameter p _ hname =>
    rw [Node.code, Code.run]
    split
    · exact .pure _
    · exact unboundAt_spares hname
  | static mark name owner type _ hname =>
    intro u hu
    obtain ⟨nameMark, text, rfl⟩ := hname u hu
    exact readingAt_spares hl hc _ nameMark text owner u hu
  | member mark e name owner type _ _ hname ih =>
    intro u hu
    obtain ⟨nameMark, text, rfl⟩ := hname u hu
    exact ih.bind (fun v => readingAt_spares hl hc _ nameMark text v) u hu
  | unary mark op x type _ _ _ ih => exact ih.bind fun v => applyingAt_spares hl _ (hc _ [v])
  | binary mark op l r type _ _ _ _ ihl ihr =>
    cases op with
    | andAlso =>
      refine testing_spares hl hc ihl _ fun b => ?_
      cases b with
      | true => exact testing_spares hl hc ihr _ fun b' => .pure (Value.bool b')
      | false => exact .pure (Value.bool false)
    | orElse =>
      refine testing_spares hl hc ihl _ fun b => ?_
      cases b with
      | true => exact .pure (Value.bool true)
      | false => exact testing_spares hl hc ihr _ fun b' => .pure (Value.bool b')
    | _ => exact ihl.bind fun v => ihr.bind fun w => applyingAt_spares hl _ (hc _ [v, w])
  | conditional mark e x y type _ _ _ _ _ ihe ihx ihy =>
    refine testing_spares hl hc ihe _ fun b => ?_
    cases b with
    | true => exact ihx
    | false => exact ihy
  | call mark f row args type _ _ _ _ ihf ihargs =>
    rw [Node.code, codes_nodes]
    refine ihf.bind fun g => (runAll_spares ?_).bind fun vs => applyingAt_spares hl _ (hc g vs)
    intro code hcode
    obtain ⟨a, ha, rfl⟩ := List.mem_map.1 hcode
    exact ihargs a ha
  | lambda mark row ps b =>
    intro u hu
    constructor
    · intro a w h
      cases h
      exact hl.trans hu (hl.noted (.mark .refl 1))
    · intro f w h
      cases h

end run

/-! ### Evaluation -/

namespace Machine

end Machine

end PredicateTree
