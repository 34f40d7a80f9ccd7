import PredicateTree.Proofs.Renaming.Substitution
import PredicateTree.Proofs.Traversal.Orders

/-!
# Malformed trees

All traversals end a malformed tree alike: with the fault of the first node in pre-order that is
astray (`Value.check`).  A walk and the query for free parameters come to just that
(`walk_check`, `freeParameters_check`).

A fold combines some well-formed trees before it comes to that node, so what it ends with is read in
the session that this leaves (`Action.EndsLike`).  Where combining never fails, nothing else can end a
fold (`Judgement.recurse_cases`).
-/

namespace PredicateTree

/-- Asks every node of a tree for its children, in pre-order, up to the first one that has not those
it should have. -/
def Value.check (v : Value) : Action Unit := do
  let n ← v.requireTree
  forM n.preorder fun k => do let _ ← k.children

/-- An action whose value nobody asks for. -/
def Action.silently {α : Type} (x : Action α) : Action Unit := (fun _ => ()) <$> x

/-- An action ends as another one does that is run in some later session instead. -/
def Action.EndsLike {α : Type} (later : Session → Session → Prop) (c : Caller) (s : Session)
    (x : Action α) (y : Action Unit) : Prop :=
  ∃ t, later s t ∧ (x.silently.run c s).1 = (y.run c t).1

theorem Value.check_eq (v : Value) :
    v.check = v.requireTree >>= fun n => Stray.orRaise (verdict n.preorder) := by
  rw [check]
  exact bind_congr fun n => forM_children n.preorder

theorem Value.check_node (n : Node) : (Value.node n).check = Stray.orRaise (verdict n.preorder) :=
  (check_eq (.node n)).trans rfl

theorem silently_orRaise {α : Type} (x : Except Stray α) :
    (Stray.orRaise x).silently = Stray.orRaise ((fun _ => ()) <$> x) := by
  cases x with
  | ok a => rfl
  | error stray =>
    rw [Action.silently, Stray.orRaise, map_eq_pure_bind, raise_bind]
    rfl

/-! ### Walks and free parameters -/

theorem walk_check (v : Value) : (walk v).silently = v.check := by
  rw [walk, Value.check_eq, Action.silently, map_bind]
  refine bind_congr fun n => ?_
  rw [← Action.silently, silently_orRaise, walkLoop_eq, List.flatMap_singleton]
  cases verdict n.preorder <;> rfl

/-- The declarations of a lambda are never astray, so it is enough to look into its body. -/
theorem findSome?_scopeOf {n : Node} {ns : List Node} (hn : n.childNodes = .ok ns) :
    ((scopeOf n ns).flatMap Node.preorder).findSome? Node.stray? =
      (ns.flatMap Node.preorder).findSome? Node.stray? := by
  by_cases hl : n.kind? = some .lambda
  · obtain ⟨mark, row, ps, b, rfl, rfl⟩ := Node.lambda_of_childNodes hn hl
    have hps : (((ps.map Node.parameter).flatMap Node.preorder).findSome? Node.stray?) = none := by
      rw [List.findSome?_eq_none_iff]
      intro k hk
      obtain ⟨m, hm, hk⟩ := List.mem_flatMap.1 hk
      obtain ⟨p, -, rfl⟩ := List.mem_map.1 hm
      rw [Node.preorder_of_leaf rfl, List.mem_singleton] at hk
      rw [hk]
      rfl
    rw [Node.scopeOf_lambda, List.flatMap_append, List.findSome?_append, hps, Option.none_or]
  · rw [Node.scopeOf_of_ne hl]

theorem freeLoop_verdict (stack : List (Node × List Parameter)) (free : List Parameter) :
    (fun _ => ()) <$> freeLoop stack free = verdict (stack.flatMap (·.1.preorder)) := by
  fun_induction freeLoop stack free with
  | case1 => rfl
  | case2 p bound rest free ih =>
    refine ih.trans ?_
    rw [List.flatMap_cons, Node.preorder_of_leaf rfl, List.singleton_append,
      verdict_cons_of_ok rfl]
  | case3 n bound rest free _ stray hn =>
    rw [List.flatMap_cons, Node.preorder_eq, List.cons_append, verdict_cons_of_error hn]
    rfl
  | case4 n bound rest free _ ns hn ih =>
    rw [ih, List.flatMap_cons, Node.preorder_of_ok hn, List.cons_append, verdict_cons_of_ok hn,
      List.flatMap_append, List.flatMap_map]
    simp only [verdict, List.findSome?_append, findSome?_scopeOf hn]

theorem freeParameters_check (v : Value) : (freeParameters v).silently = v.check := by
  rw [freeParameters, Value.check_eq, Action.silently, map_bind]
  refine bind_congr fun n => ?_
  have hloop := freeLoop_verdict [(n, [])] []
  rw [List.flatMap_singleton] at hloop
  rw [← hloop, ← silently_orRaise, Action.silently, map_eq_pure_bind, bind_assoc, map_eq_pure_bind]
  rfl

/-! ### Folds -/

/-- What every step of a fold establishes, the fold establishes of a well-formed tree.  A malformed
tree ends with the first node that is astray, after something of which the same is established. -/
theorem Judgement.recurse_cases {m : Type → Type} [Monad m] [LawfulMonad m] [MonadLiftT Action m]
    [LawfulMonadLiftT Action m] (J : Judgement m) {later : Session → Session → Prop}
    (hl : Session.Order later) {β : Type} {R : Node → β → Prop} {combine : Node → List β → m β}
    {s : Session}
    (step : ∀ {n ns bs t}, n.childNodes = .ok ns → later s t → List.Forall₂ R ns bs →
      J.holds (combine n bs) t fun b u => later t u ∧ R n b) (n : Node) :
    verdict n.preorder = .ok () ∧ J.holds (n.recurse combine) s (fun _ t => later s t) ∨
      ∃ (stray : Stray) (x : m (List β)), verdict n.preorder = .error stray ∧
        n.recurse combine = (x >>= fun _ => liftM (stray.raise : Action β)) ∧
        J.holds x s fun _ t => later s t := by
  have htree (k : Node) (hk : k.WellFormed) (t : Session) (ht : later s t) :
      J.holds (k.recurse combine) t fun b u => later t u ∧ R k b := by
    have hfold := J.foldTree later (fun _ => R) (fun _ => hl.noted .refl) hl.trans
      (fun _ h => h) s (fun hn _ ht hbs => step hn ht hbs) hk ht
    rwa [foldTree_eq_of_computes k.computes_recurse] at hfold
  cases hfirst : n.preorder.findSome? Node.stray? with
  | none =>
    refine .inl ⟨by rw [verdict, hfirst], ?_⟩
    exact J.mono (htree n (Node.wellFormed_iff.2 hfirst) s (hl.noted .refl)) fun _ _ h => h.1
  | some stray =>
    obtain ⟨before, hbefore, hfold⟩ := recurse_of_malformed m β hfirst
    refine .inr ⟨stray, _, by rw [verdict, hfirst], hfold combine, ?_⟩
    refine J.mono (J.mapM later (fun _ => R) (fun _ => hl.noted .refl) hl.trans (fun _ h => h)
      (fun k hk t ht => htree k (hbefore k hk).1 t ht) (hl.noted .refl)) fun _ _ h => h.1

/-- Computations that carry something along and end with a value. -/
def Judgement.succeedingWith (σ : Type) (c : Caller) : Judgement (StateT σ Action) where
  holds x s post := ∀ carried, ∃ a after t,
    (x.run carried).run c s = (.done (a, after), t) ∧ post a t
  pure h carried := ⟨_, carried, _, rfl, h⟩
  bind h carried := by
    obtain ⟨a, after, t, hx, hk⟩ := h carried
    obtain ⟨b, last, u, hrun, hpost⟩ := hk after
    refine ⟨b, last, u, ?_, hpost⟩
    rw [StateT.run_bind, Action.run_bind_done hx, hrun]
  mono h imp carried := by
    obtain ⟨a, after, t, hx, hpost⟩ := h carried
    exact ⟨a, after, t, hx, imp a t hpost⟩

section ends

variable {later : Session → Session → Prop} {c : Caller} {s : Session} {α β σ : Type}

theorem Action.run_silently_done {x : Action α} {a : α} {t : Session}
    (h : x.run c s = (.done a, t)) : x.silently.run c s = (.done (), t) := by
  rw [silently, map_eq_pure_bind, run_bind_done h]
  rfl

theorem Action.run_silently_raised {x : Action α} {f : Fault} {t : Session}
    (h : x.run c s = (.raised f, t)) : x.silently.run c s = (.raised f, t) := by
  rw [silently, map_eq_pure_bind, run_bind_raised h]

theorem Action.run_map_of_raise {x : Action α} (f : α → β) {stray : Stray} {t : Session}
    (h : x.run c s = stray.raise.run c t) : (f <$> x).run c s = stray.raise.run c t := by
  have hraise : f <$> (stray.raise : Action α) = stray.raise := by
    rw [map_eq_pure_bind, raise_bind]
  rw [← hraise, map_eq_pure_bind, map_eq_pure_bind, run_bind, h]
  rfl

/-- What comes after something that succeeded ends an action. -/
theorem endsLike_of_done {x : Action α} {k : α → Action β} {y : Action Unit} {a : α} {t : Session}
    (hx : x.run c s = (.done a, t)) (ht : later s t) (hk : (k a).silently = y) :
    (x >>= k).EndsLike later c s y := by
  refine ⟨t, ht, ?_⟩
  rw [Action.silently, map_bind, Action.run_bind_done hx, ← Action.silently, hk]

theorem endsLike_of_succeeding {x : Action α}
    (h : (Judgement.succeeding c).holds x s fun _ t => later s t) :
    x.EndsLike later c s (pure ()) := by
  obtain ⟨a, t, hx, ht⟩ := h
  refine ⟨t, ht, ?_⟩
  rw [Action.run_silently_done hx]
  rfl

/-- A value that is no node ends whatever asks for a tree. -/
theorem endsLike_of_node (refl : later s s) {v : Value} {k : Node → Action α}
    (h : ∀ n, (k n).EndsLike later c s (Stray.orRaise (verdict n.preorder))) :
    (v.requireTree >>= k).EndsLike later c s v.check := by
  rw [Value.check_eq]
  by_cases hv : ∃ n, v = .node n
  · obtain ⟨n, rfl⟩ := hv
    exact h n
  · obtain ⟨f, hf⟩ : ∃ f, v.requireTree.run c s = (.raised f, s) := by
      cases v with
      | node n => exact absurd ⟨n, rfl⟩ hv
      | _ => exact ⟨_, rfl⟩
    refine ⟨s, refl, ?_⟩
    rw [Action.run_silently_raised (Action.run_bind_raised hf), Action.run_bind_raised hf]

end ends

/-- Combining never fails from a session on, whatever is carried along, and leaves later sessions. -/
def NeverFails {σ β : Type} (later : Session → Session → Prop) (c : Caller) (s : Session)
    (combine : Node → List β → StateT σ Action β) : Prop :=
  ∀ n bs carried t, later s t → ∃ b after u,
    ((combine n bs).run carried).run c t = (.done (b, after), u) ∧ later t u

theorem counting_neverFails {c : Caller} {s : Session} :
    NeverFails (fun _ _ => True) c s counting :=
  fun _ _ _ _ _ => ⟨_, _, _, rfl, trivial⟩

section folds

variable {later : Session → Session → Prop} (hl : Session.Order later) {c : Caller} {s : Session}

include hl

/-- A fold that never fails when it combines ends with a result for a well-formed tree, and else with
the first node that is astray. -/
theorem recurse_ends {σ β : Type} {combine : Node → List β → StateT σ Action β}
    (total : NeverFails later c s combine) (n : Node) (carried : σ) :
    ∃ t, later s t ∧
      (verdict n.preorder = .ok () ∧ (∃ b after,
          ((n.recurse combine).run carried).run c s = (.done (b, after), t)) ∨
        ∃ stray : Stray, verdict n.preorder = .error stray ∧
          ((n.recurse combine).run carried).run c s = stray.raise.run c t) := by
  have step {n : Node} {ns : List Node} {bs : List β} {t : Session} (_ : n.childNodes = .ok ns)
      (ht : later s t) (_ : List.Forall₂ (fun _ _ => True) ns bs) :
      (Judgement.succeedingWith σ c).holds (combine n bs) t fun _ u => later t u ∧ True := by
    intro carried
    obtain ⟨b, after, u, hrun, hu⟩ := total n bs carried t ht
    exact ⟨b, after, u, hrun, hu, trivial⟩
  rcases (Judgement.succeedingWith σ c).recurse_cases hl step n with
    ⟨hok, hsucceeds⟩ | ⟨stray, x, herror, hx, hbefore⟩
  · obtain ⟨b, after, t, hrun, ht⟩ := hsucceeds carried
    exact ⟨t, ht, .inl ⟨hok, b, after, hrun⟩⟩
  · obtain ⟨bs, after, t, hrun, ht⟩ := hbefore carried
    refine ⟨t, ht, .inr ⟨stray, herror, ?_⟩⟩
    have hraise : (liftM (stray.raise : Action β) : StateT σ Action β).run after =
        stray.raise := raise_bind stray fun b => pure (b, after)
    rw [hx, StateT.run_bind, Action.run_bind_done hrun, hraise]

/-- A fold that never fails when it combines ends with what the tree ends with when it is checked. -/
theorem foldTree_endsLike {σ β : Type} {combine : Node → List β → StateT σ Action β}
    (total : NeverFails later c s combine) (v : Value) (carried : σ) :
    ((foldTree combine v).run carried).EndsLike later c s v.check := by
  have hfold : (foldTree combine v).run carried =
      v.requireTree >>= fun n => (n.recurse combine).run carried := by
    simp [foldTree_recurse]
  rw [hfold]
  refine endsLike_of_node (hl.noted .refl) fun n => ?_
  obtain ⟨t, ht, ⟨hok, b, after, hrun⟩ | ⟨stray, herror, hrun⟩⟩ := recurse_ends hl total n carried
  · rw [hok]
    exact endsLike_of_succeeding ⟨_, t, hrun, ht⟩
  · rw [herror]
    exact ⟨t, ht, congrArg Prod.fst (Action.run_map_of_raise _ hrun)⟩

/-- A step of renaming never fails at a node whose children fit. -/
theorem renameStep_fits (σ : Substitution) {n : Node} {ns rs : List Node}
    (hn : n.childNodes = .ok ns) (hrs : List.Forall₂ Node.Fits ns rs) (t : Session) :
    (Judgement.succeeding c).holds (renameStep σ n rs) t fun r u => later t u ∧ n.Fits r := by
  cases hother : n.asParameter? with
  | some p =>
    cases n with
    | parameter q => exact ⟨_, t, rfl, hl.noted .refl, fun _ _ => ⟨σ.get q, rfl⟩⟩
    | _ => cases hother
  | none =>
    have hstep : renameStep σ n rs = n.withChildren (rs.map .node) := by
      cases n with
      | parameter => cases hother
      | _ => rfl
    rw [hstep]
    rcases Node.withChildren_cases hn (.of_fits hn hrs) c t with ⟨-, hrun⟩ | ⟨used, -, hrun⟩
    · exact ⟨n, t, hrun, hl.noted .refl, fun p hp => ⟨p, hp⟩⟩
    · exact ⟨_, _, hrun, hl.noted (.mark .refl used), Node.fits_upon n _ _ _⟩

/-- Replacing parameters ends with what the tree ends with when it is checked. -/
theorem replaceParameters_endsLike (σ : Substitution) (v : Value) :
    (replaceParameters σ v).EndsLike later c s v.check := by
  have hfold : replaceParameters σ v =
      v.requireTree >>= fun n => n.recurse (renameStep σ) := foldTree_recurse _ v
  rw [hfold]
  refine endsLike_of_node (hl.noted .refl) fun n => ?_
  rcases (Judgement.succeeding c).recurse_cases hl
      (fun hn _ hrs => renameStep_fits hl σ hn hrs _) n with
    ⟨hok, hsucceeds⟩ | ⟨stray, x, herror, hx, bs, t, hrun, ht⟩
  · rw [hok]
    exact endsLike_of_succeeding hsucceeds
  · rw [herror, hx]
    exact endsLike_of_done hrun ht (silently_orRaise (.error stray))

/-- All traversals report the same malformation: that of the first node in pre-order whose children
are not what they should be.  A walk and the query for free parameters report it at once, a fold and
a replacement in the session that is left when they come to it; where the report reads the same in
later sessions, all four end the same. -/
theorem traversals_report_alike {σ β : Type} {combine : Node → List β → StateT σ Action β}
    (total : NeverFails later c s combine)
    {entries : List (Value × Value)} (hentries : ∀ e ∈ entries, e.2.parameter?.isSome)
    (v : Value) (carried : σ) :
    (walk v).silently = v.check ∧ (freeParameters v).silently = v.check ∧
      ((foldTree combine v).run carried).EndsLike later c s v.check ∧
      (Substitution.ofEntries entries >>= fun ρ => replaceParameters ρ v).EndsLike later c s
        v.check ∧
      ((∀ t, later s t → (v.check.run c t).1 = (v.check.run c s).1) →
        ∀ x ∈ [(walk v).silently, (freeParameters v).silently,
            ((foldTree combine v).run carried).silently,
            (Substitution.ofEntries entries >>= fun ρ => replaceParameters ρ v).silently],
          (x.run c s).1 = (v.check.run c s).1) := by
  have hfold := foldTree_endsLike hl total v carried
  have hreplace :
      (Substitution.ofEntries entries >>= fun ρ => replaceParameters ρ v).EndsLike later c s
        v.check := by
    rw [Substitution.ofEntries_eq hentries, pure_bind]
    exact replaceParameters_endsLike hl _ v
  refine ⟨walk_check v, freeParameters_check v, hfold, hreplace, fun steady => ?_⟩
  obtain ⟨t, ht, hfold⟩ := hfold
  obtain ⟨u, hu, hreplace⟩ := hreplace
  simp only [List.forall_mem_cons, List.not_mem_nil, false_implies, implies_true, and_true]
  exact ⟨by rw [walk_check], by rw [freeParameters_check], hfold.trans (steady t ht),
    hreplace.trans (steady u hu)⟩

end folds

/-- An operand is missing on the left, and a lambda on the right declares a number: the left is
reported. -/
theorem traversals_report_alike_operand :
    let l : Node := .unary 2 .not .absent .bool
    let r : Node := .lambda 3 4 [.ofInt 5] .absent
    let v : Value := .node (.binary 1 .add (.node l) (.node r) .object)
    let x : Parameter := ⟨1, "x", .object, 0⟩
    let y : Parameter := ⟨2, "y", .object, 0⟩
    let c : Caller := fun _ _ s => (.exhausted, s)
    ∀ t ∈ [(walk v).silently, (freeParameters v).silently, ((foldTree counting v).run 0).silently,
        (Substitution.ofEntries [(.node (.parameter x), .node (.parameter y))] >>=
          fun ρ => replaceParameters ρ v).silently],
      (t.run c {}).1 = .raised (.malformed (.missingChild "Unary" "operand") (.node l)) := by
  intro l r v x y c t ht
  have hfirst : verdict (Node.binary 1 .add (.node l) (.node r) .object).preorder =
      .error (.child l ⟨"operand", .absent, false⟩) := by
    have children : (Node.binary 1 .add (.node l) (.node r) .object).childNodes = .ok [l, r] := rfl
    rw [Node.preorder_of_ok children, verdict_cons_of_ok children, List.flatMap_cons,
      Node.preorder_eq, List.cons_append]
    exact verdict_cons_of_error rfl
  have hcheck (u : Session) : (v.check.run c u).1 =
      .raised (.malformed (.missingChild "Unary" "operand") (.node l)) := by
    rw [Value.check_node, hfirst]
    rfl
  have hentries : ∀ e ∈ [(Value.node (.parameter x), Value.node (.parameter y))],
      e.2.parameter?.isSome := by
    simp [Value.parameter?, Node.asParameter?]
  obtain ⟨-, -, -, -, halike⟩ := traversals_report_alike
    ⟨fun _ => trivial, fun _ _ => trivial⟩ counting_neverFails hentries v 0
  rw [halike (fun u _ => by rw [hcheck, hcheck]) t ht, hcheck]

end PredicateTree
