import PredicateTree.Proofs.Evaluation.Bookkeeping
import PredicateTree.Folding.Fold

/-!
# A step of a folding pass

What a folding pass tries to fold is built from literals alone (`Node.Ground`).  To fold it is to run
its code without an environment, as the body of a function without parameters (`Machine.fold_run`).
A step replaces the node by the literal of the value where that succeeds, and leaves it in place
where it fails (`Machine.foldStep_run`).  The replacement is recorded as an object
(`Session.Recorded`).
-/

namespace PredicateTree

/-! ### What is folded -/

/-- A tree that is built from literals by members, operators, conditionals and, where calls are
folded too, calls. -/
inductive Node.Ground (foldCalls : Bool) : Node → Prop where
  | literal (mark : Nat) (v : Value) (type : StaticType) : Ground foldCalls (.literal mark v type)
  | member {mark : Nat} {e : Node} {name owner : Value} {type : StaticType}
      (he : Ground foldCalls e) : Ground foldCalls (.member mark (.node e) name owner type)
  | unary {mark : Nat} {op : UnaryOp} {x : Node} {type : StaticType} (hx : Ground foldCalls x) :
      Ground foldCalls (.unary mark op (.node x) type)
  | binary {mark : Nat} {op : BinaryOp} {l r : Node} {type : StaticType} (hl : Ground foldCalls l)
      (hr : Ground foldCalls r) : Ground foldCalls (.binary mark op (.node l) (.node r) type)
  | conditional {mark : Nat} {c x y : Node} {type : StaticType} (hc : Ground foldCalls c)
      (hx : Ground foldCalls x) (hy : Ground foldCalls y) :
      Ground foldCalls (.conditional mark (.node c) (.node x) (.node y) type)
  | call {mark row : Nat} {f : Node} {args : List Node} {type : StaticType}
      (allowed : foldCalls = true) (hf : Ground foldCalls f)
      (hargs : ∀ a ∈ args, Ground foldCalls a) :
      Ground foldCalls (.call mark (.node f) row (args.map .node) type)

namespace Node

variable {foldCalls : Bool} {n : Node}

theorem ground_of_isLiteralNode (h : (Value.node n).isLiteralNode = true) : n.Ground foldCalls := by
  cases n with
  | literal mark v type => exact .literal mark v type
  | _ => cases h

/-- A tree that is built from literals has no static member. -/
theorem Ground.owned (h : n.Ground foldCalls) : n.All (·.isOwned) := by
  induction h with
  | literal => exact .intro [] rfl rfl (by simp)
  | @member _ e _ _ _ _ ih => exact .intro [e] rfl rfl (by simpa using ih)
  | @unary _ _ x _ _ ih => exact .intro [x] rfl rfl (by simpa using ih)
  | @binary _ _ l r _ _ _ ihl ihr =>
    exact .intro [l, r] rfl rfl (by simpa using ⟨ihl, ihr⟩)
  | @conditional _ c x y _ _ _ _ ihc ihx ihy =>
    exact .intro [c, x, y] rfl rfl (by simpa using ⟨ihc, ihx, ihy⟩)
  | @call _ _ f args _ _ _ _ ihf ihargs =>
    exact .intro _ (childNodes_call _ f _ args _) rfl (by simpa using ⟨ihf, ihargs⟩)

theorem constantAlong_eq (foldCalls : Bool) (h : n.WellFormed) (constant : Bool) :
    ∃ b, constantAlong constant n = pure b ∧
      (b = true → constant = n.isLiteral → n.Ground foldCalls) := by
  induction h using All.induction generalizing constant with
  | literal mark v type => exact ⟨constant, rfl, fun _ _ => .literal mark v type⟩
  | member mark e name owner type _ _ _ ih =>
    obtain ⟨b, hb, he⟩ := ih e.isLiteral
    exact ⟨b, hb, fun hb _ => .member (he hb rfl)⟩
  | _ => exact ⟨constant, rfl, fun hb hc => by cases hb.symm.trans hc⟩

theorem parameterFreeAlong_eq (h : n.WellFormed) : ∃ b, parameterFreeAlong n = pure b := by
  induction h using All.induction with
  | member mark e name owner type _ _ _ ih => exact ih
  | _ => exact ⟨_, rfl⟩

/-- Whether a node is to be folded can always be said, and then it is built from literals. -/
theorem foldable_eq (foldCalls : Bool) (h : n.WellFormed) :
    ∃ b, n.foldable foldCalls = pure b ∧ (b = true → n.Ground foldCalls) := by
  cases h using All.induction with
  | member mark e name owner type h he =>
    obtain ⟨b, hb, hground⟩ := constantAlong_eq foldCalls h false
    obtain ⟨b', hb'⟩ := parameterFreeAlong_eq h
    have hconstant : isConstantSubtree (.node (.member mark (.node e) name owner type)) = pure b :=
      hb
    have hfree : isParameterFree (.node (.member mark (.node e) name owner type)) = pure b' := hb'
    rw [foldable, hconstant, pure_bind, hfree]
    cases b with
    | false => exact ⟨false, rfl, fun h => nomatch h⟩
    | true => exact ⟨b', rfl, fun _ => hground rfl rfl⟩
  | static mark name owner type h =>
    exact ⟨false, rfl, fun h => nomatch h⟩
  | unary mark op x type => exact ⟨_, rfl, fun h => .unary (ground_of_isLiteralNode h)⟩
  | binary mark op l r type =>
    refine ⟨_, rfl, fun h => ?_⟩
    obtain ⟨hl, hr⟩ := Bool.and_eq_true_iff.1 h
    exact .binary (ground_of_isLiteralNode hl) (ground_of_isLiteralNode hr)
  | conditional mark c x y type =>
    refine ⟨_, rfl, fun h => ?_⟩
    obtain ⟨hcx, hy⟩ := Bool.and_eq_true_iff.1 h
    obtain ⟨hc, hx⟩ := Bool.and_eq_true_iff.1 hcx
    exact .conditional (ground_of_isLiteralNode hc) (ground_of_isLiteralNode hx)
      (ground_of_isLiteralNode hy)
  | call mark f row args type =>
    refine ⟨_, rfl, fun h => ?_⟩
    obtain ⟨hf, hargs⟩ := Bool.and_eq_true_iff.1 h
    obtain ⟨hallowed, hf⟩ := Bool.and_eq_true_iff.1 hf
    refine .call hallowed (ground_of_isLiteralNode hf) fun a ha => ?_
    exact ground_of_isLiteralNode (List.all_eq_true.1 hargs _ (List.mem_map_of_mem ha))
  | _ => exact ⟨false, rfl, fun h => nomatch h⟩

end Node

/-! ### Folding one tree -/

/-- A value as a literal in the place of a tree. -/
def Node.asLiteral (n : Node) (w : Value) : Action Node := do
  Builder.literal w (← keptType n.type)

/-- The literal of a value has the static type of the tree in whose place it stands, or the type of
the value where nothing stands for the former. -/
theorem Node.asLiteral_eq (n : Node) (w : Value) (c : Caller) (s : Session) :
    (n.asLiteral w).run c s = (.done (.literal s.nextMark w
      (if n.type = .object || (s.store.typeValue n.type).isAbsent then s.store.typeOf w
        else n.type)), s.marked 1) := by
  have hstore : Action.store.run c s = (.done s.store, s) := rfl
  rw [asLiteral, keptType, bind_assoc, Action.run_bind_done hstore]
  cases decide (n.type = .object) || (s.store.typeValue n.type).isAbsent <;> rfl

theorem Node.asLiteral_run (n : Node) (w : Value) (c : Caller) (s : Session) :
    ∃ type, (n.asLiteral w).run c s = (.done (.literal s.nextMark w type), s.marked 1) :=
  ⟨_, n.asLiteral_eq w c s⟩

/-! ### Recorded steps -/

/-- The recorded steps of one session are there in another one as they were. -/
def Session.KeepsSteps (s t : Session) : Prop :=
  ∀ (address : Nat) o, s.store.objects[address]? = some o → o.type = .foldStep →
    ∃ o', t.store.objects[address]? = some o' ∧ o'.type = .foldStep ∧ o'.attributes = o.attributes

/-- A step that tells of a tree and of the literal in its place. -/
def Session.Recorded (s : Session) (step : Value) (before after : Node) : Prop :=
  ∃ address o, step = .object address ∧ s.store.objects[address]? = some o ∧ o.type = .foldStep ∧
    o.attributes = [("before", .node before), ("after", .node after)]

namespace Session.Recorded

variable {s t : Session} {step : Value} {before after : Node}

theorem later (h : s.Recorded step before after) (hst : s.KeepsSteps t) :
    t.Recorded step before after := by
  obtain ⟨address, o, rfl, ho, htype, hattributes⟩ := h
  obtain ⟨o', ho', htype', hsame⟩ := hst address o ho htype
  exact ⟨address, o', rfl, ho', htype', hsame.trans hattributes⟩

theorem attributes (h : s.Recorded step before after) :
    s.store.attribute? step "before" = some (.node before) ∧
      s.store.attribute? step "after" = some (.node after) := by
  obtain ⟨address, o, rfl, ho, -, hattributes⟩ := h
  have hobject : s.store.object address = o := by
    rw [Store.object, Array.getD_eq_getD_getElem?, ho]
    rfl
  rw [Store.attribute?, Store.attribute?, Store.attributes, hobject, hattributes]
  exact ⟨rfl, rfl⟩

end Session.Recorded

theorem newFoldStep_recorded (before after : Node) (c : Caller) (s : Session) :
    ∃ step t, (newFoldStep (.node before) (.node after)).run c s = (.done step, t) ∧ s.Noted t ∧
      t.Recorded step before after := by
  exact ⟨_, _, rfl, .object .refl _, _, _, rfl, Array.getElem?_push_size, rfl, rfl⟩

namespace Machine

variable {M : Machine} {overrides : List (Value × Value)} {n : Node}

/-- To fold a tree is to call a function without parameters whose body is the code of the tree. -/
theorem fold_run (h : n.All (·.isOwned)) (hv : OperatorTable.Valid overrides) (c : Caller)
    (s : Session) : ∃ mark t, s.Noted t ∧ (M.fold overrides (.node n)).run c s =
      (Action.call (.closure mark [] (n.code (OperatorTable.standard.overridden overrides)) []) []
        >>= n.asLiteral).run c t := by
  have hthunk : (Builder.lambda [] (.node n)).run c s =
      (.done (.lambda (s.nextMark + 1) s.nextMark [] (.node n)), s.marked 2) := rfl
  have howned : (Node.lambda (s.nextMark + 1) s.nextMark [] (.node n)).All (·.isOwned) :=
    .intro _ (Node.childNodes_lambda _ _ [] n) rfl (by simpa using h)
  obtain ⟨t, hnote, ht⟩ := note_run (e := .compiled 0) rfl c (s.marked 2)
  refine ⟨t.nextMark, t.marked 1, ((Session.Noted.refl.mark 2).trans ht).mark 1, ?_⟩
  rw [fold, Action.run_bind_done hthunk, compileLambda_node howned.wellFormed hv,
    ownerless?_of_owned howned, refusing, bind_assoc, List.length_nil, Action.run_bind_done hnote]
  rfl

/-- What a tree folds to is the literal of the value that its code gave. -/
theorem fold_done {c : Caller} {s u : Session} {r : Node} (h : n.All (·.isOwned))
    (hv : OperatorTable.Valid overrides)
    (hrun : (M.fold overrides (.node n)).run c s = (.done r, u)) :
    ∃ mark t w v type, s.Noted t ∧
      c (.closure mark [] (n.code (OperatorTable.standard.overridden overrides)) []) [] t =
        (.done w, v) ∧ r = .literal v.nextMark w type ∧ u = v.marked 1 := by
  obtain ⟨mark, t, ht, heq⟩ := fold_run (M := M) h hv c s
  rw [heq] at hrun
  obtain ⟨w, v, hcall, hrun⟩ := Action.exists_of_run_bind_done hrun
  obtain ⟨type, hliteral⟩ := n.asLiteral_run w c v
  cases hliteral.symm.trans hrun
  exact ⟨mark, t, w, v, type, ht, hcall, rfl, rfl⟩

/-! ### Folding one node of a pass -/

/-- What a step does with a node that is to be folded. -/
def tryFold (M : Machine) (options : FoldOptions) (current : Node) (trace : FoldTrace) :
    Action (Node × FoldTrace) := do
  match ← (M.fold options.overrides (.node current)).attempt with
  | .ok folded =>
    Action.note (.folded current folded)
    let step ← newFoldStep (.node current) (.node folded)
    return (folded, trace.addStep step)
  | .error fault =>
    if options.strict then Action.raise fault
    else
      Action.note (.leftUnfolded current fault)
      return (current, trace.skip current)

theorem foldStep_eq (options : FoldOptions) (n : Node) (ns : List Node) (trace : FoldTrace) :
    (M.foldStep options n ns).run trace = (do
      let current ← n.withChildren (ns.map .node)
      if ← current.foldable options.foldCalls then M.tryFold options current trace
      else return (current, trace)) := by
  simp only [foldStep, StateT.run_bind, StateT.run_monadLift, monadLift_self, bind_assoc,
    pure_bind]
  refine bind_congr fun current => bind_congr fun b => ?_
  cases b with
  | false => rfl
  | true =>
    simp only [if_true, StateT.run_bind, StateT.run_monadLift, monadLift_self, bind_assoc,
      pure_bind, tryFold]
    refine bind_congr fun result => ?_
    cases result with
    | ok folded => simp
    | error fault =>
      cases options.strict with
      | true => rfl
      | false => simp

theorem tryFold_of_done {options : FoldOptions} {current : Node} (trace : FoldTrace) {c : Caller}
    {s t : Session} {folded : Node}
    (h : (M.fold options.overrides (.node current)).run c s = (.done folded, t)) :
    (M.tryFold options current trace).run c s = (do
      Action.note (.folded current folded)
      let step ← newFoldStep (.node current) (.node folded)
      return (folded, trace.addStep step)).run c t := by
  have hattempt : (M.fold options.overrides (.node current)).attempt.run c s =
      (.done (.ok folded), t) := Action.run_handle_done (Action.run_bind_done h)
  rw [tryFold, Action.run_bind_done hattempt]

theorem tryFold_of_raised {options : FoldOptions} {current : Node} (trace : FoldTrace) {c : Caller}
    {s t : Session} {f : Fault}
    (h : (M.fold options.overrides (.node current)).run c s = (.raised f, t)) :
    (M.tryFold options current trace).run c s =
      if f.isEvaluation = true ∧ options.strict = false then
        (do
          Action.note (.leftUnfolded current f)
          return (current, trace.skip current)).run c t
      else (.raised f, t) := by
  have hattempt : (M.fold options.overrides (.node current)).attempt.run c s =
      (if f.isEvaluation then pure (.error f) else Action.raise f : Action (Except Fault Node)).run
        c t := Action.run_handle_raised (Action.run_bind_raised h)
  cases hf : f.isEvaluation with
  | false =>
    rw [hf] at hattempt
    rw [tryFold, Action.run_bind_raised hattempt, if_neg (by simp)]
  | true =>
    rw [hf] at hattempt
    rw [tryFold, Action.run_bind_done hattempt]
    cases options.strict <;> rfl

theorem tryFold_of_exhausted {options : FoldOptions} {current : Node} (trace : FoldTrace)
    {c : Caller} {s t : Session}
    (h : (M.fold options.overrides (.node current)).run c s = (.exhausted, t)) :
    (M.tryFold options current trace).run c s = (.exhausted, t) := by
  have hattempt : (M.fold options.overrides (.node current)).attempt.run c s = (.exhausted, t) :=
    Action.run_handle_exhausted (Action.run_bind_exhausted h)
  rw [tryFold, Action.run_bind_exhausted hattempt]

/-- What is tried ends with the literal, or with the node left in place. -/
theorem tryFold_done {options : FoldOptions} {current r : Node} {trace trace' : FoldTrace}
    {c : Caller} {s t : Session}
    (h : (M.tryFold options current trace).run c s = (.done (r, trace'), t)) :
    (∃ u v, (M.fold options.overrides (.node current)).run c s = (.done r, u) ∧
        (Action.note (.folded current r)).run c u = (.done (), v) ∧ v.Noted t) ∨
      r = current ∧ ∃ f u, (M.fold options.overrides (.node current)).run c s = (.raised f, u) ∧
        (Action.note (.leftUnfolded current f)).run c u = (.done (), t) := by
  rcases hrun : (M.fold options.overrides (.node current)).run c s with ⟨literal | f | _, u⟩
  · rw [tryFold_of_done trace hrun] at h
    obtain ⟨⟨⟩, v, hnote, h⟩ := Action.exists_of_run_bind_done h
    cases h
    exact .inl ⟨u, v, rfl, hnote, .object .refl _⟩
  · rw [tryFold_of_raised trace hrun] at h
    split at h
    · obtain ⟨⟨⟩, v, hnote, h⟩ := Action.exists_of_run_bind_done h
      cases h
      exact .inr ⟨rfl, f, u, rfl, hnote⟩
    · cases h
  · rw [tryFold_of_exhausted trace hrun] at h
    cases h

/-- A step rebuilds the node over its new children, and folds it if it is built from literals. -/
theorem foldStep_run (options : FoldOptions) {ns rs : List Node} (h : n.WellFormed)
    (hn : n.childNodes = .ok ns) (hfits : List.Forall₂ Node.Fits ns rs)
    (hrs : ∀ r ∈ rs, r.WellFormed) (trace : FoldTrace) (c : Caller) (s : Session) :
    ∃ current used, (n.withChildren (rs.map .node)).run c s = (.done current, s.marked used) ∧
      current.WellFormed ∧
      (((M.foldStep options n rs).run trace).run c s =
          (.done (current, trace), s.marked used) ∨
        current.Ground options.foldCalls ∧ ((M.foldStep options n rs).run trace).run c s =
          (M.tryFold options current trace).run c (s.marked used)) := by
  have hcurrent : ∃ current used, current.WellFormed ∧
      (n.withChildren (rs.map .node)).run c s = (.done current, s.marked used) := by
    rcases Node.withChildren_cases hn (.of_fits hn hfits) c s with ⟨-, hrun⟩ | ⟨used, -, hrun⟩
    · exact ⟨n, 0, h, hrun⟩
    · exact ⟨_, used, .intro _ (Node.childNodes_upon hn hfits _ _) trivial hrs, hrun⟩
  obtain ⟨current, used, hwf, hrun⟩ := hcurrent
  obtain ⟨b, hb, hground⟩ := Node.foldable_eq options.foldCalls hwf
  refine ⟨current, used, hrun, hwf, ?_⟩
  rw [foldStep_eq, Action.run_bind_done hrun, hb, pure_bind]
  cases b with
  | false => exact .inl rfl
  | true => exact .inr ⟨hground rfl, rfl⟩

end Machine

end PredicateTree
