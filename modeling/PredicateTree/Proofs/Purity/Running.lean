import PredicateTree.Proofs.Folding.Step
import PredicateTree.Proofs.Purity.Faults

/-!
# Running what is the same

If the operations of a host are pure (`Host.Pure`), then trees that are built from literals and
correspond end the same when their code is run (`Node.Ground.ends`), and so when they are folded
(`Machine.fold_concurs`).  Whatever fails does so with a fault of evaluation, since reports can be
made; and if the faults of the operations have something in common (`Host.FailsWith`), so have
these.
-/

namespace PredicateTree

/-! ### What is tried -/

namespace Sameness.Kinship.Akin

variable {S : Sameness} {K : S.Kinship} {s t : Session} {n m : Node}

theorem constantAlong_eq (h : K.Akin s t n m) (constant : Bool) :
    constantAlong constant m = constantAlong constant n := by
  induction h.wellFormed.1 using Node.All.induction generalizing m constant with
  | member mark e name owner type _ _ _ ih =>
    cases h.kinds with
    | member _ he => rw [constantAlong, constantAlong, he.isLiteral_eq, ih he]
  | call mark f row args type =>
    generalize args.map Value.node = vs at h
    cases h.kinds
    rfl
  | lambda mark row ps b =>
    generalize Node.declarations ps = vs at h
    cases h.kinds
    rfl
  | _ =>
    cases h.kinds
    rfl

theorem parameterFreeAlong_eq (h : K.Akin s t n m) :
    parameterFreeAlong m = parameterFreeAlong n := by
  induction h.wellFormed.1 using Node.All.induction generalizing m with
  | member mark e name owner type _ _ _ ih =>
    cases h.kinds with
    | member _ he => rw [parameterFreeAlong, parameterFreeAlong, ih he]
  | call mark f row args type =>
    generalize args.map Value.node = vs at h
    cases h.kinds
    rfl
  | lambda mark row ps b =>
    generalize Node.declarations ps = vs at h
    cases h.kinds
    rfl
  | _ =>
    cases h.kinds
    rfl

theorem isConstantSubtree_eq (h : K.Akin s t n m) :
    isConstantSubtree (.node m) = isConstantSubtree (.node n) := by
  have hlink (k : Node) : isConstantSubtree (.node k) =
      if k.isLiteral then pure true else constantAlong false k := rfl
  rw [hlink, hlink, h.isLiteral_eq, h.constantAlong_eq]

theorem isParameterFree_eq (h : K.Akin s t n m) :
    isParameterFree (.node m) = isParameterFree (.node n) := by
  have hlink (k : Node) : isParameterFree (.node k) = parameterFreeAlong k := rfl
  rw [hlink, hlink, h.parameterFreeAlong_eq]

theorem isLiteralNode_eq (h : K.Akin s t n m) :
    (Value.node m).isLiteralNode = (Value.node n).isLiteralNode := h.isLiteral_eq

/-- Whether a pass tries to fold a tree depends on its shape only. -/
theorem foldable_eq (h : K.Akin s t n m) (foldCalls : Bool) :
    m.foldable foldCalls = n.foldable foldCalls := by
  have hkinds := h.kinds
  cases hkinds with
  | member =>
    rw [Node.foldable, Node.foldable, h.isConstantSubtree_eq, h.isParameterFree_eq]
  | static => rfl
  | unary hx => rw [Node.foldable, Node.foldable, hx.isLiteralNode_eq]
  | binary hl hr => rw [Node.foldable, Node.foldable, hl.isLiteralNode_eq, hr.isLiteralNode_eq]
  | conditional hc hx hy =>
    rw [Node.foldable, Node.foldable, hc.isLiteralNode_eq, hx.isLiteralNode_eq,
      hy.isLiteralNode_eq]
  | call hf hargs =>
    have hall : ∀ {as bs : List Node}, List.Forall₂ (K.Akin s t) as bs →
        (bs.map Value.node).all (·.isLiteralNode) = (as.map Value.node).all (·.isLiteralNode) := by
      intro as bs hab
      induction hab with
      | nil => rfl
      | cons h _ ih =>
        rw [List.map_cons, List.map_cons, List.all_cons, List.all_cons, h.isLiteralNode_eq, ih]
    rw [Node.foldable, Node.foldable, hf.isLiteralNode_eq, hall hargs]
  | _ => rfl

end Sameness.Kinship.Akin

/-! ### Hosts -/

/-- Operators, calls where these are folded, truth tests and members are pure: on the same values
they end the same, whenever and however deep they are run.  The texts of reports can be made. -/
structure Host.Pure (host : Host) (S : Sameness) (t : OperatorTable) (foldCalls : Bool) :
    Prop where
  operator : ∀ depth key {s s' args args'}, S.session s → S.session s' →
    List.Forall₂ (S.value s s') args args' →
    S.Ends s s' (fun _ => True) S.value (Machine.callWithin host depth (t key) args s)
      (Machine.callWithin host depth (t key) args' s')
  call : foldCalls = true → ∀ depth {s s' f f' args args'}, S.session s → S.session s' →
    S.value s s' f f' → List.Forall₂ (S.value s s') args args' →
    S.Ends s s' (fun _ => True) S.value (Machine.callWithin host depth f args s)
      (Machine.callWithin host depth f' args' s')
  truth : ∀ depth {s s' v v'}, S.session s → S.session s' → S.value s s' v v' →
    S.Ends s s' (fun _ => True) (fun _ _ b b' => b = b') ((host.truth v).within host depth s)
      ((host.truth v').within host depth s')
  member : ∀ depth {s s' v v' name}, S.session s → S.session s' → S.value s s' v v' →
    S.value s s' name name →
    S.Ends s s' (fun _ => True) S.value ((host.member v name).within host depth s)
      ((host.member v' name).within host depth s')
  describe : ∀ depth {s n}, S.session s → S.Present s n →
    ∃ text t, (host.describe n).within host depth s = (.done text, t) ∧ S.later s t
  spell : ∀ depth {s name}, S.session s → S.value s s name name →
    ∃ text t, (host.spell name).within host depth s = (.done text, t) ∧ S.later s t

/-- The texts of reports can be made: those of nodes, and those of the names of members. -/
structure Host.Reporting (host : Host) (S : Sameness) : Prop where
  describe : ∀ depth {s n}, S.session s → S.Present s n →
    ∃ text t, (host.describe n).within host depth s = (.done text, t) ∧ S.later s t
  spell : ∀ depth {s name}, S.session s → S.value s s name name →
    ∃ text t, (host.spell name).within host depth s = (.done text, t) ∧ S.later s t

theorem Host.Pure.reporting {host : Host} {S : Sameness} {t : OperatorTable} {foldCalls : Bool}
    (h : host.Pure S t foldCalls) : host.Reporting S :=
  ⟨h.describe, h.spell⟩

theorem Host.Pure.withoutCalls {host : Host} {S : Sameness} {t : OperatorTable}
    (h : host.Pure S t true) (foldCalls : Bool) : host.Pure S t foldCalls :=
  { h with call := fun _ => h.call rfl }

/-- Members whose names are the same, of the same values, are read with the same end. -/
def Sameness.Kinship.Reads {S : Sameness} (K : S.Kinship) (host : Host) : Prop :=
  ∀ depth {s s' v v' a b}, S.session s → S.session s' → S.value s s' v v' → K.name s s' a b →
    S.Ends s s' (fun _ => True) S.value ((host.member v a).within host depth s)
      ((host.member v' b).within host depth s')

theorem Host.Pure.reads {host : Host} {S : Sameness} {t : OperatorTable} {foldCalls : Bool}
    (h : host.Pure S t foldCalls) : (Sameness.Kinship.same S).Reads host := by
  rintro depth s s' v v' a _ hs hs' hv ⟨rfl, ha⟩
  exact h.member depth hs hs' hv ha

/-- Where operators, calls, truth tests and members fail on the same values, their faults have
something in common. -/
structure Host.FailsWith (host : Host) {S : Sameness} (K : S.Kinship) (t : OperatorTable)
    (foldCalls : Bool) (F : Faults) : Prop where
  operator : ∀ depth key {s s' args args'}, S.session s → S.session s' →
    List.Forall₂ (S.value s s') args args' →
    F.Between (Machine.callWithin host depth (t key) args s)
      (Machine.callWithin host depth (t key) args' s')
  call : foldCalls = true → ∀ depth {s s' f f' args args'}, S.session s → S.session s' →
    S.value s s' f f' → List.Forall₂ (S.value s s') args args' →
    F.Between (Machine.callWithin host depth f args s) (Machine.callWithin host depth f' args' s')
  truth : ∀ depth {s s' v v'}, S.session s → S.session s' → S.value s s' v v' →
    F.Between ((host.truth v).within host depth s) ((host.truth v').within host depth s')
  member : ∀ depth {s s' v v' a b}, S.session s → S.session s' → S.value s s' v v' →
    K.name s s' a b →
    F.Between ((host.member v a).within host depth s) ((host.member v' b).within host depth s')

theorem Host.failsWith_any (host : Host) {S : Sameness} (K : S.Kinship) (t : OperatorTable)
    (foldCalls : Bool) : host.FailsWith K t foldCalls fun _ _ _ _ => True where
  operator _ _ _ _ _ _ _ _ _ _ _ _ _ _ _ := trivial
  call _ _ _ _ _ _ _ _ _ _ _ _ _ _ _ _ _ _ := trivial
  truth _ _ _ _ _ _ _ _ _ _ _ _ _ _ := trivial
  member _ _ _ _ _ _ _ _ _ _ _ _ _ _ _ _ _ := trivial

section

variable {S : Sameness} {K : S.Kinship} {host : Host} {t : OperatorTable} {foldCalls : Bool}
  {s s' u u' : Session} {n m : Node} {F₀ F : Faults} {α β : Type}
  {P : Session → Session → α → β → Prop}

/-- Several pieces of code concur if each does. -/
theorem runAll_concurs (depth : Nat) {args args' : List Node}
    (each : ∀ a ∈ args, ∀ {s s' m}, S.session s → S.session s' → K.Akin s s' a m →
      S.Concurs s s' (·.isEvaluation = true) F S.value
        (((a.code t).run host []).within host depth s)
        (((m.code t).run host []).within host depth s'))
    (hs : S.session s) (hs' : S.session s') (hall : List.Forall₂ (K.Akin s s') args args') :
    S.Concurs s s' (·.isEvaluation = true) F (fun u u' => List.Forall₂ (S.value u u'))
      ((runAll host (args.map (·.code t)) []).within host depth s)
      ((runAll host (args'.map (·.code t)) []).within host depth s') := by
  induction args generalizing args' s s' with
  | nil =>
    cases hall
    exact .pure .nil
  | cons a args ih =>
    cases hall with
    | cons ha hrest =>
      refine (each a List.mem_cons_self hs hs' ha).bind fun hu hu' hv => ?_
      refine (ih (fun b hb => each b (List.mem_cons_of_mem a hb)) (S.session_later hs hu)
        (S.session_later hs' hu') (hrest.imp fun _ _ h => h.later hu hu')).bind
        fun hw hw' hvs => ?_
      exact .pure (.cons (S.value_later hv hw hw') hvs)

theorem bool_concurs {c c' : Caller} (b : Bool) (hs : S.session s) (hs' : S.session s')
    (hu : S.later s u) (hu' : S.later s' u') {E : Fault → Prop} :
    S.Concurs u u' E F S.value ((pure (.bool b) : Action Value).run c u)
      ((pure (.bool b) : Action Value).run c' u') :=
  .pure (S.value_bool b (S.session_later hs hu) (S.session_later hs' hu'))

section report

variable (hT : host.Reporting S)

include hT

/-- Whatever fails at a node is reported as a fault of evaluation. -/
theorem reporting_raises (depth : Nat) {activity : Action Activity} {passes : Fault → Bool}
    {x : Action α} {f : Fault} (hx : x.within host depth s = (.raised f, u)) (hu : S.session u)
    (hsite : S.Present u n)
    (hpasses : ∀ f, passes f = true → f.isEvaluation = true)
    (hactivity : ∃ a v, activity.within host depth u = (.done a, v) ∧ S.later u v) :
    ∃ g v, (reporting host n activity passes x).within host depth s = (.raised g, v) ∧
      S.later u v ∧ g.isEvaluation = true ∧ f.ReportedAs passes n g := by
  rw [Action.within, reporting, Action.run_handle_raised hx]
  cases hf : passes f with
  | true => exact ⟨f, u, rfl, S.later_refl u, hpasses f hf, .passed hf⟩
  | false =>
    obtain ⟨a, v, ha, huv⟩ := hactivity
    have hv := hsite.later huv huv
    obtain ⟨text, w, hw, hvw⟩ := hT.describe depth (S.session_later hu huv) hv
    rw [if_neg Bool.false_ne_true, Action.run_bind_done ha, Action.run_bind_done hw]
    exact ⟨_, w, rfl, S.order.trans huv hvw, rfl, .wrapped hf text a⟩

variable (hR : K.Reports F₀ F) (depth : Nat)

include hR

/-- What concurs at nodes that correspond does so when it is reported. -/
theorem reporting_concurs {activity activity' : Action Activity} {passes : Fault → Bool}
    {x : Action α} {y : Action β} (hs : S.session s) (hs' : S.session s') (hsite : K.Akin s s' n m)
    (hpasses : ∀ f, passes f = true → f.isEvaluation = true)
    (hclass : ∀ {f g : Fault}, f.errorClass = g.errorClass → passes f = passes g)
    (hactivity : ∀ u, S.later s u →
      ∃ a v, activity.within host depth u = (.done a, v) ∧ S.later u v)
    (hactivity' : ∀ u, S.later s' u →
      ∃ a v, activity'.within host depth u = (.done a, v) ∧ S.later u v)
    (hx : S.Concurs s s' (fun _ => True) F₀ P (x.within host depth s) (y.within host depth s')) :
    S.Concurs s s' (·.isEvaluation = true) F P
      ((reporting host n activity passes x).within host depth s)
      ((reporting host m activity' passes y).within host depth s') := by
  obtain ⟨hends, hfaults⟩ := hx
  generalize hox : x.within host depth s = o at hends hfaults
  generalize hoy : y.within host depth s' = o' at hends hfaults
  cases hends with
  | done hu hu' h =>
    rw [Action.within, Action.within, reporting, reporting, Action.run_handle_done hox,
      Action.run_handle_done hoy]
    exact ⟨.done hu hu' h, fun hx => nomatch hx⟩
  | raised hu hu' =>
    obtain ⟨hn, hm⟩ := (hsite.later hu hu').present
    obtain ⟨f, v, hf, hv, heval, hreport⟩ := reporting_raises hT depth hox
      (S.session_later hs hu) hn hpasses (hactivity _ hu)
    obtain ⟨g, v', hg, hv', heval', hreport'⟩ := reporting_raises hT depth hoy
      (S.session_later hs' hu') hm hpasses (hactivity' _ hu')
    rw [hf, hg]
    have hsv := S.order.trans hu hv
    have hsv' := S.order.trans hu' hv'
    refine ⟨.raised hsv hsv' heval heval', ?_⟩
    rintro _ _ _ _ ⟨⟩ ⟨⟩
    exact hR hclass (hfaults rfl rfl) hv hv' (hsite.later hsv hsv') hreport hreport'
  | exhausted =>
    rw [Action.within, Action.within, reporting, reporting, Action.run_handle_exhausted hox,
      Action.run_handle_exhausted hoy]
    exact ⟨.exhausted, fun hx => nomatch hx⟩

theorem applyingAt_concurs {x : Action α} {y : Action β} (hs : S.session s) (hs' : S.session s')
    (hsite : K.Akin s s' n m)
    (hx : S.Ends s s' (fun _ => True) P (x.within host depth s) (y.within host depth s'))
    (hfaults : F₀.Between (x.within host depth s) (y.within host depth s')) :
    S.Concurs s s' (·.isEvaluation = true) F P ((applyingAt host n x).within host depth s)
      ((applyingAt host m y).within host depth s') :=
  reporting_concurs hT hR depth hs hs' hsite (fun _ h => h)
    (fun h => by rw [Fault.isEvaluation, Fault.isEvaluation, h])
    (fun u _ => ⟨_, u, rfl, S.later_refl u⟩) (fun u _ => ⟨_, u, rfl, S.later_refl u⟩) ⟨hx, hfaults⟩

theorem readingAt_concurs {a b v v' : Value} (hs : S.session s) (hs' : S.session s')
    (hsite : K.Akin s s' n m) (ha : S.value s s a a) (hb : S.value s' s' b b)
    (hread : S.Ends s s' (fun _ => True) S.value ((host.member v a).within host depth s)
      ((host.member v' b).within host depth s'))
    (hfaults : F₀.Between ((host.member v a).within host depth s)
      ((host.member v' b).within host depth s')) :
    S.Concurs s s' (·.isEvaluation = true) F S.value ((readingAt host n a v).within host depth s)
      ((readingAt host m b v').within host depth s') := by
  have hactivity {s : Session} {a : Value} (hs : S.session s) (ha : S.value s s a a) (u : Session)
      (hu : S.later s u) : ∃ activity w,
        (do return .reading (← host.spell a) : Action Activity).within host depth u =
          (.done activity, w) ∧ S.later u w := by
    obtain ⟨text, w, hw, huw⟩ := hT.spell depth (S.session_later hs hu) (S.value_later ha hu hu)
    refine ⟨.reading text, w, ?_, huw⟩
    rw [Action.within, Action.run_bind_done hw]
    rfl
  exact reporting_concurs hT hR depth hs hs' hsite (fun _ h => nomatch h) (fun _ => rfl)
    (hactivity hs ha) (hactivity hs' hb) ⟨hread, hfaults⟩

end report

section run

variable (hP : host.Pure S t foldCalls) (hF : host.FailsWith K t foldCalls F₀) (hR : K.Reports F₀ F)
  (depth : Nat)

include hP hF hR

theorem testingAt_concurs {v v' : Value} (hs : S.session s) (hs' : S.session s')
    (hsite : K.Akin s s' n m) (hv : S.value s s' v v') :
    S.Concurs s s' (·.isEvaluation = true) F (fun _ _ b b' => b = b')
      ((testingAt host n v).within host depth s) ((testingAt host m v').within host depth s') :=
  applyingAt_concurs hP.reporting hR depth hs hs' hsite (hP.truth depth hs hs' hv)
    (hF.truth depth hs hs' hv)

/-! ### Code -/

/-- What a test decides between concurs if each of the two does. -/
theorem deciding_concurs {x y : Action Value} {k l : Bool → Action Value} (hs : S.session s)
    (hs' : S.session s') (hsite : K.Akin s s' n m)
    (hx : S.Concurs s s' (·.isEvaluation = true) F S.value (x.within host depth s)
      (y.within host depth s'))
    (hk : ∀ b {u u'}, S.later s u → S.later s' u' → S.Concurs u u' (·.isEvaluation = true) F S.value
      ((k b).within host depth u) ((l b).within host depth u')) :
    S.Concurs s s' (·.isEvaluation = true) F S.value
      ((x >>= fun v => testingAt host n v >>= k).within host depth s)
      ((y >>= fun v => testingAt host m v >>= l).within host depth s') := by
  refine hx.bind fun hu hu' hv => ?_
  refine (testingAt_concurs hP hF hR depth (S.session_later hs hu) (S.session_later hs' hu')
    (hsite.later hu hu') hv).bind fun {_ _ b b'} hw hw' hb => ?_
  subst hb
  exact hk b (S.order.trans hu hw) (S.order.trans hu' hw')

/-- A binary operator concurs over operands that do. -/
theorem ofBinary_concurs (op : BinaryOp) {l l' r r' : Code} (hs : S.session s) (hs' : S.session s')
    (hsite : K.Akin s s' n m)
    (hl : S.Concurs s s' (·.isEvaluation = true) F S.value ((l.run host []).within host depth s)
      ((l'.run host []).within host depth s'))
    (hr : ∀ {u u'}, S.later s u → S.later s' u' →
      S.Concurs u u' (·.isEvaluation = true) F S.value ((r.run host []).within host depth u)
        ((r'.run host []).within host depth u')) :
    S.Concurs s s' (·.isEvaluation = true) F S.value
      (((Code.ofBinary t n op l r).run host []).within host depth s)
      (((Code.ofBinary t m op l' r').run host []).within host depth s') := by
  cases op with
  | andAlso =>
    refine deciding_concurs hP hF hR depth hs hs' hsite hl fun b _ _ hu hu' => ?_
    cases b with
    | true =>
      exact deciding_concurs hP hF hR depth (S.session_later hs hu) (S.session_later hs' hu')
        (hsite.later hu hu') (hr hu hu') fun b _ _ hw hw' =>
          bool_concurs b hs hs' (S.order.trans hu hw) (S.order.trans hu' hw')
    | false => exact bool_concurs false hs hs' hu hu'
  | orElse =>
    refine deciding_concurs hP hF hR depth hs hs' hsite hl fun b _ _ hu hu' => ?_
    cases b with
    | true => exact bool_concurs true hs hs' hu hu'
    | false =>
      exact deciding_concurs hP hF hR depth (S.session_later hs hu) (S.session_later hs' hu')
        (hsite.later hu hu') (hr hu hu') fun b _ _ hw hw' =>
          bool_concurs b hs hs' (S.order.trans hu hw) (S.order.trans hu' hw')
  | _ =>
    refine hl.bind fun hu hu' hv => ?_
    refine (hr hu hu').bind fun hw hw' hv' => ?_
    have hws := S.session_later (S.session_later hs hu) hw
    have hws' := S.session_later (S.session_later hs' hu') hw'
    have hargs := List.Forall₂.cons (S.value_later hv hw hw') (.cons hv' .nil)
    exact applyingAt_concurs hP.reporting hR depth hws hws' ((hsite.later hu hu').later hw hw')
      (hP.operator depth _ hws hws' hargs) (hF.operator depth _ hws hws' hargs)

/-- What is folded concurs on trees that correspond. -/
theorem Node.Ground.concurs (hK : K.Reads host) (hg : n.Ground foldCalls) (hs : S.session s)
    (hs' : S.session s') (h : K.Akin s s' n m) :
    S.Concurs s s' (·.isEvaluation = true) F S.value
      (((n.code t).run host []).within host depth s)
      (((m.code t).run host []).within host depth s') := by
  induction hg generalizing m s s' with
  | literal =>
    cases h.kinds with
    | literal hv => exact .pure hv
  | member _ ih =>
    obtain ⟨-, here, there⟩ := h.label
    have hsite := h
    cases h.kinds with
    | member hname he =>
      refine (ih hs hs' he).bind fun hu hu' hv => ?_
      have hus := S.session_later hs hu
      have hus' := S.session_later hs' hu'
      have hname' := K.name_later hname hu hu'
      exact readingAt_concurs hP.reporting hR depth hus hus' (hsite.later hu hu')
        (S.value_later here.1 hu hu) (S.value_later there.1 hu' hu')
        (hK depth hus hus' hv hname') (hF.member depth hus hus' hv hname')
  | unary _ ih =>
    have hsite := h
    cases h.kinds with
    | unary hx =>
      refine (ih hs hs' hx).bind fun hu hu' hv => ?_
      have hus := S.session_later hs hu
      have hus' := S.session_later hs' hu'
      exact applyingAt_concurs hP.reporting hR depth hus hus' (hsite.later hu hu')
        (hP.operator depth _ hus hus' (.cons hv .nil))
        (hF.operator depth _ hus hus' (.cons hv .nil))
  | @binary _ op _ _ _ _ _ ihl ihr =>
    have hsite := h
    cases h.kinds with
    | binary hl hr =>
      refine ofBinary_concurs hP hF hR depth op hs hs' hsite (ihl hs hs' hl) fun hu hu' => ?_
      exact ihr (S.session_later hs hu) (S.session_later hs' hu') (hr.later hu hu')
  | conditional _ _ _ ihc ihx ihy =>
    have hsite := h
    cases h.kinds with
    | conditional hc hx hy =>
      refine deciding_concurs hP hF hR depth hs hs' hsite (ihc hs hs' hc) fun b _ _ hu hu' => ?_
      have hus := S.session_later hs hu
      have hus' := S.session_later hs' hu'
      cases b with
      | true => exact ihx hus hus' (hx.later hu hu')
      | false => exact ihy hus hus' (hy.later hu hu')
  | @call _ _ f args _ allowed _ _ ihf ihargs =>
    have hsite := h
    obtain ⟨mark', row', f', args', rfl, hf, hargs⟩ := h.of_call
    rw [Node.code, Node.code, codes_nodes, codes_nodes]
    refine (ihf hs hs' hf).bind fun hu hu' hfv => ?_
    refine (runAll_concurs depth (fun a ha _ _ _ hs hs' h => ihargs a ha hs hs' h)
      (S.session_later hs hu) (S.session_later hs' hu')
      (hargs.imp fun _ _ h => h.later hu hu')).bind fun hw hw' hvs => ?_
    have hws := S.session_later (S.session_later hs hu) hw
    have hws' := S.session_later (S.session_later hs' hu') hw'
    have hfw := S.value_later hfv hw hw'
    exact applyingAt_concurs hP.reporting hR depth hws hws' ((hsite.later hu hu').later hw hw')
      (hP.call allowed depth hws hws' hfw hvs) (hF.call allowed depth hws hws' hfw hvs)

end run

/-- What is folded ends the same on trees that correspond. -/
theorem Node.Ground.ends (hP : host.Pure S t foldCalls) (depth : Nat) (hK : K.Reads host)
    (hg : n.Ground foldCalls) (hs : S.session s) (hs' : S.session s') (h : K.Akin s s' n m) :
    S.Ends s s' (·.isEvaluation = true) S.value (((n.code t).run host []).within host depth s)
      (((m.code t).run host []).within host depth s') :=
  (hg.concurs hP (host.failsWith_any K t foldCalls) Sameness.Kinship.reports_any depth hK hs hs'
    h).ends

/-! ### Folding one tree -/

theorem Node.asLiteral_concurs {c c' : Caller} {E : Fault → Prop} {w w' : Value}
    (hs : S.session s) (hs' : S.session s') (htype : S.type n.type) (heq : m.type = n.type)
    (hw : S.value s s' w w') :
    S.Concurs s s' E F S.Alike ((n.asLiteral w).run c s) ((m.asLiteral w').run c' s') := by
  rw [asLiteral_eq, asLiteral_eq, heq, S.isAbsent_eq hs hs' htype, S.typeOf_eq hw]
  have hlater (u : Session) : S.later u (u.marked 1) := S.order.noted (.mark .refl 1)
  exact ⟨.done (hlater s) (hlater s') (.literal (S.value_later hw (hlater s) (hlater s'))),
    fun hx => nomatch hx⟩

theorem Node.Ground.asParameter?_eq (hg : n.Ground foldCalls) : n.asParameter? = none := by
  cases hg <;> rfl

/-- To fold trees that correspond concurs, with literals that are the same. -/
theorem Machine.fold_concurs {M : Machine} {overrides : List (Value × Value)}
    (hP : M.host.Pure S (OperatorTable.standard.overridden overrides) foldCalls)
    (hF : M.host.FailsWith K (OperatorTable.standard.overridden overrides) foldCalls F₀)
    (hR : K.Reports F₀ F) (hK : K.Reads M.host) (hv : OperatorTable.Valid overrides)
    (hg : n.Ground foldCalls) (hg' : m.Ground foldCalls) (htype : S.type n.type)
    (hs : S.session s) (hs' : S.session s') (h : K.Akin s s' n m) :
    S.Concurs s s' (·.isEvaluation = true) F S.Alike
      ((M.fold overrides (.node n)).run M.caller s)
      ((M.fold overrides (.node m)).run M.caller s') := by
  obtain ⟨mark, u, hu, hrun⟩ := fold_run (M := M) hg.owned hv M.caller s
  obtain ⟨mark', u', hu', hrun'⟩ := fold_run (M := M) hg'.owned hv M.caller s'
  have hsu := S.order.noted hu
  have hsu' := S.order.noted hu'
  have hus := S.session_later hs hsu
  have hus' := S.session_later hs' hsu'
  rw [hrun, hrun']
  refine (Sameness.Concurs.bind (P := S.value) ?_ fun {v v' w w'} hv hv' hw => ?_).earlier hsu hsu'
  · rw [Action.run_call, Action.run_call, caller]
    cases M.depth with
    | zero => exact ⟨.exhausted, fun hx => nomatch hx⟩
    | succ depth =>
      rw [callWithin_closure rfl, callWithin_closure rfl]
      exact hg.concurs hP hF hR depth hK hus hus' (h.later hsu hsu')
  · exact Node.asLiteral_concurs (S.session_later hus hv) (S.session_later hus' hv') htype
      (h.type_eq hg.asParameter?_eq) hw

end

end PredicateTree
