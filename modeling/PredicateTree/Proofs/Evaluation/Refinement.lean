import PredicateTree.Proofs.Evaluation.Bookkeeping
import PredicateTree.Proofs.Evaluation.Semantics

/-!
# Evaluation refines the semantics of trees

A tree is compiled first, and its code runs afterwards, maybe much later and somewhere else.  Still
the code of every well-formed tree ends exactly as the rules say the tree does, with the same calls
in the same order (`Node.code_run_iff`).  There is one way to call functions by the rules, however
deep calls may nest (`Host.interprets_iff`).  So evaluation is the semantics
(`Machine.evaluate_iff`).
-/

namespace PredicateTree

/-! ### One step of the rules -/

section steps

variable {α β : Type} {host : Host} {c : Caller} {t : OperatorTable} {s : Session}

/-- A computation goes on with the value of its first part, or stops as that does. -/
theorem Action.run_bind_iff {x : Action α} {k : α → Action β} {o : Outcome β × Session} :
    (x >>= k).run c s = o ↔ (∃ a u, x.run c s = (.done a, u) ∧ (k a).run c u = o) ∨
      ∃ p u q, x.run c s = (p, u) ∧ p.Stops q ∧ o = (q, u) := by
  constructor
  · rintro rfl
    rcases hx : x.run c s with ⟨a | f | _, u⟩
    · exact .inl ⟨a, u, rfl, (run_bind_done hx).symm⟩
    · exact .inr ⟨_, u, _, rfl, .raised f, run_bind_raised hx⟩
    · exact .inr ⟨_, u, _, rfl, .exhausted, run_bind_exhausted hx⟩
  · rintro (⟨a, u, hx, rfl⟩ | ⟨p, u, q, hx, hstops, rfl⟩)
    · exact run_bind_done hx
    · cases hstops with
      | raised f => exact run_bind_raised hx
      | exhausted => exact run_bind_exhausted hx

theorem reports_iff {site : Node} {activity : Activity} {f : Fault} {o : Outcome α × Session} :
    (host.describe site >>= fun shown =>
      (Action.raise (.failedAt site shown activity f) : Action α)).run c s = o ↔
      host.Reports c site activity f s o := by
  rw [Action.run_bind_iff]
  constructor
  · rintro (⟨shown, u, hrun, rfl⟩ | ⟨p, u, q, hrun, hstops, rfl⟩)
    · exact .described hrun
    · exact .undescribed hrun hstops
  · intro h
    cases h with
    | described text => exact .inl ⟨_, _, text, rfl⟩
    | undescribed text stops => exact .inr ⟨_, _, _, text, stops, rfl⟩

theorem applyingAt_iff {site : Node} {x : Action α} {o : Outcome α × Session} :
    (applyingAt host site x).run c s = o ↔ host.AppliesAt c site x s o := by
  have hpass {f : Fault} (hf : f.isEvaluation = true) {u : Session}
      (hx : x.run c s = (.raised f, u)) : (applyingAt host site x).run c s = (.raised f, u) := by
    rw [applyingAt, reporting, Action.run_handle_raised hx, if_pos hf, Action.run_raise]
  have hreport {f : Fault} (hf : f.isEvaluation = false) {u : Session}
      (hx : x.run c s = (.raised f, u)) :
      (applyingAt host site x).run c s = o ↔ host.Reports c site .evaluating f u o := by
    rw [applyingAt, reporting, Action.run_handle_raised hx, if_neg (by simp [hf]), pure_bind,
      reports_iff]
  constructor
  · rintro rfl
    rcases hx : x.run c s with ⟨a | f | _, u⟩
    · rw [applyingAt, reporting, Action.run_handle_done hx]
      exact .done hx
    · cases hf : f.isEvaluation with
      | true =>
        rw [hpass hf hx]
        exact .passed hx hf
      | false => exact .reported hx hf ((hreport hf hx).1 rfl)
    · rw [applyingAt, reporting, Action.run_handle_exhausted hx]
      exact .exhausted hx
  · intro h
    cases h with
    | done run => exact Action.run_handle_done run
    | passed run evaluation => exact hpass evaluation run
    | reported run other report => exact (hreport other run).2 report
    | exhausted run => exact Action.run_handle_exhausted run

theorem readingAt_iff {site : Node} {name v : Value} {o : Outcome Value × Session} :
    (readingAt host site name v).run c s = o ↔ host.ReadsAt c site name v s o := by
  have hreport {f : Fault} {u : Session} (hx : (host.member v name).run c s = (.raised f, u)) :
      (readingAt host site name v).run c s = o ↔
        (∃ text x, (host.spell name).run c u = (.done text, x) ∧
          host.Reports c site (.reading text) f x o) ∨
        ∃ p x q, (host.spell name).run c u = (p, x) ∧ p.Stops q ∧ o = (q, x) := by
    rw [readingAt, reporting, Action.run_handle_raised hx, if_neg Bool.false_ne_true, bind_assoc,
      Action.run_bind_iff]
    simp only [pure_bind, reports_iff]
  constructor
  · rintro rfl
    rcases hx : (host.member v name).run c s with ⟨a | f | _, u⟩
    · rw [readingAt, reporting, Action.run_handle_done hx]
      exact .done hx
    · rcases (hreport hx).1 rfl with ⟨text, x, hspell, h⟩ | ⟨p, x, q, hspell, hstops, h⟩
      · exact .reported hx hspell h
      · rw [h]
        exact .unspelled hx hspell hstops
    · rw [readingAt, reporting, Action.run_handle_exhausted hx]
      exact .exhausted hx
  · intro h
    cases h with
    | done run => exact Action.run_handle_done run
    | reported run spelled report => exact (hreport run).2 (.inl ⟨_, _, spelled, report⟩)
    | unspelled run spelled stops => exact (hreport run).2 (.inr ⟨_, _, _, spelled, stops, rfl⟩)
    | exhausted run => exact Action.run_handle_exhausted run

end steps

/-! ### Code -/

section code

variable {host : Host} {c : Caller} {t : OperatorTable} {n : Node} {s : Session}

/-- The code of a tree ends as the rules say that the tree does. -/
def Node.Refined (host : Host) (c : Caller) (t : OperatorTable) (n : Node) : Prop :=
  ∀ (env : Environment) (s : Session) (o : Outcome Value × Session),
    ((n.code t).run host env).run c s = o ↔ n.Evaluates host c t env s o

theorem runAll_iff {ns : List Node} (h : ∀ n ∈ ns, n.Refined host c t) (env : Environment)
    (s : Session) (o : Outcome (List Value) × Session) :
    (runAll host (ns.map (·.code t)) env).run c s = o ↔
      Node.EvaluatesAll host c t env ns s o := by
  induction ns generalizing s o with
  | nil =>
    constructor
    · rintro rfl
      exact .nil
    · intro h
      cases h
      rfl
  | cons n ns ih =>
    have hn := h n List.mem_cons_self env
    have hns := ih fun m hm => h m (List.mem_cons_of_mem n hm)
    rw [List.map_cons, runAll]
    simp only [Action.run_bind_iff, hn, hns]
    constructor
    · rintro (⟨v, u, hv, ⟨vs, w, hvs, rfl⟩ | ⟨p, w, q, hp, hstops, rfl⟩⟩ |
        ⟨p, u, q, hp, hstops, rfl⟩)
      · exact .cons hv hvs
      · exact .stoppedLater hv hp hstops
      · exact .stopped hp hstops
    · intro h
      cases h with
      | cons head tail => exact .inl ⟨_, _, head, .inl ⟨_, _, tail, rfl⟩⟩
      | stopped head stops => exact .inr ⟨_, _, _, head, stops, rfl⟩
      | stoppedLater head tail stops =>
        exact .inl ⟨_, _, head, .inr ⟨_, _, _, tail, stops, rfl⟩⟩

/-- An eager node evaluates its operands, and applies something to all of their values. -/
theorem eager_iff {ns : List Node} (h : ∀ n ∈ ns, n.Refined host c t) (env : Environment)
    (site : Node) (k : List Value → Action Value) (s : Session) (o : Outcome Value × Session) :
    (runAll host (ns.map (·.code t)) env >>= fun vs => applyingAt host site (k vs)).run c s = o ↔
      (∃ vs u, Node.EvaluatesAll host c t env ns s (.done vs, u) ∧
        host.AppliesAt c site (k vs) u o) ∨
      ∃ p u q, Node.EvaluatesAll host c t env ns s (p, u) ∧ p.Stops q ∧ o = (q, u) := by
  simp only [Action.run_bind_iff, runAll_iff h, applyingAt_iff]

theorem decides_iff (h : n.Refined host c t) (env : Environment) (site : Node) (s : Session)
    (o : Outcome Bool × Session) :
    ((n.code t).run host env >>= testingAt host site).run c s = o ↔
      Node.Decides host c t env site n s o := by
  simp only [Action.run_bind_iff, h env, testingAt, applyingAt_iff]
  constructor
  · rintro (⟨v, u, hv, htest⟩ | ⟨p, u, q, hp, hstops, rfl⟩)
    · exact .tested hv htest
    · exact .stopped hp hstops
  · intro h
    cases h with
    | tested value test => exact .inl ⟨_, _, value, test⟩
    | stopped value stops => exact .inr ⟨_, _, _, value, stops, rfl⟩

/-- The truth of an operand, as a value. -/
theorem decides_map_iff (h : n.Refined host c t) (env : Environment) (site : Node) (s : Session)
    (o : Outcome Value × Session) :
    ((n.code t).run host env >>= fun v => testingAt host site v >>= fun b =>
      pure (.bool b)).run c s = o ↔
      ∃ q u, Node.Decides host c t env site n s (q, u) ∧ o = (q.map .bool, u) := by
  rw [← bind_assoc, Action.run_bind_iff]
  simp only [decides_iff h]
  constructor
  · rintro (⟨b, u, hb, rfl⟩ | ⟨p, u, q, hp, hstops, rfl⟩)
    · exact ⟨_, u, hb, rfl⟩
    · cases hstops with
      | raised f => exact ⟨_, u, hp, rfl⟩
      | exhausted => exact ⟨_, u, hp, rfl⟩
  · rintro ⟨q, u, hq, rfl⟩
    cases q with
    | done b => exact .inl ⟨b, u, hq, rfl⟩
    | raised f => exact .inr ⟨_, u, _, hq, .raised f, rfl⟩
    | exhausted => exact .inr ⟨_, u, _, hq, .exhausted, rfl⟩

/-- What is done after a test depends on the truth. -/
theorem deciding_iff (h : n.Refined host c t) (env : Environment) (site : Node)
    (k : Bool → Action Value) (s : Session) (o : Outcome Value × Session) :
    ((n.code t).run host env >>= fun v => testingAt host site v >>= k).run c s = o ↔
      (∃ b u, Node.Decides host c t env site n s (.done b, u) ∧ (k b).run c u = o) ∨
      ∃ p u q, Node.Decides host c t env site n s (p, u) ∧ p.Stops q ∧ o = (q, u) := by
  rw [← bind_assoc, Action.run_bind_iff]
  simp only [decides_iff h]

/-- A short-circuit operator is settled by its left operand, or asks for the truth of the right
one, or stops. -/
theorem shortCircuit_iff {l r : Node} (hl : l.Refined host c t) (hr : r.Refined host c t)
    (env : Environment) (site : Node) (settling : Bool) (s : Session)
    (o : Outcome Value × Session) :
    ((l.code t).run host env >>= fun v => testingAt host site v >>= fun b =>
      if b = settling then pure (.bool settling)
      else (r.code t).run host env >>= fun w => testingAt host site w >>= fun b =>
        pure (.bool b)).run c s = o ↔
      (∃ u, Node.Decides host c t env site l s (.done settling, u) ∧
        o = (.done (.bool settling), u)) ∨
      (∃ u q w, Node.Decides host c t env site l s (.done !settling, u) ∧
        Node.Decides host c t env site r u (q, w) ∧ o = (q.map .bool, w)) ∨
      ∃ p u q, Node.Decides host c t env site l s (p, u) ∧ p.Stops q ∧ o = (q, u) := by
  rw [deciding_iff hl]
  constructor
  · rintro (⟨b, u, hb, hrun⟩ | hstops)
    · by_cases hsettled : b = settling
      · subst hsettled
        rw [if_pos rfl] at hrun
        exact .inl ⟨u, hb, hrun.symm⟩
      · rw [if_neg hsettled, decides_map_iff hr] at hrun
        obtain ⟨q, w, hq, rfl⟩ := hrun
        rw [Bool.eq_not_of_ne hsettled] at hb
        exact .inr (.inl ⟨u, q, w, hb, hq, rfl⟩)
    · exact .inr (.inr hstops)
  · rintro (⟨u, hb, rfl⟩ | ⟨u, q, w, hb, hq, rfl⟩ | hstops)
    · exact .inl ⟨settling, u, hb, by rw [if_pos rfl]; rfl⟩
    · refine .inl ⟨!settling, u, hb, ?_⟩
      rw [if_neg (by cases settling <;> decide), decides_map_iff hr]
      exact ⟨q, w, hq, rfl⟩
    · exact .inr hstops

theorem Code.ofBinary_of_eager {op : BinaryOp} (h : op.isShortCircuit = false) (t : OperatorTable)
    (site : Node) (l r : Code) :
    Code.ofBinary t site op l r = .applyBinary site (t (.binary op)) l r := by
  cases op with
  | andAlso | orElse => cases h
  | _ => rfl

theorem shortCircuit_refined {mark : Nat} {op : BinaryOp} {l r : Node} {type : StaticType}
    (hop : op.isShortCircuit = true) (hl : l.Refined host c t) (hr : r.Refined host c t) :
    (Node.binary mark op (.node l) (.node r) type).Refined host c t := by
  intro env s o
  cases op with
  | andAlso =>
    refine (Eq.congr_left (congrArg (Action.run · c s) ?_)).trans
      ((shortCircuit_iff hl hr env (.binary mark .andAlso (.node l) (.node r) type) false s
        o).trans ?_)
    · refine congrArg ((l.code t).run host env >>= ·) (funext fun v => ?_)
      refine congrArg (testingAt host _ v >>= ·) (funext fun b => ?_)
      cases b <;> rfl
    constructor
    · rintro (⟨u, hb, rfl⟩ | ⟨u, q, w, hb, hq, rfl⟩ | ⟨p, u, q, hp, hstops, rfl⟩)
      · exact .andFalse hb
      · exact .andTrue hb hq
      · exact .shortCircuitStopped rfl hp hstops
    · intro h
      cases h with
      | andFalse left => exact .inl ⟨_, left, rfl⟩
      | andTrue left right => exact .inr (.inl ⟨_, _, _, left, right, rfl⟩)
      | shortCircuitStopped _ left stops => exact .inr (.inr ⟨_, _, _, left, stops, rfl⟩)
      | binary eager | binaryStopped eager => cases eager
  | orElse =>
    refine (Eq.congr_left (congrArg (Action.run · c s) ?_)).trans
      ((shortCircuit_iff hl hr env (.binary mark .orElse (.node l) (.node r) type) true s
        o).trans ?_)
    · refine congrArg ((l.code t).run host env >>= ·) (funext fun v => ?_)
      refine congrArg (testingAt host _ v >>= ·) (funext fun b => ?_)
      cases b <;> rfl
    constructor
    · rintro (⟨u, hb, rfl⟩ | ⟨u, q, w, hb, hq, rfl⟩ | ⟨p, u, q, hp, hstops, rfl⟩)
      · exact .orTrue hb
      · exact .orFalse hb hq
      · exact .shortCircuitStopped rfl hp hstops
    · intro h
      cases h with
      | orTrue left => exact .inl ⟨_, left, rfl⟩
      | orFalse left right => exact .inr (.inl ⟨_, _, _, left, right, rfl⟩)
      | shortCircuitStopped _ left stops => exact .inr (.inr ⟨_, _, _, left, stops, rfl⟩)
      | binary eager | binaryStopped eager => cases eager
  | _ => cases hop

theorem parameter_refined (p : Parameter) : (Node.parameter p).Refined host c t := by
  intro env s o
  rw [Node.code, Code.run]
  cases hvalue : env.get? p with
  | some v =>
    constructor
    · rintro rfl
      exact .bound hvalue
    · intro h
      cases h with
      | bound value =>
        cases hvalue.symm.trans value
        rfl
      | unbound value => cases hvalue.symm.trans value
      | unspelled value => cases hvalue.symm.trans value
  | none =>
    have hstore : Action.store.run c s = (.done s.store, s) := rfl
    simp only [unboundAt, Action.run_bind_done hstore, Action.run_bind_iff]
    constructor
    · rintro (⟨name, u, hname, rfl⟩ | ⟨x, u, q, hx, hstops, rfl⟩)
      · exact .unbound hvalue hname
      · exact .unspelled hvalue hx hstops
    · intro h
      cases h with
      | bound value => cases hvalue.symm.trans value
      | unbound value spelled => exact .inl ⟨_, _, spelled, rfl⟩
      | unspelled value spelled stops => exact .inr ⟨_, _, _, spelled, stops, rfl⟩

theorem static_refined (mark : Nat) (name owner : Value) (type : StaticType) :
    (Node.member mark .absent name owner type).Refined host c t := by
  intro env s o
  change (readingAt host _ name owner).run c s = o ↔ _
  rw [readingAt_iff]
  constructor
  · exact .static
  · intro h
    cases h with
    | static read => exact read

theorem member_refined {e : Node} (he : e.Refined host c t) (mark : Nat) (name owner : Value)
    (type : StaticType) : (Node.member mark (.node e) name owner type).Refined host c t := by
  intro env s o
  change ((e.code t).run host env >>= fun v => readingAt host _ name v).run c s = o ↔ _
  simp only [Action.run_bind_iff, he env, readingAt_iff]
  constructor
  · rintro (⟨v, u, hv, hread⟩ | ⟨p, u, q, hp, hstops, rfl⟩)
    · exact .member hv hread
    · exact .memberStopped hp hstops
  · intro h
    cases h with
    | member target read => exact .inl ⟨_, _, target, read⟩
    | memberStopped target stops => exact .inr ⟨_, _, _, target, stops, rfl⟩

theorem unary_refined {x : Node} (hx : x.Refined host c t) (mark : Nat) (op : UnaryOp)
    (type : StaticType) : (Node.unary mark op (.node x) type).Refined host c t := by
  intro env s o
  have hcode : ((Node.unary mark op (.node x) type).code t).run host env =
      runAll host ([x].map (·.code t)) env >>= fun vs =>
        applyingAt host (.unary mark op (.node x) type) (Action.call (t (.unary op)) vs) := by
    simp only [Node.code, Value.code, Code.run, List.map_cons, List.map_nil, runAll, pure_bind,
      bind_assoc]
  rw [hcode, eager_iff (by simpa using hx)]
  constructor
  · rintro (⟨vs, u, hvs, happly⟩ | ⟨p, u, q, hp, hstops, rfl⟩)
    · exact .unary hvs happly
    · exact .unaryStopped hp hstops
  · intro h
    cases h with
    | unary operands apply => exact .inl ⟨_, _, operands, apply⟩
    | unaryStopped operands stops => exact .inr ⟨_, _, _, operands, stops, rfl⟩

theorem binary_refined {l r : Node} (hl : l.Refined host c t) (hr : r.Refined host c t) (mark : Nat)
    (op : BinaryOp) (type : StaticType) :
    (Node.binary mark op (.node l) (.node r) type).Refined host c t := by
  intro env s o
  cases hop : op.isShortCircuit with
  | false =>
    have hcode : ((Node.binary mark op (.node l) (.node r) type).code t).run host env =
        runAll host ([l, r].map (·.code t)) env >>= fun vs =>
          applyingAt host (.binary mark op (.node l) (.node r) type)
            (Action.call (t (.binary op)) vs) := by
      simp only [Node.code, Value.code, Code.ofBinary_of_eager hop, Code.run, List.map_cons,
        List.map_nil, runAll, pure_bind, bind_assoc]
    rw [hcode, eager_iff (by simpa using ⟨hl, hr⟩)]
    constructor
    · rintro (⟨vs, u, hvs, happly⟩ | ⟨p, u, q, hp, hstops, rfl⟩)
      · exact .binary hop hvs happly
      · exact .binaryStopped hop hp hstops
    · intro h
      cases h with
      | binary _ operands apply => exact .inl ⟨_, _, operands, apply⟩
      | binaryStopped _ operands stops => exact .inr ⟨_, _, _, operands, stops, rfl⟩
      | shortCircuitStopped shortCircuit => cases hop.symm.trans shortCircuit
      | _ => cases hop
  | true => exact shortCircuit_refined hop hl hr env s o

theorem conditional_refined {n x y : Node} (hn : n.Refined host c t) (hx : x.Refined host c t)
    (hy : y.Refined host c t) (mark : Nat) (type : StaticType) :
    (Node.conditional mark (.node n) (.node x) (.node y) type).Refined host c t := by
  intro env s o
  change ((n.code t).run host env >>= fun v => testingAt host _ v >>= fun b =>
    if b then (x.code t).run host env else (y.code t).run host env).run c s = o ↔ _
  rw [deciding_iff hn]
  constructor
  · rintro (⟨b, u, hb, hbranch⟩ | ⟨p, u, q, hp, hstops, rfl⟩)
    · cases b with
      | true => exact .ifTrue hb ((hx env u o).1 hbranch)
      | false => exact .ifFalse hb ((hy env u o).1 hbranch)
    · exact .testStopped hp hstops
  · intro h
    cases h with
    | ifTrue test branch => exact .inl ⟨true, _, test, (hx env _ o).2 branch⟩
    | ifFalse test branch => exact .inl ⟨false, _, test, (hy env _ o).2 branch⟩
    | testStopped test stops => exact .inr ⟨_, _, _, test, stops, rfl⟩

theorem call_refined {f : Node} {args : List Node} (hf : f.Refined host c t)
    (hargs : ∀ a ∈ args, a.Refined host c t) (mark row : Nat) (type : StaticType) :
    (Node.call mark (.node f) row (args.map .node) type).Refined host c t := by
  intro env s o
  have hcode : ((Node.call mark (.node f) row (args.map .node) type).code t).run host env =
      runAll host ((f :: args).map (·.code t)) env >>= fun vs =>
        applyingAt host (.call mark (.node f) row (args.map .node) type)
          (Action.call (vs.headD .absent) vs.tail) := by
    simp only [Node.code, Value.code, codes_nodes, Code.run, List.map_cons, runAll, pure_bind,
      bind_assoc, List.headD_cons, List.tail_cons]
  rw [hcode, eager_iff (by simpa using ⟨hf, hargs⟩)]
  constructor
  · rintro (⟨vs, u, hvs, happly⟩ | ⟨p, u, q, hp, hstops, rfl⟩)
    · cases hvs with
      | cons head tail => exact .call (.cons head tail) happly
      | stopped _ stops => cases stops
      | stoppedLater _ _ stops => cases stops
    · exact .callStopped hp hstops
  · intro h
    have hsame {as : List Node} (hvs : args.map Value.node = as.map .node) : as = args :=
      (List.map_injective_iff.2 (fun _ _ => Value.node.inj) hvs).symm
    generalize hvs : args.map Value.node = vs at h ⊢
    cases h with
    | call operands apply =>
      cases hsame hvs
      exact .inl ⟨_, _, operands, apply⟩
    | callStopped operands stops =>
      cases hsame hvs
      exact .inr ⟨_, _, _, operands, stops, rfl⟩

theorem lambda_refined (mark row : Nat) (ps : List Parameter) (b : Node) :
    (Node.lambda mark row (Node.declarations ps) (.node b)).Refined host c t := by
  intro env s o
  rw [Node.code, filterMap_declarations]
  constructor
  · rintro rfl
    exact .lambda
  · intro h
    generalize hvs : Node.declarations ps = vs at h
    cases h with
    | lambda =>
      rw [← filterMap_declarations ps, hvs, filterMap_declarations]
      rfl

/-- The code of every well-formed tree ends as the rules say that the tree does: with the same value
or fault, after the same calls. -/
theorem Node.code_run_iff (host : Host) (c : Caller) (t : OperatorTable) (h : n.WellFormed) :
    n.Refined host c t := by
  induction h using Node.All.induction with
  | literal mark v type =>
    intro env s o
    constructor
    · rintro rfl
      exact .literal
    · intro h
      cases h
      rfl
  | parameter p => exact parameter_refined p
  | static mark name owner type => exact static_refined mark name owner type
  | member mark e name owner type _ _ _ ih => exact member_refined ih mark name owner type
  | unary mark op x type _ _ _ ih => exact unary_refined ih mark op type
  | binary mark op l r type _ _ _ _ ihl ihr => exact binary_refined ihl ihr mark op type
  | conditional mark n x y type _ _ _ _ _ ihn ihx ihy =>
    exact conditional_refined ihn ihx ihy mark type
  | call mark f row args type _ _ _ _ ihf ihargs => exact call_refined ihf ihargs mark row type
  | lambda mark row ps b _ _ _ _ _ => exact lambda_refined mark row ps b

end code

/-! ### Calls -/

namespace Host

variable {host : Host}

theorem callWithin_callsThrough (host : Host) (depth : Nat) :
    host.CallsThrough (Machine.callWithin host depth) (Machine.callWithin host (depth + 1)) where
  body hb hlen s := by
    rw [callWithin_closure hlen]
    exact (Node.code_run_iff host _ _ hb _ s _).1 rfl
  arity hlen s := by
    rw [Machine.callWithin, apply, if_neg hlen]
    rfl
  other _ _ := rfl

/-- There is one way to call functions by the rules. -/
theorem CallsThrough.eq {depth : Nat} {c : Caller}
    (h : host.CallsThrough (Machine.callWithin host depth) c) :
    c = Machine.callWithin host (depth + 1) := by
  have h' := callWithin_callsThrough host depth
  funext f args s
  by_cases hf : ∃ mark ps t env, ∃ b : Node, b.WellFormed ∧ f = .closure mark ps (b.code t) env
  · obtain ⟨mark, ps, t, env, b, hb, rfl⟩ := hf
    by_cases hlen : args.length = ps.length
    · have hrefined := Node.code_run_iff host (Machine.callWithin host depth) t hb
      rw [← (hrefined _ s _).2 (h.body hb hlen s), ← (hrefined _ s _).2 (h'.body hb hlen s)]
    · rw [h.arity hlen s, h'.arity hlen s]
  · have hother : ∀ mark ps t env (b : Node), b.WellFormed →
        f ≠ .closure mark ps (b.code t) env := fun mark ps t env b hb hfb =>
      hf ⟨mark, ps, t, env, b, hb, hfb⟩
    rw [h.other hother s, h'.other hother s]

/-- Calls by the rules are the calls of a machine, however deep they may nest. -/
theorem interprets_iff {depth : Nat} {c : Caller} :
    host.Interprets depth c ↔ c = Machine.callWithin host depth := by
  induction depth generalizing c with
  | zero =>
    constructor
    · intro h
      funext f args s
      exact h f args s
    · rintro rfl f args s
      rfl
  | succ depth ih =>
    constructor
    · rintro ⟨below, hbelow, h⟩
      cases ih.1 hbelow
      exact h.eq
    · rintro rfl
      exact ⟨_, ih.2 rfl, callWithin_callsThrough host depth⟩

end Host

/-- Evaluation of a tree whose static members have owners, with valid overrides, is the semantics
of trees: it ends as the rules say, with the same value or fault and after the same calls. -/
theorem Machine.evaluate_iff {M : Machine} {n : Node} {overrides : List (Value × Value)}
    (h : n.All (·.isOwned)) (hv : OperatorTable.Valid overrides) (bindings : List (Value × Value))
    (s : Session) (o : Outcome Value × Session) :
    (M.evaluate (.node n) bindings overrides).run M.caller s = o ↔
      ∃ c, M.host.Interprets M.depth c ∧
        n.Evaluates M.host c (OperatorTable.standard.overridden overrides)
          (environmentOf bindings) s o := by
  rw [evaluate_owned h hv, Node.code_run_iff M.host M.caller _ h.wellFormed]
  constructor
  · intro hn
    exact ⟨M.caller, Host.interprets_iff.2 rfl, hn⟩
  · rintro ⟨c, hc, hn⟩
    cases Host.interprets_iff.1 hc
    exact hn

/-- A call of a lambda whose body is a conjunction that its argument settles. -/
theorem Machine.evaluate_iff_settled :
    let x : Parameter := ⟨1, "x", .object, 0⟩
    let conjunction : Node :=
      .binary 1 .andAlso (.node (.parameter x)) (.node (.literal 2 (.bool true) .bool)) .bool
    let f : Node := .lambda 3 4 [.node (.parameter x)] (.node conjunction)
    ∃ c, Machine.standard.host.Interprets Machine.standard.depth c ∧
      (Node.call 5 (.node f) 6 [.node (.literal 7 (.bool false) .bool)] .object).Evaluates
        Machine.standard.host c OperatorTable.standard [] {}
        (.done (.bool false), { nextMark := 2 }) := by
  intro x conjunction f
  have hparameter : (Node.parameter x).All (·.isOwned) := .intro [] rfl rfl (by simp)
  have hliteral (mark : Nat) (b : Bool) : (Node.literal mark (.bool b) .bool).All (·.isOwned) :=
    .intro [] rfl rfl (by simp)
  have hconjunction : conjunction.All (·.isOwned) :=
    .intro [.parameter x, .literal 2 (.bool true) .bool] rfl rfl
      (by simpa using ⟨hparameter, hliteral 2 true⟩)
  have hf : f.All (·.isOwned) :=
    .intro [.parameter x, conjunction] rfl rfl (by simpa using ⟨hparameter, hconjunction⟩)
  have hn : (Node.call 5 (.node f) 6 [.node (.literal 7 (.bool false) .bool)] .object).All
      (·.isOwned) :=
    .intro [f, .literal 7 (.bool false) .bool] rfl rfl (by simpa using ⟨hf, hliteral 7 false⟩)
  have hv : OperatorTable.Valid [] := by simp [OperatorTable.Valid]
  refine (Machine.evaluate_iff (M := Machine.standard) hn hv [] {} _).1 ?_
  rw [Machine.evaluate_owned hn hv]
  rfl

end PredicateTree
