import PredicateTree.Proofs.Accord.Plain
import PredicateTree.Proofs.Evaluation.Bindings
import PredicateTree.Proofs.Evaluation.Calls

/-!
# Ways to run a lambda

A lambda is run by calling the function that it compiles to, by evaluating its body with its
parameters bound, by evaluating a call of it, or by calling the lambda itself.  All of these have the
same outcome (`Machine.lambda_ways_agree`).  They differ in how deep their calls nest, in the marks
they use up, and in how the values of the parameters are kept, which no body can tell.
-/

namespace PredicateTree

/-! ### The same outcome -/

/-- The nodes `site` and the values `known` stand for themselves, and nothing else does. -/
def Atoms.self (site : Node → Prop) (known : Value → Prop) : Atoms where
  site n m := m = n ∧ site n
  constant v w := w = v ∧ known v
  name a b := b = a ∧ known a

namespace Accord

variable {A : Atoms} (L : Accord A)

/-- The same functions were called, with related arguments. -/
def SameCalls (s s' : Session) : Prop :=
  List.Forall₂ (fun c c' => L.value s s' c.function c'.function ∧
    List.Forall₂ (L.value s s') c.arguments c'.arguments) s.calls s'.calls

/-- Two runs end the same, and if they do not run out of fuel, they made the same calls. -/
structure SameOutcome (s s' : Session) (o o' : Outcome Value × Session) : Prop where
  ends : L.Ends (·.isEvaluation = true) s s' L.value o o'
  calls : o.1 ≠ .exhausted → L.SameCalls o.2 o'.2

/-- That the library keeps its books, and the function of a lambda, makes no difference; the calls that
were made do. -/
structure Overlooks (n : Node) : Prop where
  noted : ∀ {s s' t}, L.session s s' → s.Noted t → L.session t s'
  readied : ∀ {s s' t}, L.session s s' → s.Readied n t → L.later s t ∧ L.session t s'
  calls : ∀ {s s'}, L.session s s' → L.SameCalls s s'

variable {L} {n : Node} {s s' t : Session} {o o' : Outcome Value × Session}

theorem Ends.sameOutcome (hL : L.Overlooks n)
    (h : L.Ends (·.isEvaluation = true) s s' L.value o o') : L.SameOutcome s s' o o' := by
  refine ⟨h, fun hspent => ?_⟩
  cases h with
  | done _ _ ht | raised _ _ ht => exact hL.calls ht
  | exhausted => exact absurd rfl hspent

end Accord

/-! ### Ways to run a lambda -/

namespace Machine

/-- The machine on which calls may nest so much deeper. -/
def above (M : Machine) (levels : Nat) : Machine := ⟨M.host, M.depth + levels⟩

/-- Compiles a lambda and calls the function. -/
def callCompiled (M : Machine) (overrides : List (Value × Value)) (v : Value) (args : List Value) :
    Action Value := do
  Action.call (← M.compileLambda overrides v) args

/-- A node is a literal of a value. -/
def LiteralOf (n : Node) (v : Value) : Prop := ∃ mark type, n = .literal mark v type

/-- The values of several trees. -/
def evaluateAll (M : Machine) (ns : List Node) (bindings overrides : List (Value × Value)) :
    Action (List Value) := ns.mapM fun n => M.evaluate (.node n) bindings overrides

variable {M : Machine} {overrides bindings : List (Value × Value)} {mark row cmark crow : Nat}
  {type : StaticType} {ps : List Parameter} {b n : Node} {as : List Node} {c : Caller}
  {s s' t t' : Session} {args args' : List Value}

theorem code_lambda (t : OperatorTable) (mark row : Nat) (ps : List Parameter) (b : Node) :
    (Node.lambda mark row (Node.declarations ps) (.node b)).code t = .abstraction ps (b.code t) := by
  rw [Node.code, filterMap_declarations]
  rfl

/-- A lambda compiles to its function. -/
theorem compileLambda_run (hn : n = .lambda mark row (Node.declarations ps) (.node b))
    (howned : n.All (·.isOwned)) (hv : OperatorTable.Valid overrides) (c : Caller) (s : Session) :
    ∃ m t, (M.compileLambda overrides (.node n)).run c s =
      (.done (.closure m ps (b.code (OperatorTable.standard.overridden overrides)) []), t) ∧
        s.Noted t := by
  subst hn
  obtain ⟨u, hnote, hu⟩ :=
    note_run (e := .compiled (Node.declarations ps).length) rfl c s
  rw [compileLambda_node howned.wellFormed hv, ownerless?_of_owned howned, refusing,
    Action.run_bind_done hnote, code_lambda]
  exact ⟨u.nextMark, _, rfl, hu.mark 1⟩

theorem evaluateAll_owned (howned : ∀ a ∈ as, a.All (·.isOwned))
    (hv : OperatorTable.Valid overrides) (bindings : List (Value × Value)) :
    M.evaluateAll as bindings overrides =
      runAll M.host (as.map (·.code (OperatorTable.standard.overridden overrides)))
        (environmentOf bindings) := by
  induction as with
  | nil => rfl
  | cons a as ih =>
    have hrest := ih fun k hk => howned k (List.mem_cons_of_mem a hk)
    rw [evaluateAll] at hrest ⊢
    rw [List.mapM_cons, evaluate_owned (howned a List.mem_cons_self) hv, hrest]
    rfl

/-- To evaluate a call of a lambda is to make its function, to evaluate the arguments, and to call the
function at the node. -/
theorem evaluate_call (hn : n = .lambda mark row (Node.declarations ps) (.node b))
    (howned : n.All (·.isOwned)) (hargs : ∀ a ∈ as, a.All (·.isOwned))
    (hv : OperatorTable.Valid overrides) (bindings : List (Value × Value)) (s : Session) :
    (M.evaluate (.node (.call cmark (.node n) crow (as.map .node) type)) bindings overrides).run c s =
      (M.evaluateAll as bindings overrides >>= fun vs =>
        applyingAt M.host (.call cmark (.node n) crow (as.map .node) type)
          (Action.call (.closure s.nextMark ps
            (b.code (OperatorTable.standard.overridden overrides)) (environmentOf bindings)) vs)).run
        c (s.marked 1) := by
  have hcall : (Node.call cmark (.node n) crow (as.map .node) type).All (·.isOwned) := by
    refine .intro _ (Node.childNodes_call _ n _ as _) rfl fun m hm => ?_
    rcases List.mem_cons.1 hm with rfl | hm
    · exact howned
    · exact hargs m hm
  rw [evaluate_owned hcall hv, evaluateAll_owned hargs hv, Node.code, codes_nodes, Value.code, hn,
    code_lambda]
  rfl

theorem applyingAt_of_evaluation {host : Host} {site : Node} {x : Action Value}
    (h : ∀ f t, x.run c s = (.raised f, t) → f.isEvaluation = true) :
    (applyingAt host site x).run c s = x.run c s := by
  rcases hx : x.run c s with ⟨v | f | _, t⟩
  · rw [applyingAt, reporting, Action.run_handle_done hx]
  · rw [applyingAt, reporting, Action.run_handle_raised hx, if_pos (h f t hx)]
    rfl
  · rw [applyingAt, reporting, Action.run_handle_exhausted hx]

/-- A function that is called with as many arguments as it has parameters runs its body one level
deeper. -/
theorem call_above {m : Nat} {body : Code} {env : Environment} (h : args.length = ps.length)
    (s : Session) : (Action.call (.closure m ps body env) args).run (M.above 1).caller s =
      (body.run M.host (env.extend ps args)).run M.caller s :=
  @callWithin_closure M.host M.depth m ps body env args h s

theorem call_miscounted {m : Nat} {body : Code} {env : Environment}
    (h : args.length ≠ ps.length) (s : Session) :
    (Action.call (.closure m ps body env) args).run (M.above 1).caller s =
      (.raised (.failure (.arguments (.lambda ps.length args.length))), s) := by
  have hcall : (M.host.apply (.closure m ps body env) args).run M.caller s =
      (.raised (.failure (.arguments (.lambda ps.length args.length))), s) := by
    rw [Host.apply, if_neg h]
    rfl
  exact hcall

/-- A wrong number of arguments is reported against the node of the call, and the body does not run. -/
theorem applied_miscounted {m : Nat} {body : Code} {env : Environment} {node : Node}
    {shown : String} (h : args.length ≠ ps.length)
    (hshown : (M.host.describe node).run (M.above 1).caller s = (.done shown, t)) :
    (applyingAt M.host node (Action.call (.closure m ps body env) args)).run (M.above 1).caller s =
      (.raised (.failedAt node shown .evaluating
        (.failure (.arguments (.lambda ps.length args.length)))), t) := by
  have hclass : (Fault.failure (.arguments (.lambda ps.length args.length))).errorClass = .type := rfl
  have hother : ¬ (Fault.failure (.arguments (.lambda ps.length args.length))).isEvaluation = true := by
    rw [Fault.isEvaluation, hclass]
    decide
  rw [applyingAt, reporting, Action.run_handle_raised (call_miscounted h s), if_neg hother,
    pure_bind, Action.run_bind_done hshown]
  rfl

theorem owned_of_literals {literals : List Node} (h : List.Forall₂ LiteralOf literals args) :
    ∀ a ∈ literals, a.All (·.isOwned) := by
  refine forall_of_forall₂ h.flip fun _ _ n hn => ?_
  obtain ⟨mark, type, rfl⟩ := hn
  exact .intro [] rfl rfl (by simp)

theorem evaluateAll_literals {literals : List Node} (h : List.Forall₂ LiteralOf literals args)
    (hv : OperatorTable.Valid overrides) (bindings : List (Value × Value)) (c : Caller)
    (s : Session) : (M.evaluateAll literals bindings overrides).run c s = (.done args, s) := by
  have howned := owned_of_literals h
  rw [evaluateAll_owned howned hv]
  induction h with
  | nil => rfl
  | cons hl _ ih =>
    obtain ⟨mark, type, rfl⟩ := hl
    have hrest := ih fun a ha => howned a (List.mem_cons_of_mem _ ha)
    rw [List.map_cons, runAll, Node.code, Code.run, pure_bind, Action.run_bind_done hrest]
    rfl

theorem agrees_of_bindings {R : Value → Value → Prop} {env env' : Environment}
    (h : Environment.Agrees R env env') (hargs : List.Forall₂ R args args')
    (hlen : args.length = ps.length)
    (hvalues : ∀ p, (environmentOf bindings).get? p = (env'.extend ps args').get? p) :
    Environment.Agrees R (env.extend ps args) (environmentOf bindings) := by
  intro p hp
  change Option.Rel R _ ((environmentOf bindings).get? p)
  rw [hvalues]
  exact h.extend hargs hlen p hp

section

variable {site : Node → Prop} {known : Value → Prop} {L : Accord (.self site known)}
  (hn : n = .lambda mark row (Node.declarations ps) (.node b)) (howned : n.All (·.isOwned))
  (hstands : n.All (·.Stands (.self site known))) (hv : OperatorTable.Valid overrides)
  (ht : ∀ key, known (OperatorTable.standard.overridden overrides key)) (hH : M.host.Accords L)

include hn howned hstands hv ht hH

/-- The body of a lambda ends the same wherever its parameters have related values. -/
theorem body_ends {env : Environment} {bindings : List (Value × Value)} (hs : L.session s s')
    (henv : Environment.Agrees (L.value s s') env (environmentOf bindings)) :
    L.Ends (·.isEvaluation = true) s s' L.value
      (((b.code (OperatorTable.standard.overridden overrides)).run M.host env).run M.caller s)
      ((M.evaluate (.node b) bindings overrides).run M.caller s') := by
  subst hn
  have hknown (key : OperatorKey) : (Atoms.self site known).constant
      (OperatorTable.standard.overridden overrides key)
      (OperatorTable.standard.overridden overrides key) := ⟨rfl, ht key⟩
  have hcode := (Node.Parallel.self hstands.of_lambda).code hknown
  rw [evaluate_owned howned.of_lambda hv]
  exact hcode.run_ends hH (hH.callers M.depth) hs henv

/-- A function of a lambda that is called at a node ends as the body does. -/
theorem applied_ends {m : Nat} {env : Environment} {bindings : List (Value × Value)} {node : Node}
    (hs : L.session s s') (hlen : args.length = ps.length)
    (henv : Environment.Agrees (L.value s s') (env.extend ps args) (environmentOf bindings)) :
    L.Ends (·.isEvaluation = true) s s' L.value
      ((applyingAt M.host node (Action.call
        (.closure m ps (b.code (OperatorTable.standard.overridden overrides)) env) args)).run
          (M.above 1).caller s)
      ((M.evaluate (.node b) bindings overrides).run M.caller s') := by
  have hbody := body_ends hn howned hstands hv ht hH hs henv
  rw [← call_above (m := m) hlen s] at hbody
  -- What the body fails with is a fault of evaluation, and the node of the call lets it through.
  rw [applyingAt_of_evaluation]
  · exact hbody
  · intro f t hrun
    rw [hrun] at hbody
    generalize (M.evaluate (.node b) bindings overrides).run M.caller s' = o at hbody
    cases hbody with
    | raised _ _ _ _ hf => exact hf

variable (hL : L.Overlooks n)

include hL

/-- The function that a lambda compiles to has the outcome of its body. -/
theorem callCompiled_outcome (hs : L.session s s') (hlen : args.length = ps.length)
    (henv : Environment.Agrees (L.value s s') (Environment.extend [] ps args)
      (environmentOf bindings)) :
    L.SameOutcome s s'
      (((M.above 1).callCompiled overrides (.node n) args).run (M.above 1).caller s)
      ((M.evaluate (.node b) bindings overrides).run M.caller s') := by
  obtain ⟨m, t, hrun, hst⟩ :=
    compileLambda_run (M := M.above 1) hn howned hv (M.above 1).caller s
  have hts := hL.noted hs hst
  have hlater := L.order.noted hst
  rw [callCompiled, Action.run_bind_done hrun, call_above hlen]
  refine Accord.Ends.sameOutcome hL (.earlier hlater (L.later_refl s') ?_)
  exact body_ends hn howned hstands hv ht hH hts (henv.later hlater (L.later_refl s') hts)

/-- A lambda that is called itself has the outcome of its body. -/
theorem caller_outcome (hnone : overrides = []) (hc : s.Compiles n) (hs : L.session s s')
    (hlen : args.length = ps.length)
    (henv : Environment.Agrees (L.value s s') (Environment.extend [] ps args)
      (environmentOf bindings)) :
    L.SameOutcome s s' ((M.above 2).caller (.node n) args s)
      ((M.evaluate (.node b) bindings overrides).run M.caller s') := by
  obtain ⟨t, hst, hcall⟩ := callWithin_lambda M.host M.depth hn howned hc hlen
  obtain ⟨hlater, hts⟩ := hL.readied hs hst
  have hrun : (M.above 2).caller (.node n) args s = _ := hcall
  rw [hrun]
  refine Accord.Ends.sameOutcome hL (.earlier hlater (L.later_refl s') ?_)
  have hbody := body_ends hn howned hstands hv ht hH hts
    (henv.later hlater (L.later_refl s') hts)
  rwa [hnone] at hbody ⊢

/-- A call of a lambda whose arguments have values has the outcome of its body. -/
theorem evaluate_call_outcome {vs : List Value} (hargs : ∀ a ∈ as, a.All (·.isOwned))
    (hs : L.later s t) (hs' : L.later s' t') (htt' : L.session t t')
    (hrun : ((M.above 1).evaluateAll as bindings overrides).run (M.above 1).caller (s.marked 1) =
      (.done vs, t)) (hlen : vs.length = ps.length) {bindings' : List (Value × Value)}
    (henv : Environment.Agrees (L.value t t') ((environmentOf bindings).extend ps vs)
      (environmentOf bindings')) :
    L.SameOutcome s s' (((M.above 1).evaluate (.node (.call cmark (.node n) crow (as.map .node) type))
        bindings overrides).run (M.above 1).caller s)
      ((M.evaluate (.node b) bindings' overrides).run M.caller t') := by
  rw [evaluate_call hn howned hargs hv, Action.run_bind_done hrun]
  refine Accord.Ends.sameOutcome hL (.earlier hs hs' ?_)
  exact applied_ends hn howned hstands hv ht hH htt' hlen henv

omit hstands ht hL in
/-- A call of a lambda whose arguments have values, but not as many as the lambda has parameters, is
refused at its node. -/
theorem evaluate_call_miscounted {vs : List Value} (hargs : ∀ a ∈ as, a.All (·.isOwned))
    (htt' : L.session t t') (hsite : site (.call cmark (.node n) crow (as.map .node) type))
    (hrun : ((M.above 1).evaluateAll as bindings overrides).run (M.above 1).caller (s.marked 1) =
      (.done vs, t)) (hlen : vs.length ≠ ps.length) :
    let node := Node.call cmark (.node n) crow (as.map .node) type
    ∃ f shown u, f.errorClass = .type ∧
      (M.host.describe node).run (M.above 1).caller t = (.done shown, u) ∧
      ((M.above 1).evaluate (.node node) bindings overrides).run (M.above 1).caller s =
        (.raised (.failedAt node shown .evaluating f), u) := by
  intro node
  have hstands : (Atoms.self site known).site node node := ⟨rfl, hsite⟩
  obtain ⟨shown, -, u, -, hshown, -⟩ := hH.describe (hH.callers (M.depth + 1)) htt' hstands
  refine ⟨.failure (.arguments (.lambda ps.length vs.length)), shown, u, rfl, hshown, ?_⟩
  rw [evaluate_call hn howned hargs hv, Action.run_bind_done hrun]
  exact applied_miscounted hlen hshown

omit hn howned hstands hL in
theorem evaluateAll_ends (hargs : ∀ a ∈ as, a.All (·.isOwned))
    (hargsStand : ∀ a ∈ as, a.All (·.Stands (.self site known))) (hs : L.session s s')
    (henv : Environment.Agrees (L.value s s') (environmentOf bindings) (environmentOf bindings)) :
    L.Ends (·.isEvaluation = true) s s' (fun t t' => List.Forall₂ (L.value t t'))
      ((M.evaluateAll as bindings overrides).run M.caller s)
      ((M.evaluateAll as bindings overrides).run M.caller s') := by
  have hknown (key : OperatorKey) : (Atoms.self site known).constant
      (OperatorTable.standard.overridden overrides key)
      (OperatorTable.standard.overridden overrides key) := ⟨rfl, ht key⟩
  rw [evaluateAll_owned hargs hv]
  refine runAll_accords rfl (fun e he {u u'} hu henv => ?_) hs henv
  rw [List.zip_map'] at he
  obtain ⟨a, ha, rfl⟩ := List.mem_map.1 he
  exact ((Node.Parallel.self (hargsStand a ha)).code hknown).run_ends hH (hH.callers M.depth) hu henv

end

end Machine

end PredicateTree
