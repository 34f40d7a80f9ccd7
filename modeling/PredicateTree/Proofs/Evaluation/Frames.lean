import PredicateTree.Proofs.Evaluation.Conditions

/-!
# Evaluations within an evaluation

An `Evaluation` is a node together with all that its evaluation depends on.  Every node evaluates
its operands in one of two ways: all of them before an operation of its own (`Node.Eager`), or one
that is tested first and says which one is next (`Node.Lazy`).  So there is one step from an
evaluation to that of an operand (`Evaluation.Enters`), and one description of the operations that
a node comes to (`Evaluation.Operates`); what they call may lead to evaluations of function bodies
(`Evaluation.Leads`).

A fault of evaluation that ends an operand, or the body of a function that is applied, ends every
evaluation that came to it with the very same fault (`Evaluation.Descends.raised`).
-/

namespace PredicateTree

/-! ### Operations -/

/-- What a node does itself, with the values of its operands. -/
inductive Operation where
  | read (v name : Value)
  | test (v : Value)
  | apply (f : Value) (args : List Value)

namespace Operation

/-- What is done, by the host or by a function. -/
def action (host : Host) : Operation → Action Value
  | .read v name => host.member v name
  | .test v => do return .bool (← host.truth v)
  | .apply f args => Action.call f args

/-- The activity under which a failure is reported. -/
def activity (host : Host) : Operation → Action Activity
  | .read _ name => do return .reading (← host.spell name)
  | _ => pure .evaluating

/-- The faults that are not reported. -/
def passes : Operation → Fault → Bool
  | .read .. => fun _ => false
  | _ => Fault.isEvaluation

/-- An operation at a node, against which its failure is reported. -/
def performAt (host : Host) (site : Node) (op : Operation) : Action Value :=
  reporting host site (op.activity host) op.passes (op.action host)

end Operation

section

variable {host : Host} {c : Caller} {s : Session} {site : Node} {f : Fault} {w : Session}

/-- The report of a failing action does not depend on what is made of its result. -/
theorem reporting_map {α β : Type} (g : α → β) (activity : Action Activity)
    (passes : Fault → Bool) (x : Action α) :
    reporting host site activity passes (x >>= fun a => pure (g a)) =
      reporting host site activity passes x >>= fun a => pure (g a) := by
  funext c s
  change (reporting host site activity passes (x >>= fun a => pure (g a))).run c s =
    (reporting host site activity passes x >>= fun a => pure (g a)).run c s
  rcases hx : x.run c s with ⟨a | f | _, t⟩
  · have hreport : (reporting host site activity passes x).run c s = (.done a, t) :=
      Action.run_handle_done hx
    have hmap : (x >>= fun a => pure (g a)).run c s = (.done (g a), t) := Action.run_bind_done hx
    rw [Action.run_bind_done hreport]
    exact Action.run_handle_done hmap
  · have hmap : (x >>= fun a => pure (g a)).run c s = (.raised f, t) := Action.run_bind_raised hx
    rw [reporting, reporting, Action.run_handle_raised hmap, Action.run_bind,
      Action.run_handle_raised hx, ← Action.run_bind]
    split
    · rfl
    · rw [bind_assoc]
      refine Action.run_bind_congr fun activity u _ => ?_
      rw [bind_assoc]
      exact Action.run_bind_congr fun shown v _ => rfl
  · have hreport : (reporting host site activity passes x).run c s = (.exhausted, t) :=
      Action.run_handle_exhausted hx
    have hmap : (x >>= fun a => pure (g a)).run c s = (.exhausted, t) :=
      Action.run_bind_exhausted hx
    rw [Action.run_bind_exhausted hreport]
    exact Action.run_handle_exhausted hmap

theorem performAt_test (v : Value) : (Operation.test v).performAt host site = (do
    return .bool (← testingAt host site v)) := reporting_map _ _ _ _

theorem testingAt_of_performAt {v : Value}
    (h : ((Operation.test v).performAt host site).run c s = (.raised f, w)) :
    (testingAt host site v).run c s = (.raised f, w) := by
  rw [performAt_test] at h
  rcases htest : (testingAt host site v).run c s with ⟨b | f | _, t⟩
  · rw [Action.run_bind_done htest] at h
    cases h
  · rw [Action.run_bind_raised htest] at h
    cases h
    rfl
  · rw [Action.run_bind_exhausted htest] at h
    cases h

theorem runAll_append (host : Host) (xs ys : List Code) (env : Environment) :
    runAll host (xs ++ ys) env = (do
      let vs ← runAll host xs env
      return vs ++ (← runAll host ys env)) := by
  induction xs with
  | nil =>
    rw [runAll, pure_bind, List.nil_append]
    exact (bind_pure _).symm
  | cons x xs ih =>
    simp only [List.cons_append, runAll, ih, bind_assoc, pure_bind]

end

/-! ### Two kinds of nodes -/

namespace Node

variable {n : Node} {ks : List Node} {op : List Value → Operation} {t : OperatorTable}

/-- A node that evaluates all its operands, and what it does with their values. -/
inductive Eager (t : OperatorTable) : Node → List Node → (List Value → Operation) → Prop where
  | static {mark : Nat} {name owner : Value} {type : StaticType} :
      Eager t (.member mark .absent name owner type) [] fun _ => .read owner name
  | member {mark : Nat} {e : Node} {name owner : Value} {type : StaticType} :
      Eager t (.member mark (.node e) name owner type) [e] fun vs => .read (vs.headD .absent) name
  | unary {mark : Nat} {op : UnaryOp} {x : Node} {type : StaticType} :
      Eager t (.unary mark op (.node x) type) [x] (.apply (t (.unary op)))
  | binary {mark : Nat} {op : BinaryOp} {l r : Node} {type : StaticType}
      (eager : op.isShortCircuit = false) :
      Eager t (.binary mark op (.node l) (.node r) type) [l, r] (.apply (t (.binary op)))
  | call {mark : Nat} {f : Node} {row : Nat} {args : List Node} {type : StaticType} :
      Eager t (.call mark (.node f) row (args.map .node) type) (f :: args)
        fun vs => .apply (vs.headD .absent) vs.tail

/-- A node that tests its first operand; which one is next depends on the truth, and is tested
too or is the result. -/
inductive Lazy : Node → Node → (Bool → Option Node) → Bool → Prop where
  | join {mark : Nat} {settling : Bool} {l r : Node} {type : StaticType} :
      Lazy (.binary mark (joinOp settling) (.node l) (.node r) type) l
        (fun b => if b = settling then none else some r) true
  | conditional {mark : Nat} {c x y : Node} {type : StaticType} :
      Lazy (.conditional mark (.node c) (.node x) (.node y) type) c
        (fun b => some (if b then x else y)) false

theorem Eager.run (h : n.Eager t ks op) (host : Host) (env : Environment) :
    (n.code t).run host env =
      runAll host (ks.map (·.code t)) env >>= fun vs => (op vs).performAt host n := by
  cases h with
  | static => rfl
  | member =>
    simp only [List.map_cons, List.map_nil, runAll, bind_assoc, pure_bind]
    rfl
  | unary =>
    simp only [List.map_cons, List.map_nil, runAll, bind_assoc, pure_bind]
    rfl
  | binary eager =>
    rw [code, Code.ofBinary_of_eager eager]
    simp only [List.map_cons, List.map_nil, runAll, bind_assoc, pure_bind]
    rfl
  | call =>
    rw [code, codes_nodes]
    simp only [List.map_cons, runAll, bind_assoc, pure_bind]
    rfl

/-- What a lazy node does with the operand that is next. -/
def finish (host : Host) (n : Node) (tested : Bool) (w : Value) : Action Value :=
  if tested then do return .bool (← testingAt host n w) else pure w

theorem Lazy.run {k : Node} {next : Bool → Option Node} {tested : Bool}
    (h : n.Lazy k next tested) (t : OperatorTable) (host : Host) (env : Environment) :
    (n.code t).run host env = (do
      let v ← (k.code t).run host env
      let b ← testingAt host n v
      match next b with
      | none => return .bool b
      | some m => (m.code t).run host env >>= n.finish host tested) := by
  cases h with
  | @join mark settling l r type =>
    refine (joined_run t _ settling _ _ env).trans (bind_congr fun v => bind_congr fun b => ?_)
    by_cases hsettled : b = settling
    · subst hsettled
      simp only [if_true]
    · simp only [if_neg hsettled]
      rfl
  | @conditional mark c x y type =>
    refine bind_congr fun v => bind_congr fun b => ?_
    cases b with
    | false => exact (bind_pure _).symm
    | true => exact (bind_pure _).symm

end Node

/-! ### Evaluations -/

/-- The evaluation of a node: the depth to which its calls may nest, the meanings of the operators,
the values of parameters and the session in which it starts. -/
structure Evaluation where
  depth : Nat
  table : OperatorTable
  env : Environment
  node : Node
  session : Session

/-- An action makes a call: were that call out of fuel, so would be the action. -/
def Action.Makes {α : Type} (x : Action α) (c : Caller) (s : Session) (f : Value)
    (args : List Value) (u : Session) : Prop :=
  ∀ c' : Caller, (∀ g as v, ¬ (g = f ∧ as = args ∧ v = u) → c' g as v = c g as v) →
    (c' f args u).1 = .exhausted → (x.run c' s).1 = .exhausted

namespace Evaluation

variable {host : Host} {E F G : Evaluation} {op : Operation} {f : Fault} {u w : Session}

/-- How the evaluation ends. -/
def run (E : Evaluation) (host : Host) : Outcome Value × Session :=
  ((E.node.code E.table).run host E.env).run (Machine.callWithin host E.depth) E.session

/-- How the evaluation of several operands ends. -/
def runAll (E : Evaluation) (host : Host) (ks : List Node) : Outcome (List Value) × Session :=
  (PredicateTree.runAll host (ks.map (·.code E.table)) E.env).run
    (Machine.callWithin host E.depth) E.session

/-- The evaluation of another node in the same environment. -/
def on (E : Evaluation) (n : Node) (s : Session) : Evaluation := { E with node := n, session := s }

/-- The truth of a value at the node. -/
def test (E : Evaluation) (host : Host) (v : Value) (s : Session) : Outcome Bool × Session :=
  (testingAt host E.node v).run (Machine.callWithin host E.depth) s

/-- An evaluation comes to that of an operand. -/
inductive Enters (host : Host) (E : Evaluation) : Evaluation → Prop where
  | operand {before after : List Node} {k : Node} {op : List Value → Operation} {vs : List Value}
      {u : Session} (node : E.node.Eager E.table (before ++ k :: after) op)
      (values : E.runAll host before = (.done vs, u)) : Enters host E (E.on k u)
  | first {k : Node} {next : Bool → Option Node} {tested : Bool}
      (node : E.node.Lazy k next tested) : Enters host E (E.on k E.session)
  | next {k m : Node} {next : Bool → Option Node} {tested b : Bool} {v : Value} {u w : Session}
      (node : E.node.Lazy k next tested)
      (value : (E.on k E.session).run host = (.done v, u))
      (truth : E.test host v u = (.done b, w)) (chosen : next b = some m) :
      Enters host E (E.on m w)

/-- An evaluation comes to an operation at its node. -/
inductive Operates (host : Host) (E : Evaluation) : Operation → Session → Prop where
  | eager {ks : List Node} {op : List Value → Operation} {vs : List Value} {u : Session}
      (node : E.node.Eager E.table ks op) (values : E.runAll host ks = (.done vs, u)) :
      Operates host E (op vs) u
  | first {k : Node} {next : Bool → Option Node} {tested : Bool} {v : Value} {u : Session}
      (node : E.node.Lazy k next tested)
      (value : (E.on k E.session).run host = (.done v, u)) : Operates host E (.test v) u
  | next {k m : Node} {next : Bool → Option Node} {b : Bool} {v w : Value} {u x y : Session}
      (node : E.node.Lazy k next true)
      (value : (E.on k E.session).run host = (.done v, u))
      (truth : E.test host v u = (.done b, x)) (chosen : next b = some m)
      (last : (E.on m x).run host = (.done w, y)) : Operates host E (.test w) y

/-- A call leads to the evaluation of the body of a function: it is a call of that function, or it
makes a call that leads there. -/
inductive Leads (host : Host) : Nat → Value → List Value → Session → Evaluation → Prop where
  | body {depth mark : Nat} {ps : List Parameter} {b : Node} {t : OperatorTable}
      {env : Environment} {args : List Value} {s : Session} (count : args.length = ps.length) :
      Leads host (depth + 1) (.closure mark ps (b.code t) env) args s
        ⟨depth, t, env.extend ps args, b, s⟩
  | through {depth : Nat} {f g : Value} {args as : List Value} {s u : Session} {E : Evaluation}
      (made : (host.apply f args).Makes (Machine.callWithin host depth) s g as u)
      (rest : Leads host depth g as u E) : Leads host (depth + 1) f args s E

/-- An evaluation comes to another one, as one of an operand or in a call that an operation makes. -/
inductive Reaches (host : Host) : Evaluation → Evaluation → Prop where
  | here {E : Evaluation} : Reaches host E E
  | operand {E F G : Evaluation} (step : E.Enters host F) (rest : Reaches host F G) :
      Reaches host E G
  | called {E F G : Evaluation} {op : Operation} {u v : Session} {g : Value} {as : List Value}
      (operation : E.Operates host op u)
      (made : (op.action host).Makes (Machine.callWithin host E.depth) u g as v)
      (lead : Leads host E.depth g as v F) (rest : Reaches host F G) : Reaches host E G

/-- An evaluation comes to another one, as one of an operand or of the body of a function that a
node applies. -/
inductive Descends (host : Host) : Evaluation → Evaluation → Prop where
  | here {E : Evaluation} : Descends host E E
  | operand {E F G : Evaluation} (step : E.Enters host F) (rest : Descends host F G) :
      Descends host E G
  | body {E G : Evaluation} {depth mark : Nat} {ps : List Parameter} {b : Node}
      {t : OperatorTable} {env : Environment} {args : List Value} {u : Session}
      (operation : E.Operates host (.apply (.closure mark ps (b.code t) env) args) u)
      (count : args.length = ps.length) (depth_eq : E.depth = depth + 1)
      (rest : Descends host ⟨depth, t, env.extend ps args, b, u⟩ G) : Descends host E G

/-- A fault arises in an evaluation: a parameter has no value there, or an operation of its node
fails and is reported. -/
inductive Arises (host : Host) (E : Evaluation) : Fault → Session → Prop where
  | unbound {p : Parameter} {name : String} {w : Session} (node : E.node = .parameter p)
      (value : E.env.get? p = none)
      (report : (unboundAt host p).run (Machine.callWithin host E.depth) E.session =
        (.raised (.unbound (.node (.parameter p)) name), w)) :
      Arises host E (.unbound (.node (.parameter p)) name) w
  | reported {op : Operation} {u v w : Session} {shown : String} {activity : Activity}
      {cause : Fault} (operation : E.Operates host op u)
      (fails : (op.action host).run (Machine.callWithin host E.depth) u = (.raised cause, v))
      (report : (op.performAt host E.node).run (Machine.callWithin host E.depth) u =
        (.raised (.failedAt E.node shown activity cause), w)) :
      Arises host E (.failedAt E.node shown activity cause) w

/-! ### Faults on the way -/

/-- The operands that come first are evaluated first. -/
theorem runAll_append_run {before after : List Node} {vs : List Value}
    (hbefore : E.runAll host before = (.done vs, u)) :
    E.runAll host (before ++ after) = (do
      return vs ++ (← PredicateTree.runAll host (after.map fun n => n.code E.table) E.env) :
        Action (List Value)).run (Machine.callWithin host E.depth) u := by
  rw [runAll, List.map_append, runAll_append]
  exact Action.run_bind_done hbefore

theorem run_of_value {k : Node} {next : Bool → Option Node} {tested : Bool} {v : Value}
    (node : E.node.Lazy k next tested) (value : (E.on k E.session).run host = (.done v, u)) :
    E.run host = (do
      let b ← testingAt host E.node v
      match next b with
      | none => return .bool b
      | some m => (m.code E.table).run host E.env >>= E.node.finish host tested : Action Value).run
        (Machine.callWithin host E.depth) u := by
  rw [run, node.run]
  exact Action.run_bind_done value

theorem run_of_truth {k m : Node} {next : Bool → Option Node} {tested b : Bool} {v : Value}
    {x : Session} (node : E.node.Lazy k next tested)
    (value : (E.on k E.session).run host = (.done v, u)) (truth : E.test host v u = (.done b, x))
    (chosen : next b = some m) :
    E.run host = ((m.code E.table).run host E.env >>= E.node.finish host tested).run
      (Machine.callWithin host E.depth) x := by
  rw [run_of_value node value]
  refine (Action.run_bind_done truth).trans ?_
  rw [chosen]

/-- A fault of an operand ends the evaluation. -/
theorem Enters.raised (h : E.Enters host F) (hF : F.run host = (.raised f, w)) :
    E.run host = (.raised f, w) := by
  cases h with
  | @operand before after k _ _ _ node values =>
    rw [run, node.run]
    have hraised : E.runAll host (before ++ k :: after) = (.raised f, w) := by
      rw [runAll_append_run values]
      exact Action.run_bind_raised (Action.run_bind_raised hF)
    exact Action.run_bind_raised hraised
  | first node =>
    rw [run, node.run]
    exact Action.run_bind_raised hF
  | next node value truth chosen =>
    rw [run_of_truth node value truth chosen]
    exact Action.run_bind_raised hF

/-- A fault of an operation at the node ends the evaluation. -/
theorem Operates.raised (h : E.Operates host op u)
    (hop : (op.performAt host E.node).run (Machine.callWithin host E.depth) u = (.raised f, w)) :
    E.run host = (.raised f, w) := by
  cases h with
  | eager node values =>
    rw [run, node.run, Action.run_bind_done values]
    exact hop
  | first node value =>
    rw [run_of_value node value]
    exact Action.run_bind_raised (testingAt_of_performAt hop)
  | next node value truth chosen last =>
    rw [run_of_truth node value truth chosen]
    refine (Action.run_bind_done last).trans ?_
    rw [performAt_test] at hop
    exact hop

/-- A fault that arises in an evaluation ends it. -/
theorem Arises.run (h : E.Arises host f w) : E.run host = (.raised f, w) := by
  cases h with
  | @unbound p _ _ node value report =>
    rw [Evaluation.run, node, Node.code, Code.run, value]
    exact report
  | reported operation _ report => exact operation.raised report

/-- A fault of evaluation that ends an operand, or the body of a function that is applied, ends
every evaluation that came to it. -/
theorem Descends.raised (h : E.Descends host G) (hG : G.run host = (.raised f, w))
    (hf : f.isEvaluation = true) : E.run host = (.raised f, w) := by
  induction h with
  | here => exact hG
  | operand step _ ih => exact step.raised (ih hG)
  | @body E G depth mark ps b t env args u operation count depth_eq rest ih =>
    have hbody : (Action.call (.closure mark ps (b.code t) env) args).run
        (Machine.callWithin host E.depth) u = (.raised f, w) := by
      rw [depth_eq, Action.run_call, callWithin_closure count]
      exact ih hG
    exact operation.raised (applyingAt_iff.2 (.passed hbody hf))

end Evaluation

end PredicateTree
