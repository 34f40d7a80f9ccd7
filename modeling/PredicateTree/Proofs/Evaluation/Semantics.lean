import PredicateTree.Proofs.Evaluation.Compilation

/-!
# What trees mean

A big-step semantics of trees, which compiles nothing: `Node.Evaluates` says with what a tree ends
in an environment, by one or a few rules for each kind of node.  The operands of an eager node are
evaluated once each and from left to right before anything is applied (`Node.EvaluatesAll`); the
short-circuit operators and the conditional evaluate what the truth of a value asks for
(`Node.Decides`).  Where an operand stops, its node stops with the very same fault.

What a call of a function does is a parameter of the rules.  `Host.Interprets` ties the knot, as
deep as calls may nest: a function that a lambda was evaluated to evaluates the body of the lambda,
in the environment of that evaluation extended by the arguments.
-/

namespace PredicateTree

/-! ### Outcomes -/

/-- What stops without a value stops all that it is a part of, in the same way. -/
inductive Outcome.Stops {α β : Type} : Outcome α → Outcome β → Prop where
  | raised (f : Fault) : Stops (.raised f) (.raised f)
  | exhausted : Stops .exhausted .exhausted

/-- An outcome with another value. -/
def Outcome.map {α β : Type} (f : α → β) : Outcome α → Outcome β
  | .done a => .done (f a)
  | .raised f => .raised f
  | .exhausted => .exhausted

/-! ### Reports -/

section reports

variable (host : Host) (c : Caller)

/-- A fault is reported against a node: it is the cause of an evaluation fault there, which holds
the text of the node. -/
inductive Host.Reports {α : Type} (site : Node) (activity : Activity) (f : Fault) (s : Session) :
    Outcome α × Session → Prop where
  | described {shown : String} {u : Session}
      (text : (host.describe site).run c s = (.done shown, u)) :
      Reports site activity f s (.raised (.failedAt site shown activity f), u)
  | undescribed {p : Outcome String} {u : Session} {o : Outcome α}
      (text : (host.describe site).run c s = (p, u)) (stops : p.Stops o) :
      Reports site activity f s (o, u)

/-- Something is applied at a node, a function or a truth test.  An evaluation fault that comes out
of it passes; other faults are reported against the node. -/
inductive Host.AppliesAt {α : Type} (site : Node) (x : Action α) (s : Session) :
    Outcome α × Session → Prop where
  | done {a : α} {u : Session} (run : x.run c s = (.done a, u)) : AppliesAt site x s (.done a, u)
  | passed {f : Fault} {u : Session} (run : x.run c s = (.raised f, u))
      (evaluation : f.isEvaluation = true) : AppliesAt site x s (.raised f, u)
  | reported {f : Fault} {u : Session} {o : Outcome α × Session}
      (run : x.run c s = (.raised f, u)) (other : f.isEvaluation = false)
      (report : host.Reports c site .evaluating f u o) : AppliesAt site x s o
  | exhausted {u : Session} (run : x.run c s = (.exhausted, u)) : AppliesAt site x s (.exhausted, u)

/-- A member of a value is read at a node.  Every fault of the read is reported against the node,
together with the name of the member. -/
inductive Host.ReadsAt (site : Node) (name v : Value) (s : Session) :
    Outcome Value × Session → Prop where
  | done {w : Value} {u : Session} (run : (host.member v name).run c s = (.done w, u)) :
      ReadsAt site name v s (.done w, u)
  | reported {f : Fault} {u x : Session} {text : String} {o : Outcome Value × Session}
      (run : (host.member v name).run c s = (.raised f, u))
      (spelled : (host.spell name).run c u = (.done text, x))
      (report : host.Reports c site (.reading text) f x o) : ReadsAt site name v s o
  | unspelled {f : Fault} {u x : Session} {p : Outcome String} {o : Outcome Value}
      (run : (host.member v name).run c s = (.raised f, u))
      (spelled : (host.spell name).run c u = (p, x)) (stops : p.Stops o) :
      ReadsAt site name v s (o, x)
  | exhausted {u : Session} (run : (host.member v name).run c s = (.exhausted, u)) :
      ReadsAt site name v s (.exhausted, u)

end reports

/-! ### Rules -/

section rules

variable (host : Host) (c : Caller) (t : OperatorTable)

mutual

/-- A tree is evaluated in an environment. -/
inductive Node.Evaluates : Environment → Node → Session → Outcome Value × Session → Prop where
  | literal {env mark v type s} : Evaluates env (.literal mark v type) s (.done v, s)
  | bound {env p v s} (value : env.get? p = some v) :
      Evaluates env (.parameter p) s (.done v, s)
  | unbound {env p s name u} (value : env.get? p = none)
      (spelled : (host.spell (s.store.parameterName p)).run c s = (.done name, u)) :
      Evaluates env (.parameter p) s (.raised (.unbound (.node (.parameter p)) name), u)
  | unspelled {env p s o u} {x : Outcome String} (value : env.get? p = none)
      (spelled : (host.spell (s.store.parameterName p)).run c s = (x, u)) (stops : x.Stops o) :
      Evaluates env (.parameter p) s (o, u)
  | static {env mark name owner type s o}
      (read : host.ReadsAt c (.member mark .absent name owner type) name owner s o) :
      Evaluates env (.member mark .absent name owner type) s o
  | member {env mark e name owner type s v u o} (target : Evaluates env e s (.done v, u))
      (read : host.ReadsAt c (.member mark (.node e) name owner type) name v u o) :
      Evaluates env (.member mark (.node e) name owner type) s o
  | memberStopped {env mark e name owner type s u o} {x : Outcome Value}
      (target : Evaluates env e s (x, u)) (stops : x.Stops o) :
      Evaluates env (.member mark (.node e) name owner type) s (o, u)
  | unary {env mark op x type s vs u o} (operands : EvaluatesAll env [x] s (.done vs, u))
      (apply : host.AppliesAt c (.unary mark op (.node x) type)
        (Action.call (t (.unary op)) vs) u o) :
      Evaluates env (.unary mark op (.node x) type) s o
  | unaryStopped {env mark op x type s u o} {p : Outcome (List Value)}
      (operands : EvaluatesAll env [x] s (p, u)) (stops : p.Stops o) :
      Evaluates env (.unary mark op (.node x) type) s (o, u)
  | binary {env mark op l r type s vs u o} (eager : op.isShortCircuit = false)
      (operands : EvaluatesAll env [l, r] s (.done vs, u))
      (apply : host.AppliesAt c (.binary mark op (.node l) (.node r) type)
        (Action.call (t (.binary op)) vs) u o) :
      Evaluates env (.binary mark op (.node l) (.node r) type) s o
  | binaryStopped {env mark op l r type s u o} {p : Outcome (List Value)}
      (eager : op.isShortCircuit = false) (operands : EvaluatesAll env [l, r] s (p, u))
      (stops : p.Stops o) : Evaluates env (.binary mark op (.node l) (.node r) type) s (o, u)
  | andFalse {env mark l r type s u}
      (left : Decides env (.binary mark .andAlso (.node l) (.node r) type) l s (.done false, u)) :
      Evaluates env (.binary mark .andAlso (.node l) (.node r) type) s (.done (.bool false), u)
  | andTrue {env mark l r type s u o w}
      (left : Decides env (.binary mark .andAlso (.node l) (.node r) type) l s (.done true, u))
      (right : Decides env (.binary mark .andAlso (.node l) (.node r) type) r u (o, w)) :
      Evaluates env (.binary mark .andAlso (.node l) (.node r) type) s (o.map .bool, w)
  | orTrue {env mark l r type s u}
      (left : Decides env (.binary mark .orElse (.node l) (.node r) type) l s (.done true, u)) :
      Evaluates env (.binary mark .orElse (.node l) (.node r) type) s (.done (.bool true), u)
  | orFalse {env mark l r type s u o w}
      (left : Decides env (.binary mark .orElse (.node l) (.node r) type) l s (.done false, u))
      (right : Decides env (.binary mark .orElse (.node l) (.node r) type) r u (o, w)) :
      Evaluates env (.binary mark .orElse (.node l) (.node r) type) s (o.map .bool, w)
  | shortCircuitStopped {env mark op l r type s u o} {p : Outcome Bool}
      (shortCircuit : op.isShortCircuit = true)
      (left : Decides env (.binary mark op (.node l) (.node r) type) l s (p, u))
      (stops : p.Stops o) : Evaluates env (.binary mark op (.node l) (.node r) type) s (o, u)
  | ifTrue {env mark n x y type s u o}
      (test : Decides env (.conditional mark (.node n) (.node x) (.node y) type) n s
        (.done true, u))
      (branch : Evaluates env x u o) :
      Evaluates env (.conditional mark (.node n) (.node x) (.node y) type) s o
  | ifFalse {env mark n x y type s u o}
      (test : Decides env (.conditional mark (.node n) (.node x) (.node y) type) n s
        (.done false, u))
      (branch : Evaluates env y u o) :
      Evaluates env (.conditional mark (.node n) (.node x) (.node y) type) s o
  | testStopped {env mark n x y type s u o} {p : Outcome Bool}
      (test : Decides env (.conditional mark (.node n) (.node x) (.node y) type) n s (p, u))
      (stops : p.Stops o) :
      Evaluates env (.conditional mark (.node n) (.node x) (.node y) type) s (o, u)
  | call {env mark f row args type s g vs u o}
      (operands : EvaluatesAll env (f :: args) s (.done (g :: vs), u))
      (apply : host.AppliesAt c (.call mark (.node f) row (args.map .node) type)
        (Action.call g vs) u o) :
      Evaluates env (.call mark (.node f) row (args.map .node) type) s o
  | callStopped {env mark f row args type s u o} {p : Outcome (List Value)}
      (operands : EvaluatesAll env (f :: args) s (p, u)) (stops : p.Stops o) :
      Evaluates env (.call mark (.node f) row (args.map .node) type) s (o, u)
  | lambda {env mark row ps b s} :
      Evaluates env (.lambda mark row (declarations ps) (.node b)) s
        (.done (.closure s.nextMark ps (b.code t) env), { s with nextMark := s.nextMark + 1 })

/-- A tree is evaluated, and its value is tested for truth at a node. -/
inductive Node.Decides : Environment → Node → Node → Session → Outcome Bool × Session → Prop where
  | tested {env site n s v u o} (value : Evaluates env n s (.done v, u))
      (test : host.AppliesAt c site (host.truth v) u o) : Decides env site n s o
  | stopped {env site n s u o} {x : Outcome Value} (value : Evaluates env n s (x, u))
      (stops : x.Stops o) : Decides env site n s (o, u)

/-- Several trees are evaluated once each, from left to right, up to the first that stops. -/
inductive Node.EvaluatesAll :
    Environment → List Node → Session → Outcome (List Value) × Session → Prop where
  | nil {env s} : EvaluatesAll env [] s (.done [], s)
  | cons {env n ns s v u vs w} (head : Evaluates env n s (.done v, u))
      (tail : EvaluatesAll env ns u (.done vs, w)) :
      EvaluatesAll env (n :: ns) s (.done (v :: vs), w)
  | stopped {env n ns s u o} {x : Outcome Value} (head : Evaluates env n s (x, u))
      (stops : x.Stops o) : EvaluatesAll env (n :: ns) s (o, u)
  | stoppedLater {env n ns s v u o w} {x : Outcome (List Value)}
      (head : Evaluates env n s (.done v, u)) (tail : EvaluatesAll env ns u (x, w))
      (stops : x.Stops o) : EvaluatesAll env (n :: ns) s (o, w)

end

end rules

/-- One level of calls by the rules, where functions make their own calls through `below`.  The
function of a lambda evaluates the body in the environment that it was made in, extended by the
arguments; what runs no tree is left to the host. -/
structure Host.CallsThrough (host : Host) (below c : Caller) : Prop where
  body : ∀ {mark ps t env args} {b : Node}, b.WellFormed → args.length = ps.length → ∀ s,
    b.Evaluates host below t (Environment.extend env ps args) s
      (c (.closure mark ps (b.code t) env) args s)
  arity : ∀ {mark ps code env args}, args.length ≠ ps.length → ∀ s,
    c (.closure mark ps code env) args s =
      (.raised (.failure (.arguments (.lambda ps.length args.length))), s)
  other : ∀ {f args}, (∀ mark ps t env (b : Node), b.WellFormed →
    f ≠ .closure mark ps (b.code t) env) → ∀ s, c f args s = (host.apply f args).run below s

/-- Calls by the rules, which nest so deep at most. -/
def Host.Interprets (host : Host) : Nat → Caller → Prop
  | 0, c => ∀ f args s, c f args s = (.exhausted, s)
  | depth + 1, c => ∃ below, host.Interprets depth below ∧ host.CallsThrough below c

end PredicateTree
