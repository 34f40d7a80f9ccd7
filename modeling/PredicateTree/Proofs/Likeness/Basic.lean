import PredicateTree.Proofs.Evaluation.Bookkeeping
import PredicateTree.Proofs.Likeness.Scope

/-!
# When two runs are alike

Two runs are compared step by step.  A `Correspondence` says which nodes may stand for one another
in reports, which values both runs know from the start, and which code may be replaced by a value;
code matches other code (`Code.Matches`) if it differs by no more than that and by names of
parameters, scopes being kept.

A `Likeness` relates the values and the sessions of the two runs.  Functions are not compared by
what they are: two functions that were made on the way are alike if their code matches and their
environments are alike, and what that says about calls of them is proved, not assumed
(`Host.Respects.callers`).  The calls that two like sessions recorded are alike one by one.

Two runs end alike (`Likeness.Ends`) if both give like values, or both fail in the same way, and
leave like sessions.
-/

namespace PredicateTree

/-- In what two trees, and the runs of their code, may differ. -/
structure Correspondence where
  /-- The nodes that stand for one another where failures are reported. -/
  site : Node → Node → Prop
  /-- The values that both runs know from the start. -/
  known : Value → Prop
  /-- The values that stand for code. -/
  settled : Code → Value → Prop
  /-- What a run does to sessions. -/
  later : Session → Session → Prop
  /-- Whether the first run may be out of fuel where the second one is not. -/
  cut : Prop
  order : Session.Order later

theorem Correspondence.later_refl (K : Correspondence) (s : Session) : K.later s s :=
  K.order.noted .refl

/-- Code that differs from other code by names of parameters, by the nodes of its reports, and by
values in the place of code.  All free parameters lie in the scope `S`. -/
inductive Code.Matches (K : Correspondence) (ρ : Parameter → Parameter) :
    (Parameter → Prop) → Code → Code → Prop where
  | constant {S : Parameter → Prop} {v : Value} (hv : K.known v) :
      Matches K ρ S (.constant v) (.constant v)
  | settled {S : Parameter → Prop} {c c₀ : Code} {w : Value} (h : Matches K ρ S c c₀)
      (hw : K.settled c₀ w) : Matches K ρ S c (.constant w)
  | reference {S : Parameter → Prop} {p : Parameter} (hp : S p)
      (hsite : K.site (.parameter p) (.parameter (ρ p))) :
      Matches K ρ S (.variable p) (.variable (ρ p))
  | readMember {S : Parameter → Prop} {n n' : Node} {c c' : Code} {name : Value}
      (hsite : K.site n n') (hname : K.known name) (h : Matches K ρ S c c') :
      Matches K ρ S (.readMember n c name) (.readMember n' c' name)
  | readStatic {S : Parameter → Prop} {n n' : Node} {owner name : Value} (hsite : K.site n n')
      (howner : K.known owner) (hname : K.known name) :
      Matches K ρ S (.readStatic n owner name) (.readStatic n' owner name)
  | applyUnary {S : Parameter → Prop} {n n' : Node} {f : Value} {c c' : Code}
      (hsite : K.site n n') (hf : K.known f) (h : Matches K ρ S c c') :
      Matches K ρ S (.applyUnary n f c) (.applyUnary n' f c')
  | applyBinary {S : Parameter → Prop} {n n' : Node} {f : Value} {l l' r r' : Code}
      (hsite : K.site n n') (hf : K.known f) (hl : Matches K ρ S l l') (hr : Matches K ρ S r r') :
      Matches K ρ S (.applyBinary n f l r) (.applyBinary n' f l' r')
  | both {S : Parameter → Prop} {n n' : Node} {l l' r r' : Code} (hsite : K.site n n')
      (hl : Matches K ρ S l l') (hr : Matches K ρ S r r') :
      Matches K ρ S (.both n l r) (.both n' l' r')
  | either {S : Parameter → Prop} {n n' : Node} {l l' r r' : Code} (hsite : K.site n n')
      (hl : Matches K ρ S l l') (hr : Matches K ρ S r r') :
      Matches K ρ S (.either n l r) (.either n' l' r')
  | choose {S : Parameter → Prop} {n n' : Node} {c c' x x' y y' : Code} (hsite : K.site n n')
      (hc : Matches K ρ S c c') (hx : Matches K ρ S x x') (hy : Matches K ρ S y y') :
      Matches K ρ S (.choose n c x y) (.choose n' c' x' y')
  | call {S : Parameter → Prop} {n n' : Node} {f f' : Code} {args args' : List Code}
      (hsite : K.site n n') (hf : Matches K ρ S f f') (hlen : args.length = args'.length)
      (hargs : ∀ e ∈ args.zip args', Matches K ρ S e.1 e.2) :
      Matches K ρ S (.call n f args) (.call n' f' args')
  | abstraction {S S' : Parameter → Prop} {ps : List Parameter} {b b' : Code}
      (hscope : ∀ p, S' p → Keeps ρ ps p ∧ (p ∉ ps → S p)) (h : Matches K ρ S' b b') :
      Matches K ρ S (.abstraction ps b) (.abstraction (ps.map ρ) b')

theorem Code.Matches.ofBinary {K : Correspondence} {ρ : Parameter → Parameter}
    {S : Parameter → Prop} {t : OperatorTable} (ht : ∀ key, K.known (t key)) {n n' : Node}
    {l l' r r' : Code} (op : BinaryOp) (hsite : K.site n n') (hl : l.Matches K ρ S l')
    (hr : r.Matches K ρ S r') :
    (Code.ofBinary t n op l r).Matches K ρ S (Code.ofBinary t n' op l' r') := by
  cases op with
  | andAlso => exact .both hsite hl hr
  | orElse => exact .either hsite hl hr
  | _ => exact .applyBinary hsite (ht _) hl hr

/-- What a node holds besides its children is known. -/
def Node.LabelsKnown (K : Correspondence) : Node → Prop
  | .literal _ v _ => K.known v
  | .member _ e name owner _ => K.known name ∧ (e = .absent → K.known owner)
  | _ => True

/-- Two faults of one class with causes of one class, at nodes that stand for one another. -/
structure Fault.Alike (site : Node → Node → Prop) (f g : Fault) : Prop where
  errorClass : f.errorClass = g.errorClass
  cause : f.cause.map Fault.errorClass = g.cause.map Fault.errorClass
  subject : ∀ n, f.subject = some (.node n) → ∃ m, g.subject = some (.node m) ∧ site n m

theorem Fault.Alike.isEvaluation {site : Node → Node → Prop} {f g : Fault} (h : f.Alike site g) :
    f.isEvaluation = g.isEvaluation := by
  rw [Fault.isEvaluation, Fault.isEvaluation, h.errorClass]

theorem Fault.Alike.refl {site : Node → Node → Prop} {f : Fault}
    (h : ∀ n, f.subject = some (.node n) → site n n) : f.Alike site f :=
  ⟨rfl, rfl, fun n hn => ⟨n, hn, h n hn⟩⟩

/-- Failures of one class have no cause and no subject. -/
theorem Fault.Alike.failure {site : Node → Node → Prop} {f g : Failure}
    (h : (Fault.failure f).errorClass = (Fault.failure g).errorClass) :
    (Fault.failure f).Alike site (.failure g) :=
  ⟨h, rfl, fun _ hn => nomatch hn⟩

/-- How the values and the sessions of two runs are related. -/
structure Likeness (K : Correspondence) where
  session : Session → Session → Prop
  value : Session → Session → Value → Value → Prop
  /-- What is alike stays alike. -/
  value_later : ∀ {s s' t t' v w}, value s s' v w → K.later s t → K.later s' t' → session t t' →
    value t t' v w
  value_known : ∀ {s s' v}, session s s' → K.known v → value s s' v v
  value_bool : ∀ {s s'} (b : Bool), session s s' → value s s' (.bool b) (.bool b)
  /-- The same functions were called, with like arguments. -/
  calls : ∀ {s s'}, session s s' → List.Forall₂ (fun c c' =>
    value s s' c.function c'.function ∧ List.Forall₂ (value s s') c.arguments c'.arguments)
      s.calls s'.calls
  /-- New functions are alike if their code matches and their environments are alike. -/
  closure : ∀ {s s' ρ S ps ps' b b' env env'}, session s s' →
    Code.Matches K ρ S (.abstraction ps b) (.abstraction ps' b') →
    Environment.Alike (value s s') ρ S env env' →
    session (s.marked 1) (s'.marked 1) ∧
      value (s.marked 1) (s'.marked 1) (.closure s.nextMark ps b env)
        (.closure s'.nextMark ps' b' env')
  /-- Only such functions are alike. -/
  of_closure : ∀ {s s' mark ps b env f}, value s s' (.closure mark ps b env) f →
    ∃ mark' ps' b' env' ρ S, f = .closure mark' ps' b' env' ∧
      Code.Matches K ρ S (.abstraction ps b) (.abstraction ps' b') ∧
      Environment.Alike (value s s') ρ S env env'

end PredicateTree
