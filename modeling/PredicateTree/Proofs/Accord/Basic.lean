import PredicateTree.Proofs.Equality.Recursion
import PredicateTree.Proofs.Likeness.Basic

/-!
# Code that agrees

The code of two trees of one shape may differ in the nodes of its reports, in the values it holds and
in the names of members; `Atoms` says which of these stand for one another, and code agrees
(`Code.Agrees`) if it differs in no more.  Trees of one shape whose labels stand for one another have
code that agrees (`Node.Parallel.code`).

An `Accord` relates the values and the sessions of two runs of code that agrees.  Functions that were
made on the way are related if their code and their environments agree.
-/

namespace PredicateTree

/-! ### Atoms -/

/-- What may stand for one another in two trees. -/
structure Atoms where
  /-- Nodes where failures are reported. -/
  site : Node → Node → Prop
  /-- Values that code holds. -/
  constant : Value → Value → Prop
  /-- Names of members. -/
  name : Value → Value → Prop

/-- Code that differs from other code by what stands for one another. -/
inductive Code.Agrees (A : Atoms) : Code → Code → Prop where
  | constant {v w : Value} (h : A.constant v w) : Agrees A (.constant v) (.constant w)
  | reference {p : Parameter} (site : A.site (.parameter p) (.parameter p)) :
      Agrees A (.variable p) (.variable p)
  | readMember {n n' : Node} {c c' : Code} {a b : Value} (site : A.site n n') (name : A.name a b)
      (h : Agrees A c c') : Agrees A (.readMember n c a) (.readMember n' c' b)
  | readStatic {n n' : Node} {o q a b : Value} (site : A.site n n') (owner : A.constant o q)
      (name : A.name a b) : Agrees A (.readStatic n o a) (.readStatic n' q b)
  | applyUnary {n n' : Node} {f : Value} {c c' : Code} (site : A.site n n')
      (function : A.constant f f) (h : Agrees A c c') :
      Agrees A (.applyUnary n f c) (.applyUnary n' f c')
  | applyBinary {n n' : Node} {f : Value} {l l' r r' : Code} (site : A.site n n')
      (function : A.constant f f) (hl : Agrees A l l') (hr : Agrees A r r') :
      Agrees A (.applyBinary n f l r) (.applyBinary n' f l' r')
  | both {n n' : Node} {l l' r r' : Code} (site : A.site n n') (hl : Agrees A l l')
      (hr : Agrees A r r') : Agrees A (.both n l r) (.both n' l' r')
  | either {n n' : Node} {l l' r r' : Code} (site : A.site n n') (hl : Agrees A l l')
      (hr : Agrees A r r') : Agrees A (.either n l r) (.either n' l' r')
  | choose {n n' : Node} {c c' x x' y y' : Code} (site : A.site n n') (hc : Agrees A c c')
      (hx : Agrees A x x') (hy : Agrees A y y') :
      Agrees A (.choose n c x y) (.choose n' c' x' y')
  | call {n n' : Node} {f f' : Code} {args args' : List Code} (site : A.site n n')
      (hf : Agrees A f f') (length : args.length = args'.length)
      (each : ∀ e ∈ args.zip args', Agrees A e.1 e.2) :
      Agrees A (.call n f args) (.call n' f' args')
  | abstraction {ps : List Parameter} {b b' : Code} (h : Agrees A b b') :
      Agrees A (.abstraction ps b) (.abstraction ps b')

theorem Code.Agrees.ofBinary {A : Atoms} {t : OperatorTable}
    (ht : ∀ key, A.constant (t key) (t key)) {n n' : Node} {l l' r r' : Code} (op : BinaryOp)
    (site : A.site n n') (hl : l.Agrees A l') (hr : r.Agrees A r') :
    (Code.ofBinary t n op l r).Agrees A (Code.ofBinary t n' op l' r') := by
  cases op with
  | andAlso => exact .both site hl hr
  | orElse => exact .either site hl hr
  | _ => exact .applyBinary site (ht _) hl hr

/-- Environments that give every parameter related values, or neither gives one. -/
abbrev Environment.Agrees (R : Value → Value → Prop) (env env' : Environment) : Prop :=
  Environment.Alike R id (fun _ => True) env env'

/-- An environment agrees with itself if all its values are related to themselves. -/
theorem Environment.Agrees.self {R : Value → Value → Prop} {env : Environment}
    (h : ∀ e ∈ env, R e.2 e.2) : Agrees R env env := by
  intro p _
  change Option.Rel R (env.lookup p) (env.lookup p)
  induction env with
  | nil => exact .none
  | cons e env ih =>
    rw [List.lookup_cons]
    split
    · exact .some (h e List.mem_cons_self)
    · exact ih fun e he => h e (List.mem_cons_of_mem _ he)

/-- Environments that agree do so in the body of a function. -/
theorem Environment.Agrees.extend {R : Value → Value → Prop} {env env' : Environment}
    {ps : List Parameter} {args args' : List Value} (h : Agrees R env env')
    (hargs : List.Forall₂ R args args') (hlen : args.length = ps.length) :
    Agrees R (env.extend ps args) (env'.extend ps args') := by
  have hextend := Environment.Alike.extend h hargs hlen fun p (_ : True) =>
    ⟨keeps_of_injective fun _ _ h => h, fun _ => trivial⟩
  rwa [List.map_id] at hextend

/-! ### Trees -/

/-- Lists of declarations, each with a body, are the same but for the bodies if declarations are
related to themselves only. -/
theorem declarations_eq_of_forall₂ {Q : Node → Node → Prop}
    (hQ : ∀ {p r}, Q (.parameter p) r → r = .parameter p) {ps : List Parameter} {b : Node}
    {rs : List Node} (h : List.Forall₂ Q (ps.map .parameter ++ [b]) rs) :
    ∃ r, Q b r ∧ rs = ps.map .parameter ++ [r] := by
  induction ps generalizing rs with
  | nil =>
    obtain ⟨r, _, hr, hnone, rfl⟩ := List.forall₂_cons_left_iff.1 h
    cases hnone
    exact ⟨r, hr, rfl⟩
  | cons p ps ih =>
    obtain ⟨k, _, hk, hrest, rfl⟩ := List.forall₂_cons_left_iff.1 h
    obtain ⟨r, hr, rfl⟩ := ih hrest
    cases hQ hk
    exact ⟨r, hr, rfl⟩

/-- The owners of two static members stand for one another. -/
def Node.OwnersStand (A : Atoms) : Node → Node → Prop
  | .member _ .absent _ o _, .member _ .absent _ q _ => A.constant o q
  | _, _ => True

/-- Two trees of one shape whose labels stand for one another. -/
inductive Node.Parallel (A : Atoms) : Node → Node → Prop where
  | parameter {p : Parameter} (site : A.site (.parameter p) (.parameter p)) :
      Parallel A (.parameter p) (.parameter p)
  | agree {n m : Node} {ns ms : List Node} (site : A.site n m)
      (label : n.Agree A.constant A.name m) (owners : n.OwnersStand A m)
      (left : n.childNodes = .ok ns) (right : m.childNodes = .ok ms)
      (length : ns.length = ms.length) (each : ∀ e ∈ ns.zip ms, Parallel A e.1 e.2) :
      Parallel A n m

/-- A node, and what it holds besides its children, stands for itself. -/
def Node.Stands (A : Atoms) (n : Node) : Prop :=
  A.site n n ∧ match n with
    | .literal _ v _ => A.constant v v
    | .member _ e name owner _ => A.name name name ∧ (e = .absent → A.constant owner owner)
    | _ => True

namespace Node.Parallel

variable {A : Atoms} {t : OperatorTable} {n m : Node}

theorem site (h : n.Parallel A m) : A.site n m := by
  cases h with
  | parameter site => exact site
  | agree site => exact site

theorem of_parameter {p : Parameter} (h : (Node.parameter p).Parallel A m) : m = .parameter p := by
  cases h with
  | parameter => rfl
  | agree _ label => cases label

/-- The code of parallel trees agrees. -/
theorem code (ht : ∀ key, A.constant (t key) (t key)) (h : n.Parallel A m) :
    (n.code t).Agrees A (m.code t) := by
  induction h with
  | parameter site => exact .reference site
  | @agree n m ns ms site label owners left right length each ih =>
    have hall : List.Forall₂ (fun k l => k.Parallel A l ∧ (k.code t).Agrees A (l.code t)) ns ms :=
      forall₂_of_zip length fun e he => ⟨each e he, ih e he⟩
    cases label.alongside (P := fun _ _ => False) left right hall with
    | literal h => exact .constant h
    | parameter h => exact h.elim
    | static hname => exact .readStatic site owners hname
    | member hname he => exact .readMember site hname he.2
    | unary hx => exact .applyUnary site (ht _) hx.2
    | binary hl hr => exact .ofBinary ht _ site hl.2 hr.2
    | conditional hc hx hy => exact .choose site hc.2 hx.2 hy.2
    | call hf hargs =>
      rw [Node.code, Node.code, codes_nodes, codes_nodes]
      refine .call site hf.2 ?_ ?_
      · rw [List.length_map, List.length_map, hargs.length_eq]
      · rw [List.zip_map]
        intro e he
        obtain ⟨⟨a, a'⟩, ha, rfl⟩ := List.mem_map.1 he
        exact (zip_of_forall₂ hargs _ ha).2
    | lambda hall =>
      obtain ⟨r, hr, hrs⟩ := declarations_eq_of_forall₂ (fun h => h.1.of_parameter) hall
      obtain ⟨hps, hb⟩ := List.append_inj' hrs rfl
      cases hb
      cases List.map_injective_iff.2 (fun _ _ h => Node.parameter.inj h) hps
      exact .abstraction hr.2

/-- A tree is parallel to itself. -/
theorem self (h : n.All (Stands A)) : n.Parallel A n := by
  induction h with
  | @intro n ns children holds _ ih =>
    have heach := zip_of_forall₂ (List.forall₂_same.2 ih)
    obtain ⟨hsite, hlabel⟩ := holds
    cases n with
    | parameter p => exact .parameter hsite
    | literal mark v type => exact .agree hsite (.literal hlabel) trivial children children rfl heach
    | member mark e name owner type =>
      refine .agree hsite (.member hlabel.1 (Value.identical_self owner)) ?_ children children rfl
        heach
      cases e with
      | absent => exact hlabel.2 rfl
      | _ => trivial
    | unknown => cases children
    | _ => exact .agree hsite (by constructor) trivial children children rfl heach

end Node.Parallel

/-! ### Runs -/

/-- How the values and the sessions of two runs are related. -/
structure Accord (A : Atoms) where
  session : Session → Session → Prop
  value : Session → Session → Value → Value → Prop
  /-- What a run does to sessions. -/
  later : Session → Session → Prop
  order : Session.Order later
  /-- What is related stays so. -/
  value_later : ∀ {s s' t t' v w}, value s s' v w → later s t → later s' t' → session t t' →
    value t t' v w
  value_constant : ∀ {s s' v w}, session s s' → A.constant v w → value s s' v w
  value_bool : ∀ {s s'} (b : Bool), session s s' → value s s' (.bool b) (.bool b)
  /-- New functions are related if their code and their environments agree. -/
  closure : ∀ {s s' ps b b' env env'}, session s s' → b.Agrees A b' →
    Environment.Agrees (value s s') env env' →
    session (s.marked 1) (s'.marked 1) ∧
      value (s.marked 1) (s'.marked 1) (.closure s.nextMark ps b env)
        (.closure s'.nextMark ps b' env')
  /-- Only such functions are related. -/
  of_closure : ∀ {s s' mark ps b env f}, value s s' (.closure mark ps b env) f →
    ∃ mark' b' env', f = .closure mark' ps b' env' ∧ b.Agrees A b' ∧
      Environment.Agrees (value s s') env env'

theorem Accord.later_refl {A : Atoms} (L : Accord A) (s : Session) : L.later s s :=
  L.order.noted .refl

end PredicateTree
