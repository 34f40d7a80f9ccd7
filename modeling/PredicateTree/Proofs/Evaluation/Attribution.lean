import PredicateTree.Proofs.Evaluation.Containment
import PredicateTree.Proofs.Evaluation.Frames
import PredicateTree.Proofs.Likeness.Plain
import PredicateTree.Proofs.Traversal.Orders

/-!
# Where a failing evaluation points

A fault of evaluation names a node of the tree that was evaluated: a parameter that has no value, or
a node whose own operation failed, and then that failure is its cause.  An `Attribution` says which
values and sessions this holds for; its functions are those of the tree.  The operations of a host
keep to it if they end with a fault of evaluation only where a function that they call does
(`Host.Attributes`).

Evaluations keep to it node by node (`Attribution.run_located`), so do calls, however deep they nest
(`Host.Attributes.calls`), and so does the evaluation of a tree (`Machine.evaluate_attributes`).
-/

namespace PredicateTree

/-- The values that a node holds besides its children are good. -/
def Node.Carries (good : Value → Prop) : Node → Prop
  | .literal _ v _ => good v
  | .member _ e name owner _ => good name ∧ (e = .absent → good owner)
  | _ => True

/-- A node stems from a tree with the nodes `T`, and what it and a table hold is known; an
environment gives parameters good values. -/
structure Stems (T : Node → Prop) (known good : Value → Prop) (n : Node) (t : OperatorTable)
    (env : Environment) : Prop where
  node : n.All fun m => T m ∧ m.Carries known
  table : ∀ key, known (t key)
  env : ∀ p v, env.get? p = some v → good v

/-- The sessions and the values that runs meet whose functions are those of a tree with the
nodes `T`. -/
structure Attribution (T : Node → Prop) where
  session : Session → Prop
  value : Value → Prop
  /-- The values of literals, the owners and the names of members, and the operators. -/
  known : Value → Prop
  noted : ∀ {s t : Session}, session s → s.Noted t → session t
  value_known : ∀ {v}, known v → value v
  value_bool : ∀ b, value (.bool b)
  /-- The functions of the tree are good. -/
  closure : ∀ {mark ps b t env}, Stems T known value b t env → value (.closure mark ps (b.code t) env)
  /-- No other compiled functions are good. -/
  of_closure : ∀ {mark ps code env}, value (.closure mark ps code env) →
    ∃ b t, code = b.code t ∧ Stems T known value b t env

variable {T : Node → Prop} {α β : Type}

namespace Attribution

variable (A : Attribution T)

/-- A run ends with a good result or with a fault of some kind, in a good session; or out of
fuel. -/
inductive Ends (R : Fault → Prop) (Q : α → Prop) : Outcome α × Session → Prop where
  | done {a : α} {t : Session} (ht : A.session t) (h : Q a) : Ends R Q (.done a, t)
  | raised {f : Fault} {t : Session} (ht : A.session t) (h : R f) : Ends R Q (.raised f, t)
  | exhausted {t : Session} : Ends R Q (.exhausted, t)

/-- A caller that gives good results. -/
def Caller (c : PredicateTree.Caller) : Prop :=
  ∀ {s f args}, A.session s → A.value f → (∀ a ∈ args, A.value a) →
    A.Ends (fun _ => True) A.value (c f args s)

/-- A fault that is one of evaluation comes out of a call of a good function. -/
def FromCall (x : Action α) (c : PredicateTree.Caller) (s : Session) (f : Fault) : Prop :=
  f.isEvaluation = true → ∃ g args u w, A.session u ∧ A.value g ∧ (∀ a ∈ args, A.value a) ∧
    x.Makes c s g args u ∧ c g args u = (.raised f, w)

variable {A} {Q : α → Prop} {R R' : Fault → Prop} {P : β → Prop} {c : PredicateTree.Caller}
  {s : Session}

namespace Ends

theorem imp {o : Outcome α × Session} (h : A.Ends R Q o) (hR : ∀ f, R f → R' f) :
    A.Ends R' Q o := by
  cases h with
  | done ht h => exact .done ht h
  | raised ht h => exact .raised ht (hR _ h)
  | exhausted => exact .exhausted

/-- What does not fail may do so with any fault. -/
theorem of_never {o : Outcome α × Session} (h : A.Ends (fun _ => False) Q o) : A.Ends R Q o :=
  h.imp fun _ h => h.elim

theorem bind {x : Action α} {k : α → Action β} (hx : A.Ends R Q (x.run c s))
    (hk : ∀ {a t}, x.run c s = (.done a, t) → A.session t → Q a → A.Ends R P ((k a).run c t)) :
    A.Ends R P ((x >>= k).run c s) := by
  generalize ho : x.run c s = o at hx
  cases hx with
  | done ht h =>
    rw [Action.run_bind_done ho]
    exact hk ho ht h
  | raised ht h =>
    rw [Action.run_bind_raised ho]
    exact .raised ht h
  | exhausted =>
    rw [Action.run_bind_exhausted ho]
    exact .exhausted

theorem of_raised {o : Outcome α × Session} (h : A.Ends R Q o) {f : Fault} {t : Session}
    (ho : o = (.raised f, t)) : R f := by
  subst ho
  cases h with
  | raised _ h => exact h

end Ends

end Attribution

/-! ### Hosts -/

/-- The operations of a host keep to an attribution: they give good values, the texts for reports
do not fail, and what ends with a fault of evaluation is always the call of a function. -/
structure Host.Attributes (host : Host) (A : Attribution T) : Prop where
  /-- Calls of whatever is no compiled function. -/
  apply : ∀ {c s f args}, A.Caller c → A.session s → A.value f → (∀ a ∈ args, A.value a) →
    (∀ mark ps b env, f ≠ .closure mark ps b env) →
    A.Ends (A.FromCall (host.apply f args) c s) A.value ((host.apply f args).run c s)
  truth : ∀ {c s v}, A.Caller c → A.session s → A.value v →
    A.Ends (A.FromCall (host.truth v) c s) (fun _ => True) ((host.truth v).run c s)
  member : ∀ {c s v name}, A.Caller c → A.session s → A.value v → A.known name →
    A.Ends (fun _ => True) A.value ((host.member v name).run c s)
  describe : ∀ {c s n}, A.Caller c → A.session s → T n →
    A.Ends (fun _ => False) (fun _ => True) ((host.describe n).run c s)
  spell : ∀ {c s name}, A.Caller c → A.session s → A.known name →
    A.Ends (fun _ => False) (fun _ => True) ((host.spell name).run c s)
  spellParameter : ∀ {c s p}, A.Caller c → A.session s → T (.parameter p) →
    A.Ends (fun _ => False) (fun _ => True) ((host.spell (s.store.parameterName p)).run c s)

/-! ### Locating faults -/

/-- A fault that is one of evaluation arises at a node of the tree, in an evaluation that this one
comes to. -/
def Evaluation.Locates (host : Host) (T : Node → Prop) (E : Evaluation) (f : Fault) : Prop :=
  f.isEvaluation = true → ∃ G w, E.Reaches host G ∧ T G.node ∧ G.Arises host f w

/-- A fault that is one of evaluation is located in the evaluation of a body to which a call
leads. -/
def Host.LeadsTo (host : Host) (T : Node → Prop) (depth : Nat) (g : Value) (args : List Value)
    (s : Session) (f : Fault) : Prop :=
  f.isEvaluation = true → ∃ F, Evaluation.Leads host depth g args s F ∧ F.Locates host T f

/-- The values that an operation works with are good. -/
def Operation.Good (known good : Value → Prop) : Operation → Prop
  | .read v name => good v ∧ known name
  | .test v => good v
  | .apply f args => good f ∧ ∀ a ∈ args, good a

theorem Action.Makes.call (c : Caller) (f : Value) (args : List Value) (s : Session) :
    (Action.call f args).Makes c s f args s := fun _ _ h => h

theorem Action.Makes.bind {x : Action α} {k : α → Action β} {c : Caller} {s u : Session}
    {f : Value} {args : List Value} (h : x.Makes c s f args u) :
    (x >>= k).Makes c s f args u := by
  intro c' hc hexhausted
  have hx := h c' hc hexhausted
  rcases hrun : x.run c' s with ⟨o, t⟩
  rw [hrun] at hx
  subst hx
  rw [Action.run_bind_exhausted hrun]

/-- A fault that is located in the evaluation of an operand is located. -/
theorem Evaluation.Enters.locates {host : Host} {E F : Evaluation} (h : E.Enters host F) {f : Fault}
    (hF : F.Locates host T f) : E.Locates host T f := by
  intro hf
  obtain ⟨G, w, hreach, hnode, harises⟩ := hF hf
  exact ⟨G, w, .operand h hreach, hnode, harises⟩

namespace Attribution

variable {A : Attribution T} {host : Host} {E : Evaluation} {op : Operation} {u : Session}

/-- Calls to a depth end with good values, and their faults are located. -/
def Calls (A : Attribution T) (host : Host) (depth : Nat) : Prop :=
  ∀ {g args s}, A.session s → A.value g → (∀ a ∈ args, A.value a) →
    A.Ends (host.LeadsTo T depth g args s) A.value (Machine.callWithin host depth g args s)

theorem Calls.caller {depth : Nat} (hC : A.Calls host depth) :
    A.Caller (Machine.callWithin host depth) :=
  fun hs hf hargs => (hC hs hf hargs).imp fun _ _ => trivial

/-- A fault that an operation passes on came out of a call, so it is located. -/
theorem action_located (hH : host.Attributes A) (hC : A.Calls host E.depth)
    (hop : E.Operates host op u) (hu : A.session u) (hgood : op.Good A.known A.value) :
    A.Ends (fun f => op.passes f = true → E.Locates host T f) A.value
      ((op.action host).run (Machine.callWithin host E.depth) u) := by
  have hcalled {f : Fault} {g : Value} {args : List Value} {v w : Session}
      (made : (op.action host).Makes (Machine.callWithin host E.depth) u g args v)
      (hv : A.session v) (hg : A.value g) (hargs : ∀ a ∈ args, A.value a)
      (hraised : Machine.callWithin host E.depth g args v = (.raised f, w)) :
      E.Locates host T f := by
    intro hf
    obtain ⟨F, hlead, hlocates⟩ := (hC hv hg hargs).of_raised hraised hf
    obtain ⟨G, x, hreach, hnode, harises⟩ := hlocates hf
    exact ⟨G, x, .called hop made hlead hreach, hnode, harises⟩
  cases op with
  | read v name =>
    exact (hH.member hC.caller hu hgood.1 hgood.2).imp fun _ _ h => nomatch h
  | test v =>
    refine Ends.bind (Q := fun _ => True) ?_ fun _ ht _ => .done ht (A.value_bool _)
    refine (hH.truth hC.caller hu hgood).imp fun f hfrom hpasses => ?_
    obtain ⟨g, args, v, w, hv, hg, hargs, made, hraised⟩ := hfrom hpasses
    exact hcalled made.bind hv hg hargs hraised
  | apply g args =>
    have hends := hC hu hgood.1 hgood.2
    generalize ho : Machine.callWithin host E.depth g args u = o at hends
    change A.Ends _ _ (Machine.callWithin host E.depth g args u)
    rw [ho]
    cases hends with
    | done ht h => exact .done ht h
    | raised ht h =>
      exact .raised ht fun _ => hcalled (.call _ g args u) hu hgood.1 hgood.2 ho
    | exhausted => exact .exhausted

/-- What fails at a node is reported there, or it is located already. -/
theorem perform_located (hH : host.Attributes A) (hC : A.Calls host E.depth) (hT : T E.node)
    (hop : E.Operates host op u) (hu : A.session u) (hgood : op.Good A.known A.value) :
    A.Ends (E.Locates host T) A.value
      ((op.performAt host E.node).run (Machine.callWithin host E.depth) u) := by
  have haction := action_located hH hC hop hu hgood
  generalize ho : (op.action host).run (Machine.callWithin host E.depth) u = o at haction
  cases haction with
  | done ht h =>
    rw [Operation.performAt, reporting, Action.run_handle_done ho]
    exact .done ht h
  | exhausted =>
    rw [Operation.performAt, reporting, Action.run_handle_exhausted ho]
    exact .exhausted
  | @raised cause t ht h =>
    have hperform : (op.performAt host E.node).run (Machine.callWithin host E.depth) u =
        (if op.passes cause then Action.raise cause else do
          let activity ← op.activity host
          let shown ← host.describe E.node
          Action.raise (.failedAt E.node shown activity cause) : Action Value).run
            (Machine.callWithin host E.depth) t := Action.run_handle_raised ho
    by_cases hpasses : op.passes cause = true
    · rw [hperform, if_pos hpasses]
      exact .raised ht (h hpasses)
    · rw [if_neg hpasses] at hperform
      have hactivity : A.Ends (fun _ => False) (fun _ => True)
          ((op.activity host).run (Machine.callWithin host E.depth) t) := by
        cases op with
        | read v name => exact (hH.spell hC.caller ht hgood.2).bind fun _ hv _ => .done hv trivial
        | _ => exact .done ht trivial
      rw [hperform]
      refine hactivity.of_never.bind fun {activity v} hrun hv _ => ?_
      refine (hH.describe hC.caller hv hT).of_never.bind fun {shown w} hrun' hw _ => ?_
      refine .raised hw fun _ => ⟨E, w, .here, hT, .reported hop ho ?_⟩
      rw [hperform, Action.run_bind_done hrun, Action.run_bind_done hrun']
      rfl

/-- The operands of an eager node are evaluated one after the other. -/
theorem runAll_located {ks before after : List Node} {opOf : List Value → Operation}
    {vs : List Value} (node : E.node.Eager E.table ks opOf) (hks : before ++ after = ks)
    (hbefore : E.runAll host before = (.done vs, u)) (hu : A.session u)
    (each : ∀ k ∈ after, ∀ v, A.session v →
      A.Ends ((E.on k v).Locates host T) A.value ((E.on k v).run host)) :
    A.Ends (E.Locates host T) (fun ws => List.Forall₂ (fun _ w => A.value w) after ws)
      ((E.on E.node u).runAll host after) := by
  induction after generalizing before vs u with
  | nil => exact .done hu .nil
  | cons k after ih =>
    have henter : E.Enters host (E.on k u) := .operand (hks ▸ node) hbefore
    have hk := (each k List.mem_cons_self u hu).imp fun _ => henter.locates
    refine Ends.bind hk fun {v t} hrun ht hv => ?_
    have hnext : E.runAll host (before ++ [k]) = (.done (vs ++ [v]), t) := by
      rw [Evaluation.runAll_append_run hbefore, List.map_singleton, runAll, bind_assoc]
      exact Action.run_bind_done hrun
    have hrest := ih (by rw [List.append_assoc, List.singleton_append, hks]) hnext ht
      fun m hm => each m (List.mem_cons_of_mem _ hm)
    exact hrest.bind fun _ hw hws => .done hw (.cons hv hws)

/-- An eager node evaluates its operands, and then does something with their values. -/
theorem eager_located (hH : host.Attributes A) (hC : A.Calls host E.depth) (hT : T E.node)
    (hs : A.session E.session) {ks : List Node} {opOf : List Value → Operation}
    (node : E.node.Eager E.table ks opOf)
    (hgood : ∀ vs, List.Forall₂ (fun _ v => A.value v) ks vs → (opOf vs).Good A.known A.value)
    (each : ∀ k ∈ ks, ∀ v, A.session v →
      A.Ends ((E.on k v).Locates host T) A.value ((E.on k v).run host)) :
    A.Ends (E.Locates host T) A.value (E.run host) := by
  have hvalues := runAll_located node (List.nil_append ks) rfl hs each
  rw [Evaluation.run, node.run]
  exact hvalues.bind fun hrun ht hvs =>
    perform_located hH hC hT (.eager node hrun) ht (hgood _ hvs)

/-- A test at a node is located as its operation is. -/
theorem test_located (hH : host.Attributes A) (hC : A.Calls host E.depth) (hT : T E.node)
    {v : Value} (hop : E.Operates host (.test v) u) (hu : A.session u) (hv : A.value v) :
    A.Ends (E.Locates host T) (fun _ => True) (E.test host v u) := by
  have hperform := perform_located hH hC hT hop hu hv
  rw [performAt_test] at hperform
  generalize ho : E.test host v u = o
  obtain ⟨b | f | _, t⟩ := o
  · rw [Action.run_bind_done ho] at hperform
    cases hperform with
    | done ht _ => exact .done ht trivial
  · rw [Action.run_bind_raised ho] at hperform
    cases hperform with
    | raised ht h => exact .raised ht h
  · exact .exhausted

/-- A lazy node tests its first operand, and goes on with the one that is next. -/
theorem lazy_located (hH : host.Attributes A) (hC : A.Calls host E.depth) (hT : T E.node)
    (hs : A.session E.session) {k : Node} {next : Bool → Option Node} {tested : Bool}
    (node : E.node.Lazy k next tested)
    (hk : ∀ v, A.session v →
      A.Ends ((E.on k v).Locates host T) A.value ((E.on k v).run host))
    (hnext : ∀ b m, next b = some m → ∀ v, A.session v →
      A.Ends ((E.on m v).Locates host T) A.value ((E.on m v).run host)) :
    A.Ends (E.Locates host T) A.value (E.run host) := by
  have henter : E.Enters host (E.on k E.session) := .first node
  rw [Evaluation.run, node.run]
  refine ((hk _ hs).imp fun _ => henter.locates).bind fun {v t} hrun ht hv => ?_
  refine (test_located hH hC hT (.first node hrun) ht hv).bind fun {b u} htest hu _ => ?_
  cases hm : next b with
  | none => exact .done hu (A.value_bool b)
  | some m =>
    have henter' : E.Enters host (E.on m u) := .next node hrun htest hm
    refine ((hnext b m hm u hu).imp fun _ => henter'.locates).bind fun {w x} hlast hx hw => ?_
    cases tested with
    | false => exact .done hx hw
    | true =>
      exact (test_located hH hC hT (.next node hrun htest hm hlast) hx hw).bind
        fun _ hy _ => .done hy (A.value_bool _)

/-- A parameter without a value is where its fault arises. -/
theorem parameter_located (hH : host.Attributes A) (hC : A.Calls host E.depth) {p : Parameter}
    (node : E.node = .parameter p) (hT : T (.parameter p)) (hs : A.session E.session)
    (henv : ∀ v, E.env.get? p = some v → A.value v) :
    A.Ends (E.Locates host T) A.value (E.run host) := by
  rw [Evaluation.run, node, Node.code, Code.run]
  cases hv : E.env.get? p with
  | some v => exact .done hs (henv v hv)
  | none =>
    have hstore : Action.store.run (Machine.callWithin host E.depth) E.session =
      (.done E.session.store, E.session) := rfl
    change A.Ends _ _ ((unboundAt host p).run _ _)
    rw [unboundAt, Action.run_bind_done hstore]
    refine (hH.spellParameter hC.caller hs hT).of_never.bind fun {name t} hrun ht _ => ?_
    refine .raised ht fun _ => ⟨E, t, .here, node ▸ hT, .unbound node hv ?_⟩
    rw [unboundAt, Action.run_bind_done hstore, Action.run_bind_done hrun]
    rfl

/-- Evaluations keep to an attribution if the calls that they make do. -/
theorem run_located (hH : host.Attributes A) {depth : Nat} (hC : A.Calls host depth) {n : Node}
    {t : OperatorTable} {env : Environment} (h : Stems T A.known A.value n t env) {s : Session}
    (hs : A.session s) :
    A.Ends ((Evaluation.mk depth t env n s).Locates host T) A.value
      ((Evaluation.mk depth t env n s).run host) := by
  obtain ⟨hn, ht, henv⟩ := h
  induction hn using Node.All.induction generalizing s with
  | literal mark v type h holds => exact .done hs (A.value_known holds.2)
  | parameter p h holds =>
    exact parameter_located hH hC rfl holds.1 hs (henv p)
  | static mark name owner type h holds =>
    exact eager_located hH hC holds.1 hs .static
      (fun vs _ => ⟨A.value_known (holds.2.2 rfl), holds.2.1⟩) fun k hk => nomatch hk
  | member mark e name owner type h he holds ih =>
    refine eager_located hH hC holds.1 hs .member (fun vs hvs => ?_)
      (List.forall_mem_singleton.2 fun _ => ih)
    obtain _ | ⟨hv, -⟩ := hvs
    exact ⟨hv, holds.2.1⟩
  | unary mark op x type h hx holds ih =>
    refine eager_located hH hC holds.1 hs .unary (fun vs hvs => ?_)
      (List.forall_mem_singleton.2 fun _ => ih)
    exact ⟨A.value_known (ht _), forall_of_forall₂ hvs fun _ _ _ h => h⟩
  | binary mark op l r type h hl hr holds ihl ihr =>
    have hlazy (settling : Bool) (hop : op = joinOp settling) :
        (Node.binary mark op (.node l) (.node r) type).Lazy l
          (fun b => if b = settling then none else some r) true := hop ▸ .join
    by_cases heager : op.isShortCircuit = false
    · refine eager_located hH hC holds.1 hs (.binary heager) (fun vs hvs => ?_)
        (List.forall_mem_cons.2 ⟨fun _ => ihl, List.forall_mem_singleton.2 fun _ => ihr⟩)
      exact ⟨A.value_known (ht _), forall_of_forall₂ hvs fun _ _ _ h => h⟩
    · obtain ⟨settling, hop⟩ : ∃ settling, op = joinOp settling := by
        cases op with
        | andAlso => exact ⟨false, rfl⟩
        | orElse => exact ⟨true, rfl⟩
        | _ => exact absurd rfl heager
      refine lazy_located hH hC holds.1 hs (hlazy settling hop) (fun _ => ihl) fun b m hm v => ?_
      split at hm
      · cases hm
      · cases hm
        exact ihr
  | conditional mark c x y type h hc hx hy holds ihc ihx ihy =>
    refine lazy_located hH hC holds.1 hs .conditional (fun _ => ihc) fun b m hm v => ?_
    cases hm
    cases b with
    | false => exact ihy
    | true => exact ihx
  | call mark f row args type h hf hargs holds ihf ihargs =>
    refine eager_located hH hC holds.1 hs .call (fun vs hvs => ?_)
      (List.forall_mem_cons.2 ⟨fun _ => ihf, fun a ha _ => ihargs a ha⟩)
    obtain _ | ⟨hv, hvs⟩ := hvs
    exact ⟨hv, forall_of_forall₂ hvs fun _ _ _ h => h⟩
  | lambda mark row ps b h hb holds hps ih =>
    exact .done (A.noted hs (.mark .refl 1)) (A.closure ⟨hb, ht, henv⟩)

end Attribution

/-- Calls keep to an attribution that the host keeps to, however deep they may nest. -/
theorem Host.Attributes.calls {A : Attribution T} {host : Host} (hH : host.Attributes A)
    (depth : Nat) : A.Calls host depth := by
  induction depth with
  | zero => exact fun _ _ _ => .exhausted
  | succ depth ih =>
    intro g args s hs hg hargs
    by_cases hclosure : ∃ mark ps b env, g = .closure mark ps b env
    · obtain ⟨mark, ps, code, env, rfl⟩ := hclosure
      obtain ⟨b, t, rfl, hstems⟩ := A.of_closure hg
      by_cases hlen : args.length = ps.length
      · rw [callWithin_closure hlen]
        have hbody : Stems T A.known A.value b t (Environment.extend env ps args) := by
          refine ⟨hstems.node, hstems.table, fun p v hv => ?_⟩
          rcases Environment.get?_extend_cases hlen env p with ⟨a, ha, hget⟩ | ⟨-, hget⟩
          · cases hget.symm.trans hv
            exact hargs _ ha
          · exact hstems.env p v (hget.symm.trans hv)
        exact (Attribution.run_located hH ih hbody hs).imp
          fun f hf _ => ⟨_, .body hlen, hf⟩
      · rw [Machine.callWithin, Host.apply, if_neg hlen]
        exact .raised hs fun h => absurd h (Bool.eq_false_iff.1 (Fault.isEvaluation_failure _))
    · refine (hH.apply ih.caller hs hg hargs fun mark ps b env h =>
        hclosure ⟨mark, ps, b, env, h⟩).imp fun f hfrom hf => ?_
      obtain ⟨g', args', u, w, hu, hg', hargs', made, hraised⟩ := hfrom hf
      obtain ⟨F, hlead, hlocates⟩ := (ih hu hg' hargs').of_raised hraised hf
      exact ⟨F, .through made hlead, hlocates⟩

/-! ### Plain values -/

/-- A plain value, or a function of a tree with the nodes `T` that keeps such values. -/
inductive Value.PlainlyStems (T : Node → Prop) : Value → Prop where
  | plain {v : Value} (h : v.isPlain = true) : PlainlyStems T v
  | closure {mark : Nat} {ps : List Parameter} {b : Node} {t : OperatorTable} {env : Environment}
      (node : b.All fun m => T m ∧ m.Carries (·.isPlain = true))
      (table : ∀ key, (t key).isPlain = true)
      (values : ∀ p v, env.get? p = some v → PlainlyStems T v) :
      PlainlyStems T (.closure mark ps (b.code t) env)

/-- The attribution of plain values. -/
def Attribution.plain (T : Node → Prop) : Attribution T where
  session _ := True
  value := Value.PlainlyStems T
  known v := v.isPlain = true
  noted _ _ := trivial
  value_known := .plain
  value_bool _ := .plain rfl
  closure h := .closure h.node h.table h.env
  of_closure h := by
    cases h with
    | plain h => cases h
    | closure node table values => exact ⟨_, _, rfl, node, table, values⟩

/-- The operations of the plain host keep to the attribution of plain values: they call nothing,
and no fault of theirs is one of evaluation. -/
theorem Host.plain_attributes (T : Node → Prop) : Host.plain.Attributes (Attribution.plain T) where
  apply := by
    intro c s f args _ _ hf hargs hclosure
    cases hf with
    | closure => exact absurd rfl (hclosure _ _ _ _)
    | plain h =>
      rcases Host.plain_apply h args c s with ⟨v, t, hrun, hv⟩ | ⟨g, hrun⟩
      · rw [hrun]
        exact .done trivial (hv.elim .plain (hargs v))
      · rw [hrun]
        exact .raised trivial fun heval =>
          absurd heval (Bool.eq_false_iff.1 (Fault.isEvaluation_failure g))
  truth _ _ _ := .done trivial trivial
  member _ _ _ _ := .raised trivial trivial
  describe _ _ _ := .done trivial trivial
  spell _ _ _ := .done trivial trivial
  spellParameter _ _ _ := .done trivial trivial

/-! ### Trees -/

/-- The kinds of the nodes that do something with values of operands. -/
def operatingKinds : List NodeKind := [.member, .unary, .binary, .conditional, .call]

theorem Evaluation.Operates.kind {host : Host} {E : Evaluation} {op : Operation} {u : Session}
    (h : E.Operates host op u) : ∃ k ∈ operatingKinds, E.node.kind? = some k := by
  have heager {t : OperatorTable} {n : Node} {ks : List Node} {opOf : List Value → Operation}
      (hn : n.Eager t ks opOf) : ∃ k ∈ operatingKinds, n.kind? = some k := by
    cases hn with
    | static | member => exact ⟨.member, by decide, rfl⟩
    | unary => exact ⟨.unary, by decide, rfl⟩
    | binary => exact ⟨.binary, by decide, rfl⟩
    | call => exact ⟨.call, by decide, rfl⟩
  have hlazy {n k : Node} {next : Bool → Option Node} {tested : Bool}
      (hn : n.Lazy k next tested) : ∃ k ∈ operatingKinds, n.kind? = some k := by
    cases hn with
    | join => exact ⟨.binary, by decide, rfl⟩
    | conditional => exact ⟨.conditional, by decide, rfl⟩
  cases h with
  | eager node => exact heager node
  | first node => exact hlazy node
  | next node => exact hlazy node

/-- A fault points at a node, which raised it in an evaluation that `E` comes to: at a parameter, for
want of a value, or at a node of another kind, and then its cause is what came out of the operation
there. -/
structure Fault.PointsAt (host : Host) (E : Evaluation) (f : Fault) (n : Node) : Prop where
  subject : f.subject = some (.node n)
  parameter : n.kind? = some .parameter ↔ f.errorClass = .unboundParameter
  uncaused : n.kind? = some .parameter → f.cause = none
  kind : n.kind? ≠ some .parameter → ∃ k ∈ operatingKinds, n.kind? = some k
  place : ∃ G w, E.Reaches host G ∧ G.node = n ∧ G.run host = (.raised f, w) ∧
    (n.kind? ≠ some .parameter → ∃ op u v cause, G.Operates host op u ∧
      (op.action host).run (Machine.callWithin host G.depth) u = (.raised cause, v) ∧
      f.cause = some cause)

theorem Evaluation.Arises.pointsAt {host : Host} {E G : Evaluation} {f : Fault} {w : Session}
    (h : G.Arises host f w) (hG : E.Reaches host G) : f.PointsAt host E G.node := by
  have hrun := h.run
  cases h with
  | @unbound p name _ node value report =>
    rw [node]
    exact ⟨rfl, ⟨fun _ => rfl, fun _ => rfl⟩, fun _ => rfl, fun h => absurd rfl h,
      G, w, hG, node, hrun, fun h => absurd rfl h⟩
  | @reported op u v _ _ _ cause operation fails report =>
    obtain ⟨k, hk, hkind⟩ := operation.kind
    have hother : G.node.kind? ≠ some .parameter := by
      rw [hkind]
      rintro ⟨⟩
      exact absurd hk (by decide)
    exact ⟨rfl, ⟨fun h => absurd h hother, fun h => nomatch h⟩, fun h => absurd h hother,
      fun _ => ⟨k, hk, hkind⟩,
      G, w, hG, rfl, hrun, fun _ => ⟨op, u, v, cause, operation, fails, rfl⟩⟩

/-- A fault of evaluation points into the tree that was evaluated.  One that ends an operand or the
body of a function which is applied ends all evaluations that came to it, unchanged. -/
theorem Machine.evaluate_points_inside {M : Machine} {n : Node}
    {bindings overrides : List (Value × Value)} {A : Attribution (· ∈ n.preorder)}
    (h : n.All (·.isOwned)) (hlabels : ∀ m ∈ n.preorder, m.Carries A.known)
    (hkeys : ∀ e ∈ overrides, OperatorTable.key? e.1 = none →
      e.1.shown.RaisesOnly M.caller (·.isEvaluation = false))
    (htable : ∀ key, A.known (OperatorTable.standard.overridden overrides key))
    (hbindings : ∀ p v, (environmentOf bindings).get? p = some v → A.value v)
    (hH : M.host.Attributes A) {s : Session} (hs : A.session s) :
    let E : Evaluation :=
      ⟨M.depth, OperatorTable.standard.overridden overrides, environmentOf bindings, n, s⟩
    (∀ f w, (M.evaluate (.node n) bindings overrides).run M.caller s = (.raised f, w) →
      f.isEvaluation = true → ∃ ns, walk (.node n) = pure ns ∧ ∃ m ∈ ns, f.PointsAt M.host E m) ∧
    (OperatorTable.Valid overrides →
      (M.evaluate (.node n) bindings overrides).run M.caller s = E.run M.host) ∧
    ∀ (F G : Evaluation) (f : Fault) (w : Session), F.Descends M.host G →
      G.run M.host = (.raised f, w) → f.isEvaluation = true → F.run M.host = (.raised f, w) := by
  intro E
  have hrun (hv : OperatorTable.Valid overrides) :
      (M.evaluate (.node n) bindings overrides).run M.caller s = E.run M.host := by
    rw [evaluate_owned h hv]
    rfl
  refine ⟨fun f w hraised hf => ?_, hrun, fun F G f w hdescends hG hf => hdescends.raised hG hf⟩
  have hv : OperatorTable.Valid overrides :=
    OperatorTable.valid_of_raised Fault.isEvaluation_failure hkeys hraised (by simp [hf])
  rw [hrun hv] at hraised
  have hnodes : n.All fun m => m ∈ n.preorder ∧ m.Carries A.known :=
    Node.all_iff.2 fun k hk => ⟨(Node.all_iff.1 h k hk).1, hk, hlabels k hk⟩
  have hstems : Stems (· ∈ n.preorder) A.known A.value n
      (OperatorTable.standard.overridden overrides) (environmentOf bindings) :=
    ⟨hnodes, htable, hbindings⟩
  obtain ⟨G, x, hreach, hnode, harises⟩ :=
    (Attribution.run_located hH (hH.calls M.depth) hstems hs).of_raised hraised hf
  exact ⟨_, walk_preorder h.wellFormed, G.node, hnode, harises.pointsAt hreach⟩

/-- An operand calls a function of the tree with a value that its body cannot add: the sum in the
body is to blame. -/
theorem Machine.evaluate_points_inside_body :
    let x : Parameter := ⟨1, "x", .object, 0⟩
    let y : Parameter := ⟨2, "y", .object, 0⟩
    let sum : Node := .binary 6 .add (.node (.parameter x)) (.node (.parameter y)) .object
    let n : Node := .binary 1 .add (.node (.literal 2 (.ofInt 1) .int))
      (.node (.call 3 (.node (.lambda 4 5 (Node.declarations [x]) (.node sum))) 7
        [.node (.literal 8 .absent .object)] .object)) .object
    let M : Machine := ⟨Host.plain, 9⟩
    ∃ f w ns, (M.evaluate (.node n) [(.node (.parameter y), .ofInt 5)] []).run M.caller {} =
        (.raised f, w) ∧ f.errorClass = .evaluation ∧ walk (.node n) = pure ns ∧ sum ∈ ns ∧
      f.subject = some (.node sum) ∧ f.cause.isSome := by
  intro x y sum n M
  let P (m : Node) : Prop := m.isOwned = true ∧ m.Carries (·.isPlain = true)
  have hparameter (p : Parameter) : (Node.parameter p).All P :=
    .intro [] rfl ⟨rfl, trivial⟩ (by simp)
  have hone : (Node.literal 2 (.ofInt 1) .int).All P := .intro [] rfl ⟨rfl, rfl⟩ (by simp)
  have hnone : (Node.literal 8 .absent .object).All P := .intro [] rfl ⟨rfl, rfl⟩ (by simp)
  have hsum : sum.All P := .intro [_, _] rfl ⟨rfl, trivial⟩ (by simp [hparameter])
  have hlambda : (Node.lambda 4 5 (Node.declarations [x]) (.node sum)).All P :=
    .intro [_, _] rfl ⟨rfl, trivial⟩ (by simp [hparameter, hsum])
  have hcall : (Node.call 3 (.node (.lambda 4 5 (Node.declarations [x]) (.node sum))) 7
      [.node (.literal 8 .absent .object)] .object).All P :=
    .intro [_, _] rfl ⟨rfl, trivial⟩ (by simp [hlambda, hnone])
  have hn : n.All P := .intro [_, _] rfl ⟨rfl, trivial⟩ (by simp [hone, hcall])
  have hbindings (p : Parameter) (v : Value)
      (hv : (environmentOf [(.node (.parameter y), .ofInt 5)]).get? p = some v) :
      (Attribution.plain (· ∈ n.preorder)).value v := by
    obtain ⟨before, after, heq, -⟩ := List.lookup_eq_some_iff.1 hv
    have hmem : (p, v) ∈ [(y, Value.ofInt 5)] := by
      change (p, v) ∈ environmentOf [(.node (.parameter y), .ofInt 5)]
      simp [heq]
    cases List.mem_singleton.1 hmem
    exact .plain rfl
  have hoverrides : ∀ e ∈ ([] : List (Value × Value)), OperatorTable.key? e.1 = none →
      e.1.shown.RaisesOnly M.caller (·.isEvaluation = false) := by simp
  obtain ⟨hpoints, -, -⟩ := evaluate_points_inside
    (A := Attribution.plain (· ∈ n.preorder)) (hn.mono fun _ h => h.1)
    (fun m hm => ((Node.all_iff.1 hn) m hm).2.2) hoverrides (fun _ => rfl) hbindings
    (Host.plain_attributes _) trivial
  have hraised : ∃ f w, (M.evaluate (.node n) [(.node (.parameter y), .ofInt 5)] []).run M.caller
      {} = (.raised f, w) ∧ f.errorClass = .evaluation ∧ f.subject = some (.node sum) := by
    rw [evaluate_owned (hn.mono fun _ h => h.1) (by simp [OperatorTable.Valid])]
    exact ⟨_, _, rfl, rfl, rfl⟩
  obtain ⟨f, w, hrun, hclass, hsubject⟩ := hraised
  have heval : f.isEvaluation = true := by
    rw [Fault.isEvaluation, hclass]
    rfl
  obtain ⟨ns, hwalk, m, hm, hpoints⟩ := hpoints f w hrun heval
  cases hpoints.subject.symm.trans hsubject
  obtain ⟨G, u, -, -, -, hcause⟩ := hpoints.place
  obtain ⟨op, v, w', cause, -, -, hcause⟩ := hcause (by decide)
  exact ⟨f, w, ns, hrun, hclass, hwalk, hm, hsubject, by rw [hcause]; rfl⟩

end PredicateTree
