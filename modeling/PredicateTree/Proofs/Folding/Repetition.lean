import PredicateTree.Proofs.Evaluation.Time
import PredicateTree.Proofs.Folding.Step
import PredicateTree.Proofs.Likeness.Run

/-!
# Running folded code again

What a folding pass folds is run once, while the pass goes on, and its value stands for it ever
after.  That is right if what it ran repeats: operators, truth tests and members, and calls where
these are folded, give the same again on like values, and leave a like session (`Host.Repeats`).
Then code that matches what was folded ends like its value (`Correspondence.Folds.settles`).
-/

namespace PredicateTree

/-! ### What was folded -/

/-- Whether a pass calls a function: it is the meaning of an operator, or calls are folded. -/
def OperatorTable.Calls (t : OperatorTable) (foldCalls : Bool) (f : Value) : Prop :=
  (∃ key, f = t key) ∨ foldCalls = true

/-- The code of a tree that is built from literals. -/
inductive Code.Ground (t : OperatorTable) (foldCalls : Bool) : Code → Prop where
  | constant (v : Value) : Ground t foldCalls (.constant v)
  | readMember {n : Node} {c : Code} {name : Value} (h : Ground t foldCalls c) :
      Ground t foldCalls (.readMember n c name)
  | applyUnary {n : Node} {f : Value} {c : Code} (hf : t.Calls foldCalls f)
      (h : Ground t foldCalls c) : Ground t foldCalls (.applyUnary n f c)
  | applyBinary {n : Node} {f : Value} {l r : Code} (hf : t.Calls foldCalls f)
      (hl : Ground t foldCalls l) (hr : Ground t foldCalls r) :
      Ground t foldCalls (.applyBinary n f l r)
  | both {n : Node} {l r : Code} (hl : Ground t foldCalls l) (hr : Ground t foldCalls r) :
      Ground t foldCalls (.both n l r)
  | either {n : Node} {l r : Code} (hl : Ground t foldCalls l) (hr : Ground t foldCalls r) :
      Ground t foldCalls (.either n l r)
  | choose {n : Node} {c x y : Code} (hc : Ground t foldCalls c) (hx : Ground t foldCalls x)
      (hy : Ground t foldCalls y) : Ground t foldCalls (.choose n c x y)
  | call {n : Node} {f : Code} {args : List Code} (allowed : foldCalls = true)
      (hf : Ground t foldCalls f) (hargs : ∀ a ∈ args, Ground t foldCalls a) :
      Ground t foldCalls (.call n f args)

theorem Node.Ground.code {t : OperatorTable} {foldCalls : Bool} {n : Node}
    (h : n.Ground foldCalls) : (n.code t).Ground t foldCalls := by
  induction h with
  | literal mark v type => exact .constant v
  | member _ ih => exact .readMember ih
  | unary _ ih => exact .applyUnary (.inl ⟨_, rfl⟩) ih
  | @binary _ op _ _ _ _ _ ihl ihr =>
    cases op with
    | andAlso => exact .both ihl ihr
    | orElse => exact .either ihl ihr
    | _ => exact .applyBinary (.inl ⟨_, rfl⟩) ihl ihr
  | conditional _ _ _ ihc ihx ihy => exact .choose ihc ihx ihy
  | @call _ _ f args _ allowed _ _ ihf ihargs =>
    rw [Node.code, codes_nodes]
    refine .call allowed ihf fun a ha => ?_
    obtain ⟨m, hm, rfl⟩ := List.mem_map.1 ha
    exact ihargs m hm

/-- Two runs differ by folding, which was done before the session `last`.  Parameters are reported
as they are. -/
structure Correspondence.Folds (K : Correspondence) (host : Host) (t : OperatorTable)
    (foldCalls : Bool) (last : Session) : Prop where
  site : ∀ n m, K.site n m ↔ n.asParameter? = m.asParameter?
  settled : ∀ c w, K.settled c w ↔ c.Ground t foldCalls ∧
    ∃ depth u v, (c.run host []).within host depth u = (.done w, v) ∧ K.later v last
  cut : K.cut

/-- What a pass did before the session `last` repeats: on like values it gives the same again, and
leaves a like session. -/
structure Host.Repeats {K : Correspondence} (host : Host) (L : Likeness K) (t : OperatorTable)
    (foldCalls : Bool) (last : Session) : Prop where
  call : ∀ {f args w depth u v}, t.Calls foldCalls f →
    Machine.callWithin host depth f args u = (.done w, v) → K.later v last →
    ∀ {depth' s s' f' args'}, L.session s s' → L.value s s' f' f →
      List.Forall₂ (L.value s s') args' args →
      L.Ends s s' L.value (Machine.callWithin host depth' f' args' s) (.done w, s')
  truth : ∀ {a b depth u v}, (host.truth a).within host depth u = (.done b, v) → K.later v last →
    ∀ {depth' s s' a'}, L.session s s' → L.value s s' a' a →
      L.Ends s s' (fun _ _ b' b => b' = b) ((host.truth a').within host depth' s) (.done b, s')
  member : ∀ {a name w depth u v}, K.known name →
    (host.member a name).within host depth u = (.done w, v) → K.later v last →
    ∀ {depth' s s' a'}, L.session s s' → L.value s s' a' a →
      L.Ends s s' L.value ((host.member a' name).within host depth' s) (.done w, s')

/-! ### Leaving later sessions -/

section

variable {later : Session → Session → Prop} (hl : Session.Order later) {host : Host}
  {t : OperatorTable} {foldCalls : Bool} {depth : Nat}

include hl

theorem runAll_advances {codes : List Code} {c : Caller} {env : Environment}
    (h : ∀ code ∈ codes, (code.run host env).Advances later c) :
    (runAll host codes env).Advances later c := by
  induction codes with
  | nil => exact pure_advances hl []
  | cons code codes ih =>
    refine .bind hl (h code List.mem_cons_self) fun v => ?_
    refine .bind hl (ih fun code hcode => h code (List.mem_cons_of_mem _ hcode)) fun vs => ?_
    exact pure_advances hl (v :: vs)

variable (hA : host.Advances (t.Calls foldCalls) later)

include hA

/-- The truth of an operand, which is run for it. -/
theorem truthOf_advances (site : Node) {x : Action Value}
    (hx : x.Advances later (Machine.callWithin host depth)) :
    (x >>= fun v => testingAt host site v >>= fun b => pure (Value.bool b)).Advances later
      (Machine.callWithin host depth) := by
  refine .bind hl hx fun v => .bind hl (testingAt_advances hl hA depth site v) fun b => ?_
  exact pure_advances hl (Value.bool b)

/-- To run what is folded leaves a later session. -/
theorem Code.Ground.advances {c : Code} (h : c.Ground t foldCalls) (env : Environment) :
    (c.run host env).Advances later (Machine.callWithin host depth) := by
  induction h with
  | constant v => exact pure_advances hl v
  | readMember _ ih => exact .bind hl ih fun _ => readingAt_advances hl hA depth _ _ _
  | applyUnary hf _ ih => exact .bind hl ih fun _ => callingAt_advances hl hA depth _ hf _
  | applyBinary hf _ _ ihl ihr =>
    refine .bind hl ihl fun _ => .bind hl ihr fun _ => ?_
    exact callingAt_advances hl hA depth _ hf _
  | both _ _ ihl ihr =>
    refine .bind hl ihl fun v => .bind hl (testingAt_advances hl hA depth _ v) fun b => ?_
    exact ite_advances (truthOf_advances hl hA _ ihr) (pure_advances hl _) b
  | either _ _ ihl ihr =>
    refine .bind hl ihl fun v => .bind hl (testingAt_advances hl hA depth _ v) fun b => ?_
    exact ite_advances (pure_advances hl _) (truthOf_advances hl hA _ ihr) b
  | choose _ _ _ ihc ihx ihy =>
    refine .bind hl ihc fun v => .bind hl (testingAt_advances hl hA depth _ v) fun b => ?_
    exact ite_advances ihx ihy b
  | call allowed _ _ ihf ihargs =>
    refine .bind hl ihf fun _ => .bind hl (runAll_advances hl ihargs) fun _ => ?_
    exact callingAt_advances hl hA depth _ (.inr allowed) _

omit hA in
/-- To fold what is built from literals leaves a later session. -/
theorem fold_leaves_later {M : Machine} {overrides : List (Value × Value)} {n : Node}
    (hA : M.host.Advances ((OperatorTable.standard.overridden overrides).Calls foldCalls) later)
    (h : n.Ground foldCalls) (hv : OperatorTable.Valid overrides) :
    (M.fold overrides (.node n)).Advances later M.caller := by
  intro s
  obtain ⟨mark, u, hu, hrun⟩ := Machine.fold_run (M := M) h.owned hv M.caller s
  rw [hrun]
  refine hl.trans (hl.noted hu) ?_
  refine Action.Advances.bind hl (fun v => ?_) (fun w v => ?_) u
  · rw [Action.run_call, Machine.caller]
    cases M.depth with
    | zero => exact hl.noted .refl
    | succ depth =>
      rw [callWithin_closure rfl]
      exact h.code.advances hl hA _ v
  · obtain ⟨type, hliteral⟩ := n.asLiteral_run w M.caller v
    rw [hliteral]
    exact hl.noted (.mark .refl 1)

end

/-! ### Running again -/

section

variable {K : Correspondence} {L : Likeness K} {host : Host} {t : OperatorTable}
  {foldCalls : Bool} {last : Session} {α β γ δ : Type} {s s' : Session}
  {P : Session → Session → α → β → Prop} {R : Session → Session → γ → δ → Prop}

/-- An action, begun in the session `s`, ends like the result that another one had before the
session `last`, and leaves a session that is like `s'`. -/
def Likeness.Again (L : Likeness K) (host : Host) (last s s' : Session)
    (P : Session → Session → α → β → Prop) (x : Action α) (x₀ : Action β) : Prop :=
  ∀ b depth u v, x₀.within host depth u = (.done b, v) → K.later v last →
    ∀ depth', L.Ends s s' P (x.within host depth' s) (.done b, s')

namespace Likeness.Again

theorem pure (hs : L.session s s') {a : α} {b : β} (hP : P s s' a b) :
    L.Again host last s s' P (Pure.pure a) (Pure.pure b) := by
  intro b' depth u v hrun _ depth'
  cases hrun
  exact .done (K.later_refl s) (K.later_refl s') hs hP

theorem bind {x : Action α} {x₀ : Action β} {k : α → Action γ} {k₀ : β → Action δ}
    (hx : L.Again host last s s' P x x₀)
    (hlater : ∀ b depth, (k₀ b).Advances K.later (Machine.callWithin host depth))
    (hk : ∀ {r a b}, K.later s r → L.session r s' → P r s' a b →
      L.Again host last r s' R (k a) (k₀ b)) :
    L.Again host last s s' R (x >>= k) (x₀ >>= k₀) := by
  intro d depth u v hrun hlast depth'
  obtain ⟨b, u₁, hb, hrest⟩ := Action.exists_of_run_bind_done hrun
  have hu₁ : K.later u₁ last := K.order.trans ((hlater b depth).later_of_run hrest) hlast
  have hends := hx b depth u u₁ hb hu₁ depth'
  generalize hox : x.within host depth' s = ox at hends
  cases hends with
  | done h h' ht hP =>
    rw [Action.within, Action.run_bind_done hox]
    exact (hk h ht hP d depth u₁ v hrest hlast depth').earlier h h'
  | cut h =>
    rw [Action.within, Action.run_bind_exhausted hox]
    exact .cut h

theorem ite {x y : Action α} {x₀ y₀ : Action β} (hx : L.Again host last s s' P x x₀)
    (hy : L.Again host last s s' P y y₀) (b : Bool) :
    L.Again host last s s' P (if b then x else y) (if b then x₀ else y₀) := by
  cases b with
  | false => exact hy
  | true => exact hx

/-- What has happened at a node was not reported. -/
theorem reporting {n n' : Node} {activity activity' : Action Activity}
    {passes passes' : Fault → Bool} {x : Action α} {x₀ : Action β}
    (hx : L.Again host last s s' P x x₀) :
    L.Again host last s s' P (reporting host n activity passes x)
      (PredicateTree.reporting host n' activity' passes' x₀) := by
  intro b depth u v hrun hlast depth'
  have hends := hx b depth u v (run_of_reporting_done hrun) hlast depth'
  generalize hox : x.within host depth' s = ox at hends
  cases hends with
  | done h h' ht hP =>
    rw [Action.within, PredicateTree.reporting, Action.run_handle_done hox]
    exact .done h h' ht hP
  | cut h =>
    rw [Action.within, PredicateTree.reporting, Action.run_handle_exhausted hox]
    exact .cut h

end Likeness.Again

section repeats

variable (hR : host.Repeats L t foldCalls last) {n n' : Node}

include hR

theorem calling_again (hs : L.session s s') {f f' : Value} (hf : t.Calls foldCalls f)
    (hval : L.value s s' f' f) {args args' : List Value}
    (hargs : List.Forall₂ (L.value s s') args' args) :
    L.Again host last s s' L.value (applyingAt host n (Action.call f' args'))
      (applyingAt host n' (Action.call f args)) :=
  .reporting fun _ _ _ _ hrun hlast _ => hR.call hf hrun hlast hs hval hargs

theorem testing_again (hs : L.session s s') {v v' : Value} (hval : L.value s s' v' v) :
    L.Again host last s s' (fun _ _ b' b => b' = b) (testingAt host n v') (testingAt host n' v) :=
  .reporting fun _ _ _ _ hrun hlast _ => hR.truth hrun hlast hs hval

theorem reading_again (hs : L.session s s') {name v v' : Value} (hname : K.known name)
    (hval : L.value s s' v' v) :
    L.Again host last s s' L.value (readingAt host n name v') (readingAt host n' name v) :=
  .reporting fun _ _ _ _ hrun hlast _ => hR.member hname hrun hlast hs hval

/-- The truth of an operand, which is run for it. -/
theorem truthOf_again (hA : host.Advances (t.Calls foldCalls) K.later) {x x₀ : Action Value}
    (hx : L.Again host last s s' L.value x x₀) :
    L.Again host last s s' L.value
      (x >>= fun v => testingAt host n v >>= fun b => pure (.bool b))
      (x₀ >>= fun v => testingAt host n' v >>= fun b => pure (.bool b)) := by
  have hl := K.order
  refine hx.bind (fun v depth => .bind hl (testingAt_advances hl hA depth n' v)
    fun b => pure_advances hl (Value.bool b)) fun _ ht hval => ?_
  refine (testing_again hR ht hval).bind (fun b _ => pure_advances hl (Value.bool b))
    fun {_ b' b} _ hu hb => ?_
  subst hb
  exact .pure hu (L.value_bool b' hu)

end repeats

theorem runAll_again (hA : host.Advances (t.Calls foldCalls) K.later) {codes codes₀ : List Code}
    (hlen : codes.length = codes₀.length) (hg : ∀ c ∈ codes₀, c.Ground t foldCalls)
    {env : Environment} (heach : ∀ e ∈ codes.zip codes₀, ∀ {s}, L.session s s' →
      L.Again host last s s' L.value (e.1.run host env) (e.2.run host []))
    (hs : L.session s s') :
    L.Again host last s s' (fun t t' => List.Forall₂ (L.value t t')) (runAll host codes env)
      (runAll host codes₀ []) := by
  have hl := K.order
  induction codes generalizing codes₀ s with
  | nil =>
    cases codes₀ with
    | nil => exact .pure hs .nil
    | cons => cases hlen
  | cons code codes ih =>
    cases codes₀ with
    | nil => cases hlen
    | cons code₀ codes₀ =>
      have hrest : ∀ depth, (runAll host codes₀ []).Advances K.later
          (Machine.callWithin host depth) := fun depth =>
        runAll_advances hl fun c hc => (hg c (List.mem_cons_of_mem _ hc)).advances hl hA []
      refine (heach (code, code₀) List.mem_cons_self hs).bind (fun v depth =>
        .bind hl (hrest depth) fun vs => pure_advances hl (v :: vs)) fun _ ht hval => ?_
      refine (ih (Nat.succ.inj hlen) (fun c hc => hg c (List.mem_cons_of_mem _ hc))
        (fun e he => heach e (List.mem_cons_of_mem _ he)) ht).bind
        (fun vs _ => pure_advances hl _) fun hu hsu hvals => ?_
      exact .pure hsu (.cons (L.value_later hval hu (K.later_refl s') hsu) hvals)

/-- Code that matches what was folded ends like the value that was found. -/
theorem Code.Matches.again (hK : K.Folds host t foldCalls last)
    (hA : host.Advances (t.Calls foldCalls) K.later) (hR : host.Repeats L t foldCalls last)
    {ρ : Parameter → Parameter} {S : Parameter → Prop} {c c₀ : Code} (h : c.Matches K ρ S c₀)
    (hg : c₀.Ground t foldCalls) (env : Environment) (hs : L.session s s') :
    L.Again host last s s' L.value (c.run host env) (c₀.run host []) := by
  have hl := K.order
  induction h generalizing s with
  | constant hv => exact .pure hs (L.value_known hs hv)
  | settled _ hw ih =>
    intro w depth u v hrun _ depth'
    cases hrun
    obtain ⟨hg, _, _, _, hrun, hlast⟩ := (hK.settled _ _).1 hw
    exact ih hg hs _ _ _ _ hrun hlast depth'
  | readMember _ hname _ ih =>
    cases hg with
    | readMember hg =>
      refine (ih hg hs).bind (fun v depth => readingAt_advances hl hA depth _ _ v)
        fun _ ht hval => ?_
      exact reading_again hR ht hname hval
  | applyUnary _ hknown _ ih =>
    cases hg with
    | applyUnary hf hg =>
      refine (ih hg hs).bind (fun v depth => callingAt_advances hl hA depth _ hf [v])
        fun _ ht hval => ?_
      exact calling_again hR ht hf (L.value_known ht hknown) (.cons hval .nil)
  | applyBinary _ hknown _ _ ihl ihr =>
    cases hg with
    | applyBinary hf hgl hgr =>
      refine (ihl hgl hs).bind (fun v depth => .bind hl (hgr.advances hl hA []) fun w =>
        callingAt_advances hl hA depth _ hf [v, w]) fun _ ht hval => ?_
      refine (ihr hgr ht).bind (fun w depth => callingAt_advances hl hA depth _ hf _)
        fun hu hsu hval' => ?_
      have hargs := L.value_later hval hu (K.later_refl s') hsu
      exact calling_again hR hsu hf (L.value_known hsu hknown) (.cons hargs (.cons hval' .nil))
  | both _ _ _ ihl ihr =>
    cases hg with
    | both hgl hgr =>
      refine (ihl hgl hs).bind (fun v depth => .bind hl (testingAt_advances hl hA depth _ v)
        fun b => ite_advances (truthOf_advances hl hA _ (hgr.advances hl hA []))
          (pure_advances hl _) b) fun _ ht hval => ?_
      refine (testing_again hR ht hval).bind (fun b depth =>
        ite_advances (truthOf_advances hl hA _ (hgr.advances hl hA [])) (pure_advances hl _) b)
        fun {_ b' b} _ hu hb => ?_
      subst hb
      exact .ite (truthOf_again hR hA (ihr hgr hu)) (.pure hu (L.value_bool false hu)) b'
  | either _ _ _ ihl ihr =>
    cases hg with
    | either hgl hgr =>
      refine (ihl hgl hs).bind (fun v depth => .bind hl (testingAt_advances hl hA depth _ v)
        fun b => ite_advances (pure_advances hl _)
          (truthOf_advances hl hA _ (hgr.advances hl hA [])) b) fun _ ht hval => ?_
      refine (testing_again hR ht hval).bind (fun b depth =>
        ite_advances (pure_advances hl _) (truthOf_advances hl hA _ (hgr.advances hl hA [])) b)
        fun {_ b' b} _ hu hb => ?_
      subst hb
      exact .ite (.pure hu (L.value_bool true hu)) (truthOf_again hR hA (ihr hgr hu)) b'
  | choose _ _ _ _ ihc ihx ihy =>
    cases hg with
    | choose hgc hgx hgy =>
      refine (ihc hgc hs).bind (fun v depth => .bind hl (testingAt_advances hl hA depth _ v)
        fun b => ite_advances (hgx.advances hl hA []) (hgy.advances hl hA []) b)
        fun _ ht hval => ?_
      refine (testing_again hR ht hval).bind (fun b depth =>
        ite_advances (hgx.advances hl hA []) (hgy.advances hl hA []) b) fun {_ b' b} _ hu hb => ?_
      subst hb
      exact .ite (ihx hgx hu) (ihy hgy hu) b'
  | call _ _ hlen _ ihf ihargs =>
    cases hg with
    | call allowed hgf hgargs =>
      refine (ihf hgf hs).bind (fun f depth => .bind hl (runAll_advances hl fun c hc =>
        (hgargs c hc).advances hl hA []) fun args => callingAt_advances hl hA depth _
          (.inr allowed) args) fun _ ht hval => ?_
      refine (runAll_again hA hlen hgargs (fun e he _ hu =>
        ihargs e he (hgargs e.2 (List.of_mem_zip he).2) hu) ht).bind
        (fun args depth => callingAt_advances hl hA depth _ (.inr allowed) args)
        fun hu hsu hvals => ?_
      exact calling_again hR hsu (.inr allowed) (L.value_later hval hu (K.later_refl s') hsu) hvals
  | reference => cases hg
  | readStatic => cases hg
  | abstraction => cases hg

/-- What a pass put in the place of code is what the code ends like. -/
theorem Correspondence.Folds.settles (hK : K.Folds host t foldCalls last)
    (hA : host.Advances (t.Calls foldCalls) K.later) (hR : host.Repeats L t foldCalls last)
    (depth : Nat) : L.Settles host (Machine.callWithin host depth) := by
  intro ρ S w code code₀ hmatches hw s s' env hs
  obtain ⟨hg, _, _, _, hrun, hlast⟩ := (hK.settled _ _).1 hw
  exact hmatches.again hK hA hR hg env hs _ _ _ _ hrun hlast depth

end

end PredicateTree
