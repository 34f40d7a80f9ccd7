import PredicateTree.Proofs.Likeness.Run

/-!
# What is reported

Where a host respects a likeness, the texts of its reports can be made in all sessions that are like
others.  So whatever fails in such a session is reported: of two runs that end alike the second one
fails with faults of evaluation only (`Code.Matches.run_contained`).
-/

namespace PredicateTree

variable {K : Correspondence} {α β γ δ : Type}

/-- What a run fails with, if it fails, is a fault of evaluation. -/
def Contained (o : Outcome α × Session) : Prop :=
  ∀ f t, o = (.raised f, t) → f.isEvaluation = true

section

variable {L : Likeness K} {host : Host} {c c' : Caller} {s s' : Session} {n n' : Node}
  {P : Session → Session → α → β → Prop}

theorem Contained.pure {a : α} : Contained ((Pure.pure a : Action α).run c s) :=
  fun _ _ h => nomatch h

theorem Contained.raise {f : Fault} (h : f.isEvaluation = true) :
    Contained ((Action.raise f : Action α).run c s) := by
  intro g t hg
  cases hg
  exact h

/-- What goes on after an end that is like another one is contained if both parts are. -/
theorem Contained.bind (hcut : ¬ K.cut) {x : Action α} {y : Action β} {l : β → Action δ}
    (hx : L.Ends s s' P (x.run c s) (y.run c' s')) (hy : Contained (y.run c' s'))
    (hl : ∀ {t t' a b}, K.later s t → K.later s' t' → L.session t t' → P t t' a b →
      Contained ((l b).run c' t')) : Contained ((y >>= l).run c' s') := by
  generalize hox : x.run c s = o at hx
  generalize hoy : y.run c' s' = o' at hx
  cases hx with
  | done ht ht' hs hP =>
    rw [Action.run_bind_done hoy]
    exact hl ht ht' hs hP
  | raised =>
    rw [Action.run_bind_raised hoy]
    intro f t h
    cases h
    exact hy _ _ hoy
  | exhausted =>
    rw [Action.run_bind_exhausted hoy]
    exact fun _ _ h => nomatch h
  | cut h => exact absurd h hcut

section

variable (hH : host.Respects L) (hC : L.Callers c c') (hcut : ¬ K.cut)

include hH hC hcut

/-- Whatever fails at a node is reported. -/
theorem reporting_contained (hsite : K.site n n') {activity : Action Activity}
    {passes : Fault → Bool} (hpasses : ∀ f, passes f = true → f.isEvaluation = true)
    (hactivity : ∀ {t t'}, L.session t t' →
      ∃ a u u', activity.run c' t' = (.done a, u') ∧ L.session u u')
    {x : Action α} {y : Action β} (hx : L.Ends s s' P (x.run c s) (y.run c' s')) :
    Contained ((reporting host n' activity passes y).run c' s') := by
  generalize hox : x.run c s = o at hx
  generalize hoy : y.run c' s' = o' at hx
  cases hx with
  | done =>
    rw [reporting, Action.run_handle_done hoy]
    exact fun _ _ h => nomatch h
  | @raised _ _ _ g _ _ ht =>
    rw [reporting, Action.run_handle_raised hoy]
    cases hg : passes g with
    | true => exact .raise (hpasses g hg)
    | false =>
      obtain ⟨a, u, u', ha, hu⟩ := hactivity ht
      obtain ⟨_, _, _, _, -, hdescribe, -⟩ := hH.describe hC hu hsite
      rw [if_neg Bool.false_ne_true, Action.run_bind_done ha, Action.run_bind_done hdescribe]
      exact .raise rfl
  | exhausted =>
    rw [reporting, Action.run_handle_exhausted hoy]
    exact fun _ _ h => nomatch h
  | cut h => exact absurd h hcut

theorem applyingAt_contained (hsite : K.site n n') {x : Action α} {y : Action β}
    (hx : L.Ends s s' P (x.run c s) (y.run c' s')) :
    Contained ((applyingAt host n' y).run c' s') :=
  reporting_contained hH hC hcut hsite (fun _ h => h) (fun ht => ⟨_, _, _, rfl, ht⟩) hx

theorem calledAt_contained (hsite : K.site n n') (hs : L.session s s') {f f' : Value}
    {args args' : List Value} (hf : L.value s s' f f')
    (hargs : List.Forall₂ (L.value s s') args args') :
    Contained ((applyingAt host n' (Action.call f' args')).run c' s') := by
  have hcall : L.Ends s s' L.value ((Action.call f args).run c s)
    ((Action.call f' args').run c' s') := hC hs hf hargs
  exact applyingAt_contained hH hC hcut hsite hcall

theorem testingAt_contained (hsite : K.site n n') (hs : L.session s s') {v v' : Value}
    (hv : L.value s s' v v') : Contained ((testingAt host n' v').run c' s') :=
  applyingAt_contained hH hC hcut hsite (hH.truth hC hs hv)

theorem readingAt_contained (hsite : K.site n n') (hs : L.session s s') {v v' name : Value}
    (hv : L.value s s' v v') (hname : K.known name) :
    Contained ((readingAt host n' name v').run c' s') := by
  unfold readingAt
  refine reporting_contained hH hC hcut hsite (fun _ h => absurd h Bool.false_ne_true)
    (fun ht => ?_) (hH.member hC hs hv hname)
  obtain ⟨_, _, _, _, -, hspell, -, -, hu⟩ := hH.spell hC ht hname
  exact ⟨_, _, _, Action.run_bind_done hspell, hu⟩

/-- What a test decides between is contained if the test and each of the two is. -/
theorem deciding_contained (hsite : K.site n n') {x y : Action Value} {l : Bool → Action Value}
    (hx : L.Ends s s' L.value (x.run c s) (y.run c' s')) (hy : Contained (y.run c' s'))
    (hl : ∀ b {t t'}, K.later s t → K.later s' t' → L.session t t' →
      Contained ((l b).run c' t')) :
    Contained ((y >>= fun v => testingAt host n' v >>= l).run c' s') := by
  refine .bind hcut hx hy fun ht ht' hst hv => ?_
  refine .bind hcut (testingAt_alike hH.conforms hC hsite hst hv)
    (testingAt_contained hH hC hcut hsite hst hv) fun hu hu' hsu _ => ?_
  exact hl _ (K.order.trans ht hu) (K.order.trans ht' hu') hsu

omit hcut in
theorem unboundAt_contained (hs : L.session s s') {p p' : Parameter}
    (hsite : K.site (.parameter p) (.parameter p')) :
    Contained ((unboundAt host p').run c' s') := by
  have hstore : Action.store.run c' s' = (.done s'.store, s') := rfl
  obtain ⟨_, _, _, _, -, hspell, -⟩ := hH.spellParameter hC hs hsite
  rw [unboundAt, Action.run_bind_done hstore, Action.run_bind_done hspell]
  exact .raise rfl

omit hH hC in
theorem runAll_contained {codes codes' : List Code} {ρ : Parameter → Parameter}
    {S : Parameter → Prop} {env env' : Environment} (hlen : codes.length = codes'.length)
    (hends : ∀ e ∈ codes.zip codes', ∀ {t t'}, L.session t t' →
      Environment.Alike (L.value t t') ρ S env env' →
      L.Ends t t' L.value ((e.1.run host env).run c t) ((e.2.run host env').run c' t'))
    (heach : ∀ e ∈ codes.zip codes', ∀ {t t'}, L.session t t' →
      Environment.Alike (L.value t t') ρ S env env' → Contained ((e.2.run host env').run c' t'))
    (hs : L.session s s') (henv : Environment.Alike (L.value s s') ρ S env env') :
    Contained ((runAll host codes' env').run c' s') := by
  induction codes generalizing codes' s s' with
  | nil =>
    cases codes' with
    | nil => exact .pure
    | cons => cases hlen
  | cons code codes ih =>
    cases codes' with
    | nil => cases hlen
    | cons code' codes' =>
      have hfirst : (code, code') ∈ (code :: codes).zip (code' :: codes') := List.mem_cons_self
      have hrest : ∀ e ∈ codes.zip codes', e ∈ (code :: codes).zip (code' :: codes') :=
        fun e he => List.mem_cons_of_mem _ he
      refine .bind hcut (hends _ hfirst hs henv) (heach _ hfirst hs henv) fun ht ht' hst _ => ?_
      refine .bind hcut (runAll_alike (Nat.succ.inj hlen) (fun e he => hends e (hrest e he)) hst
        (henv.later ht ht' hst)) ?_ fun _ _ _ _ => .pure
      exact ih (Nat.succ.inj hlen) (fun e he => hends e (hrest e he))
        (fun e he => heach e (hrest e he)) hst (henv.later ht ht' hst)

/-- Code that other code matches, if no code was replaced by a value, fails with faults of evaluation
only. -/
theorem Code.Matches.run_contained (hsettled : ∀ code w, ¬ K.settled code w)
    {ρ : Parameter → Parameter} {S : Parameter → Prop} {code code' : Code}
    (h : code.Matches K ρ S code') {env env' : Environment} (hs : L.session s s')
    (henv : Environment.Alike (L.value s s') ρ S env env') :
    Contained ((code'.run host env').run c' s') := by
  have hS : L.Settles host c := fun _ hw => absurd hw (hsettled _ _)
  have hends {S : Parameter → Prop} {code code' : Code} (h : code.Matches K ρ S code')
      {s s' : Session} (hs : L.session s s')
      (henv : Environment.Alike (L.value s s') ρ S env env') :
      L.Ends s s' L.value ((code.run host env).run c s) ((code'.run host env').run c' s') :=
    h.run_conforming hH.conforms hC hS hs henv
  induction h generalizing s s' with
  | constant => exact .pure
  | settled _ hw => exact absurd hw (hsettled _ _)
  | @reference S p hp hsite =>
    have hrel := henv p hp
    rw [Code.run]
    generalize env.get? p = v? at hrel
    generalize env'.get? (ρ p) = w? at hrel
    cases hrel with
    | some => exact .pure
    | none => exact unboundAt_contained hH hC hs hsite
  | readMember hsite hname h ih =>
    refine .bind hcut (hends h hs henv) (ih hs henv) fun _ _ ht hv => ?_
    exact readingAt_contained hH hC hcut hsite ht hv hname
  | readStatic hsite howner hname =>
    exact readingAt_contained hH hC hcut hsite hs (L.value_known hs howner) hname
  | applyUnary hsite hf h ih =>
    refine .bind hcut (hends h hs henv) (ih hs henv) fun _ _ ht hv => ?_
    exact calledAt_contained hH hC hcut hsite ht (L.value_known ht hf) (.cons hv .nil)
  | applyBinary hsite hf hl hr ihl ihr =>
    refine .bind hcut (hends hl hs henv) (ihl hs henv) fun ht ht' hst hv => ?_
    have henv' := henv.later ht ht' hst
    refine .bind hcut (hends hr hst henv') (ihr hst henv') fun hu hu' hsu hw => ?_
    have hv' := L.value_later hv hu hu' hsu
    exact calledAt_contained hH hC hcut hsite hsu (L.value_known hsu hf)
      (.cons hv' (.cons hw .nil))
  | both hsite hl hr ihl ihr =>
    refine deciding_contained hH hC hcut hsite (hends hl hs henv) (ihl hs henv)
      fun b _ _ ht ht' hst => ?_
    cases b with
    | false => exact .pure
    | true =>
      have henv' := henv.later ht ht' hst
      exact deciding_contained hH hC hcut hsite (hends hr hst henv') (ihr hst henv')
        fun _ _ _ _ _ _ => .pure
  | either hsite hl hr ihl ihr =>
    refine deciding_contained hH hC hcut hsite (hends hl hs henv) (ihl hs henv)
      fun b _ _ ht ht' hst => ?_
    cases b with
    | true => exact .pure
    | false =>
      have henv' := henv.later ht ht' hst
      exact deciding_contained hH hC hcut hsite (hends hr hst henv') (ihr hst henv')
        fun _ _ _ _ _ _ => .pure
  | choose hsite hc hx hy ihc ihx ihy =>
    refine deciding_contained hH hC hcut hsite (hends hc hs henv) (ihc hs henv)
      fun b _ _ ht ht' hst => ?_
    cases b with
    | true => exact ihx hst (henv.later ht ht' hst)
    | false => exact ihy hst (henv.later ht ht' hst)
  | call hsite hf hlen hargs ihf ihargs =>
    refine .bind hcut (hends hf hs henv) (ihf hs henv) fun ht ht' hst hfv => ?_
    have henv' := henv.later ht ht' hst
    have heach := fun e he {t t'} (ht : L.session t t') henv => hends (hargs e he) ht henv
    refine .bind hcut (runAll_alike hlen heach hst henv')
      (runAll_contained hcut hlen heach (fun e he _ _ ht henv => ihargs e he ht henv) hst henv')
      fun hu hu' hsu hvs => ?_
    exact calledAt_contained hH hC hcut hsite hsu (L.value_later hfv hu hu' hsu) hvs
  | abstraction => exact fun _ _ h => nomatch h

end

end

end PredicateTree
