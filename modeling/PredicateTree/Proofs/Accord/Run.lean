import PredicateTree.Proofs.Accord.Basic

/-!
# Code that agrees runs the same

`Accord.Ends` says that two runs end the same: with related values, or with faults of one class, with
causes of one class, at nodes that stand for one another.  If the operations of a host keep to an
accord (`Host.Accords`), then code that agrees ends the same in environments that agree
(`Code.Agrees.run_ends`), and so do related functions that are called with related arguments, however
deep calls may nest (`Host.Accords.callers`).  Whatever code fails with is a fault of evaluation, since
the texts of reports can be made.
-/

namespace PredicateTree

variable {A : Atoms} {α β γ δ : Type}

namespace Accord

variable (L : Accord A)

/-- Two runs, begun in the sessions `s` and `s'`, end the same: with results in the relation `P`, or
with faults that are alike, of the kind `E`, in related sessions; or out of fuel. -/
inductive Ends (E : Fault → Prop) (s s' : Session) (P : Session → Session → α → β → Prop) :
    Outcome α × Session → Outcome β × Session → Prop where
  | done {t t' : Session} {a : α} {b : β} (hs : L.later s t) (hs' : L.later s' t')
      (ht : L.session t t') (h : P t t' a b) : Ends E s s' P (.done a, t) (.done b, t')
  | raised {t t' : Session} {f g : Fault} (hs : L.later s t) (hs' : L.later s' t')
      (ht : L.session t t') (h : f.Alike A.site g) (hf : E f) :
      Ends E s s' P (.raised f, t) (.raised g, t')
  | exhausted {t t' : Session} : Ends E s s' P (.exhausted, t) (.exhausted, t')

/-- Two runs, begun in the sessions `s` and `s'`, both end with results, in related sessions. -/
def Succeed (s s' : Session) (o : Outcome α × Session) (o' : Outcome β × Session) : Prop :=
  ∃ a b t t', o = (.done a, t) ∧ o' = (.done b, t') ∧ L.later s t ∧ L.later s' t' ∧ L.session t t'

/-- Callers that call related functions with related arguments to the same end. -/
def Callers (c c' : Caller) : Prop :=
  ∀ {s s' f f' args args'}, L.session s s' → L.value s s' f f' →
    List.Forall₂ (L.value s s') args args' →
    L.Ends (fun _ => True) s s' L.value (c f args s) (c' f' args' s')

variable {L} {E : Fault → Prop} {s s' t t' : Session} {P : Session → Session → α → β → Prop}
  {R : Session → Session → γ → δ → Prop} {c c' : Caller}

namespace Ends

theorem pure (h : L.session s s') {a : α} {b : β} (hP : P s s' a b) :
    L.Ends E s s' P ((Pure.pure a : Action α).run c s) ((Pure.pure b : Action β).run c' s') :=
  .done (L.later_refl s) (L.later_refl s') h hP

theorem raise (h : L.session s s') {f g : Fault} (hfg : f.Alike A.site g) (hf : E f) :
    L.Ends E s s' P ((Action.raise f : Action α).run c s) ((Action.raise g : Action β).run c' s') :=
  .raised (L.later_refl s) (L.later_refl s') h hfg hf

theorem earlier {o : Outcome α × Session} {o' : Outcome β × Session} (hs : L.later s t)
    (hs' : L.later s' t') (h : L.Ends E t t' P o o') : L.Ends E s s' P o o' := by
  cases h with
  | done h h' ht hP => exact .done (L.order.trans hs h) (L.order.trans hs' h') ht hP
  | raised h h' ht hfg hf => exact .raised (L.order.trans hs h) (L.order.trans hs' h') ht hfg hf
  | exhausted => exact .exhausted

theorem mono {E' : Fault → Prop} {o : Outcome α × Session} {o' : Outcome β × Session}
    (h : L.Ends E s s' P o o') (imp : ∀ f, E f → E' f) : L.Ends E' s s' P o o' := by
  cases h with
  | done h h' ht hP => exact .done h h' ht hP
  | raised h h' ht hfg hf => exact .raised h h' ht hfg (imp _ hf)
  | exhausted => exact .exhausted

/-- What goes on the same after ends that are the same ends the same. -/
theorem bind {x : Action α} {y : Action β} {k : α → Action γ} {l : β → Action δ}
    (hx : L.Ends E s s' P (x.run c s) (y.run c' s'))
    (hk : ∀ {t t' a b}, L.later s t → L.later s' t' → L.session t t' → P t t' a b →
      L.Ends E t t' R ((k a).run c t) ((l b).run c' t')) :
    L.Ends E s s' R ((x >>= k).run c s) ((y >>= l).run c' s') := by
  generalize hox : x.run c s = o at hx
  generalize hoy : y.run c' s' = o' at hx
  cases hx with
  | done h h' ht hP =>
    rw [Action.run_bind_done hox, Action.run_bind_done hoy]
    exact (hk h h' ht hP).earlier h h'
  | raised h h' ht hfg hf =>
    rw [Action.run_bind_raised hox, Action.run_bind_raised hoy]
    exact .raised h h' ht hfg hf
  | exhausted =>
    rw [Action.run_bind_exhausted hox, Action.run_bind_exhausted hoy]
    exact .exhausted

theorem handle {E' : Fault → Prop} {x : Action α} {y : Action β} {h : Fault → Action α}
    {h' : Fault → Action β} (hx : L.Ends E s s' P (x.run c s) (y.run c' s'))
    (hh : ∀ {t t' f g}, L.session t t' → f.Alike A.site g → E f →
      L.Ends E' t t' P ((h f).run c t) ((h' g).run c' t')) :
    L.Ends E' s s' P ((x.handle h).run c s) ((y.handle h').run c' s') := by
  generalize hox : x.run c s = o at hx
  generalize hoy : y.run c' s' = o' at hx
  cases hx with
  | done h h' ht hP =>
    rw [Action.run_handle_done hox, Action.run_handle_done hoy]
    exact .done h h' ht hP
  | raised h h' ht hfg hf =>
    rw [Action.run_handle_raised hox, Action.run_handle_raised hoy]
    exact (hh ht hfg hf).earlier h h'
  | exhausted =>
    rw [Action.run_handle_exhausted hox, Action.run_handle_exhausted hoy]
    exact .exhausted

end Ends

theorem Succeed.ends {o : Outcome α × Session} {o' : Outcome β × Session}
    (h : L.Succeed s s' o o') : L.Ends E s s' (fun _ _ _ _ => True) o o' := by
  obtain ⟨a, b, t, t', rfl, rfl, hs, hs', ht⟩ := h
  exact .done hs hs' ht trivial

end Accord

/-! ### Hosts -/

/-- The operations of a host keep to an accord, and the texts of reports can be made. -/
structure Host.Accords (host : Host) (L : Accord A) : Prop where
  /-- Calls of whatever is no compiled function. -/
  apply : ∀ {c c' s s' f f' args args'}, L.Callers c c' → L.session s s' → L.value s s' f f' →
    List.Forall₂ (L.value s s') args args' → (∀ mark ps b env, f ≠ .closure mark ps b env) →
    L.Ends (fun _ => True) s s' L.value ((host.apply f args).run c s)
      ((host.apply f' args').run c' s')
  truth : ∀ {c c' s s' v v'}, L.Callers c c' → L.session s s' → L.value s s' v v' →
    L.Ends (fun _ => True) s s' (fun _ _ b b' => b = b') ((host.truth v).run c s)
      ((host.truth v').run c' s')
  member : ∀ {c c' s s' v v' a b}, L.Callers c c' → L.session s s' → L.value s s' v v' →
    A.name a b →
    L.Ends (fun _ => True) s s' L.value ((host.member v a).run c s) ((host.member v' b).run c' s')
  describe : ∀ {c c' s s' n n'}, L.Callers c c' → L.session s s' → A.site n n' →
    L.Succeed s s' ((host.describe n).run c s) ((host.describe n').run c' s')
  spell : ∀ {c c' s s' a b}, L.Callers c c' → L.session s s' → A.name a b →
    L.Succeed s s' ((host.spell a).run c s) ((host.spell b).run c' s')
  spellParameter : ∀ {c c' s s' p}, L.Callers c c' → L.session s s' →
    A.site (.parameter p) (.parameter p) →
    L.Succeed s s' ((host.spell (s.store.parameterName p)).run c s)
      ((host.spell (s'.store.parameterName p)).run c' s')

section

variable {L : Accord A} {host : Host} {c c' : Caller} {s s' : Session} {n n' : Node}
  {P : Session → Session → α → β → Prop}

section reports

variable (hH : host.Accords L) (hC : L.Callers c c') (site : A.site n n')

include hH hC site

theorem reporting_accords {activity activity' : Action Activity} {passes : Fault → Bool}
    (hactivity : ∀ {t t'}, L.session t t' → L.Ends (·.isEvaluation = true) t t'
      (fun _ _ _ _ => True) (activity.run c t) (activity'.run c' t'))
    (hpasses : ∀ f g, f.Alike A.site g → passes f = passes g)
    (heval : ∀ f, passes f = true → f.isEvaluation = true) {x : Action α} {y : Action β}
    (hx : L.Ends (fun _ => True) s s' P (x.run c s) (y.run c' s')) :
    L.Ends (·.isEvaluation = true) s s' P ((reporting host n activity passes x).run c s)
      ((reporting host n' activity' passes y).run c' s') := by
  refine hx.handle fun {t t' f g} ht hfg _ => ?_
  rw [← hpasses f g hfg]
  split
  · rename_i hf
    exact .raise ht hfg (heval f hf)
  · refine (hactivity ht).bind fun _ _ hu _ => ?_
    refine (hH.describe hC hu site).ends.bind fun _ _ hv _ => ?_
    refine .raise hv ⟨rfl, congrArg some hfg.errorClass, fun m hm => ?_⟩ rfl
    cases hm
    exact ⟨n', rfl, site⟩

theorem applyingAt_accords {x : Action α} {y : Action β}
    (hx : L.Ends (fun _ => True) s s' P (x.run c s) (y.run c' s')) :
    L.Ends (·.isEvaluation = true) s s' P ((applyingAt host n x).run c s)
      ((applyingAt host n' y).run c' s') :=
  reporting_accords hH hC site (fun ht => .pure ht trivial) (fun _ _ h => h.isEvaluation)
    (fun _ h => h) hx

theorem testingAt_accords (hs : L.session s s') {v v' : Value} (hv : L.value s s' v v') :
    L.Ends (·.isEvaluation = true) s s' (fun _ _ b b' => b = b') ((testingAt host n v).run c s)
      ((testingAt host n' v').run c' s') :=
  applyingAt_accords hH hC site (hH.truth hC hs hv)

theorem readingAt_accords (hs : L.session s s') {v v' a b : Value} (hv : L.value s s' v v')
    (hname : A.name a b) :
    L.Ends (·.isEvaluation = true) s s' L.value ((readingAt host n a v).run c s)
      ((readingAt host n' b v').run c' s') := by
  refine reporting_accords hH hC site (fun ht => ?_) (fun _ _ _ => rfl)
    (fun _ h => absurd h Bool.false_ne_true) (hH.member hC hs hv hname)
  exact (hH.spell hC ht hname).ends.bind fun _ _ hu _ => .pure hu trivial

omit site in
theorem unboundAt_accords (hs : L.session s s') {p : Parameter}
    (site : A.site (.parameter p) (.parameter p)) :
    L.Ends (·.isEvaluation = true) s s' L.value ((unboundAt host p).run c s)
      ((unboundAt host p).run c' s') := by
  have hstore : Action.store.run c s = (.done s.store, s) := rfl
  have hstore' : Action.store.run c' s' = (.done s'.store, s') := rfl
  rw [unboundAt, Action.run_bind_done hstore, Action.run_bind_done hstore']
  refine (hH.spellParameter hC hs site).ends.bind fun _ _ ht _ => ?_
  refine .raise ht ⟨rfl, rfl, fun m hm => ?_⟩ rfl
  cases hm
  exact ⟨_, rfl, site⟩

end reports

theorem Environment.Agrees.later {env env' : Environment}
    (h : Environment.Agrees (L.value s s') env env') {t t' : Session} (ht : L.later s t)
    (ht' : L.later s' t') (hs : L.session t t') : Environment.Agrees (L.value t t') env env' :=
  Environment.Alike.mono h fun _ _ hvw => L.value_later hvw ht ht' hs

/-! ### Code -/

theorem runAll_accords {codes codes' : List Code} {env env' : Environment}
    (length : codes.length = codes'.length)
    (each : ∀ e ∈ codes.zip codes', ∀ {t t'}, L.session t t' →
      Environment.Agrees (L.value t t') env env' → L.Ends (·.isEvaluation = true) t t' L.value
        ((e.1.run host env).run c t) ((e.2.run host env').run c' t'))
    (hs : L.session s s') (henv : Environment.Agrees (L.value s s') env env') :
    L.Ends (·.isEvaluation = true) s s' (fun t t' => List.Forall₂ (L.value t t'))
      ((runAll host codes env).run c s) ((runAll host codes' env').run c' s') := by
  induction codes generalizing codes' s s' with
  | nil =>
    cases codes' with
    | nil => exact .pure hs .nil
    | cons => cases length
  | cons code codes ih =>
    cases codes' with
    | nil => cases length
    | cons code' codes' =>
      rw [runAll, runAll]
      refine (each (code, code') List.mem_cons_self hs henv).bind fun ht ht' hst hv => ?_
      refine (ih (Nat.succ.inj length) (fun e he => each e (List.mem_cons_of_mem _ he)) hst
        (henv.later ht ht' hst)).bind fun hu hu' hsu hvs => ?_
      exact .pure hsu (.cons (L.value_later hv hu hu' hsu) hvs)

/-- Code that agrees ends the same in environments that agree, and what it fails with is a fault of
evaluation. -/
theorem Code.Agrees.run_ends (hH : host.Accords L) (hC : L.Callers c c') {code code' : Code}
    (h : code.Agrees A code') {env env' : Environment} (hs : L.session s s')
    (henv : Environment.Agrees (L.value s s') env env') :
    L.Ends (·.isEvaluation = true) s s' L.value ((code.run host env).run c s)
      ((code'.run host env').run c' s') := by
  induction h generalizing s s' with
  | constant h => exact .pure hs (L.value_constant hs h)
  | @reference p site =>
    have hrel : Option.Rel (L.value s s') (env.get? p) (env'.get? p) := henv p trivial
    rw [Code.run, Code.run]
    generalize env.get? p = v? at hrel
    generalize env'.get? p = w? at hrel
    cases hrel with
    | some hv => exact .pure hs hv
    | none => exact unboundAt_accords hH hC hs site
  | readMember site name _ ih =>
    refine (ih hs henv).bind fun _ _ ht hv => ?_
    exact readingAt_accords hH hC site ht hv name
  | readStatic site owner name =>
    exact readingAt_accords hH hC site hs (L.value_constant hs owner) name
  | applyUnary site function _ ih =>
    refine (ih hs henv).bind fun _ _ ht hv => ?_
    exact applyingAt_accords hH hC site (hC ht (L.value_constant ht function) (.cons hv .nil))
  | applyBinary site function _ _ ihl ihr =>
    refine (ihl hs henv).bind fun ht ht' hst hv => ?_
    refine (ihr hst (henv.later ht ht' hst)).bind fun hu hu' hsu hw => ?_
    have hvs := List.Forall₂.cons (L.value_later hv hu hu' hsu) (.cons hw .nil)
    exact applyingAt_accords hH hC site (hC hsu (L.value_constant hsu function) hvs)
  | both site _ _ ihl ihr =>
    refine (ihl hs henv).bind fun ht ht' hst hv => ?_
    refine (testingAt_accords hH hC site hst hv).bind fun {_ _ b b'} hu hu' hsu hb => ?_
    subst hb
    cases b with
    | false => exact .pure hsu (L.value_bool false hsu)
    | true =>
      refine (ihr hsu ((henv.later ht ht' hst).later hu hu' hsu)).bind fun _ _ hsv hw => ?_
      refine (testingAt_accords hH hC site hsv hw).bind fun {_ _ b b'} _ _ hsx hb => ?_
      subst hb
      exact .pure hsx (L.value_bool b hsx)
  | either site _ _ ihl ihr =>
    refine (ihl hs henv).bind fun ht ht' hst hv => ?_
    refine (testingAt_accords hH hC site hst hv).bind fun {_ _ b b'} hu hu' hsu hb => ?_
    subst hb
    cases b with
    | true => exact .pure hsu (L.value_bool true hsu)
    | false =>
      refine (ihr hsu ((henv.later ht ht' hst).later hu hu' hsu)).bind fun _ _ hsv hw => ?_
      refine (testingAt_accords hH hC site hsv hw).bind fun {_ _ b b'} _ _ hsx hb => ?_
      subst hb
      exact .pure hsx (L.value_bool b hsx)
  | choose site _ _ _ ihc ihx ihy =>
    refine (ihc hs henv).bind fun ht ht' hst hv => ?_
    refine (testingAt_accords hH hC site hst hv).bind fun {_ _ b b'} hu hu' hsu hb => ?_
    subst hb
    have henv' := (henv.later ht ht' hst).later hu hu' hsu
    cases b with
    | true => exact ihx hsu henv'
    | false => exact ihy hsu henv'
  | call site _ length _ ihf ihargs =>
    refine (ihf hs henv).bind fun ht ht' hst hf => ?_
    refine (runAll_accords length (fun e he _ _ hu henv => ihargs e he hu henv) hst
      (henv.later ht ht' hst)).bind fun hu hu' hsu hvs => ?_
    exact applyingAt_accords hH hC site (hC hsu (L.value_later hf hu hu' hsu) hvs)
  | abstraction h _ =>
    obtain ⟨ht, hv⟩ := L.closure hs h henv
    exact .done (L.order.noted (.mark .refl 1)) (L.order.noted (.mark .refl 1)) ht hv

/-! ### Calls -/

/-- Related functions that are called with related arguments end the same, however deep calls may
nest. -/
theorem Host.Accords.callers (hH : host.Accords L) (depth : Nat) :
    L.Callers (Machine.callWithin host depth) (Machine.callWithin host depth) := by
  induction depth with
  | zero => exact fun _ _ _ => .exhausted
  | succ depth ih =>
    intro s s' f f' args args' hs hf hargs
    by_cases hclosure : ∃ mark ps b env, f = .closure mark ps b env
    · obtain ⟨mark, ps, b, env, rfl⟩ := hclosure
      obtain ⟨mark', b', env', rfl, hbody, henv⟩ := L.of_closure hf
      by_cases hlen : args.length = ps.length
      · have hlen' : args'.length = ps.length := hargs.length_eq ▸ hlen
        rw [callWithin_closure hlen, callWithin_closure hlen']
        exact (hbody.run_ends hH ih hs (henv.extend hargs hlen)).mono fun _ _ => trivial
      · have hlen' : args'.length ≠ ps.length := hargs.length_eq ▸ hlen
        rw [Machine.callWithin, Machine.callWithin, Host.apply, Host.apply, if_neg hlen,
          if_neg hlen', ← hargs.length_eq]
        exact .raise hs (.failure rfl) trivial
    · exact hH.apply ih hs hf hargs fun mark ps b env h => hclosure ⟨mark, ps, b, env, h⟩

end

end PredicateTree
