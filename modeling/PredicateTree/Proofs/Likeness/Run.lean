import PredicateTree.Proofs.Likeness.Basic

/-!
# Code that matches runs alike

`Likeness.Ends` says that two runs end alike.  If the operations of a host treat like values alike
(`Host.Conforms`), then code that matches runs alike in like environments
(`Code.Matches.run_conforming`), and like functions that are called with like arguments end alike
however deep calls may nest (`Host.Conforms.callers`).  `Host.Respects` says besides that the texts
of reports can be made.
-/

namespace PredicateTree

variable {K : Correspondence} {α β γ δ : Type}

namespace Likeness

variable (L : Likeness K)

/-- Two runs, begun in the sessions `s` and `s'`, end alike: with results in the relation `P`, or
with like faults, in like sessions; or out of fuel. -/
inductive Ends (s s' : Session) (P : Session → Session → α → β → Prop) :
    Outcome α × Session → Outcome β × Session → Prop where
  | done {t t' : Session} {a : α} {b : β} (hs : K.later s t) (hs' : K.later s' t')
      (ht : L.session t t') (h : P t t' a b) : Ends s s' P (.done a, t) (.done b, t')
  | raised {t t' : Session} {f g : Fault} (hs : K.later s t) (hs' : K.later s' t')
      (ht : L.session t t') (h : f.Alike K.site g) : Ends s s' P (.raised f, t) (.raised g, t')
  | exhausted {t t' : Session} : Ends s s' P (.exhausted, t) (.exhausted, t')
  | cut {t : Session} {o : Outcome β × Session} (h : K.cut) : Ends s s' P (.exhausted, t) o

/-- Two runs, begun in the sessions `s` and `s'`, both end with results, in like sessions. -/
def Succeed (s s' : Session) (o : Outcome α × Session) (o' : Outcome β × Session) : Prop :=
  ∃ a b t t', o = (.done a, t) ∧ o' = (.done b, t') ∧ K.later s t ∧ K.later s' t' ∧ L.session t t'

/-- Callers that call like functions with like arguments alike. -/
def Callers (c c' : Caller) : Prop :=
  ∀ {s s' f f' args args'}, L.session s s' → L.value s s' f f' →
    List.Forall₂ (L.value s s') args args' → L.Ends s s' L.value (c f args s) (c' f' args' s')

variable {L} {s s' t t' : Session} {P : Session → Session → α → β → Prop}
  {R : Session → Session → γ → δ → Prop} {c c' : Caller}

namespace Ends

theorem pure (h : L.session s s') {a : α} {b : β} (hP : P s s' a b) :
    L.Ends s s' P ((Pure.pure a : Action α).run c s) ((Pure.pure b : Action β).run c' s') :=
  .done (K.later_refl s) (K.later_refl s') h hP

theorem raise (h : L.session s s') {f g : Fault} (hf : f.Alike K.site g) :
    L.Ends s s' P ((Action.raise f : Action α).run c s) ((Action.raise g : Action β).run c' s') :=
  .raised (K.later_refl s) (K.later_refl s') h hf

theorem imp {Q : Session → Session → α → β → Prop} {o : Outcome α × Session}
    {o' : Outcome β × Session} (h : L.Ends s s' P o o')
    (imp : ∀ {t t' a b}, L.session t t' → P t t' a b → Q t t' a b) : L.Ends s s' Q o o' := by
  cases h with
  | done h h' ht hP => exact .done h h' ht (imp ht hP)
  | raised h h' ht hf => exact .raised h h' ht hf
  | exhausted => exact .exhausted
  | cut h => exact .cut h

theorem earlier {o : Outcome α × Session} {o' : Outcome β × Session} (hs : K.later s t)
    (hs' : K.later s' t') (h : L.Ends t t' P o o') : L.Ends s s' P o o' := by
  cases h with
  | done h h' ht hP => exact .done (K.order.trans hs h) (K.order.trans hs' h') ht hP
  | raised h h' ht hf => exact .raised (K.order.trans hs h) (K.order.trans hs' h') ht hf
  | exhausted => exact .exhausted
  | cut h => exact .cut h

/-- What goes on alike after ends that are alike ends alike. -/
theorem bind {x : Action α} {y : Action β} {k : α → Action γ} {l : β → Action δ}
    (hx : L.Ends s s' P (x.run c s) (y.run c' s'))
    (hk : ∀ {t t' a b}, K.later s t → K.later s' t' → L.session t t' → P t t' a b →
      L.Ends t t' R ((k a).run c t) ((l b).run c' t')) :
    L.Ends s s' R ((x >>= k).run c s) ((y >>= l).run c' s') := by
  generalize hox : x.run c s = o at hx
  generalize hoy : y.run c' s' = o' at hx
  cases hx with
  | done h h' ht hP =>
    rw [Action.run_bind_done hox, Action.run_bind_done hoy]
    exact (hk h h' ht hP).earlier h h'
  | raised h h' ht hf =>
    rw [Action.run_bind_raised hox, Action.run_bind_raised hoy]
    exact .raised h h' ht hf
  | exhausted =>
    rw [Action.run_bind_exhausted hox, Action.run_bind_exhausted hoy]
    exact .exhausted
  | cut h =>
    rw [Action.run_bind_exhausted hox]
    exact .cut h

/-- What ends alike with something made of its result ends alike. -/
theorem of_map {x : Action γ} {f : γ → α} {o : Outcome β × Session}
    (h : L.Ends s s' P ((x >>= fun a => Pure.pure (f a)).run c s) o) :
    L.Ends s s' (fun t t' a b => P t t' (f a) b) (x.run c s) o := by
  rcases hx : x.run c s with ⟨a | g | _, t⟩
  · rw [Action.run_bind_done hx] at h
    generalize ho : (Pure.pure (f a) : Action α).run c t = o' at h
    cases h with
    | done hs hs' ht hP =>
      cases ho
      exact .done hs hs' ht hP
    | raised | exhausted | cut => cases ho
  · rw [Action.run_bind_raised hx] at h
    cases h with
    | raised hs hs' ht hf => exact .raised hs hs' ht hf
  · rw [Action.run_bind_exhausted hx] at h
    cases h with
    | exhausted => exact .exhausted
    | cut h => exact .cut h

theorem handle {x : Action α} {y : Action β} {h : Fault → Action α} {h' : Fault → Action β}
    (hx : L.Ends s s' P (x.run c s) (y.run c' s'))
    (hh : ∀ {t t' f g}, L.session t t' → f.Alike K.site g →
      L.Ends t t' P ((h f).run c t) ((h' g).run c' t')) :
    L.Ends s s' P ((x.handle h).run c s) ((y.handle h').run c' s') := by
  generalize hox : x.run c s = o at hx
  generalize hoy : y.run c' s' = o' at hx
  cases hx with
  | done h h' ht hP =>
    rw [Action.run_handle_done hox, Action.run_handle_done hoy]
    exact .done h h' ht hP
  | raised h h' ht hf =>
    rw [Action.run_handle_raised hox, Action.run_handle_raised hoy]
    exact (hh ht hf).earlier h h'
  | exhausted =>
    rw [Action.run_handle_exhausted hox, Action.run_handle_exhausted hoy]
    exact .exhausted
  | cut h =>
    rw [Action.run_handle_exhausted hox]
    exact .cut h

end Ends

theorem Succeed.ends {o : Outcome α × Session} {o' : Outcome β × Session}
    (h : L.Succeed s s' o o') : L.Ends s s' (fun _ _ _ _ => True) o o' := by
  obtain ⟨a, b, t, t', rfl, rfl, hs, hs', ht⟩ := h
  exact .done hs hs' ht trivial

end Likeness

/-! ### Hosts -/

/-- The operations of a host treat like values alike, and the texts of reports can be made. -/
structure Host.Respects (host : Host) (L : Likeness K) : Prop where
  /-- Calls of whatever is no compiled function. -/
  apply : ∀ {c c' s s' f f' args args'}, L.Callers c c' → L.session s s' → L.value s s' f f' →
    List.Forall₂ (L.value s s') args args' → (∀ mark ps b env, f ≠ .closure mark ps b env) →
    L.Ends s s' L.value ((host.apply f args).run c s) ((host.apply f' args').run c' s')
  truth : ∀ {c c' s s' v v'}, L.Callers c c' → L.session s s' → L.value s s' v v' →
    L.Ends s s' (fun _ _ b b' => b = b') ((host.truth v).run c s) ((host.truth v').run c' s')
  member : ∀ {c c' s s' v v' name}, L.Callers c c' → L.session s s' → L.value s s' v v' →
    K.known name →
    L.Ends s s' L.value ((host.member v name).run c s) ((host.member v' name).run c' s')
  describe : ∀ {c c' s s' n n'}, L.Callers c c' → L.session s s' → K.site n n' →
    L.Succeed s s' ((host.describe n).run c s) ((host.describe n').run c' s')
  spell : ∀ {c c' s s' name}, L.Callers c c' → L.session s s' → K.known name →
    L.Succeed s s' ((host.spell name).run c s) ((host.spell name).run c' s')
  spellParameter : ∀ {c c' s s' p p'}, L.Callers c c' → L.session s s' →
    K.site (.parameter p) (.parameter p') →
    L.Succeed s s' ((host.spell (s.store.parameterName p)).run c s)
      ((host.spell (s'.store.parameterName p')).run c' s')

/-- The operations of a host treat like values alike, the making of texts for reports too. -/
structure Host.Conforms (host : Host) (L : Likeness K) : Prop where
  /-- Calls of whatever is no compiled function. -/
  apply : ∀ {c c' s s' f f' args args'}, L.Callers c c' → L.session s s' → L.value s s' f f' →
    List.Forall₂ (L.value s s') args args' → (∀ mark ps b env, f ≠ .closure mark ps b env) →
    L.Ends s s' L.value ((host.apply f args).run c s) ((host.apply f' args').run c' s')
  truth : ∀ {c c' s s' v v'}, L.Callers c c' → L.session s s' → L.value s s' v v' →
    L.Ends s s' (fun _ _ b b' => b = b') ((host.truth v).run c s) ((host.truth v').run c' s')
  member : ∀ {c c' s s' v v' name}, L.Callers c c' → L.session s s' → L.value s s' v v' →
    K.known name →
    L.Ends s s' L.value ((host.member v name).run c s) ((host.member v' name).run c' s')
  describe : ∀ {c c' s s' n n'}, L.Callers c c' → L.session s s' → K.site n n' →
    L.Ends s s' (fun _ _ _ _ => True) ((host.describe n).run c s) ((host.describe n').run c' s')
  spell : ∀ {c c' s s' name}, L.Callers c c' → L.session s s' → K.known name →
    L.Ends s s' (fun _ _ _ _ => True) ((host.spell name).run c s) ((host.spell name).run c' s')
  spellParameter : ∀ {c c' s s' p p'}, L.Callers c c' → L.session s s' →
    K.site (.parameter p) (.parameter p') →
    L.Ends s s' (fun _ _ _ _ => True) ((host.spell (s.store.parameterName p)).run c s)
      ((host.spell (s'.store.parameterName p')).run c' s')

theorem Host.Respects.conforms {host : Host} {L : Likeness K} (h : host.Respects L) :
    host.Conforms L where
  apply := h.apply
  truth := h.truth
  member := h.member
  describe hC hs hsite := (h.describe hC hs hsite).ends
  spell hC hs hname := (h.spell hC hs hname).ends
  spellParameter hC hs hsite := (h.spellParameter hC hs hsite).ends

section

variable {L : Likeness K} {host : Host} {c c' : Caller} {s s' : Session} {n n' : Node}
  {P : Session → Session → α → β → Prop}

theorem reporting_alike (hH : host.Conforms L) (hC : L.Callers c c') (hsite : K.site n n')
    {activity activity' : Action Activity} {passes passes' : Fault → Bool}
    (hactivity : ∀ {t t'}, L.session t t' →
      L.Ends t t' (fun _ _ _ _ => True) (activity.run c t) (activity'.run c' t'))
    (hpasses : ∀ f g, f.Alike K.site g → passes f = passes' g) {x : Action α} {y : Action β}
    (hx : L.Ends s s' P (x.run c s) (y.run c' s')) :
    L.Ends s s' P ((reporting host n activity passes x).run c s)
      ((reporting host n' activity' passes' y).run c' s') := by
  refine hx.handle fun {t t' f g} ht hfg => ?_
  rw [hpasses f g hfg]
  split
  · exact .raise ht hfg
  · refine (hactivity ht).bind fun _ _ hu _ => ?_
    refine (hH.describe hC hu hsite).bind fun _ _ hv _ => ?_
    refine .raise hv ⟨rfl, congrArg some hfg.errorClass, fun m hm => ?_⟩
    cases hm
    exact ⟨n', rfl, hsite⟩

theorem applyingAt_alike (hH : host.Conforms L) (hC : L.Callers c c') (hsite : K.site n n')
    {x : Action α} {y : Action β} (hx : L.Ends s s' P (x.run c s) (y.run c' s')) :
    L.Ends s s' P ((applyingAt host n x).run c s) ((applyingAt host n' y).run c' s') := by
  exact reporting_alike hH hC hsite (fun ht => .pure ht trivial) (fun f g h => h.isEvaluation) hx

theorem testingAt_alike (hH : host.Conforms L) (hC : L.Callers c c') (hsite : K.site n n')
    (hs : L.session s s') {v v' : Value} (hv : L.value s s' v v') :
    L.Ends s s' (fun _ _ b b' => b = b') ((testingAt host n v).run c s)
      ((testingAt host n' v').run c' s') :=
  applyingAt_alike hH hC hsite (hH.truth hC hs hv)

theorem readingAt_alike (hH : host.Conforms L) (hC : L.Callers c c') (hsite : K.site n n')
    (hs : L.session s s') {v v' name : Value} (hv : L.value s s' v v') (hname : K.known name) :
    L.Ends s s' L.value ((readingAt host n name v).run c s)
      ((readingAt host n' name v').run c' s') := by
  refine reporting_alike hH hC hsite (fun ht => ?_) (fun _ _ _ => rfl) (hH.member hC hs hv hname)
  exact (hH.spell hC ht hname).bind fun _ _ hu _ => .pure hu trivial

theorem unboundAt_alike (hH : host.Conforms L) (hC : L.Callers c c') (hs : L.session s s')
    {p p' : Parameter} (hsite : K.site (.parameter p) (.parameter p')) :
    L.Ends s s' L.value ((unboundAt host p).run c s) ((unboundAt host p').run c' s') := by
  have hstore : Action.store.run c s = (.done s.store, s) := rfl
  have hstore' : Action.store.run c' s' = (.done s'.store, s') := rfl
  rw [unboundAt, unboundAt, Action.run_bind_done hstore, Action.run_bind_done hstore']
  refine (hH.spellParameter hC hs hsite).bind fun _ _ ht _ => ?_
  refine .raise ht ⟨rfl, rfl, fun m hm => ?_⟩
  cases hm
  exact ⟨_, rfl, hsite⟩

/-- Code that a value stands for ends like that value. -/
def Likeness.Settles (L : Likeness K) (host : Host) (c : Caller) : Prop :=
  ∀ {ρ S w} {code code₀ : Code}, code.Matches K ρ S code₀ → K.settled code₀ w →
    ∀ {s s'} (env : Environment), L.session s s' →
      L.Ends s s' L.value ((code.run host env).run c s) (.done w, s')

theorem Environment.Alike.later {ρ : Parameter → Parameter} {S : Parameter → Prop}
    {env env' : Environment} (h : Environment.Alike (L.value s s') ρ S env env') {t t' : Session}
    (ht : K.later s t) (ht' : K.later s' t') (hs : L.session t t') :
    Environment.Alike (L.value t t') ρ S env env' :=
  h.mono fun _ _ hvw => L.value_later hvw ht ht' hs

theorem values_later {vs ws : List Value} (h : List.Forall₂ (L.value s s') vs ws) {t t' : Session}
    (ht : K.later s t) (ht' : K.later s' t') (hs : L.session t t') :
    List.Forall₂ (L.value t t') vs ws :=
  h.imp fun _ _ hvw => L.value_later hvw ht ht' hs

theorem runAll_alike {codes codes' : List Code} {ρ : Parameter → Parameter}
    {S : Parameter → Prop} {env env' : Environment} (hlen : codes.length = codes'.length)
    (heach : ∀ e ∈ codes.zip codes', ∀ {t t'}, L.session t t' →
      Environment.Alike (L.value t t') ρ S env env' →
      L.Ends t t' L.value ((e.1.run host env).run c t) ((e.2.run host env').run c' t'))
    (hs : L.session s s') (henv : Environment.Alike (L.value s s') ρ S env env') :
    L.Ends s s' (fun t t' => List.Forall₂ (L.value t t')) ((runAll host codes env).run c s)
      ((runAll host codes' env').run c' s') := by
  induction codes generalizing codes' s s' with
  | nil =>
    cases codes' with
    | nil => exact .pure hs .nil
    | cons => cases hlen
  | cons code codes ih =>
    cases codes' with
    | nil => cases hlen
    | cons code' codes' =>
      rw [runAll, runAll]
      refine (heach (code, code') List.mem_cons_self hs henv).bind fun ht ht' hst hv => ?_
      refine (ih (Nat.succ.inj hlen) (fun e he => heach e (List.mem_cons_of_mem _ he)) hst
        (henv.later ht ht' hst)).bind fun hu hu' hsu hvs => ?_
      exact .pure hsu (.cons (L.value_later hv hu hu' hsu) hvs)

/-- Code that matches runs alike in environments that are alike. -/
theorem Code.Matches.run_conforming (hH : host.Conforms L) (hC : L.Callers c c')
    (hS : L.Settles host c) {ρ : Parameter → Parameter} {S : Parameter → Prop}
    {code code' : Code} (h : code.Matches K ρ S code') {env env' : Environment}
    (hs : L.session s s') (henv : Environment.Alike (L.value s s') ρ S env env') :
    L.Ends s s' L.value ((code.run host env).run c s) ((code'.run host env').run c' s') := by
  induction h generalizing s s' with
  | constant hv => exact .pure hs (L.value_known hs hv)
  | settled h hw _ => exact hS h hw env hs
  | @reference S p hp hsite =>
    have hrel := henv p hp
    rw [Code.run, Code.run]
    generalize env.get? p = v? at hrel
    generalize env'.get? (ρ p) = w? at hrel
    cases hrel with
    | some hv => exact .pure hs hv
    | none => exact unboundAt_alike hH hC hs hsite
  | readMember hsite hname _ ih =>
    refine (ih hs henv).bind fun _ _ ht hv => ?_
    exact readingAt_alike hH hC hsite ht hv hname
  | readStatic hsite howner hname =>
    exact readingAt_alike hH hC hsite hs (L.value_known hs howner) hname
  | applyUnary hsite hf _ ih =>
    refine (ih hs henv).bind fun _ _ ht hv => ?_
    exact applyingAt_alike hH hC hsite (hC ht (L.value_known ht hf) (.cons hv .nil))
  | applyBinary hsite hf _ _ ihl ihr =>
    refine (ihl hs henv).bind fun ht ht' hst hv => ?_
    refine (ihr hst (henv.later ht ht' hst)).bind fun hu hu' hsu hw => ?_
    have hv' := L.value_later hv hu hu' hsu
    exact applyingAt_alike hH hC hsite (hC hsu (L.value_known hsu hf) (.cons hv' (.cons hw .nil)))
  | both hsite _ _ ihl ihr =>
    refine (ihl hs henv).bind fun ht ht' hst hv => ?_
    refine (testingAt_alike hH hC hsite hst hv).bind fun {_ _ b b'} hu hu' hsu hb => ?_
    subst hb
    cases b with
    | false => exact .pure hsu (L.value_bool false hsu)
    | true =>
      refine (ihr hsu ((henv.later ht ht' hst).later hu hu' hsu)).bind fun _ _ hsv hw => ?_
      refine (testingAt_alike hH hC hsite hsv hw).bind fun {_ _ b b'} _ _ hsx hb => ?_
      subst hb
      exact .pure hsx (L.value_bool b hsx)
  | either hsite _ _ ihl ihr =>
    refine (ihl hs henv).bind fun ht ht' hst hv => ?_
    refine (testingAt_alike hH hC hsite hst hv).bind fun {_ _ b b'} hu hu' hsu hb => ?_
    subst hb
    cases b with
    | true => exact .pure hsu (L.value_bool true hsu)
    | false =>
      refine (ihr hsu ((henv.later ht ht' hst).later hu hu' hsu)).bind fun _ _ hsv hw => ?_
      refine (testingAt_alike hH hC hsite hsv hw).bind fun {_ _ b b'} _ _ hsx hb => ?_
      subst hb
      exact .pure hsx (L.value_bool b hsx)
  | choose hsite _ _ _ ihc ihx ihy =>
    refine (ihc hs henv).bind fun ht ht' hst hv => ?_
    refine (testingAt_alike hH hC hsite hst hv).bind fun {_ _ b b'} hu hu' hsu hb => ?_
    subst hb
    have henv' := (henv.later ht ht' hst).later hu hu' hsu
    cases b with
    | true => exact ihx hsu henv'
    | false => exact ihy hsu henv'
  | call hsite _ hlen _ ihf ihargs =>
    refine (ihf hs henv).bind fun ht ht' hst hf => ?_
    refine (runAll_alike hlen (fun e he _ _ hu henv => ihargs e he hu henv) hst
      (henv.later ht ht' hst)).bind fun hu hu' hsu hvs => ?_
    exact applyingAt_alike hH hC hsite (hC hsu (L.value_later hf hu hu' hsu) hvs)
  | abstraction hscope h _ =>
    obtain ⟨ht, hv⟩ := L.closure hs (.abstraction hscope h) henv
    exact .done (K.order.noted (.mark .refl 1)) (K.order.noted (.mark .refl 1)) ht hv

theorem Code.Matches.run_alike (hH : host.Respects L) (hC : L.Callers c c')
    (hS : L.Settles host c) {ρ : Parameter → Parameter} {S : Parameter → Prop}
    {code code' : Code} (h : code.Matches K ρ S code') {env env' : Environment}
    (hs : L.session s s') (henv : Environment.Alike (L.value s s') ρ S env env') :
    L.Ends s s' L.value ((code.run host env).run c s) ((code'.run host env').run c' s') :=
  h.run_conforming hH.conforms hC hS hs henv

/-! ### Calls -/

/-- Like functions that are called with like arguments end alike, however deep calls may nest. -/
theorem Host.Conforms.callers (hH : host.Conforms L)
    (hS : ∀ depth, L.Settles host (Machine.callWithin host depth)) (depth : Nat) :
    L.Callers (Machine.callWithin host depth) (Machine.callWithin host depth) := by
  induction depth with
  | zero => exact fun _ _ _ => .exhausted
  | succ depth ih =>
    intro s s' f f' args args' hs hf hargs
    by_cases hclosure : ∃ mark ps b env, f = .closure mark ps b env
    · obtain ⟨mark, ps, b, env, rfl⟩ := hclosure
      obtain ⟨mark', ps', b', env', ρ, S, rfl, hmatches, henv⟩ := L.of_closure hf
      cases hmatches with
      | abstraction hscope hbody =>
        by_cases hlen : args.length = ps.length
        · have hlen' : args'.length = (ps.map ρ).length := by
            rw [List.length_map, ← hargs.length_eq, hlen]
          rw [callWithin_closure hlen, callWithin_closure hlen']
          exact hbody.run_conforming hH ih (hS depth) hs (henv.extend hargs hlen hscope)
        · have hlen' : args'.length ≠ (ps.map ρ).length := by
            rw [List.length_map, ← hargs.length_eq]
            exact hlen
          rw [Machine.callWithin, Machine.callWithin, Host.apply, Host.apply, if_neg hlen,
            if_neg hlen', List.length_map, ← hargs.length_eq]
          refine .raise hs (.refl fun n hn => ?_)
          cases hn
    · refine hH.apply ih hs hf hargs fun mark ps b env h => hclosure ⟨mark, ps, b, env, h⟩

theorem Host.Respects.callers (hH : host.Respects L)
    (hS : ∀ depth, L.Settles host (Machine.callWithin host depth)) (depth : Nat) :
    L.Callers (Machine.callWithin host depth) (Machine.callWithin host depth) :=
  hH.conforms.callers hS depth

end

end PredicateTree
