import PredicateTree.Proofs.Likeness.Plain

/-!
# What a run may miss

A run that needs the value of a parameter which has none fails for want of it.  A `Sealing` says for
which parameters that may happen: those with a property `P`, and no others.  It names the values
that a run may meet; of the functions among them it demands that every parameter which is free in
the code has such a value in the environment, or may be missed.

If the operations of a host keep to a sealing (`Host.Seals`), then so does the run of any code in an
environment that provides what is free in it (`Code.Matches.run_sealed`), and so do calls, however
deep they nest (`Host.Seals.caller`).
-/

namespace PredicateTree

/-- Only parameters with a property are missed by a fault. -/
def Fault.MissesOnly (P : Parameter → Prop) (f : Fault) : Prop :=
  f.errorClass = .unboundParameter → ∃ p, P p ∧ f.subject = some (.node (.parameter p))

/-- A failure of an operation on values misses no parameter. -/
theorem Fault.MissesOnly.failure (P : Parameter → Prop) (f : Failure) :
    (Fault.failure f).MissesOnly P := fun hclass => absurd hclass (errorClass_failure_ne f)

/-- In a scope, an environment gives parameters good values, or gives none to those that may be
missed. -/
structure Environment.Provides (good : Value → Prop) (P S : Parameter → Prop)
    (env : Environment) : Prop where
  good : ∀ p v, S p → env.get? p = some v → good v
  missed : ∀ p, S p → env.get? p = none → P p

/-- The sessions and the values that runs meet which miss only parameters with the property `P`. -/
structure Sealing (K : Correspondence) (P : Parameter → Prop) where
  session : Session → Prop
  value : Value → Prop
  noted : ∀ {s t : Session}, session s → s.Noted t → session t
  /-- A session may keep good functions. -/
  compiled : ∀ {s : Session} {f}, session s → value f → ∀ mark,
    session { s with store := s.store.withCompiled mark f }
  value_known : ∀ {v}, K.known v → value v
  value_bool : ∀ b, value (.bool b)
  /-- A function is good if its environment provides what is free in its code. -/
  closure : ∀ {mark ps ps' b b' env S},
    Code.Matches K id S (.abstraction ps b) (.abstraction ps' b') →
    Environment.Provides value P S env → value (.closure mark ps b env)
  /-- Only such functions are good. -/
  of_closure : ∀ {mark ps b env}, value (.closure mark ps b env) →
    ∃ S ps' b', Code.Matches K id S (.abstraction ps b) (.abstraction ps' b') ∧
      Environment.Provides value P S env

variable {K : Correspondence} {P : Parameter → Prop} {α β : Type}

namespace Sealing

variable (Z : Sealing K P)

/-- A run ends with a good result, or with a fault that misses only what may be missed; or out of
fuel. -/
inductive Ends (Q : α → Prop) : Outcome α × Session → Prop where
  | done {a : α} {t : Session} (ht : Z.session t) (h : Q a) : Ends Q (.done a, t)
  | raised {f : Fault} {t : Session} (ht : Z.session t) (h : f.MissesOnly P) : Ends Q (.raised f, t)
  | exhausted {t : Session} : Ends Q (.exhausted, t)

/-- A caller that keeps to the sealing. -/
def Caller (c : PredicateTree.Caller) : Prop :=
  ∀ {s f args}, Z.session s → Z.value f → (∀ a ∈ args, Z.value a) → Z.Ends Z.value (c f args s)

variable {Z} {Q : α → Prop} {R : β → Prop} {c : PredicateTree.Caller} {s : Session}

namespace Ends

theorem bind {x : Action α} {k : α → Action β} (hx : Z.Ends Q (x.run c s))
    (hk : ∀ {t a}, Z.session t → Q a → Z.Ends R ((k a).run c t)) :
    Z.Ends R ((x >>= k).run c s) := by
  generalize ho : x.run c s = o at hx
  cases hx with
  | done ht h =>
    rw [Action.run_bind_done ho]
    exact hk ht h
  | raised ht h =>
    rw [Action.run_bind_raised ho]
    exact .raised ht h
  | exhausted =>
    rw [Action.run_bind_exhausted ho]
    exact .exhausted

theorem handle {x : Action α} {h : Fault → Action α} (hx : Z.Ends Q (x.run c s))
    (hh : ∀ {t f}, Z.session t → f.MissesOnly P → Z.Ends Q ((h f).run c t)) :
    Z.Ends Q ((x.handle h).run c s) := by
  generalize ho : x.run c s = o at hx
  cases hx with
  | done ht h =>
    rw [Action.run_handle_done ho]
    exact .done ht h
  | raised ht h =>
    rw [Action.run_handle_raised ho]
    exact hh ht h
  | exhausted =>
    rw [Action.run_handle_exhausted ho]
    exact .exhausted

theorem misses {o : Outcome α × Session} (h : Z.Ends Q o) {f : Fault} {t : Session}
    (ho : o = (.raised f, t)) : f.MissesOnly P := by
  cases h with
  | raised _ h =>
    cases ho
    exact h
  | done | exhausted => cases ho

end Ends

end Sealing

/-! ### Hosts -/

/-- The operations of a host keep to a sealing. -/
structure Host.Seals (host : Host) (Z : Sealing K P) : Prop where
  /-- Calls of whatever is no compiled function. -/
  apply : ∀ {c s f args}, Z.Caller c → Z.session s → Z.value f → (∀ a ∈ args, Z.value a) →
    (∀ mark ps b env, f ≠ .closure mark ps b env) → Z.Ends Z.value ((host.apply f args).run c s)
  truth : ∀ {c s v}, Z.Caller c → Z.session s → Z.value v →
    Z.Ends (fun _ => True) ((host.truth v).run c s)
  member : ∀ {c s v name}, Z.Caller c → Z.session s → Z.value v → K.known name →
    Z.Ends Z.value ((host.member v name).run c s)
  describe : ∀ {c s n n'}, Z.Caller c → Z.session s → K.site n n' →
    Z.Ends (fun _ => True) ((host.describe n).run c s)
  spell : ∀ {c s name}, Z.Caller c → Z.session s → K.known name →
    Z.Ends (fun _ => True) ((host.spell name).run c s)
  spellParameter : ∀ {c s p p'}, Z.Caller c → Z.session s →
    K.site (.parameter p) (.parameter p') →
    Z.Ends (fun _ => True) ((host.spell (s.store.parameterName p)).run c s)

section

variable {Z : Sealing K P} {host : Host} {c : Caller} {s : Session} {n n' : Node} {Q : α → Prop}

theorem reporting_sealed (hH : host.Seals Z) (hC : Z.Caller c) (hsite : K.site n n')
    {activity : Action Activity} {passes : Fault → Bool}
    (hactivity : ∀ {t}, Z.session t → Z.Ends (fun _ => True) (activity.run c t)) {x : Action α}
    (hx : Z.Ends Q (x.run c s)) :
    Z.Ends Q ((reporting host n activity passes x).run c s) := by
  refine hx.handle fun ht hf => ?_
  split
  · exact .raised ht hf
  · refine (hactivity ht).bind fun hu _ => ?_
    refine (hH.describe hC hu hsite).bind fun hv _ => ?_
    exact .raised hv fun hclass => nomatch hclass

theorem applyingAt_sealed (hH : host.Seals Z) (hC : Z.Caller c) (hsite : K.site n n')
    {x : Action α} (hx : Z.Ends Q (x.run c s)) : Z.Ends Q ((applyingAt host n x).run c s) :=
  reporting_sealed hH hC hsite (fun ht => .done ht trivial) hx

theorem testingAt_sealed (hH : host.Seals Z) (hC : Z.Caller c) (hsite : K.site n n')
    (hs : Z.session s) {v : Value} (hv : Z.value v) :
    Z.Ends (fun _ => True) ((testingAt host n v).run c s) :=
  applyingAt_sealed hH hC hsite (hH.truth hC hs hv)

theorem readingAt_sealed (hH : host.Seals Z) (hC : Z.Caller c) (hsite : K.site n n')
    (hs : Z.session s) {v name : Value} (hv : Z.value v) (hname : K.known name) :
    Z.Ends Z.value ((readingAt host n name v).run c s) := by
  refine reporting_sealed hH hC hsite (fun ht => ?_) (hH.member hC hs hv hname)
  exact (hH.spell hC ht hname).bind fun hu _ => .done hu trivial

theorem unboundAt_sealed (hH : host.Seals Z) (hC : Z.Caller c) (hs : Z.session s)
    {p p' : Parameter} (hsite : K.site (.parameter p) (.parameter p')) (hp : P p) :
    Z.Ends Z.value ((unboundAt host p).run c s) := by
  have hstore : Action.store.run c s = (.done s.store, s) := rfl
  rw [unboundAt, Action.run_bind_done hstore]
  refine (hH.spellParameter hC hs hsite).bind fun ht _ => ?_
  exact .raised ht fun _ => ⟨p, hp, rfl⟩

/-- In a body an environment provides what is free there if it provides what is free in the
function. -/
theorem Environment.Provides.extend {good : Value → Prop} {S S' : Parameter → Prop}
    {env : Environment} {ps : List Parameter} {args : List Value} (h : env.Provides good P S)
    (hargs : ∀ a ∈ args, good a) (hlen : args.length = ps.length)
    (hscope : ∀ p, S' p → p ∉ ps → S p) : (env.extend ps args).Provides good P S' := by
  constructor
  · intro p v hp hv
    rcases get?_extend_cases hlen env p with ⟨a, ha, hget⟩ | ⟨hps, hget⟩
    · cases hget.symm.trans hv
      exact hargs _ ha
    · exact h.good p v (hscope p hp hps) (hget.symm.trans hv)
  · intro p hp hv
    rcases get?_extend_cases hlen env p with ⟨a, _, hget⟩ | ⟨hps, hget⟩
    · cases hget.symm.trans hv
    · exact h.missed p (hscope p hp hps) (hget.symm.trans hv)

theorem runAll_sealed {codes : List Code} {env : Environment}
    (heach : ∀ code ∈ codes, ∀ {t}, Z.session t → Z.Ends Z.value ((code.run host env).run c t))
    (hs : Z.session s) :
    Z.Ends (fun vs => ∀ v ∈ vs, Z.value v) ((runAll host codes env).run c s) := by
  induction codes generalizing s with
  | nil => exact .done hs fun v hv => nomatch hv
  | cons code codes ih =>
    rw [runAll]
    refine (heach code List.mem_cons_self hs).bind fun {t v} ht hv => ?_
    refine (ih (fun k hk => heach k (List.mem_cons_of_mem _ hk)) ht).bind fun hu hvs => ?_
    exact .done hu fun w hw => (List.mem_cons.1 hw).elim (fun h => h ▸ hv) (hvs w)

/-- Code whose environment provides what is free in it misses only what may be missed. -/
theorem Code.Matches.run_sealed (hH : host.Seals Z) (hC : Z.Caller c) {S : Parameter → Prop}
    {code code' : Code} (h : code.Matches K id S code') {env : Environment} (hs : Z.session s)
    (henv : env.Provides Z.value P S) : Z.Ends Z.value ((code.run host env).run c s) := by
  have happly {t : Session} {site site' : Node} {f : Value} {args : List Value}
      (hsite : K.site site site') (ht : Z.session t) (hf : Z.value f)
      (hargs : ∀ a ∈ args, Z.value a) :
      Z.Ends Z.value ((applyingAt host site (Action.call f args)).run c t) :=
    applyingAt_sealed hH hC hsite (hC ht hf hargs)
  have hdecide {t : Session} {site site' : Node} {v : Value} (hsite : K.site site site')
      (ht : Z.session t) (hv : Z.value v) :
      Z.Ends Z.value ((testingAt host site v >>= fun b => pure (.bool b)).run c t) :=
    (testingAt_sealed hH hC hsite ht hv).bind fun hu _ => .done hu (Z.value_bool _)
  induction h generalizing s with
  | constant hv => exact .done hs (Z.value_known hv)
  | settled _ _ ih => exact ih hs henv
  | @reference S p hp hsite =>
    rw [Code.run]
    cases hv : env.get? p with
    | some v => exact .done hs (henv.good p v hp hv)
    | none => exact unboundAt_sealed hH hC hs hsite (henv.missed p hp hv)
  | readMember hsite hname _ ih =>
    exact (ih hs henv).bind fun ht hv => readingAt_sealed hH hC hsite ht hv hname
  | readStatic hsite howner hname =>
    exact readingAt_sealed hH hC hsite hs (Z.value_known howner) hname
  | applyUnary hsite hf _ ih =>
    exact (ih hs henv).bind fun ht hv => happly hsite ht (Z.value_known hf) (by simpa using hv)
  | applyBinary hsite hf _ _ ihl ihr =>
    refine (ihl hs henv).bind fun ht hv => (ihr ht henv).bind fun hu hw => ?_
    exact happly hsite hu (Z.value_known hf) (by simpa using ⟨hv, hw⟩)
  | both hsite _ _ ihl ihr =>
    refine (ihl hs henv).bind fun ht hv => ?_
    refine (testingAt_sealed hH hC hsite ht hv).bind fun {_ b} hu _ => ?_
    cases b with
    | false => exact .done hu (Z.value_bool false)
    | true => exact (ihr hu henv).bind fun hx hw => hdecide hsite hx hw
  | either hsite _ _ ihl ihr =>
    refine (ihl hs henv).bind fun ht hv => ?_
    refine (testingAt_sealed hH hC hsite ht hv).bind fun {_ b} hu _ => ?_
    cases b with
    | true => exact .done hu (Z.value_bool true)
    | false => exact (ihr hu henv).bind fun hx hw => hdecide hsite hx hw
  | choose hsite _ _ _ ihc ihx ihy =>
    refine (ihc hs henv).bind fun ht hv => ?_
    refine (testingAt_sealed hH hC hsite ht hv).bind fun {_ b} hu _ => ?_
    cases b with
    | true => exact ihx hu henv
    | false => exact ihy hu henv
  | @call _ _ _ _ _ args args' hsite _ hlen _ ihf ihargs =>
    refine (ihf hs henv).bind fun ht hf => ?_
    refine (runAll_sealed (fun code hcode {u} hu => ?_) ht).bind fun hu hvs =>
      happly hsite hu hf hvs
    obtain ⟨i, hi, rfl⟩ := List.getElem_of_mem hcode
    have hmem : (args[i], args'[i]) ∈ args.zip args' := by
      rw [← List.getElem_zip (h := by simpa [← hlen] using hi)]
      exact List.getElem_mem _
    exact ihargs _ hmem hu henv
  | abstraction hscope h =>
    exact .done (Z.noted hs (.mark .refl 1)) (Z.closure (.abstraction hscope h) henv)

/-- Calls keep to a sealing that the host keeps to, however deep they may nest. -/
theorem Host.Seals.caller (hH : host.Seals Z) (depth : Nat) :
    Z.Caller (Machine.callWithin host depth) := by
  induction depth with
  | zero => exact fun _ _ _ => .exhausted
  | succ depth ih =>
    intro s f args hs hf hargs
    by_cases hclosure : ∃ mark ps b env, f = .closure mark ps b env
    · obtain ⟨mark, ps, b, env, rfl⟩ := hclosure
      obtain ⟨S, ps', b', hmatches, henv⟩ := Z.of_closure hf
      by_cases hlen : args.length = ps.length
      · rw [callWithin_closure hlen]
        cases hmatches with
        | abstraction hscope hbody =>
          exact hbody.run_sealed hH ih hs (henv.extend hargs hlen fun p hp => (hscope p hp).2)
      · rw [Machine.callWithin, Host.apply, if_neg hlen]
        exact .raised hs (.failure P _)
    · exact hH.apply ih hs hf hargs fun mark ps b env h => hclosure ⟨mark, ps, b, env, h⟩

end

/-! ### Plain values -/

/-- A plain value, or a function whose environment provides what is free in its code. -/
inductive Value.PlainlySealed (K : Correspondence) (P : Parameter → Prop) : Value → Prop where
  | plain {v : Value} (h : v.isPlain = true) : PlainlySealed K P v
  | closure {S : Parameter → Prop} {mark : Nat} {ps ps' : List Parameter} {b b' : Code}
      {env : Environment} (code : Code.Matches K id S (.abstraction ps b) (.abstraction ps' b'))
      (good : ∀ p v, S p → env.get? p = some v → PlainlySealed K P v)
      (missed : ∀ p, S p → env.get? p = none → P p) : PlainlySealed K P (.closure mark ps b env)

/-- The sealing of plain values. -/
def Sealing.plain (K : Correspondence) (known : ∀ v, K.known v → v.isPlain = true)
    (P : Parameter → Prop) : Sealing K P where
  session _ := True
  value := Value.PlainlySealed K P
  noted _ _ := trivial
  compiled _ _ _ := trivial
  value_known hv := .plain (known _ hv)
  value_bool _ := .plain rfl
  closure code henv := .closure code henv.good henv.missed
  of_closure h := by
    cases h with
    | plain h => cases h
    | closure code good missed => exact ⟨_, _, _, code, good, missed⟩

/-- The operations of the plain host keep to every sealing of plain values. -/
theorem Host.plain_seals (K : Correspondence) (known : ∀ v, K.known v → v.isPlain = true)
    (P : Parameter → Prop) : Host.plain.Seals (Sealing.plain K known P) where
  apply := by
    intro c s f args _ _ hf hargs hclosure
    cases hf with
    | closure => exact absurd rfl (hclosure _ _ _ _)
    | plain h =>
      rcases Host.plain_apply h args c s with ⟨v, t, hrun, hv⟩ | ⟨g, hrun⟩
      · rw [hrun]
        exact .done trivial (hv.elim .plain (hargs v))
      · rw [hrun]
        exact .raised trivial (.failure P g)
  truth _ _ _ := .done trivial trivial
  member _ _ _ _ := .raised trivial (.failure P _)
  describe _ _ _ := .done trivial trivial
  spell _ _ _ := .done trivial trivial
  spellParameter _ _ _ := .done trivial trivial

end PredicateTree
