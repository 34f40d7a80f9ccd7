import PredicateTree.Proofs.Likeness.Basic
import PredicateTree.Proofs.Purity.Kinship

/-!
# Faults of two runs

Where two runs on the same both fail, their faults may have something in common: a relation between
faults, each of a session of its own (`Faults`).  Two runs concur (`Sameness.Concurs`) if they end
the same and their faults are so related.

Purity asks of faults that they are the same (`Sameness.Kinship.sameFaults`): of one class, with
causes of one class, at nodes that correspond.  Faults that are reported at nodes that correspond
are the same again (`Sameness.Kinship.reports_sameFaults`).
-/

namespace PredicateTree

/-- Two faults of one class, with causes of one class, at nodes that stand for one another, or at
none. -/
structure Fault.Same (site : Node → Node → Prop) (f g : Fault) : Prop extends f.Alike site g where
  subject_back : ∀ m, g.subject = some (.node m) → ∃ n, f.subject = some (.node n) ∧ site n m

theorem Fault.Same.mono {site site' : Node → Node → Prop} {f g : Fault} (h : f.Same site g)
    (imp : ∀ {n m}, site n m → site' n m) : f.Same site' g where
  errorClass := h.errorClass
  cause := h.cause
  subject n hn := by
    obtain ⟨m, hm, hsite⟩ := h.subject n hn
    exact ⟨m, hm, imp hsite⟩
  subject_back m hm := by
    obtain ⟨n, hn, hsite⟩ := h.subject_back m hm
    exact ⟨n, hn, imp hsite⟩

/-- Failures of one class are the same, since they are about no node. -/
theorem Fault.Same.failure {site : Node → Node → Prop} {f g : Failure}
    (h : (Fault.failure f).errorClass = (Fault.failure g).errorClass) :
    (Fault.failure f).Same site (.failure g) :=
  { Fault.Alike.failure h with subject_back := fun _ hm => nomatch hm }

/-- A fault as it is reported at a node: unchanged, or as the cause of a fault at the node. -/
inductive Fault.ReportedAs (passes : Fault → Bool) (n : Node) (f : Fault) : Fault → Prop where
  | passed (h : passes f = true) : ReportedAs passes n f f
  | wrapped (h : passes f = false) (shown : String) (activity : Activity) :
      ReportedAs passes n f (.failedAt n shown activity f)

/-- What two faults have in common, each in a session of its own. -/
abbrev Faults := Session → Session → Fault → Fault → Prop

/-- Where both of two runs fail, their faults have it in common. -/
def Faults.Between {α β : Type} (F : Faults) (o : Outcome α × Session) (o' : Outcome β × Session) :
    Prop :=
  ∀ {f g t t'}, o = (.raised f, t) → o' = (.raised g, t') → F t t' f g

namespace Sameness

/-! ### Runs that concur -/

section concurs

variable {α β γ δ : Type}

/-- Two runs end the same, and where both fail, their faults have something in common. -/
structure Concurs (S : Sameness) (s s' : Session) (E : Fault → Prop) (F : Faults)
    (P : Session → Session → α → β → Prop) (o : Outcome α × Session)
    (o' : Outcome β × Session) : Prop where
  ends : S.Ends s s' E P o o'
  faults : F.Between o o'

variable {S : Sameness} {s s' t t' : Session} {E : Fault → Prop} {F : Faults}
  {P : Session → Session → α → β → Prop} {R : Session → Session → γ → δ → Prop} {c c' : Caller}

namespace Concurs

theorem pure {a : α} {b : β} (h : P s s' a b) :
    S.Concurs s s' E F P ((Pure.pure a : Action α).run c s) ((Pure.pure b : Action β).run c' s') :=
  ⟨.pure h, fun hx => nomatch hx⟩

theorem done {a : α} {b : β} (hs : S.later s t) (hs' : S.later s' t') (h : P t t' a b) :
    S.Concurs s s' E F P (.done a, t) (.done b, t') :=
  ⟨.done hs hs' h, fun hx => nomatch hx⟩

theorem raised {f g : Fault} (hs : S.later s t) (hs' : S.later s' t') (hf : E f) (hg : E g)
    (h : F t t' f g) : S.Concurs s s' E F P (.raised f, t) (.raised g, t') := by
  refine ⟨.raised hs hs' hf hg, ?_⟩
  rintro _ _ _ _ ⟨⟩ ⟨⟩
  exact h

theorem exhausted : S.Concurs s s' E F P (.exhausted, t) (.exhausted, t') :=
  ⟨.exhausted, fun hx => nomatch hx⟩

theorem mono {R : Session → Session → α → β → Prop} {o : Outcome α × Session}
    {o' : Outcome β × Session} (h : S.Concurs s s' E F P o o')
    (imp : ∀ {t t' a b}, S.later s t → S.later s' t' → P t t' a b → R t t' a b) :
    S.Concurs s s' E F R o o' :=
  ⟨h.ends.mono imp, h.faults⟩

theorem earlier {o : Outcome α × Session} {o' : Outcome β × Session} (hs : S.later s t)
    (hs' : S.later s' t') (h : S.Concurs t t' E F P o o') : S.Concurs s s' E F P o o' :=
  ⟨h.ends.earlier hs hs', h.faults⟩

/-- What goes on in concurrence after runs that concur concurs. -/
theorem bind {x : Action α} {y : Action β} {k : α → Action γ} {l : β → Action δ}
    (hx : S.Concurs s s' E F P (x.run c s) (y.run c' s'))
    (hk : ∀ {t t' a b}, S.later s t → S.later s' t' → P t t' a b →
      S.Concurs t t' E F R ((k a).run c t) ((l b).run c' t')) :
    S.Concurs s s' E F R ((x >>= k).run c s) ((y >>= l).run c' s') := by
  refine ⟨hx.ends.bind fun ht ht' h => (hk ht ht' h).ends, ?_⟩
  obtain ⟨hends, hfaults⟩ := hx
  generalize hox : x.run c s = o at hends hfaults
  generalize hoy : y.run c' s' = o' at hends hfaults
  cases hends with
  | done ht ht' h =>
    rw [Action.run_bind_done hox, Action.run_bind_done hoy]
    exact (hk ht ht' h).faults
  | raised ht ht' =>
    rw [Action.run_bind_raised hox, Action.run_bind_raised hoy]
    rintro _ _ _ _ ⟨⟩ ⟨⟩
    exact hfaults rfl rfl
  | exhausted =>
    rw [Action.run_bind_exhausted hox]
    exact fun hx => nomatch hx

end Concurs

end concurs

/-! ### Faults at nodes that correspond -/

namespace Kinship

variable {S : Sameness} {K : S.Kinship}

/-- What faults have in common, they have still when they are reported at nodes that correspond, by
their classes alone. -/
def Reports (K : S.Kinship) (F₀ F : Faults) : Prop :=
  ∀ {passes : Fault → Bool}, (∀ {f g : Fault}, f.errorClass = g.errorClass → passes f = passes g) →
    ∀ {s s' t t' n m f g f' g'}, F₀ s s' f g → S.later s t → S.later s' t' → K.Akin t t' n m →
      f.ReportedAs passes n f' → g.ReportedAs passes m g' → F t t' f' g'

/-- The faults of two sessions that are the same. -/
def sameFaults (K : S.Kinship) : Faults := fun s t f g => f.Same (K.Akin s t) g

theorem reports_any : K.Reports (fun _ _ _ _ => True) (fun _ _ _ _ => True) :=
  fun _ _ _ _ _ _ _ _ _ _ _ _ _ _ _ _ _ => trivial

theorem reports_sameFaults : K.Reports K.sameFaults K.sameFaults := by
  intro passes hpasses s s' t t' n m f g f' g' hfg hst hst' hsite hf hg
  have hsame := hpasses hfg.errorClass
  cases hf with
  | passed hf =>
    cases hg with
    | passed => exact hfg.mono fun h => h.later hst hst'
    | wrapped hg => cases hf.symm.trans (hsame.trans hg)
  | wrapped hf =>
    cases hg with
    | passed hg => cases hf.symm.trans (hsame.trans hg)
    | wrapped =>
      refine ⟨⟨rfl, congrArg some hfg.errorClass, ?_⟩, ?_⟩
      · rintro _ ⟨⟩
        exact ⟨m, rfl, hsite⟩
      · rintro _ ⟨⟩
        exact ⟨n, rfl, hsite⟩

end Kinship

end Sameness

end PredicateTree
