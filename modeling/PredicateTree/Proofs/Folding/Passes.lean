import PredicateTree.Proofs.Folding.Containment
import PredicateTree.Proofs.Purity.Running

/-!
# What a folding pass leaves behind

Where everything that a pass runs is pure, what it did to a tree can be told from the outcomes of the
folds alone (`Node.PassedTo`): every node was rebuilt over what became of its children, and then left
alone, tried in vain, or replaced by its literal (`Node.SteppedTo`).  The step lemma
(`Machine.foldStep_passed`) gives by induction that a lenient pass ends in this way unless it runs out
of fuel (`Machine.foldConstants_passed`).
-/

namespace PredicateTree

variable {M : Machine} {S : Sameness} {overrides : List (Value × Value)} {foldCalls : Bool}
  {s t u : Session} {n r : Node} {ns rs : List Node}

/-! ### Pure machines -/

/-- What the passes of a machine run is pure, and the texts of the log can be made. -/
structure Machine.Pure (M : Machine) (S : Sameness) (overrides : List (Value × Value))
    (foldCalls : Bool) : Prop where
  host : M.host.Pure S (OperatorTable.standard.overridden overrides) foldCalls
  noteFolded : ∀ {s n r}, S.session s → S.Present s n → S.Present s r →
    ∃ t, (Action.note (.folded n r)).run M.caller s = (.done (), t) ∧ S.later s t
  noteLeft : ∀ {s n} (f : Fault), S.session s → S.Present s n →
    ∃ t, (Action.note (.leftUnfolded n f)).run M.caller s = (.done (), t) ∧ S.later s t

theorem Machine.Pure.withoutCalls (h : M.Pure S overrides true) (foldCalls : Bool) :
    M.Pure S overrides foldCalls :=
  { h with host := h.host.withoutCalls foldCalls }

/-! ### What is folded -/

theorem Node.not_foldable_literal {mark : Nat} {v : Value} {type : StaticType}
    (h : (Node.literal mark v type).foldable foldCalls = pure true) : False := by
  cases Action.pure_injective h

theorem Node.isLiteral_of_foldable (h : n.foldable foldCalls = pure true) :
    n.isLiteral = false := by
  cases n with
  | literal => exact (not_foldable_literal h).elim
  | _ => rfl

theorem Node.ground_of_foldable (hwf : n.WellFormed) (h : n.foldable foldCalls = pure true) :
    n.Ground foldCalls := by
  obtain ⟨b, hb, hground⟩ := foldable_eq foldCalls hwf
  exact hground (Action.pure_injective (hb.symm.trans h))

theorem Node.Ground.type_of_label (hg : n.Ground foldCalls) (label : S.Label s t n)
    (other : n.isLiteral = false) : S.type n.type := by
  cases hg with
  | literal => cases other
  | member => exact label.2
  | _ => exact label

/-- To try to fold trees that correspond concurs. -/
theorem Machine.fold_concurs_of_foldable {K : S.Kinship} {m : Node} {F₀ F : Faults}
    (hP : M.host.Pure S (OperatorTable.standard.overridden overrides) foldCalls)
    (hF : M.host.FailsWith K (OperatorTable.standard.overridden overrides) foldCalls F₀)
    (hR : K.Reports F₀ F) (hK : K.Reads M.host) (hv : OperatorTable.Valid overrides)
    (hs : S.session s) (ht : S.session t) (h : K.Akin s t n m)
    (fit : n.foldable foldCalls = pure true) :
    S.Concurs s t (·.isEvaluation = true) F S.Alike
      ((M.fold overrides (.node n)).run M.caller s)
      ((M.fold overrides (.node m)).run M.caller t) := by
  have hg := Node.ground_of_foldable h.wellFormed.1 fit
  have hg' := Node.ground_of_foldable h.wellFormed.2 ((h.foldable_eq foldCalls).trans fit)
  exact fold_concurs hP hF hR hK hv hg hg'
    (hg.type_of_label h.label.2.1 (Node.isLiteral_of_foldable fit)) hs ht h

/-- To try to fold trees that correspond ends the same. -/
theorem Machine.fold_ends_of_foldable {K : S.Kinship} {m : Node}
    (hP : M.host.Pure S (OperatorTable.standard.overridden overrides) foldCalls)
    (hK : K.Reads M.host) (hv : OperatorTable.Valid overrides) (hs : S.session s)
    (ht : S.session t) (h : K.Akin s t n m) (fit : n.foldable foldCalls = pure true) :
    S.Ends s t (·.isEvaluation = true) S.Alike ((M.fold overrides (.node n)).run M.caller s)
      ((M.fold overrides (.node m)).run M.caller t) :=
  (fold_concurs_of_foldable hP (M.host.failsWith_any K _ foldCalls)
    Sameness.Kinship.reports_any hK hv hs ht h fit).ends

/-- What is folded becomes a literal that was just made. -/
theorem Machine.literal_of_fold {c : Caller} (hwf : n.WellFormed)
    (fit : n.foldable foldCalls = pure true) (hv : OperatorTable.Valid overrides)
    (hrun : (M.fold overrides (.node n)).run c s = (.done r, t)) :
    ∃ mark v type, r = .literal mark v type ∧ mark < t.nextMark := by
  obtain ⟨_, _, w, u, type, -, -, rfl, rfl⟩ :=
    fold_done (Node.ground_of_foldable hwf fit).owned hv hrun
  exact ⟨u.nextMark, w, type, rfl, Nat.lt_succ_self u.nextMark⟩

/-! ### What became of a tree -/

/-- What a pass, by the session `s`, made of a node over its new children: it left the node alone or
tried to fold it. -/
inductive Node.SteppedTo (M : Machine) (S : Sameness) (overrides : List (Value × Value))
    (foldCalls : Bool) (s : Session) (n : Node) : Node → Prop where
  | kept (unfit : n.foldable foldCalls = pure false) : SteppedTo M S overrides foldCalls s n n
  | failed {u v : Session} {f : Fault} (fit : n.foldable foldCalls = pure true)
      (hu : S.session u) (present : S.Present u n)
      (run : (M.fold overrides (.node n)).run M.caller u = (.raised f, v)) (past : S.later u s) :
      SteppedTo M S overrides foldCalls s n n
  | folded {u v : Session} {r : Node} (fit : n.foldable foldCalls = pure true)
      (hu : S.session u) (present : S.Present u n)
      (run : (M.fold overrides (.node n)).run M.caller u = (.done r, v)) (lasted : S.later u v)
      (past : S.later v s) : SteppedTo M S overrides foldCalls s n r

/-- What a pass, by the session `s`, made of a tree. -/
inductive Node.PassedTo (M : Machine) (S : Sameness) (overrides : List (Value × Value))
    (foldCalls : Bool) (s : Session) : Node → Node → Prop where
  | intro {n r : Node} {ns rs : List Node} (children : n.childNodes = .ok ns)
      (length : ns.length = rs.length)
      (each : ∀ e ∈ ns.zip rs, PassedTo M S overrides foldCalls s e.1 e.2) (mark row : Nat)
      (step : (n.upon mark row (rs.map .node)).SteppedTo M S overrides foldCalls s r) :
      PassedTo M S overrides foldCalls s n r

/-- A tree and what a pass made of it by the session `s`: a tree that was made before, and that stands
for the old one only if it is that tree. -/
structure Node.Passed (M : Machine) (S : Sameness) (overrides : List (Value × Value))
    (foldCalls : Bool) (s : Session) (n r : Node) : Prop where
  present : S.Present s r
  older : r.All (·.Older s)
  told : n.identical r = true → r = n
  passedTo : n.PassedTo M S overrides foldCalls s r

namespace Node

theorem SteppedTo.later (h : n.SteppedTo M S overrides foldCalls s r) (hs : S.later s t) :
    n.SteppedTo M S overrides foldCalls t r := by
  cases h with
  | kept unfit => exact .kept unfit
  | failed fit hu present run past => exact .failed fit hu present run (S.order.trans past hs)
  | folded fit hu present run lasted past =>
    exact .folded fit hu present run lasted (S.order.trans past hs)

theorem SteppedTo.fits (h : n.SteppedTo M S overrides foldCalls s r) : n.Fits r := by
  rintro p rfl
  cases h with
  | kept | failed => exact ⟨p, rfl⟩
  | folded fit => cases Action.pure_injective fit

/-- Of a literal a step makes nothing else. -/
theorem SteppedTo.of_literal {mark : Nat} {v : Value} {type : StaticType}
    (h : (Node.literal mark v type).SteppedTo M S overrides foldCalls s r) :
    r = .literal mark v type := by
  cases h with
  | kept | failed => rfl
  | folded fit => exact (not_foldable_literal fit).elim

namespace PassedTo

theorem later (h : n.PassedTo M S overrides foldCalls s r) (hs : S.later s t) :
    n.PassedTo M S overrides foldCalls t r := by
  induction h with
  | intro children length _ mark row step ih =>
    exact .intro children length ih mark row (step.later hs)

theorem fits (h : n.PassedTo M S overrides foldCalls s r) : n.Fits r := by
  rintro p rfl
  cases h with
  | intro _ _ _ _ _ step => exact step.fits p rfl

theorem exists_step (h : n.PassedTo M S overrides foldCalls s r) (hn : n.childNodes = .ok ns) :
    ∃ rs mark row, List.Forall₂ (PassedTo M S overrides foldCalls s) ns rs ∧
      (n.upon mark row (rs.map .node)).SteppedTo M S overrides foldCalls s r := by
  cases h with
  | intro children length each mark row step =>
    cases hn.symm.trans children
    exact ⟨_, mark, row, forall₂_of_zip length each, step⟩

/-- Of a literal a pass makes nothing else. -/
theorem of_literal {mark : Nat} {v : Value} {type : StaticType}
    (h : (Node.literal mark v type).PassedTo M S overrides foldCalls s r) :
    r = .literal mark v type := by
  obtain ⟨rs, _, _, hrs, step⟩ := h.exists_step rfl
  cases hrs
  exact step.of_literal

end PassedTo

theorem Older.later (h : n.Older s) (hs : S.later s t) : n.Older t :=
  h.mono (S.nextMark_le hs)

theorem Passed.replaced (h : n.Passed M S overrides foldCalls s r) : n.Replaced s r :=
  ⟨h.older, h.told, h.passedTo.fits⟩

theorem Replaced.later (h : n.Replaced s r) (hs : S.later s t) : n.Replaced t r :=
  h.mono (S.nextMark_le hs)

theorem Passed.later (h : n.Passed M S overrides foldCalls s r) (hs : S.later s t) :
    n.Passed M S overrides foldCalls t r :=
  ⟨Sameness.Alike.later h.present hs hs, h.older.mono fun _ h => h.later hs, h.told,
    h.passedTo.later hs⟩

end Node

/-- What a node that was tried has become stands for it: the node itself, or a literal that was just
made. -/
theorem Node.Replaced.tried {mark row : Nat} {vs : List Value}
    (h : n.Replaced s (n.upon mark row vs)) (hs : s.nextMark ≤ t.nextMark)
    (fit : (n.upon mark row vs).foldable foldCalls = pure true)
    (hr : r = n.upon mark row vs ∨ r.isLiteral = true ∧ r.Older t) : n.Replaced t r := by
  rcases hr with rfl | ⟨hliteral, hold⟩
  · exact h.mono hs
  · refine ⟨.intro [] (childNodes_of_isLiteral hliteral) hold (by simp), fun hid => ?_, ?_⟩
    · have hcurrent := isLiteral_of_foldable fit
      rw [Sameness.isLiteral_upon, isLiteral_of_identical hid hliteral] at hcurrent
      cases hcurrent
    · rintro p rfl
      cases Action.pure_injective fit

/-! ### Steps -/

/-- What is true, by a session, of the steps that a pass has recorded and of the nodes that it has left
in place. -/
abbrev Records := Session → List Value → List Value → Prop

/-- Records that stand as time goes by, and that stand whatever a pass records. -/
structure Records.Stand (R : Records) (S : Sameness) (foldCalls : Bool) : Prop where
  later : ∀ {s t steps skipped}, R s steps skipped → S.later s t → R t steps skipped
  step : ∀ {s t steps skipped c n v step}, n.Ground foldCalls → R s steps skipped →
    (newFoldStep (.node n) v).run c s = (.done step, t) → R t (step :: steps) skipped
  skip : ∀ {s steps skipped n}, n.Ground foldCalls → R s steps skipped →
    R s steps (.node n :: skipped)

theorem Records.stand_of_any (S : Sameness) (foldCalls : Bool) :
    Records.Stand (fun _ _ _ => True) S foldCalls :=
  ⟨fun _ _ => trivial, fun _ _ _ => trivial, fun _ _ => trivial⟩

/-- No step was recorded. -/
def Records.noStep : Records := fun _ steps _ => steps = []

/-- What a part of a pass ends with: a result that `post` is true of and records as they should be, or
no fuel, if the pass may run out of it. -/
inductive PassEnds {α : Type} (spent : Prop) (R : Records) (post : α → Session → Prop) :
    Outcome (α × FoldTrace) × Session → Prop where
  | done {a : α} {trace : FoldTrace} {t : Session} (h : post a t)
      (records : R t trace.steps trace.skipped) : PassEnds spent R post (.done (a, trace), t)
  | exhausted {t : Session} (h : spent) : PassEnds spent R post (.exhausted, t)

/-- A pass ends, and never with a fault, and keeps its records as they should be. -/
def Judgement.passing (c : Caller) (spent : Prop) (R : Records) :
    Judgement (StateT FoldTrace Action) where
  holds x s post := ∀ trace, R s trace.steps trace.skipped →
    PassEnds spent R post ((x.run trace).run c s)
  pure h _ hR := .done h hR
  bind {α β x k s post} h trace hR := by
    rw [StateT.run_bind]
    have hx := h trace hR
    generalize ho : (x.run trace).run c s = o at hx
    cases hx with
    | @done a trace' t ha hR' =>
      rw [Action.run_bind_done ho]
      exact ha trace' hR'
    | exhausted hspent =>
      rw [Action.run_bind_exhausted ho]
      exact .exhausted hspent
  mono {α x s post post'} h imp trace hR := by
    have hx := h trace hR
    generalize (x.run trace).run c s = o at hx
    cases hx with
    | done ha hR' => exact .done (imp _ _ ha) hR'
    | exhausted hspent => exact .exhausted hspent

namespace Machine

theorem newFoldStep_run (before after : Value) (c : Caller) (s : Session) :
    ∃ address t, (newFoldStep before after).run c s = (.done (.object address), t) ∧ s.Noted t ∧
      t.store.attribute? (.object address) "before" = some before := by
  refine ⟨_, _, rfl, .object .refl _, ?_⟩
  simp [Store.attribute?, Store.attributes, Store.object, Store.withObject]

/-- What can be folded is folded by any pass, which records the step. -/
theorem tryFold_of_folded (options : FoldOptions)
    (hP : M.Pure S options.overrides options.foldCalls) (hu : S.session u) (present : S.Present u n)
    (hr : S.Present u r) (hrun : (M.fold options.overrides (.node n)).run M.caller s = (.done r, u))
    (trace : FoldTrace) : ∃ v step t, S.later u v ∧ S.later v t ∧
      (newFoldStep (.node n) (.node r)).run M.caller v = (.done step, t) ∧ t.Recorded step n r ∧
      (M.tryFold options n trace).run M.caller s = (.done (r, trace.addStep step), t) := by
  obtain ⟨v, hnote, huv⟩ := hP.noteFolded hu present hr
  obtain ⟨step, t, hstep, hvt, hrecorded⟩ := newFoldStep_recorded n r M.caller v
  refine ⟨v, step, t, huv, S.order.noted hvt, hstep, hrecorded, ?_⟩
  rw [tryFold_of_done trace hrun, Action.run_bind_done hnote, Action.run_bind_done hstep]
  rfl

/-- What cannot be folded is left in place by a lenient pass. -/
theorem tryFold_of_failed (options : FoldOptions)
    (hP : M.Pure S options.overrides options.foldCalls) (hu : S.session u) (present : S.Present u n)
    {f : Fault} (hf : f.isEvaluation = true) (lenient : options.strict = false)
    (hrun : (M.fold options.overrides (.node n)).run M.caller s = (.raised f, u))
    (trace : FoldTrace) : ∃ t, S.later u t ∧
      (M.tryFold options n trace).run M.caller s = (.done (n, trace.skip n), t) := by
  obtain ⟨t, hnote, hut⟩ := hP.noteLeft f hu present
  refine ⟨t, hut, ?_⟩
  rw [tryFold_of_raised trace hrun, if_pos ⟨hf, lenient⟩, Action.run_bind_done hnote]
  rfl

theorem tryFold_passed (hP : M.Pure S overrides foldCalls) (hv : OperatorTable.Valid overrides)
    {current : Node} (hs : S.session s) (present : S.Present s current)
    (fit : current.foldable foldCalls = pure true) {spent : Prop}
    (hspent : ∀ t, (M.fold overrides (.node current)).run M.caller s = (.exhausted, t) → spent)
    {R : Records} (hR : R.Stand S foldCalls) (trace : FoldTrace)
    (hbefore : R s trace.steps trace.skipped) :
    PassEnds spent R (fun r t => S.later s t ∧ S.Present t r ∧
        current.SteppedTo M S overrides foldCalls t r ∧
          (r = current ∨ r.isLiteral = true ∧ r.Older t))
      ((M.tryFold ⟨false, foldCalls, overrides⟩ current trace).run M.caller s) := by
  have hground := Node.ground_of_foldable present.wellFormed.1 fit
  have hends := fold_ends_of_foldable (M := M) hP.host hP.host.reads hv hs hs present.akin fit
  generalize ho : (M.fold overrides (.node current)).run M.caller s = o at hends
  cases hends with
  | @done u _ r _ hsu _ hr =>
    obtain ⟨mark, w, type, rfl, hmark⟩ := literal_of_fold present.wellFormed.1 fit hv ho
    have hold : (Node.literal mark w type).Older u := fun _ => hmark
    obtain ⟨v, step, x, huv, hvx, hstep, -, htry⟩ := tryFold_of_folded ⟨false, foldCalls, overrides⟩
      hP (S.session_later hs hsu) (present.later hsu hsu) hr ho trace
    have hux := S.order.trans huv hvx
    rw [htry]
    exact .done ⟨S.order.trans hsu hux, hr.later hux hux, .folded fit hs present ho hsu hux,
      .inr ⟨rfl, hold.later hux⟩⟩
      (hR.step hground (hR.later hbefore (S.order.trans hsu huv)) hstep)
  | @raised u _ f _ hsu _ hf =>
    have hu := present.later hsu hsu
    obtain ⟨v, huv, htry⟩ := tryFold_of_failed ⟨false, foldCalls, overrides⟩ hP
      (S.session_later hs hsu) hu hf rfl ho trace
    have hsv : S.later s v := S.order.trans hsu huv
    rw [htry]
    exact .done ⟨hsv, hu.later huv huv, .failed fit hs present ho hsv, .inl rfl⟩
      (hR.skip hground (hR.later hbefore hsv))
  | exhausted =>
    have htry : (M.tryFold ⟨false, foldCalls, overrides⟩ current trace).run M.caller s = _ :=
      tryFold_of_exhausted trace ho
    rw [htry]
    exact .exhausted (hspent _ ho)

/-- A step of a pass does to a node what a pass does to trees, unless it runs out of fuel. -/
theorem foldStep_passed (hP : M.Pure S overrides foldCalls) (hv : OperatorTable.Valid overrides)
    (hn : n.childNodes = .ok ns) (label : S.Label s s n) (hold : n.Older s) (hs : S.session s)
    (hrs : List.Forall₂ (Node.Passed M S overrides foldCalls s) ns rs) {spent : Prop}
    (hspent : ∀ mark row u t, S.later s u → S.Present u (n.upon mark row (rs.map .node)) →
      (n.upon mark row (rs.map .node)).foldable foldCalls = pure true →
      (M.fold overrides (.node (n.upon mark row (rs.map .node)))).run M.caller u =
        (.exhausted, t) → spent) {R : Records} (hR : R.Stand S foldCalls) :
    (Judgement.passing M.caller spent R).holds
      (M.foldStep ⟨false, foldCalls, overrides⟩ n rs) s fun r t =>
        S.later s t ∧ n.Passed M S overrides foldCalls t r := by
  intro trace hbefore
  have hfits : List.Forall₂ Node.Fits ns rs := hrs.imp fun _ _ h => h.passedTo.fits
  have hpassed := hrs.imp fun _ _ h => h.passedTo
  obtain ⟨mark, row, used, hcurrent, hreplaced⟩ :=
    Node.withChildren_replaced hn hold (hrs.imp fun _ _ h => h.replaced) M.caller
  have hsu : S.later s (s.marked used) := S.order.noted (.mark .refl used)
  have present : S.Present (s.marked used) (n.upon mark row (rs.map .node)) := by
    refine Sameness.Alike.rebuilt hn (label.later hsu hsu) hfits ?_ mark row mark row
    refine List.forall₂_same.2 (forall_of_forall₂ hrs fun _ _ r hr => ?_)
    exact Sameness.Alike.later hr.present hsu hsu
  have passedTo {u : Session} {r : Node} (hu : S.later s u)
      (step : (n.upon mark row (rs.map .node)).SteppedTo M S overrides foldCalls u r) :
      n.PassedTo M S overrides foldCalls u r := by
    refine .intro hn hrs.length_eq (fun e he => ?_) mark row step
    exact (zip_of_forall₂ hpassed _ he).later hu
  obtain ⟨b, hb, -⟩ := Node.foldable_eq foldCalls present.wellFormed.1
  rw [foldStep_eq, Action.run_bind_done hcurrent, hb, pure_bind]
  cases b with
  | false =>
    exact .done ⟨hsu, present, hreplaced.older, hreplaced.told, passedTo hsu (.kept hb)⟩
      (hR.later hbefore hsu)
  | true =>
    rw [if_pos rfl]
    have htry := tryFold_passed hP hv (S.session_later hs hsu) present hb
      (fun t => hspent mark row _ t hsu present hb) hR trace (hR.later hbefore hsu)
    generalize (M.tryFold _ _ trace).run M.caller _ = o at htry ⊢
    cases htry with
    | done h records =>
      obtain ⟨hut, hr, step, hcase⟩ := h
      have hdone := hreplaced.tried (S.nextMark_le hut) hb hcase
      have hst := S.order.trans hsu hut
      exact .done ⟨hst, hr, hdone.older, hdone.told, passedTo hst step⟩ records
    | exhausted h => exact .exhausted h

/-! ### Passes -/

/-- A pass over a tree does to it what passes do, unless it runs out of fuel. -/
theorem foldTree_passed (hP : M.Pure S overrides foldCalls) (hv : OperatorTable.Valid overrides)
    (hs : S.session s) (hold : n.All (·.Older s)) (labels : n.All (S.Label s s)) {R : Records}
    (hR : R.Stand S foldCalls) : (Judgement.passing M.caller True R).holds
      (foldTree (M.foldStep ⟨false, foldCalls, overrides⟩) (.node n)) s fun r t =>
        S.later s t ∧ n.Passed M S overrides foldCalls t r := by
  refine (Judgement.passing M.caller True R).foldTree S.later
    (fun t => Node.Passed M S overrides foldCalls t) S.later_refl S.order.trans
    (fun hs h => h.later hs) s (P := fun m => m.Older s ∧ S.Label s s m) (fun hn hall hu hrs => ?_)
    (hold.and labels) (S.later_refl s)
  exact foldStep_passed hP hv hn (hall.holds.2.later hu hu) (hall.holds.1.later hu)
    (S.session_later hs hu) hrs (fun _ _ _ _ _ _ _ _ => trivial) hR

/-- A pass ends like the work on its tree. -/
theorem foldConstants_passEnds {options : FoldOptions} {spent : Prop} {R : Records}
    {post : Node → Session → Prop}
    (h : (Judgement.passing M.caller spent R).holds
      (foldTree (M.foldStep options) (.node n)) s post) (hR : R s [] []) :
    PassEnds spent R post ((M.foldConstants options (.node n)).run M.caller s) := by
  have htree := h { initial := .node n } hR
  generalize ho : ((foldTree (M.foldStep options) (.node n)).run
    { initial := .node n }).run M.caller s = o at htree
  cases htree with
  | done hr records =>
    rw [foldConstants, Action.run_bind_done ho]
    exact .done hr records
  | exhausted hspent =>
    rw [foldConstants, Action.run_bind_exhausted ho]
    exact .exhausted hspent

/-- A lenient pass ends with what passes make of a tree, unless it runs out of fuel. -/
theorem foldConstants_passed (hP : M.Pure S overrides foldCalls)
    (hv : OperatorTable.Valid overrides) (hs : S.session s) (hold : n.All (·.Older s))
    (labels : n.All (S.Label s s)) {R : Records} (hR : R.Stand S foldCalls) (hstart : R s [] []) :
    PassEnds True R (fun r t => S.later s t ∧ n.Passed M S overrides foldCalls t r)
      ((M.foldConstants ⟨false, foldCalls, overrides⟩ (.node n)).run M.caller s) :=
  foldConstants_passEnds (foldTree_passed hP hv hs hold labels hR) hstart

end Machine

end PredicateTree
