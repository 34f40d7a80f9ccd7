import PredicateTree.Proofs.Folding.Accounting
import PredicateTree.Proofs.Folding.Lockstep

/-!
# Strict passes beside lenient ones

A strict pass does what a lenient one does up to the first failure, and there it ends with the fault
(`Machine.foldConstants_strict`).  The two need not run in the same sessions, if what they run is
pure.  Up to the failure they go abreast; from then on only the lenient one goes on, and whatever it
does, the node that failed first stays the first one that it has left in place
(`Records.firstSkipped`).  `Machine.Beside` says so of a part of the passes, and is kept when parts
are put together.
-/

namespace PredicateTree

variable {M : Machine} {S : Sameness} {overrides : List (Value × Value)} {foldCalls : Bool}
  {s s' t t' u u' : Session} {n m k : Node} {ns ms rs rs' : List Node}

/-! ### Records -/

/-- Two steps, each recorded in a session of its own, tell of trees that are the same. -/
def Sameness.StepsAkin (S : Sameness) (s t : Session) (step step' : Value) : Prop :=
  ∃ before after before' after', s.Recorded step before after ∧ t.Recorded step' before' after' ∧
    (Kinship.same S).Akin s t before before' ∧ (Kinship.same S).Akin s t after after'

theorem Sameness.StepsAkin.later (hkeeps : ∀ {s t}, S.later s t → s.KeepsSteps t)
    {step step' : Value} (h : S.StepsAkin s s' step step') (hs : S.later s t)
    (hs' : S.later s' t') : S.StepsAkin t t' step step' := by
  obtain ⟨before, after, before', after', hrecorded, hrecorded', hbefore, hafter⟩ := h
  exact ⟨before, after, before', after', hrecorded.later (hkeeps hs),
    hrecorded'.later (hkeeps hs'), hbefore.later hs hs', hafter.later hs hs'⟩

/-- Since a node `k` was tried in the session `u`, other nodes may have been left in place, but
before it only some others were. -/
def Records.firstSkipped (S : Sameness) (u : Session) (k : Node) (others : List Value) : Records :=
  fun t _ skipped => S.later u t ∧ ∃ rest, skipped = rest ++ .node k :: others

theorem Records.firstSkipped_stand (u : Session) (k : Node) (others : List Value) :
    (firstSkipped S u k others).Stand S foldCalls where
  later h hst := ⟨S.order.trans h.1 hst, h.2⟩
  step {s t steps skipped c n v step} _ h hrun := by
    obtain ⟨_, _, hdone, hst, -⟩ := Machine.newFoldStep_run (.node n) v c s
    cases hdone.symm.trans hrun
    exact ⟨S.order.trans h.1 (S.order.noted hst), h.2⟩
  skip {s steps skipped n} _ h := by
    obtain ⟨hlater, rest, rfl⟩ := h
    exact ⟨hlater, .node n :: rest, rfl⟩

/-! ### Passes side by side -/

namespace Machine

/-- A fault that a strict pass ends with, in the session `t`: that of a node which is the same as
`k`, that a lenient pass tried in the session `u`. -/
structure Breaks (M : Machine) (S : Sameness) (overrides : List (Value × Value)) (foldCalls : Bool)
    (u : Session) (k : Node) (t : Session) (f : Fault) : Prop where
  evaluation : f.isEvaluation = true
  session : S.session u
  fit : k.foldable foldCalls = pure true
  run : ∃ k' u', S.session u' ∧ (Sameness.Kinship.same S).Akin u u' k k' ∧
    (M.fold overrides (.node k')).run M.caller u' = (.raised f, t)

section beside

variable {α β γ δ : Type} {P : Session → Session → α → β → Prop}
  {Q : Session → Session → γ → δ → Prop} {post : α → Session → Prop} {post' : γ → Session → Prop}

/-- How parts of a lenient and of a strict pass end, begun in the sessions `s` and `s'`: with
results in the relation `P`, where the lenient one left nothing in place, or the strict one with the
fault of what the lenient one left in place first, or both out of fuel. -/
inductive EndsBeside (M : Machine) (S : Sameness) (overrides : List (Value × Value))
    (foldCalls : Bool) (s s' : Session) (skipped : List Value)
    (P : Session → Session → α → β → Prop) :
    Outcome (α × FoldTrace) × Session → Outcome (β × FoldTrace) × Session → Prop where
  | done {a : α} {b : β} {trace trace' : FoldTrace} {t t' : Session} (hs : S.later s t)
      (hs' : S.later s' t') (h : P t t' a b)
      (steps : List.Forall₂ (S.StepsAkin t t') trace.steps trace'.steps)
      (none : trace.skipped = skipped) :
      EndsBeside M S overrides foldCalls s s' skipped P (.done (a, trace), t)
        (.done (b, trace'), t')
  | broken {o : Outcome (α × FoldTrace) × Session} {u t' : Session} {k : Node} {f : Fault}
      (hs' : S.later s' t') (breaks : M.Breaks S overrides foldCalls u k t' f)
      (first : ∀ {a trace t}, o = (.done (a, trace), t) →
        Records.firstSkipped S u k skipped t trace.steps trace.skipped) :
      EndsBeside M S overrides foldCalls s s' skipped P o (.raised f, t')
  | exhausted {t t' : Session} :
      EndsBeside M S overrides foldCalls s s' skipped P (.exhausted, t) (.exhausted, t')

/-- A part of a lenient pass ends like any part of a pass, and a part of a strict pass ends as it
should beside it, if the steps so far are the same. -/
structure Beside (M : Machine) (S : Sameness) (overrides : List (Value × Value)) (foldCalls : Bool)
    (s s' : Session) (post : α → Session → Prop) (P : Session → Session → α → β → Prop)
    (x : StateT FoldTrace Action α) (y : StateT FoldTrace Action β) : Prop where
  passes : ∀ {R : Records}, R.Stand S foldCalls →
    (Judgement.passing M.caller True R).holds x s post
  ends : ∀ trace trace', List.Forall₂ (S.StepsAkin s s') trace.steps trace'.steps →
    M.EndsBeside S overrides foldCalls s s' trace.skipped P ((x.run trace).run M.caller s)
      ((y.run trace').run M.caller s')

namespace EndsBeside

variable {skipped : List Value} {o : Outcome (α × FoldTrace) × Session}
  {o' : Outcome (β × FoldTrace) × Session}

theorem earlier (hs : S.later s t) (hs' : S.later s' t')
    (h : M.EndsBeside S overrides foldCalls t t' skipped P o o') :
    M.EndsBeside S overrides foldCalls s s' skipped P o o' := by
  cases h with
  | done ht ht' h steps none =>
    exact .done (S.order.trans hs ht) (S.order.trans hs' ht') h steps none
  | broken ht' breaks first => exact .broken (S.order.trans hs' ht') breaks first
  | exhausted => exact .exhausted

theorem mono {R : Session → Session → α → β → Prop}
    (h : M.EndsBeside S overrides foldCalls s s' skipped P o o')
    (imp : ∀ {t t' a b}, S.later s t → S.later s' t' → P t t' a b → R t t' a b) :
    M.EndsBeside S overrides foldCalls s s' skipped R o o' := by
  cases h with
  | done ht ht' h steps none => exact .done ht ht' (imp ht ht' h) steps none
  | broken ht' breaks first => exact .broken ht' breaks first
  | exhausted => exact .exhausted

end EndsBeside

namespace Beside

theorem pure {a : α} {b : β} (hpost : post a s) (h : P s s' a b) :
    M.Beside S overrides foldCalls s s' post P (Pure.pure a) (Pure.pure b) :=
  ⟨fun _ => (Judgement.passing M.caller True _).pure hpost,
    fun _ _ hsteps => .done (S.later_refl s) (S.later_refl s') h hsteps rfl⟩

/-- Parts that go on beside one another do so one after the other.  Where the strict pass has ended,
the lenient one goes on alone. -/
theorem bind {x : StateT FoldTrace Action α} {y : StateT FoldTrace Action β}
    {k : α → StateT FoldTrace Action γ} {l : β → StateT FoldTrace Action δ}
    (hx : M.Beside S overrides foldCalls s s' post P x y)
    (hpasses : ∀ {R : Records}, R.Stand S foldCalls → ∀ a t, post a t →
      (Judgement.passing M.caller True R).holds (k a) t post')
    (hk : ∀ {t t' a b}, S.later s t → S.later s' t' → post a t → P t t' a b →
      M.Beside S overrides foldCalls t t' post' Q (k a) (l b)) :
    M.Beside S overrides foldCalls s s' post' Q (x >>= k) (y >>= l) := by
  refine ⟨fun hR => (Judgement.passing M.caller True _).bind
    ((Judgement.passing M.caller True _).mono (hx.passes hR) (hpasses hR)), ?_⟩
  intro trace trace' hsteps
  have hpass := hx.passes (Records.stand_of_any S foldCalls) trace trivial
  have hends := hx.ends trace trace' hsteps
  rw [StateT.run_bind, StateT.run_bind]
  generalize hox : (x.run trace).run M.caller s = o at hpass hends
  generalize hoy : (y.run trace').run M.caller s' = o' at hends
  cases hends with
  | done hs hs' h steps none =>
    cases hpass with
    | done hpost =>
      have hrest := (hk hs hs' hpost h).ends _ _ steps
      rw [none] at hrest
      rw [Action.run_bind_done hox, Action.run_bind_done hoy]
      exact hrest.earlier hs hs'
  | broken hs' breaks first =>
    rw [Action.run_bind_raised hoy]
    cases hpass with
    | done hpost =>
      rw [Action.run_bind_done hox]
      refine .broken hs' breaks fun hrun => ?_
      have hrest := hpasses (Records.firstSkipped_stand _ _ _) _ _ hpost _ (first rfl)
      rw [hrun] at hrest
      cases hrest with
      | done _ records => exact records
    | exhausted =>
      rw [Action.run_bind_exhausted hox]
      exact .broken hs' breaks fun hrun => nomatch hrun
  | exhausted =>
    rw [Action.run_bind_exhausted hox, Action.run_bind_exhausted hoy]
    exact .exhausted

end Beside

end beside

/-! ### Steps -/

/-- What passes make of the children of two nodes. -/
theorem mapM_beside {g h : Node → StateT FoldTrace Action Node} (length : ns.length = ms.length)
    (each : ∀ e ∈ ns.zip ms, ∀ {t t'}, S.later s t → S.later s' t' →
      M.Beside S overrides foldCalls t t'
        (fun r u => S.later t u ∧ e.1.Passed M S overrides foldCalls u r)
        (fun u u' r r' => (Sameness.Kinship.same S).Akin u u' r r' ∧ e.2.Replaced u' r')
        (g e.1) (h e.2))
    (ht : S.later s t) (ht' : S.later s' t') :
    M.Beside S overrides foldCalls t t'
      (fun rs u => S.later t u ∧ List.Forall₂ (Node.Passed M S overrides foldCalls u) ns rs)
      (fun u u' rs rs' => List.Forall₂ ((Sameness.Kinship.same S).Akin u u') rs rs' ∧
        List.Forall₂ (Node.Replaced u') ms rs')
      (ns.mapM g) (ms.mapM h) := by
  induction ns generalizing ms t t' with
  | nil =>
    cases ms with
    | nil => exact .pure ⟨S.later_refl t, .nil⟩ ⟨.nil, .nil⟩
    | cons => cases length
  | cons n ns ih =>
    cases ms with
    | nil => cases length
    | cons m ms =>
      rw [List.mapM_cons, List.mapM_cons]
      have hrest {u u' : Session} (hu : S.later t u) (hu' : S.later t' u') :=
        ih (Nat.succ.inj length) (fun e he => each e (List.mem_cons_of_mem _ he))
          (S.order.trans ht hu) (S.order.trans ht' hu')
      have hcons {R : Records} (_ : R.Stand S foldCalls) {r : Node} {u : Session}
          (hr : S.later t u ∧ n.Passed M S overrides foldCalls u r) (rs : List Node) (v : Session)
          (hrs : S.later u v ∧ List.Forall₂ (Node.Passed M S overrides foldCalls v) ns rs) :
          (Judgement.passing M.caller True R).holds (Pure.pure (r :: rs)) v fun rs v =>
            S.later t v ∧ List.Forall₂ (Node.Passed M S overrides foldCalls v) (n :: ns) rs :=
        (Judgement.passing M.caller True R).pure
          ⟨S.order.trans hr.1 hrs.1, .cons (hr.2.later hrs.1) hrs.2⟩
      refine (each (n, m) List.mem_cons_self ht ht').bind (fun hR r u hr => ?_)
        fun hu hu' hr hrr' => ?_
      · exact (Judgement.passing M.caller True _).bind ((Judgement.passing M.caller True _).mono
          ((hrest hr.1 (S.later_refl t')).passes hR) (hcons hR hr))
      · refine (hrest hu hu').bind (fun hR => hcons hR hr) fun hw hw' hrs hrrs' => ?_
        exact .pure ⟨S.order.trans hr.1 hrs.1, .cons (hr.2.later hrs.1) hrs.2⟩
          ⟨.cons (hrr'.1.later hw hw') hrrs'.1, .cons (hrr'.2.later hw') hrrs'.2⟩

section

variable (hP : M.Pure S overrides foldCalls) (hv : OperatorTable.Valid overrides)
  (hkeeps : ∀ {s t}, S.later s t → s.KeepsSteps t)

include hP hv hkeeps

/-- To try to fold nodes that are the same succeeds with literals that are the same, or breaks the
strict pass. -/
theorem tryFold_endsBeside (hs : S.session s) (hs' : S.session s')
    (h : (Sameness.Kinship.same S).Akin s s' n m) (fit : n.foldable foldCalls = pure true)
    (trace trace' : FoldTrace)
    (hsteps : List.Forall₂ (S.StepsAkin s s') trace.steps trace'.steps) :
    M.EndsBeside S overrides foldCalls s s' trace.skipped
      (fun t t' r r' => (Sameness.Kinship.same S).Akin t t' r r' ∧
        (r' = m ∨ r'.isLiteral = true ∧ r'.Older t'))
      ((M.tryFold ⟨false, foldCalls, overrides⟩ n trace).run M.caller s)
      ((M.tryFold ⟨true, foldCalls, overrides⟩ m trace').run M.caller s') := by
  have hfit : m.foldable foldCalls = pure true := (h.foldable_eq _).trans fit
  have hends := fold_ends_of_foldable (M := M) hP.host hP.host.reads hv hs hs' h fit
  generalize ho : (M.fold overrides (.node n)).run M.caller s = o at hends
  generalize ho' : (M.fold overrides (.node m)).run M.caller s' = o' at hends
  cases hends with
  | @done u u' r r' hsu hsu' hr =>
    obtain ⟨mark, w, type, rfl, -⟩ := literal_of_fold h.wellFormed.1 fit hv ho
    obtain ⟨mark', w', type', rfl, hmark'⟩ := literal_of_fold h.wellFormed.2 hfit hv ho'
    have hold' : (Node.literal mark' w' type').Older u' := fun _ => hmark'
    have hsite := (h.later hsu hsu').present
    obtain ⟨_, step, x, huv, hvx, -, hrecorded, htry⟩ := tryFold_of_folded
      ⟨false, foldCalls, overrides⟩ hP (S.session_later hs hsu) hsite.1
      (Sameness.Alike.present hr).1 ho trace
    obtain ⟨_, step', x', huv', hvx', -, hrecorded', htry'⟩ := tryFold_of_folded
      ⟨true, foldCalls, overrides⟩ hP (S.session_later hs' hsu') hsite.2
      (Sameness.Alike.present hr).2 ho' trace'
    have hux := S.order.trans huv hvx
    have hux' := S.order.trans huv' hvx'
    have hsx := S.order.trans hsu hux
    have hsx' := S.order.trans hsu' hux'
    have hakin := (hr.later hux hux').akin
    have hnew : S.StepsAkin x x' step step' :=
      ⟨n, _, m, _, hrecorded, hrecorded', h.later hsx hsx', hakin⟩
    rw [htry, htry']
    exact .done hsx hsx' ⟨hakin, .inr ⟨rfl, hold'.later hux'⟩⟩
      (.cons hnew (hsteps.imp fun _ _ h => h.later hkeeps hsx hsx')) rfl
  | @raised u u' f g hsu hsu' hf hg =>
    obtain ⟨v, huv, htry⟩ := tryFold_of_failed ⟨false, foldCalls, overrides⟩ hP
      (S.session_later hs hsu) (h.later hsu hsu').present.1 hf rfl ho trace
    have htry' : (M.tryFold ⟨true, foldCalls, overrides⟩ m trace').run M.caller s' = _ :=
      tryFold_of_raised trace' ho'
    rw [htry, htry', if_neg (by simp)]
    refine .broken (k := n) hsu' ⟨hg, hs, fit, m, s', hs', h, ho'⟩ fun hrun => ?_
    cases hrun
    exact ⟨S.order.trans hsu huv, [], rfl⟩
  | exhausted =>
    have htry : (M.tryFold ⟨false, foldCalls, overrides⟩ n trace).run M.caller s = _ :=
      tryFold_of_exhausted trace ho
    have htry' : (M.tryFold ⟨true, foldCalls, overrides⟩ m trace').run M.caller s' = _ :=
      tryFold_of_exhausted trace' ho'
    rw [htry, htry']
    exact .exhausted

/-- Steps on nodes that are the same, over children that are, go on beside one another. -/
theorem foldStep_beside (hs : S.session s) (hs' : S.session s')
    (label : (Sameness.Kinship.same S).Label s s' n m) (here : S.Label s s n)
    (there : S.Label s' s' m) (hn : n.childNodes = .ok ns) (hm : m.childNodes = .ok ms)
    (hold : n.Older s) (hold' : m.Older s')
    (hall : List.Forall₂ ((Sameness.Kinship.same S).Akin s s') rs rs')
    (hrs : List.Forall₂ (Node.Passed M S overrides foldCalls s) ns rs)
    (hrs' : List.Forall₂ (Node.Replaced s') ms rs') :
    M.Beside S overrides foldCalls s s'
      (fun r t => S.later s t ∧ n.Passed M S overrides foldCalls t r)
      (fun t t' r r' => (Sameness.Kinship.same S).Akin t t' r r' ∧ m.Replaced t' r')
      (M.foldStep ⟨false, foldCalls, overrides⟩ n rs)
      (M.foldStep ⟨true, foldCalls, overrides⟩ m rs') := by
  refine ⟨fun hR => foldStep_passed hP hv hn here hold hs hrs (fun _ _ _ _ _ _ _ _ => trivial) hR,
    fun trace trace' hsteps => ?_⟩
  have hreplaced := hrs.imp fun _ _ h => h.replaced
  obtain ⟨mark, row, used, hcurrent, -⟩ := Node.withChildren_replaced hn hold hreplaced M.caller
  obtain ⟨mark', row', used', hcurrent', hreplaced'⟩ :=
    Node.withChildren_replaced hm hold' hrs' M.caller
  have hsu : S.later s (s.marked used) := S.order.noted (.mark .refl used)
  have hsu' : S.later s' (s'.marked used') := S.order.noted (.mark .refl used')
  have hakin := (Sameness.Kinship.Akin.rebuilt label here there hn hm
    (hreplaced.imp fun _ _ h => h.fits) (hrs'.imp fun _ _ h => h.fits) hall mark row mark'
    row').later hsu hsu'
  have hlater := hsteps.imp fun _ _ h => h.later hkeeps hsu hsu'
  obtain ⟨b, hb, -⟩ := Node.foldable_eq foldCalls hakin.wellFormed.1
  have hb' := (hakin.foldable_eq foldCalls).trans hb
  rw [foldStep_eq, Action.run_bind_done hcurrent, hb, pure_bind, foldStep_eq,
    Action.run_bind_done hcurrent', hb', pure_bind]
  cases b with
  | false => exact .done hsu hsu' ⟨hakin, hreplaced'⟩ hlater rfl
  | true =>
    have htry := tryFold_endsBeside hP hv hkeeps (S.session_later hs hsu)
      (S.session_later hs' hsu') hakin hb trace trace' hlater
    refine (htry.mono fun _ ht' h => ?_).earlier hsu hsu'
    exact ⟨h.1, hreplaced'.tried (S.nextMark_le ht') hb' h.2⟩

/-! ### Passes -/

theorem foldTree_beside (hs : S.session s) (hs' : S.session s')
    (h : (Sameness.Kinship.same S).Akin s s' n m) (hold : n.All (·.Older s))
    (hold' : m.All (·.Older s')) (ht : S.later s t) (ht' : S.later s' t') :
    M.Beside S overrides foldCalls t t'
      (fun r u => S.later t u ∧ n.Passed M S overrides foldCalls u r)
      (fun u u' r r' => (Sameness.Kinship.same S).Akin u u' r r' ∧ m.Replaced u' r')
      (foldTree (M.foldStep ⟨false, foldCalls, overrides⟩) (.node n))
      (foldTree (M.foldStep ⟨true, foldCalls, overrides⟩) (.node m)) := by
  induction h generalizing t t' with
  | @intro n m ns ms label here there left right length each ih =>
    rw [foldTree_node hold.wellFormed left, foldTree_node hold'.wellFormed right]
    refine (mapM_beside length (fun e he {_ _} hu hu' => ?_) ht ht').bind
      (fun hR rs u hrs => ?_) fun hu hu' hrs hrrs' => ?_
    · have hmem := List.of_mem_zip he
      exact ih e he (hold.of_childNodes left hmem.1) (hold'.of_childNodes right hmem.2) hu hu'
    · have hsu := S.order.trans ht hrs.1
      refine (Judgement.passing M.caller True _).mono (foldStep_passed hP hv left
        (here.later hsu hsu) (hold.holds.later hsu) (S.session_later hs hsu) hrs.2
        (fun _ _ _ _ _ _ _ _ => trivial) hR) fun r v hr => ?_
      exact ⟨S.order.trans hrs.1 hr.1, hr.2⟩
    · have hsu := S.order.trans ht hu
      have hsu' := S.order.trans ht' hu'
      have hstep := foldStep_beside hP hv hkeeps (S.session_later hs hsu) (S.session_later hs' hsu')
        (label.later hsu hsu') (here.later hsu hsu) (there.later hsu' hsu') left right
        (hold.holds.later hsu) (hold'.holds.later hsu') hrrs'.1 hrs.2 hrrs'.2
      refine ⟨fun hR => (Judgement.passing M.caller True _).mono (hstep.passes hR) ?_, hstep.ends⟩
      exact fun r v hr => ⟨S.order.trans hrs.1 hr.1, hr.2⟩

/-- A strict pass ends beside a lenient one over the same tree. -/
theorem foldConstants_endsBeside (hs : S.session s) (hs' : S.session s')
    (h : (Sameness.Kinship.same S).Akin s s' n m) (hold : n.All (·.Older s))
    (hold' : m.All (·.Older s')) :
    M.EndsBeside S overrides foldCalls s s' []
      (fun t t' r r' => (Sameness.Kinship.same S).Akin t t' r r')
      ((M.foldConstants ⟨false, foldCalls, overrides⟩ (.node n)).run M.caller s)
      ((M.foldConstants ⟨true, foldCalls, overrides⟩ (.node m)).run M.caller s') := by
  have htree := (foldTree_beside hP hv hkeeps hs hs' h hold hold' (S.later_refl s)
    (S.later_refl s')).ends { initial := .node n } { initial := .node m } .nil
  generalize ho : ((foldTree (M.foldStep ⟨false, foldCalls, overrides⟩) (.node n)).run
    { initial := .node n }).run M.caller s = o at htree
  generalize ho' : ((foldTree (M.foldStep ⟨true, foldCalls, overrides⟩) (.node m)).run
    { initial := .node m }).run M.caller s' = o' at htree
  rw [foldConstants, foldConstants]
  cases htree with
  | done ht ht' hr steps none =>
    rw [Action.run_bind_done ho, Action.run_bind_done ho']
    exact .done ht ht' hr.1 steps none
  | @broken _ _ _ k _ ht' breaks first =>
    rw [Action.run_bind_raised ho']
    refine .broken (k := k) ht' breaks fun hrun => ?_
    obtain ⟨e, u, hdone, hrun⟩ := Action.exists_of_run_bind_done hrun
    cases hrun
    change Records.firstSkipped S _ k [] _ e.2.steps e.2.skipped
    exact first (ho.symm.trans hdone)
  | exhausted =>
    rw [Action.run_bind_exhausted ho, Action.run_bind_exhausted ho']
    exact .exhausted

end

end Machine

end PredicateTree
