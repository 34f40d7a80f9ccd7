import Mathlib
import PredicateTree.Proofs.Evaluation.Semantics
import PredicateTree.Proofs.Folding.Passes
import PredicateTree.Proofs.Purity.Plain

/-!
# Folding passes after one another

What a lenient pass left in place it leaves in place again: over what became of a tree a second pass
does nothing (`Machine.foldTree_stuck`).  A pass without calls only does some of the work of a pass
with calls, which does the rest: the two after one another come to the same as the latter alone
(`Node.PassedTo.confluent`).  `Machine.foldConstants_confluent` says so of the passes themselves.
-/

namespace PredicateTree

variable {M : Machine} {S : Sameness} {overrides : List (Value × Value)} {foldCalls : Bool}
  {s s' s'' t : Session} {n m r q a : Node} {ns rs : List Node}

/-! ### Nothing left to do -/

/-- A node that a pass does not try to fold, or that failed when it was tried. -/
def Node.Stuck (M : Machine) (S : Sameness) (overrides : List (Value × Value)) (foldCalls : Bool)
    (s : Session) (n : Node) : Prop :=
  n.foldable foldCalls = pure true → ∃ u f v, S.session u ∧ S.Present u n ∧ S.later u s ∧
    (M.fold overrides (.node n)).run M.caller u = (.raised f, v)

theorem Node.foldable_of_withoutCalls (h : n.foldable false = pure true) :
    n.foldable true = pure true := by
  cases n with
  | call => cases Action.pure_injective h
  | _ => exact h

theorem Node.Stuck.withoutCalls (h : n.Stuck M S overrides true s) :
    n.Stuck M S overrides false s := fun fit => h (foldable_of_withoutCalls fit)

/-- Everywhere in what a pass made of a tree there is nothing left to do. -/
theorem Node.PassedTo.stuck (hv : OperatorTable.Valid overrides)
    (h : n.PassedTo M S overrides foldCalls s r) : r.All (Stuck M S overrides foldCalls s) := by
  induction h with
  | @intro n r ns rs children length each mark row step ih =>
    have hfits : List.Forall₂ Fits ns rs :=
      forall₂_of_zip length fun e he => (each e he).fits
    have hstuck : List.Forall₂ (fun _ r => r.All (Stuck M S overrides foldCalls s)) ns rs :=
      forall₂_of_zip length ih
    have below := forall_of_forall₂ hstuck fun _ _ _ h => h
    have hcurrent := childNodes_upon children hfits mark row
    cases step with
    | kept unfit =>
      refine .intro rs hcurrent (fun fit => ?_) below
      cases Action.pure_injective (unfit.symm.trans fit)
    | failed fit hu present run past =>
      exact .intro rs hcurrent (fun _ => ⟨_, _, _, hu, present, past, run⟩) below
    | folded fit hu present run =>
      obtain ⟨_, _, _, rfl, -⟩ := Machine.literal_of_fold present.wellFormed.1 fit hv run
      exact .intro [] rfl (fun fit => (not_foldable_literal fit).elim) (by simp)

namespace Machine

/-- A step does nothing to a node that is stuck. -/
theorem foldStep_stuck (hP : M.Pure S overrides foldCalls) (hv : OperatorTable.Valid overrides)
    (hn : n.childNodes = .ok ns) (hwf : n.WellFormed) (hs : S.session s)
    (h : n.Stuck M S overrides foldCalls s) :
    (Judgement.passing M.caller False .noStep).holds
      (M.foldStep ⟨false, foldCalls, overrides⟩ n ns) s fun r t => S.later s t ∧ n = r := by
  intro trace hnone
  obtain ⟨b, hb, -⟩ := Node.foldable_eq foldCalls hwf
  rw [foldStep_eq, Node.withChildren_self hn, pure_bind, hb, pure_bind]
  cases b with
  | false => exact .done ⟨S.later_refl s, rfl⟩ hnone
  | true =>
    obtain ⟨u, f, v, hu, present, hus, hrun⟩ := h hb
    have hagain := fold_ends_of_foldable (M := M) hP.host hP.host.reads hv hu
      hs (present.later (S.later_refl u) hus).akin hb
    rw [hrun] at hagain
    generalize ho : (M.fold overrides (.node n)).run M.caller s = o at hagain
    cases hagain with
    | @raised _ w _ g _ hsw _ hg =>
      obtain ⟨x, hwx, htry⟩ := tryFold_of_failed ⟨false, foldCalls, overrides⟩ hP
        (S.session_later hs hsw) (present.later (S.order.trans hus hsw) (S.order.trans hus hsw)) hg
        rfl ho trace
      rw [if_pos rfl, htry]
      exact .done ⟨S.order.trans hsw hwx, rfl⟩ hnone

theorem foldTree_stuck (hP : M.Pure S overrides foldCalls) (hv : OperatorTable.Valid overrides)
    (hs : S.session s) (h : n.All (Node.Stuck M S overrides foldCalls s)) :
    (Judgement.passing M.caller False .noStep).holds
      (foldTree (M.foldStep ⟨false, foldCalls, overrides⟩) (.node n)) s fun r t =>
        S.later s t ∧ n = r := by
  refine (Judgement.passing M.caller False .noStep).foldTree S.later (fun _ n r => n = r)
    S.later_refl S.order.trans (fun _ h => h) s (fun {n ns rs u} hn hall hu hrs => ?_) h
    (S.later_refl s)
  rw [List.forall₂_eq_eq_eq] at hrs
  subst hrs
  refine foldStep_stuck hP hv hn hall.wellFormed (S.session_later hs hu) fun fit => ?_
  obtain ⟨w, f, v, hw, present, hws, hrun⟩ := hall.holds fit
  exact ⟨w, f, v, hw, present, S.order.trans hws hu, hrun⟩

end Machine

/-! ### Two passes on the same -/

/-- A tree is what a pass without calls made of one that a pass with calls has come through. -/
def Node.Covered (M : Machine) (S : Sameness) (overrides : List (Value × Value)) (s s' : Session)
    (q : Node) : Prop :=
  ∃ n a : Node, n.All (S.Label s s') ∧ n.PassedTo M S overrides false s q ∧
    n.PassedTo M S overrides true s' a

theorem Node.Ground.foldable_eq (h : n.Ground false) : n.foldable false = n.foldable true := by
  cases h with
  | call allowed => cases allowed
  | _ => rfl

theorem Node.Ground.children (h : n.Ground foldCalls) (hn : n.childNodes = .ok ns) :
    ∀ k ∈ ns, k.Ground foldCalls := by
  cases h with
  | literal =>
    cases hn
    simp
  | member he =>
    cases hn
    simpa using he
  | unary hx =>
    cases hn
    simpa using hx
  | binary hl hr =>
    cases hn
    simpa using ⟨hl, hr⟩
  | conditional hc hx hy =>
    cases hn
    simpa using ⟨hc, hx, hy⟩
  | call _ hf hargs =>
    cases (childNodes_call ..).symm.trans hn
    simpa using ⟨hf, hargs⟩

section

variable (hP : M.Pure S overrides true) (hv : OperatorTable.Valid overrides)

include hP hv

/-- Steps make the same of nodes that are the same. -/
theorem Node.SteppedTo.alike {c c' r r' : Node} {foldCalls' : Bool}
    (hc : c.SteppedTo M S overrides foldCalls s r)
    (hc' : c'.SteppedTo M S overrides foldCalls' s' r') (h : S.Alike s s' c c')
    (hfoldable : c.foldable foldCalls = c.foldable foldCalls') : S.Alike s s' r r' := by
  have hsame : c'.foldable foldCalls' = c.foldable foldCalls :=
    (h.akin.foldable_eq foldCalls').trans hfoldable.symm
  -- What both tried was tried on the same, so it ended the same.
  have htried {u u' : Session} (fit : c.foldable foldCalls = pure true) (hu : S.session u)
      (present : S.Present u c) (past : S.later u s) (hu' : S.session u')
      (present' : S.Present u' c') (past' : S.later u' s') :=
    Machine.fold_ends_of_foldable (M := M) (hP.withoutCalls foldCalls).host hP.host.reads hv hu hu'
      (h.before present past present' past').akin fit
  cases hc with
  | kept unfit =>
    cases hc' with
    | kept | failed => exact h
    | folded fit => cases Action.pure_injective (fit.symm.trans (hsame.trans unfit))
  | failed fit hu present run past =>
    cases hc' with
    | kept | failed => exact h
    | folded _ hu' present' run' lasted past' =>
      have hends := htried fit hu present past hu' present' (S.order.trans lasted past')
      rw [run, run'] at hends
      cases hends
  | folded fit hu present run lasted past =>
    cases hc' with
    | kept unfit => cases Action.pure_injective (fit.symm.trans (hsame.symm.trans unfit))
    | failed _ hu' present' run' past' =>
      have hends := htried fit hu present (S.order.trans lasted past) hu' present' past'
      rw [run, run'] at hends
      cases hends
    | folded _ hu' present' run' lasted' past' =>
      have hends := htried fit hu present (S.order.trans lasted past) hu' present'
        (S.order.trans lasted' past')
      rw [run, run'] at hends
      cases hends with
      | done _ _ hr => exact hr.later past past'

namespace Node.PassedTo

/-- What a pass without calls makes of a tree, if that is built from literals, a pass with calls
makes of it too. -/
theorem alike_of_ground (labels : n.All (S.Label s s')) (hq : n.PassedTo M S overrides false s q)
    (ha : n.PassedTo M S overrides true s' a) (hground : q.Ground false) : S.Alike s s' q a := by
  induction labels generalizing q a with
  | @intro n ns children label _ ih =>
    obtain ⟨qs, mark, row, hqs, hq⟩ := hq.exists_step children
    obtain ⟨as, mark', row', has, ha⟩ := ha.exists_step children
    have hfits : List.Forall₂ Fits ns qs := hqs.imp fun _ _ h => h.fits
    have hcurrent : (n.upon mark row (qs.map .node)).Ground false := by
      cases hq with
      | kept | failed => exact hground
      | folded fit _ present => exact ground_of_foldable present.wellFormed.1 fit
    have hgrounds := hcurrent.children (childNodes_upon children hfits mark row)
    have hgqs : List.Forall₂ (fun k q => k.PassedTo M S overrides false s q ∧ q.Ground false)
        ns qs := forall₂_of_zip hqs.length_eq fun e he =>
      ⟨zip_of_forall₂ hqs e he, hgrounds e.2 (List.of_mem_zip he).2⟩
    have halike : List.Forall₂ (S.Alike s s') qs as :=
      forall₂_of_both hgqs has fun k hk q a hkq hka => ih k hk hkq.1 hka hkq.2
    exact hq.alike hP hv ha (.rebuilt children label hfits halike mark row mark' row')
      hcurrent.foldable_eq

omit hP hv in
/-- A node over what two passes made of its children after one another is the same as over what one
pass made of them, if that is so of each child. -/
theorem alike_over (children : n.childNodes = .ok ns) (label : S.Label s'' s' n)
    {qs as : List Node} (hqs : List.Forall₂ (Node.PassedTo M S overrides false s) ns qs)
    (has : List.Forall₂ (Node.PassedTo M S overrides true s') ns as)
    (hrs : List.Forall₂ (Node.PassedTo M S overrides true s'') qs rs)
    (each : ∀ k ∈ ns, ∀ q a r, k.PassedTo M S overrides false s q →
      k.PassedTo M S overrides true s' a → q.PassedTo M S overrides true s'' r →
      S.Alike s'' s' r a) (mark row mark' row' mark'' row'' : Nat) :
    S.Alike s'' s' ((n.upon mark row (qs.map .node)).upon mark'' row'' (rs.map .node))
      (n.upon mark' row' (as.map .node)) := by
  have hboth : List.Forall₂ (fun k r => ∃ q, k.PassedTo M S overrides false s q ∧
      q.PassedTo M S overrides true s'' r) ns rs :=
    forall₂_of_both hqs.flip hrs fun q _ k r hk hr => ⟨q, hk, hr⟩
  have hrfits : List.Forall₂ Fits ns rs := hboth.imp fun _ _ ⟨q, hk, hr⟩ p hp => by
    obtain ⟨p', hp'⟩ := hk.fits p hp
    exact hr.fits p' hp'
  have halike : List.Forall₂ (S.Alike s'' s') rs as :=
    forall₂_of_both hboth has fun k hk r a ⟨q, hkq, hqr⟩ hka => each k hk q a r hkq hka hqr
  rw [upon_upon children (.of_fits children (hqs.imp fun _ _ h => h.fits))
    (.of_fits children hrfits)]
  exact .rebuilt children label hrfits halike mark'' row'' mark' row'

/-- A pass with calls over what a pass without calls made of a tree makes the same of it as a pass
with calls alone. -/
theorem confluent (labels : n.All (S.Label s s')) (hlater : S.later s s'')
    (hq : n.PassedTo M S overrides false s q) (ha : n.PassedTo M S overrides true s' a)
    (hr : q.PassedTo M S overrides true s'' r) : S.Alike s'' s' r a := by
  induction labels generalizing q a r with
  | @intro n ns children label below ih =>
    obtain ⟨qs, mark, row, hqs, hstep⟩ := hq.exists_step children
    have hqfits : List.Forall₂ Fits ns qs := hqs.imp fun _ _ h => h.fits
    have hover (hr : (n.upon mark row (qs.map .node)).PassedTo M S overrides true s'' r) :
        S.Alike s'' s' r a := by
      obtain ⟨as, mark', row', has, ha⟩ := ha.exists_step children
      obtain ⟨rs, mark'', row'', hrs, hr⟩ :=
        hr.exists_step (childNodes_upon children hqfits mark row)
      refine hr.alike hP hv ha (alike_over children (label.later hlater (S.later_refl s')) hqs has
        hrs (fun k hk q a r hkq hka hqr => ih k hk hkq hka hqr) mark row mark' row' mark'' row'') rfl
    cases hstep with
    | kept | failed => exact hover hr
    | folded fit _ present run =>
      obtain ⟨_, _, _, rfl, -⟩ := Machine.literal_of_fold present.wellFormed.1 fit hv run
      cases hr.of_literal
      have hground := hq.alike_of_ground hP hv (.intro ns children label below) ha (.literal _ _ _)
      exact hground.later hlater (S.later_refl s')

end Node.PassedTo

/-! ### The second pass does not run out of fuel -/

omit hP in
theorem Node.PassedTo.covered (labels : n.All (S.Label s s'))
    (hq : n.PassedTo M S overrides false s q) (ha : n.PassedTo M S overrides true s' a) :
    q.All (Covered M S overrides s s') := by
  induction labels generalizing q a with
  | @intro n ns children label below ih =>
    have hcovered : q.Covered M S overrides s s' := ⟨n, a, .intro ns children label below, hq, ha⟩
    obtain ⟨qs, mark, row, hqs, hstep⟩ := hq.exists_step children
    obtain ⟨as, _, _, has, -⟩ := ha.exists_step children
    have heach : List.Forall₂ (fun q _ => q.All (Covered M S overrides s s')) qs as :=
      forall₂_of_both hqs has fun k hk q a hkq hka => ih k hk hkq hka
    have hcurrent := childNodes_upon children (hqs.imp fun _ _ h => h.fits) mark row
    cases hstep with
    | kept | failed =>
      exact .intro qs hcurrent hcovered (forall_of_forall₂ heach.flip fun _ _ _ h => h)
    | folded fit _ present run =>
      obtain ⟨_, _, _, rfl, -⟩ := Machine.literal_of_fold present.wellFormed.1 fit hv run
      exact .intro [] rfl hcovered (by simp)

/-- Where a pass with calls has come through, another one does not run out of fuel over what a pass
without calls left. -/
theorem Node.Covered.fold_ends (h : q.Covered M S overrides s s') (hn : q.childNodes = .ok ns)
    (hlater : S.later s s'') (hrs : List.Forall₂ (PassedTo M S overrides true s'') ns rs)
    {mark row : Nat} {u : Session} (hu : S.later s'' u) (hs : S.session u)
    (present : S.Present u (q.upon mark row (rs.map .node)))
    (fit : (q.upon mark row (rs.map .node)).foldable true = pure true) :
    (M.fold overrides (.node (q.upon mark row (rs.map .node)))).run M.caller u ≠
      (.exhausted, t) := by
  intro hrun
  obtain ⟨n, a, labels, hq, ha⟩ := h
  obtain ⟨ks, hks, below⟩ := labels.children
  obtain ⟨qs, mark₀, row₀, hqs, hstep⟩ := hq.exists_step hks
  have hover (hkept : q = n.upon mark₀ row₀ (qs.map .node)) : False := by
    subst hkept
    cases (childNodes_upon hks (hqs.imp fun _ _ h => h.fits) mark₀ row₀).symm.trans hn
    obtain ⟨as, mark', row', has, ha⟩ := ha.exists_step hks
    have halike := PassedTo.alike_over hks (labels.holds.later hlater (S.later_refl s')) hqs has
      hrs (fun k hk q a r hkq hka hqr =>
        PassedTo.confluent hP hv (below k hk) hlater hkq hka hqr)
      mark₀ row₀ mark' row' mark row
    have hends {w : Session} (hw : S.session w) (present' : S.Present w _) (past : S.later w s') :=
      Machine.fold_ends_of_foldable (M := M) hP.host hP.host.reads hv hs hw
        ((halike.later hu (S.later_refl s')).before present (S.later_refl u) present' past).akin fit
    rw [hrun] at hends
    cases ha with
    | kept unfit =>
      cases Action.pure_injective (unfit.symm.trans ((halike.akin.foldable_eq true).trans fit))
    | failed _ hw present' run' past =>
      have hends := hends hw present' past
      rw [run'] at hends
      cases hends
    | folded _ hw present' run' lasted past =>
      have hends := hends hw present' (S.order.trans lasted past)
      rw [run'] at hends
      cases hends
  cases hstep with
  | kept | failed => exact hover rfl
  | folded fit' _ present' run' =>
    obtain ⟨_, _, _, rfl, -⟩ := Machine.literal_of_fold present'.wellFormed.1 fit' hv run'
    have hliteral := isLiteral_of_foldable fit
    rw [Sameness.isLiteral_upon] at hliteral
    cases hliteral

/-- Where a pass with calls has come through, another one comes through what a pass without calls
left. -/
theorem Machine.foldTree_covered (hs : S.session s'') (hlater : S.later s s'')
    (present : S.Present s'' q) (hold : q.All (·.Older s''))
    (covered : q.All (Node.Covered M S overrides s s')) :
    (Judgement.passing M.caller False fun _ _ _ => True).holds
      (foldTree (M.foldStep ⟨false, true, overrides⟩) (.node q)) s'' fun r t =>
        S.later s'' t ∧ q.Passed M S overrides true t r := by
  refine (Judgement.passing M.caller False fun _ _ _ => True).foldTree S.later
    (fun t => Node.Passed M S overrides true t) S.later_refl S.order.trans
    (fun hs h => h.later hs) s''
    (P := fun m => (m.Older s'' ∧ S.Label s'' s'' m) ∧ m.Covered M S overrides s s')
    (fun hn hall hu hrs => ?_) ((hold.and present.labels).and covered) (S.later_refl s'')
  obtain ⟨⟨hold, label⟩, hcovered⟩ := hall.holds
  refine foldStep_passed hP hv hn (label.later hu hu) (hold.later hu) (S.session_later hs hu) hrs
    (fun mark row v t hv' present fit hrun => ?_) (Records.stand_of_any S true)
  exact hcovered.fold_ends hP hv hn (S.order.trans hlater hu) (hrs.imp fun _ _ h => h.passedTo) hv'
    (S.session_later hs (S.order.trans hu hv')) present fit hrun

end

/-! ### Passes -/

namespace Machine

variable {u v : Session} {trace : FoldTrace}

/-- What became of a tree in a pass that came through. -/
theorem passed_of_foldConstants (hP : M.Pure S overrides foldCalls)
    (hv : OperatorTable.Valid overrides) (hs : S.session s) (hold : n.All (·.Older s))
    (labels : n.All (S.Label s s)) (hu : S.later s u)
    (hrun : (M.foldConstants ⟨false, foldCalls, overrides⟩ (.node n)).run M.caller u =
      (.done (r, trace), t)) : S.later u t ∧ n.Passed M S overrides foldCalls t r := by
  have hends := foldConstants_passed hP hv (S.session_later hs hu)
    (hold.mono fun _ h => h.later hu) (labels.mono fun _ h => h.later hu hu)
    (Records.stand_of_any S foldCalls) trivial
  rw [hrun] at hends
  cases hends with
  | done h => exact h

/-- A pass over a tree in which nothing is left to do gives that very tree and records no step. -/
theorem foldConstants_stuck (hP : M.Pure S overrides foldCalls)
    (hv : OperatorTable.Valid overrides) (hs : S.session s)
    (h : n.All (Node.Stuck M S overrides foldCalls s)) : ∃ trace t,
      (M.foldConstants ⟨false, foldCalls, overrides⟩ (.node n)).run M.caller s =
        (.done (n, trace), t) ∧ trace.steps = [] := by
  have hends := foldConstants_passEnds (foldTree_stuck hP hv hs h) rfl
  generalize (M.foldConstants _ _).run M.caller s = o at hends ⊢
  cases hends with
  | done h steps =>
    obtain ⟨-, rfl⟩ := h
    exact ⟨_, _, rfl, steps⟩
  | exhausted h => exact h.elim

theorem plain_pure {depth : Nat} : Machine.Pure ⟨Host.plain, depth⟩ Sameness.plain [] true where
  host := Host.plain_pure
  noteFolded {s _ _} hs _ _ :=
    ⟨s, Action.run_note_of_not_logging _ _ hs, Sameness.plain.later_refl s⟩
  noteLeft {s _} _ hs _ := ⟨s, Action.run_note_of_not_logging _ _ hs, Sameness.plain.later_refl s⟩

end Machine

end PredicateTree
