import Mathlib
import PredicateTree.Proofs.Folding.Containment
import PredicateTree.Proofs.Folding.Repetition
import PredicateTree.Proofs.Likeness.Plain
import PredicateTree.Proofs.Likeness.Tree

/-!
# Folding preserves what a tree evaluates to

A step of a folding pass gives a node that runs as the old one (`Node.FoldedInto`): over folded
children it does so as any node over children that do, and where it is folded itself, its code has
just been run, and the value stands for it.  By induction the pass gives a tree that runs as the tree
it began with, and so evaluates like it (`Machine.foldConstants_preserves`).
-/

namespace PredicateTree

/-! ### Nodes over folded children -/

theorem Node.asParameter?_upon {n : Node} (h : n.asParameter? = none) (mark row : Nat)
    (vs : List Value) : (n.upon mark row vs).asParameter? = none := by
  unfold Node.upon
  split
  case h_7 => exact h
  all_goals rfl

theorem ownerlessAmong?_nodes {ns rs : List Node}
    (h : List.Forall₂ (fun k r => r.ownerless? = k.ownerless?) ns rs) :
    ownerlessAmong? (rs.map .node) = ownerlessAmong? (ns.map .node) := by
  induction h with
  | nil => rfl
  | cons hr _ ih =>
    rw [List.map_cons, List.map_cons, ownerlessAmong?, ownerlessAmong?, ih, Value.ownerless?, hr]
    rfl

theorem Node.ownerless?_of_children {n : Node} {ns : List Node} (hn : n.childNodes = .ok ns)
    (hne : ns ≠ []) : n.ownerless? = ownerlessAmong? (ns.map .node) := by
  cases hasChildren_of_childNodes hn with
  | literal | parameter | static => exact absurd rfl hne
  | member | unary => exact Option.or_none.symm
  | binary _ _ l r => exact congrArg l.ownerless?.or Option.or_none.symm
  | conditional _ c x y =>
    exact congrArg (fun o => c.ownerless?.or (x.ownerless?.or o)) Option.or_none.symm
  | call => rfl
  | lambda _ _ ps b => exact (ownerlessAmong?_lambda ps b).symm

theorem Node.upon_nil {n : Node} (hn : n.childNodes = .ok []) (mark row : Nat) :
    n.upon mark row [] = n := by
  cases n with
  | lambda =>
    obtain ⟨_, _, ps, b, -, hnil⟩ := lambda_of_childNodes hn rfl
    exact absurd hnil.symm (List.concat_ne_nil b _)
  | _ => rfl

/-- A node over new children lacks the owners that these lack. -/
theorem Node.ownerless?_upon {n : Node} {ns rs : List Node} (hn : n.childNodes = .ok ns)
    (hr : List.Forall₂ Fits ns rs)
    (h : List.Forall₂ (fun k r => r.ownerless? = k.ownerless?) ns rs) (mark row : Nat) :
    (n.upon mark row (rs.map .node)).ownerless? = n.ownerless? := by
  cases ns with
  | nil =>
    cases h
    rw [List.map_nil, upon_nil hn]
  | cons k ns =>
    have hrs : rs ≠ [] := by
      rintro rfl
      cases h
    rw [ownerless?_of_children hn (List.cons_ne_nil k ns),
      ownerless?_of_children (childNodes_upon hn hr mark row) hrs, ownerlessAmong?_nodes h]

/-! ### A step -/

/-- What a folding pass has made of a node by the session `s`: a node that runs as the old one, if
the pass is over by the session `last`. -/
structure Node.FoldedInto (K : Correspondence) (t : OperatorTable) (last s : Session)
    (n r : Node) : Prop where
  wellFormed : r.WellFormed
  same : ∀ p, n = .parameter p → r = n
  told : n.identical r = true → r = n
  ownerless : r.ownerless? = n.ownerless?
  runsAs : K.later s last → n.RunsAs K t id r

namespace Node.FoldedInto

variable {K : Correspondence} {t : OperatorTable} {last s s' : Session} {n r : Node}

theorem fits (h : n.FoldedInto K t last s r) : n.Fits r := fun p hp => ⟨p, (h.same p hp).trans hp⟩

theorem later (h : n.FoldedInto K t last s r) (hs : K.later s s') : n.FoldedInto K t last s' r :=
  { h with runsAs := fun hlast => h.runsAs (K.order.trans hs hlast) }

/-- A node over what was made of its children. -/
theorem upon {ns rs : List Node} (ht : ∀ key, K.known (t key))
    (hsite : ∀ n m : Node, n.asParameter? = m.asParameter? → K.site n m)
    (hn : n.childNodes = .ok ns) (hlabels : n.LabelsKnown K) (hwf : n.WellFormed)
    (hold : n.Older s) (h : List.Forall₂ (FoldedInto K t last s) ns rs) {mark row used : Nat}
    (hmark : n.upon mark row (rs.map .node) = n ∨ mark = s.nextMark ∧ 0 < used) :
    n.FoldedInto K t last (s.marked used) (n.upon mark row (rs.map .node)) where
  wellFormed := by
    refine .intro rs (childNodes_upon hn (h.imp fun _ _ h => h.fits) mark row) trivial ?_
    exact forall_of_forall₂ h fun _ _ _ h => h.wellFormed
  same := by
    rintro p rfl
    rfl
  told := Node.eq_of_identical_rebuilt hold hmark
  ownerless :=
    ownerless?_upon hn (h.imp fun _ _ h => h.fits) (h.imp fun _ _ h => h.ownerless) mark row
  runsAs := by
    intro hlast
    have hs : K.later s last := K.order.trans (K.order.noted (.mark .refl used)) hlast
    cases hother : n.asParameter? with
    | some p =>
      cases n with
      | parameter q => exact .parameter (hsite _ _ rfl)
      | _ => cases hother
    | none =>
      refine .upon ht hn hother hlabels (h.imp fun _ _ h => h.runsAs hs) mark row (hsite _ _ ?_)
      rw [hother, asParameter?_upon hother]

/-- A literal in the place of what was folded. -/
theorem folded {host : Host} {foldCalls : Bool} (hK : K.Folds host t foldCalls last)
    {current : Node} (h : n.FoldedInto K t last s current) (hground : current.Ground foldCalls)
    {depth : Nat} {u v : Session} {w : Value} (hold : n.Older v)
    (hrun : ((current.code t).run host []).within host depth u = (.done w, v)) (hv : K.later v s')
    (hs : K.later s s') (type : StaticType) :
    n.FoldedInto K t last s' (.literal v.nextMark w type) where
  wellFormed := .intro [] rfl trivial (by simp)
  same := by
    rintro p rfl
    cases h.same p rfl
    cases hground
  told := by
    intro hid
    cases n with
    | literal mark v' type' =>
      have hlt : mark < v.nextMark := hold rfl
      have heq : mark = v.nextMark := mark_of_identical hid rfl
      omega
    | _ => cases hid
  ownerless := by rw [← h.ownerless, ownerless?_of_owned hground.owned, ownerless?]
  runsAs := by
    intro hlast
    refine ⟨?_, fun hk => ?_⟩
    · rintro p rfl
      cases h.same p rfl
      cases hground
    · refine .settled ((h.runsAs (K.order.trans hs hlast)).code hk) ((hK.settled _ _).2 ?_)
      exact ⟨hground.code, depth, u, v, hrun, K.order.trans hv hlast⟩

end Node.FoldedInto

namespace Machine

variable {M : Machine} {K : Correspondence} {options : FoldOptions} {last s₀ s t : Session}
  {n r : Node} {trace trace' : FoldTrace}

/-- Whatever a folding pass that begins in the session `s₀` does leaves later sessions. -/
structure Advances (M : Machine) (K : Correspondence) (options : FoldOptions) (s₀ : Session) :
    Prop where
  host : M.host.Advances
    ((OperatorTable.standard.overridden options.overrides).Calls options.foldCalls) K.later
  note : ∀ e s, K.later s₀ s → K.later s ((Action.note e).run M.caller s).2
  nextMark_le : ∀ {s t : Session}, K.later s t → s.nextMark ≤ t.nextMark

theorem fold_advances (hA : M.Advances K options s₀) (h : n.Ground options.foldCalls)
    (hv : OperatorTable.Valid options.overrides) :
    (M.fold options.overrides (.node n)).Advances K.later M.caller :=
  fold_leaves_later K.order hA.host h hv

theorem tryFold_foldedInto (hA : M.Advances K options s₀)
    (hv : OperatorTable.Valid options.overrides)
    (hK : K.Folds M.host (OperatorTable.standard.overridden options.overrides) options.foldCalls
      last) {current : Node}
    (h : n.FoldedInto K (OperatorTable.standard.overridden options.overrides) last s current)
    (hground : current.Ground options.foldCalls) (hs₀ : K.later s₀ s) (hold : n.Older s)
    (hrun : (M.tryFold options current trace).run M.caller s = (.done (r, trace'), t)) :
    K.later s t ∧
      n.FoldedInto K (OperatorTable.standard.overridden options.overrides) last t r := by
  have hfold := fold_advances hA hground hv
  rcases tryFold_done hrun with ⟨u, v, hdone, hnote, hvt⟩ | ⟨rfl, f, u, hraised, hnote⟩
  · have hsu : K.later s u := hfold.later_of_run hdone
    have huv : K.later u v := by
      have hlater := hA.note (.folded current r) u (K.order.trans hs₀ hsu)
      rwa [hnote] at hlater
    have hst : K.later s t := K.order.trans (K.order.trans hsu huv) (K.order.noted hvt)
    refine ⟨hst, ?_⟩
    obtain ⟨mark, s₁, w, u₁, type, hs₁, hcall, rfl, rfl⟩ := fold_done hground.owned hv hdone
    cases hdepth : M.depth with
    | zero =>
      rw [caller, hdepth] at hcall
      cases hcall
    | succ depth =>
      rw [caller, hdepth, callWithin_closure rfl] at hcall
      have hlater : K.later s₁ u₁ :=
        (hground.code.advances K.order hA.host []).later_of_run hcall
      have hle : s.nextMark ≤ u₁.nextMark :=
        hA.nextMark_le (K.order.trans (K.order.noted hs₁) hlater)
      have hu₁ : K.later u₁ t := K.order.trans (K.order.noted (.mark .refl 1))
        (K.order.trans huv (K.order.noted hvt))
      exact .folded hK h hground (fun other => Nat.lt_of_lt_of_le (hold other) hle) hcall hu₁ hst
        type
  · have hsu : K.later s u := hfold.later_of_run hraised
    have hut : K.later u t := by
      have hlater := hA.note (.leftUnfolded r f) u (K.order.trans hs₀ hsu)
      rwa [hnote] at hlater
    exact ⟨K.order.trans hsu hut, h.later (K.order.trans hsu hut)⟩

/-- A step of a pass makes of a node what runs as the node. -/
theorem foldStep_foldedInto (hA : M.Advances K options s₀)
    (hv : OperatorTable.Valid options.overrides)
    (hK : K.Folds M.host (OperatorTable.standard.overridden options.overrides) options.foldCalls
      last) (ht : ∀ key, K.known (OperatorTable.standard.overridden options.overrides key))
    {ns rs : List Node} (hn : n.childNodes = .ok ns) (hwf : n.WellFormed)
    (hlabels : n.LabelsKnown K) (hold : n.Older s) (hs₀ : K.later s₀ s)
    (hrs : List.Forall₂
      (Node.FoldedInto K (OperatorTable.standard.overridden options.overrides) last s) ns rs) :
    (Judgement.folding M.caller fun _ => True).holds (M.foldStep options n rs) s fun r t =>
      K.later s t ∧
        n.FoldedInto K (OperatorTable.standard.overridden options.overrides) last t r := by
  intro trace
  refine ⟨fun r trace' t hrun => ?_, fun _ _ _ => trivial⟩
  have hfits : List.Forall₂ Node.Fits ns rs := hrs.imp fun _ _ h => h.fits
  have hwfs : ∀ r ∈ rs, r.WellFormed := forall_of_forall₂ hrs fun _ _ _ h => h.wellFormed
  obtain ⟨mark, row, used, hover, hmark⟩ :=
    Node.withChildren_run hn (.of_fits hn hfits) (hrs.imp fun _ _ h => h.told) M.caller s
  obtain ⟨current, used', hcurrent, -, hstep⟩ :=
    foldStep_run (M := M) options hwf hn hfits hwfs trace M.caller s
  obtain ⟨hsame, hsession⟩ := Prod.mk.inj (hcurrent.symm.trans hover)
  cases hsame
  rw [hsession] at hstep
  have hsite (n m : Node) (h : n.asParameter? = m.asParameter?) : K.site n m := (hK.site n m).2 h
  have hbefore := Node.FoldedInto.upon ht hsite hn hlabels hwf hold hrs hmark
  have hs : K.later s (s.marked used) := K.order.noted (.mark .refl used)
  rcases hstep with hstep | ⟨hground, hstep⟩
  · rw [hstep] at hrun
    cases hrun
    exact ⟨hs, hbefore⟩
  · rw [hstep] at hrun
    have hold' : n.Older (s.marked used) := fun other =>
      Nat.lt_of_lt_of_le (hold other) (hA.nextMark_le hs)
    obtain ⟨hlater, hfolded⟩ :=
      tryFold_foldedInto hA hv hK hbefore hground (K.order.trans hs₀ hs) hold' hrun
    exact ⟨K.order.trans hs hlater, hfolded⟩

/-! ### A pass -/

/-- A folding pass makes of a tree what runs as the tree. -/
theorem foldConstants_foldedInto (hA : M.Advances K options s)
    (hv : OperatorTable.Valid options.overrides)
    (hK : K.Folds M.host (OperatorTable.standard.overridden options.overrides) options.foldCalls t)
    (ht : ∀ key, K.known (OperatorTable.standard.overridden options.overrides key))
    (hold : n.All (·.Older s)) (hlabels : n.All (·.LabelsKnown K))
    (hrun : (M.foldConstants options (.node n)).run M.caller s = (.done (r, trace), t)) :
    n.FoldedInto K (OperatorTable.standard.overridden options.overrides) t t r := by
  have hpass := (Judgement.folding M.caller fun _ => True).foldTree K.later
    (Node.FoldedInto K (OperatorTable.standard.overridden options.overrides) t) K.later_refl
    K.order.trans (fun hs h => h.later hs) s (P := fun m => m.Older s ∧ m.LabelsKnown K)
    (fun {n ns rs u} hn hall hu hrs => foldStep_foldedInto hA hv hK ht hn hall.wellFormed
      hall.holds.2 (fun other => Nat.lt_of_lt_of_le (hall.holds.1 other) (hA.nextMark_le hu)) hu
      hrs) (hold.and hlabels) (K.later_refl s)
  obtain ⟨⟨r', trace'⟩, u, hdone, hrun⟩ := Action.exists_of_run_bind_done hrun
  cases hrun
  exact ((hpass { initial := .node n }).1 _ _ _ hdone).2

end Machine

/-! ### A plain pass -/

/-- Folding with a host of plain values.  Nothing is logged that was not logged before. -/
def Correspondence.ofFolding (host : Host) (t : OperatorTable) (foldCalls : Bool)
    (last : Session) : Correspondence where
  site n m := n.asParameter? = m.asParameter?
  known v := v.isPlain = true
  later s t := s.nextMark ≤ t.nextMark ∧ (s.logging = false → t.logging = false)
  settled c w := c.Ground t foldCalls ∧
    ∃ depth u v, (c.run host []).within host depth u = (.done w, v) ∧
      v.nextMark ≤ last.nextMark ∧ (v.logging = false → last.logging = false)
  cut := True
  order := .marking

theorem Correspondence.folds_ofFolding (host : Host) (t : OperatorTable) (foldCalls : Bool)
    (last : Session) : (ofFolding host t foldCalls last).Folds host t foldCalls last :=
  ⟨fun _ _ => Iff.rfl, fun _ _ => Iff.rfl, trivial⟩

section

variable {K : Correspondence} {known : ∀ v, K.known v → v.isPlain = true} {last : Session}

theorem callWithin_operator (depth : Nat) (key : OperatorKey) (vs : List Value) (s : Session) :
    Machine.callWithin Host.plain (depth + 1) (.operator key) vs s =
      (key.onPlain vs).within Host.plain depth s := rfl

/-- The plain host only takes marks. -/
theorem Host.plain_leaves_later {later : Session → Session → Prop} (hl : Session.Order later) :
    Host.plain.Advances (OperatorTable.standard.Calls false) later where
  call := by
    rintro (_ | depth) f vs (⟨key, rfl⟩ | h) s
    · exact hl.noted .refl
    · cases h
    · rw [Action.run_call, OperatorTable.standard, callWithin_operator]
      rcases onPlain_cases key vs with ⟨i, heq⟩ | ⟨b, heq⟩ | ⟨f, heq⟩
      · obtain ⟨m, used, hrun⟩ := newInt_run i (Machine.callWithin Host.plain depth) s
        rw [heq, Action.within, hrun]
        exact hl.noted (.mark .refl used)
      · rw [heq]
        exact hl.noted .refl
      · rw [heq]
        exact hl.noted .refl
    · cases h
  truth := fun _ _ _ => hl.noted .refl
  member := fun _ _ _ _ => hl.noted .refl
  describe := fun _ _ _ => hl.noted .refl
  spell := fun _ _ _ => hl.noted .refl

theorem Host.plain_advances (K : Correspondence) :
    Host.plain.Advances (OperatorTable.standard.Calls false) K.later :=
  plain_leaves_later K.order

/-- The operators of the plain host repeat. -/
theorem Host.plain_repeats (cut : K.cut) :
    Host.plain.Repeats (Likeness.plain K known) OperatorTable.standard false last where
  call := by
    rintro f vs w (_ | depth) u v (⟨key, rfl⟩ | h) hrun _ depth' s s' f' vs' hs hf hvs
    · cases hrun
    · cases h
    · cases hf
      cases depth' with
      | zero => exact .cut cut
      | succ depth' =>
        rw [OperatorTable.standard, callWithin_operator] at hrun
        rw [OperatorTable.standard, callWithin_operator, onPlain_congr key (ownIntegers_eq hvs)]
        rcases onPlain_cases key vs with ⟨i, heq⟩ | ⟨b, heq⟩ | ⟨f, heq⟩
        · obtain ⟨m, used, hdone⟩ := newInt_run i (Machine.callWithin Host.plain depth) u
          rw [heq, Action.within, hdone] at hrun
          cases hrun
          obtain ⟨m', used', hdone'⟩ := newInt_run i (Machine.callWithin Host.plain depth') s
          rw [heq, Action.within, hdone']
          exact .done (K.order.noted (.mark .refl used')) (K.later_refl s') hs (.int m' m i)
        · rw [heq] at hrun ⊢
          cases hrun
          exact .done (K.later_refl s) (K.later_refl s') hs (.same rfl)
        · rw [heq] at hrun
          cases hrun
    · cases h
  truth := by
    intro a b depth u v hrun _ depth' s s' a' hs hval
    cases hrun
    exact .done (K.later_refl s) (K.later_refl s') hs hval.plainTruth_eq
  member := by
    intro a name w depth u v _ hrun
    cases hrun

end

end PredicateTree
