import PredicateTree.Proofs.Folding.Confluence

/-!
# What a folding pass cannot fold

A lenient pass leaves nothing to be folded: what could still be tried fails, in whatever environment
(`Node.Stuck.fails`).  A node that fails makes every longer chain of members fail that starts there, so
nothing that failed is lost in something that is folded later.  Hence what a pass has left in place is
just what can be tried in its result, from the leaves up (`Machine.foldTree_skips`,
`Machine.foldConstants_exhausts`).
-/

namespace PredicateTree

variable {M : Machine} {S : Sameness} {overrides : List (Value × Value)} {foldCalls : Bool}
  {s t : Session} {n r e : Node} {ns rs : List Node}

/-! ### Nodes that can be tried -/

/-- The nodes of a tree that a pass tries to fold, from the leaves up, each as often as it stands in
the tree. -/
def foldableNodes (foldCalls : Bool) (v : Value) : Action (List Node) :=
  foldTree (fun n below => do
    return below.flatten ++ (if ← n.foldable foldCalls then [n] else [])) v

theorem mapM_pure_of_forall₂ {α β : Type} {g : α → Action β} {as : List α} {bs : List β}
    (h : List.Forall₂ (fun a b => g a = pure b) as bs) : as.mapM g = pure bs := by
  induction h with
  | nil => rfl
  | cons h _ ih => rw [List.mapM_cons, h, pure_bind, ih, pure_bind]

theorem foldableNodes_node (h : n.WellFormed) (hn : n.childNodes = .ok ns) {mss : List (List Node)}
    (each : List.Forall₂ (fun k ms => foldableNodes foldCalls (.node k) = pure ms) ns mss) {b : Bool}
    (hb : n.foldable foldCalls = pure b) :
    foldableNodes foldCalls (.node n) = pure (mss.flatten ++ if b then [n] else []) := by
  have hbelow := mapM_pure_of_forall₂ each
  simp only [foldableNodes] at hbelow
  rw [foldableNodes, foldTree_node h hn, hbelow, pure_bind, hb, pure_bind]

theorem foldableNodes_of_isLiteral (h : n.isLiteral = true) :
    foldableNodes foldCalls (.node n) = pure [] := by
  cases n with
  | literal mark v type =>
    exact foldableNodes_node (.intro [] rfl trivial (by simp)) rfl .nil (b := false) rfl
  | _ => cases h

theorem isLiteralNode_node (n : Node) : (Value.node n).isLiteralNode = n.isLiteral := rfl

/-- What can be tried stands over literals, or it is a member of something that can be tried. -/
theorem Node.foldable_cases (hwf : n.WellFormed) (hn : n.childNodes = .ok ns)
    (fit : n.foldable foldCalls = pure true) : (∀ k ∈ ns, k.isLiteral = true) ∨
      ∃ mark e name owner type, n = .member mark (.node e) name owner type ∧
        e.foldable foldCalls = pure true := by
  cases hwf using All.induction with
  | member mark e name owner type h he =>
    cases hliteral : e.isLiteral with
    | true =>
      cases hn
      exact .inl (by simpa using hliteral)
    | false =>
      refine .inr ⟨mark, e, name, owner, type, rfl, ?_⟩
      cases e with
      | literal => cases hliteral
      | member => exact fit
      | _ => cases Action.pure_injective fit
  | static => cases Action.pure_injective fit
  | unary mark op x type =>
    cases hn
    have hall := Action.pure_injective fit
    exact .inl (by simpa [isLiteralNode_node] using hall)
  | binary mark op l r type =>
    cases hn
    have hall := Action.pure_injective fit
    exact .inl (by simpa [isLiteralNode_node] using hall)
  | conditional mark c x y type =>
    cases hn
    have hall := Action.pure_injective fit
    exact .inl (by simpa [isLiteralNode_node, and_assoc] using hall)
  | call mark f row args type =>
    cases (childNodes_call ..).symm.trans hn
    obtain ⟨hallowed, hargs⟩ := Bool.and_eq_true_iff.1 (Action.pure_injective fit)
    have hf := (Bool.and_eq_true_iff.1 hallowed).2
    refine .inl fun k hk => ?_
    rcases List.mem_cons.1 hk with rfl | hk
    · exact hf
    · exact List.all_eq_true.1 hargs _ (List.mem_map_of_mem hk)
  | _ => cases Action.pure_injective fit

/-! ### Failures -/

/-- The machine that runs the bodies of the functions that a machine calls. -/
def Machine.inner (M : Machine) : Machine := ⟨M.host, M.depth - 1⟩

/-- From a session on the code of a tree fails with a fault of evaluation, in whatever
environment. -/
def Node.Fails (M : Machine) (S : Sameness) (overrides : List (Value × Value)) (s : Session)
    (n : Node) : Prop :=
  ∀ t env, S.later s t → ∃ f u,
    ((n.code (OperatorTable.standard.overridden overrides)).run M.host env).run M.inner.caller t =
      (.raised f, u) ∧ f.isEvaluation = true

theorem runAll_congr {host : Host} {codes : List Code} {env env' : Environment}
    (h : ∀ code ∈ codes, code.run host env = code.run host env') :
    runAll host codes env = runAll host codes env' := by
  induction codes with
  | nil => rfl
  | cons code codes ih =>
    rw [runAll, runAll, h code List.mem_cons_self,
      ih fun code hcode => h code (List.mem_cons_of_mem _ hcode)]

/-- What is built from literals does not look at its environment. -/
theorem Node.Ground.run_eq {host : Host} {table : OperatorTable} (h : n.Ground foldCalls)
    (env : Environment) : (n.code table).run host env = (n.code table).run host [] := by
  induction h with
  | literal => rfl
  | member _ ih => exact congrArg (· >>= _) ih
  | unary _ ih => exact congrArg (· >>= _) ih
  | @binary _ op _ _ _ _ _ ihl ihr =>
    cases op <;> simp only [Node.code, Value.code, Code.ofBinary, Code.run, ihl, ihr]
  | conditional _ _ _ ihc ihx ihy =>
    simp only [Node.code, Value.code, Code.run, ihc, ihx, ihy]
  | @call _ _ f args _ _ _ _ ihf ihargs =>
    rw [Node.code, codes_nodes]
    have hargs : runAll host (args.map (·.code table)) env =
        runAll host (args.map (·.code table)) [] :=
      runAll_congr fun code hcode => by
        obtain ⟨a, ha, rfl⟩ := List.mem_map.1 hcode
        exact ihargs a ha
    simp only [Value.code, Code.run, ihf, hargs]

/-- A function without parameters is called by running its body, unless the machine calls nothing. -/
theorem Machine.call_thunk (M : Machine) (mark : Nat) (code : Code) (s : Session) :
    ((Action.call (.closure mark [] code []) []).run M.caller s).1 = .exhausted ∨
      (Action.call (.closure mark [] code []) []).run M.caller s =
        (code.run M.host []).run M.inner.caller s := by
  obtain ⟨host, depth⟩ := M
  cases depth with
  | zero => exact .inl rfl
  | succ depth => exact .inr (@callWithin_closure host depth mark [] code [] [] rfl s)

/-- What cannot be folded fails when its code is run. -/
theorem Machine.run_of_fold_raised (hg : n.Ground foldCalls) (hv : OperatorTable.Valid overrides)
    {f : Fault} (hrun : (M.fold overrides (.node n)).run M.caller s = (.raised f, t)) :
    ∃ u, s.Noted u ∧ ((n.code (OperatorTable.standard.overridden overrides)).run M.host []).run
      M.inner.caller u = (.raised f, t) := by
  obtain ⟨mark, u, hu, heq⟩ := fold_run (M := M) hg.owned hv M.caller s
  refine ⟨u, hu, ?_⟩
  rw [heq] at hrun
  have hcall := M.call_thunk mark (n.code (OperatorTable.standard.overridden overrides)) u
  rcases ho : (Action.call (.closure mark [] _ []) []).run M.caller u with ⟨w | g | _, v⟩
  · obtain ⟨type, hliteral⟩ := n.asLiteral_run w M.caller v
    rw [Action.run_bind_done ho, hliteral] at hrun
    cases hrun
  · rw [Action.run_bind_raised ho] at hrun
    rw [ho] at hcall
    cases hrun
    rcases hcall with hcall | hcall
    · cases hcall
    · exact hcall.symm
  · rw [Action.run_bind_exhausted ho] at hrun
    cases hrun

/-- What was tried in vain fails from then on. -/
theorem Node.Stuck.fails (hP : M.Pure S overrides foldCalls) (hv : OperatorTable.Valid overrides)
    (hs : S.session s) (h : n.Stuck M S overrides foldCalls s)
    (fit : n.foldable foldCalls = pure true) : n.Fails M S overrides s := by
  intro t env hst
  obtain ⟨u, f, v, hu, present, hus, hrun⟩ := h fit
  have hg := ground_of_foldable present.wellFormed.1 fit
  obtain ⟨w, huw, hcode⟩ := Machine.run_of_fold_raised hg hv hrun
  have huw' := S.order.noted huw
  have hut := S.order.trans hus hst
  have hends := Node.Ground.ends hP.host (M.depth - 1) hP.host.reads hg
    (S.session_later hu huw') (S.session_later hs hst) (Sameness.Alike.later present huw' hut).akin
  change S.Ends w t _ _ (Action.run _ M.inner.caller w) (Action.run _ M.inner.caller t) at hends
  rw [hcode] at hends
  rw [hg.run_eq env]
  generalize Action.run _ M.inner.caller t = o at hends ⊢
  cases hends with
  | raised _ _ _ hevaluation => exact ⟨_, _, rfl, hevaluation⟩

/-- What was tried in vain cannot be folded from then on. -/
theorem Node.Stuck.fold_raised (hP : M.Pure S overrides foldCalls)
    (hv : OperatorTable.Valid overrides) (hs : S.session s)
    (h : n.Stuck M S overrides foldCalls s) (fit : n.foldable foldCalls = pure true)
    (hst : S.later s t) : ∃ f u, (M.fold overrides (.node n)).run M.caller t = (.raised f, u) ∧
      f.isEvaluation = true := by
  obtain ⟨u, f, v, hu, present, hus, hrun⟩ := h fit
  have hends := Machine.fold_ends_of_foldable (M := M) hP.host hP.host.reads hv hu
    (S.session_later hs hst) (present.later (S.later_refl u) (S.order.trans hus hst)).akin fit
  rw [hrun] at hends
  generalize (M.fold overrides (.node n)).run M.caller t = o at hends ⊢
  cases hends with
  | raised _ _ _ hevaluation => exact ⟨_, _, rfl, hevaluation⟩

/-- A member of what fails fails. -/
theorem Node.Fails.member (h : e.Fails M S overrides s) (mark : Nat) (name owner : Value)
    (type : StaticType) : (Node.member mark (.node e) name owner type).Fails M S overrides s := by
  intro t env ht
  obtain ⟨f, u, hrun, hf⟩ := h t env ht
  exact ⟨f, u, Action.run_bind_raised hrun, hf⟩

/-- What fails is not folded. -/
theorem Node.Fails.fold_ne_done (h : n.Fails M S overrides s) (hg : n.Ground foldCalls)
    (hv : OperatorTable.Valid overrides) (hs : S.later s t) {u : Session} :
    (M.fold overrides (.node n)).run M.caller t ≠ (.done r, u) := by
  intro hrun
  obtain ⟨mark, v, w, x, -, ht, hcall, -, -⟩ := Machine.fold_done hg.owned hv hrun
  obtain ⟨f, y, hraised, -⟩ := h v [] (S.order.trans hs (S.order.noted ht))
  have hbody := M.call_thunk mark (n.code (OperatorTable.standard.overridden overrides)) v
  rw [Action.run_call, hcall, hraised] at hbody
  rcases hbody with hbody | hbody
  · cases hbody
  · cases hbody

/-- In what is folded nothing was tried in vain: it stands over literals, or it is a longer chain of
members that starts at one that was folded. -/
theorem Node.below_of_folded (hP : M.Pure S overrides foldCalls)
    (hv : OperatorTable.Valid overrides) (hs : S.session s) (hwf : n.WellFormed)
    (hn : n.childNodes = .ok ns) (below : ∀ k ∈ ns, k.Stuck M S overrides foldCalls s)
    (fit : n.foldable foldCalls = pure true) (hst : S.later s t) {u : Session}
    (hrun : (M.fold overrides (.node n)).run M.caller t = (.done r, u)) :
    ∀ k ∈ ns, foldableNodes foldCalls (.node k) = pure [] := by
  rcases foldable_cases hwf hn fit with hliteral | ⟨mark, e, name, owner, type, rfl, hfit⟩
  · exact fun k hk => foldableNodes_of_isLiteral (hliteral k hk)
  · cases hn
    have he := (below e (List.mem_singleton_self e)).fails hP hv hs hfit
    have hg := ground_of_foldable hwf fit
    exact absurd hrun ((he.member mark name owner type).fold_ne_done hg hv hst)

/-! ### Passes -/

/-- Between two traces some trees were left with the nodes in them that can be tried, all of these and
no others, one after the other. -/
def Skipped (foldCalls : Bool) (rs : List Node) (trace trace' : FoldTrace) : Prop :=
  ∃ mss, List.Forall₂ (fun r ms => foldableNodes foldCalls (.node r) = pure ms) rs mss ∧
    trace'.skipped = (mss.flatten.map .node).reverse ++ trace.skipped

namespace Skipped

variable {trace trace' trace'' : FoldTrace}

theorem nil (trace : FoldTrace) : Skipped foldCalls [] trace trace := ⟨[], .nil, rfl⟩

theorem cons (h : Skipped foldCalls [r] trace trace') (h' : Skipped foldCalls rs trace' trace'') :
    Skipped foldCalls (r :: rs) trace trace'' := by
  obtain ⟨_, hms, hskipped⟩ := h
  obtain ⟨mss, hmss, hskipped'⟩ := h'
  obtain ⟨ms, _, hr, hnil, rfl⟩ := List.forall₂_cons_left_iff.1 hms
  cases hnil
  exact ⟨ms :: mss, .cons hr hmss, by simp [hskipped', hskipped]⟩

end Skipped

namespace Machine

variable {trace trace' : FoldTrace} {k : Node}

/-- A step leaves in place what can be tried: the node, if it was tried in vain, and what is left
below it. -/
theorem foldStep_skips (hP : M.Pure S overrides foldCalls) (hv : OperatorTable.Valid overrides)
    (hs : S.session s) (hn : n.childNodes = .ok ns) (hold : n.Older s)
    (hrs : List.Forall₂ (Node.Passed M S overrides foldCalls s) ns rs) {base : FoldTrace}
    (hskipped : Skipped foldCalls rs base trace)
    (hrun : ((M.foldStep ⟨false, foldCalls, overrides⟩ n rs).run trace).run M.caller s =
      (.done (r, trace'), t)) : Skipped foldCalls [r] base trace' := by
  obtain ⟨mark, row, used, hcurrent, hreplaced⟩ :=
    Node.withChildren_replaced hn hold (hrs.imp fun _ _ h => h.replaced) M.caller
  have hwf := hreplaced.older.wellFormed
  have hchildren := Node.childNodes_upon hn (hrs.imp fun _ _ h => h.passedTo.fits) mark row
  have hsu : S.later s (s.marked used) := S.order.noted (.mark .refl used)
  obtain ⟨b, hb, -⟩ := Node.foldable_eq foldCalls hwf
  obtain ⟨mss, hmss, hbase⟩ := hskipped
  have hnodes := foldableNodes_node hwf hchildren hmss hb
  rw [foldStep_eq, Action.run_bind_done hcurrent, hb, pure_bind] at hrun
  cases b with
  | false =>
    cases hrun
    exact ⟨[_], .cons hnodes .nil, by simp [hbase]⟩
  | true =>
    rw [if_pos rfl] at hrun
    rcases ho : (M.fold overrides (.node (n.upon mark row (rs.map .node)))).run M.caller
        (s.marked used) with ⟨folded | f | _, u⟩
    · have hnone := Node.below_of_folded hP hv hs hwf hchildren (forall_of_forall₂ hrs
        fun _ _ _ h => (h.passedTo.stuck hv).holds) hb hsu ho
      have hempty : mss.flatten = [] := List.flatten_eq_nil_iff.2
        (forall_of_forall₂ hmss fun k hk ms h => Action.pure_injective (h.symm.trans (hnone k hk)))
      obtain ⟨_, _, _, rfl, -⟩ := literal_of_fold hwf hb hv ho
      have htry : (M.tryFold ⟨false, foldCalls, overrides⟩ _ trace).run M.caller _ = _ :=
        tryFold_of_done trace ho
      rw [htry] at hrun
      obtain ⟨_, _, -, hrun⟩ := Action.exists_of_run_bind_done hrun
      obtain ⟨_, _, -, hrun⟩ := Action.exists_of_run_bind_done hrun
      cases hrun
      refine ⟨[[]], .cons (foldableNodes_of_isLiteral rfl) .nil, ?_⟩
      rw [hempty] at hbase
      exact hbase
    · have htry : (M.tryFold ⟨false, foldCalls, overrides⟩ _ trace).run M.caller _ = _ :=
        tryFold_of_raised trace ho
      rw [htry] at hrun
      split at hrun
      · obtain ⟨_, _, -, hrun⟩ := Action.exists_of_run_bind_done hrun
        cases hrun
        exact ⟨[_], .cons hnodes .nil, by simp [FoldTrace.skip, hbase]⟩
      · cases hrun
    · have htry : (M.tryFold ⟨false, foldCalls, overrides⟩ _ trace).run M.caller _ = _ :=
        tryFold_of_exhausted trace ho
      rw [htry] at hrun
      cases hrun

/-- Passes over several trees leave in place what can be tried in what they make of them. -/
theorem mapM_skips {c : Caller} {g : Node → StateT FoldTrace Action Node}
    (each : ∀ k ∈ ns, ∀ {u trace r trace' t}, S.later s u →
      ((g k).run trace).run c u = (.done (r, trace'), t) →
      S.later u t ∧ k.Passed M S overrides foldCalls t r ∧ Skipped foldCalls [r] trace trace')
    {u : Session} (hu : S.later s u)
    (hrun : ((ns.mapM g).run trace).run c u = (.done (rs, trace'), t)) :
    S.later u t ∧ List.Forall₂ (Node.Passed M S overrides foldCalls t) ns rs ∧
      Skipped foldCalls rs trace trace' := by
  induction ns generalizing u rs trace with
  | nil =>
    cases hrun
    exact ⟨S.later_refl _, .nil, .nil _⟩
  | cons n ns ih =>
    rw [List.mapM_cons, StateT.run_bind] at hrun
    obtain ⟨⟨r, trace₁⟩, v, hfirst, hrun⟩ := Action.exists_of_run_bind_done hrun
    rw [StateT.run_bind] at hrun
    obtain ⟨⟨rs', trace₂⟩, w, hrest, hrun⟩ := Action.exists_of_run_bind_done hrun
    cases hrun
    obtain ⟨huv, hr, hskipped⟩ := each n List.mem_cons_self hu hfirst
    obtain ⟨hvw, hrs, hskipped'⟩ :=
      ih (fun k hk => each k (List.mem_cons_of_mem n hk)) (S.order.trans hu huv) hrest
    exact ⟨S.order.trans huv hvw, .cons (hr.later hvw) hrs, hskipped.cons hskipped'⟩

/-- A pass leaves in place what can be tried in what it makes of a tree. -/
theorem foldTree_skips (hP : M.Pure S overrides foldCalls) (hv : OperatorTable.Valid overrides)
    (hs : S.session s) (h : n.All fun m => m.Older s ∧ S.Label s s m) {u : Session}
    (hu : S.later s u)
    (hrun : ((foldTree (M.foldStep ⟨false, foldCalls, overrides⟩) (.node n)).run trace).run M.caller
      u = (.done (r, trace'), t)) :
    S.later u t ∧ n.Passed M S overrides foldCalls t r ∧ Skipped foldCalls [r] trace trace' := by
  induction h generalizing u trace r trace' t with
  | @intro n ns children holds below ih =>
    have hall : n.All fun m => m.Older s ∧ S.Label s s m := .intro ns children holds below
    have hpassed := foldTree_passed hP hv (S.session_later hs hu)
      (hall.mono fun _ h => h.1.later hu) (hall.mono fun _ h => h.2.later hu hu)
      (Records.stand_of_any S foldCalls) trace trivial
    rw [hrun] at hpassed
    rw [foldTree_node hall.wellFormed children, StateT.run_bind] at hrun
    obtain ⟨⟨rs, trace₁⟩, v, hchildren, hstep⟩ := Action.exists_of_run_bind_done hrun
    obtain ⟨huv, hrs, hskipped⟩ := mapM_skips (fun k hk _ _ _ _ _ hu => ih k hk hu) hu hchildren
    cases hpassed with
    | done h =>
      exact ⟨h.1, h.2, foldStep_skips hP hv (S.session_later hs (S.order.trans hu huv)) children
        (holds.1.later (S.order.trans hu huv)) hrs hskipped hstep⟩

end Machine

end PredicateTree
