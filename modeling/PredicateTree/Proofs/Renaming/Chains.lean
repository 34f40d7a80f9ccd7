import PredicateTree.Proofs.Likeness.Reports
import PredicateTree.Proofs.Renaming.Bracketing

/-!
# Chains of predicates

To ask a chain of predicates is to call them one after the other as long as the answer is open
(`Host.askAll`).  However the chain is bracketed, a call of the composed predicate asks the
predicates so: the same calls are made, with the same answer, or the first failure is reported with
the same cause (`bracketing_asks`).  All predicates of a chain are compiled before the first of them
runs, so one that cannot be compiled fails a call that would not have come to it
(`bracketing_compiles`).
-/

namespace PredicateTree

/-! ### Asking -/

section

variable {host : Host} {depth : Nat} {site : Node} {settling : Bool} {args : List Value}

/-- Asks predicates one after the other as long as no answer settles it. -/
def Host.askAll (host : Host) (depth : Nat) (site : Node) (settling : Bool) (args : List Value) :
    List Node → Action Bool
  | [] => pure !settling
  | f :: fs => do
    let v ← host.calling depth (.node f) args
    if (← testingAt host site v) = settling then return settling
    else host.askAll depth site settling args fs

/-- Asks predicates part by part of a bracketing. -/
def Host.askParts (host : Host) (depth : Nat) (site : Node) (settling : Bool) (args : List Value) :
    Bracketing → Action Value
  | .predicate f => host.calling depth (.node f) args
  | .join left right => host.joining site settling (host.askParts depth site settling args left)
      (host.askParts depth site settling args right)

/-- The calls of predicates, ready to be asked in turn. -/
def Host.callsAt (host : Host) (depth : Nat) (site : Node) (args : List Value) (fs : List Node) :
    List (Node × Action Value) := fs.map fun f => (site, host.calling depth (.node f) args)

/-- To ask predicates is to ask their calls in turn, all at one node. -/
theorem askAll_eq (fs : List Node) : host.askAll depth site settling args fs =
    host.askInTurn settling (host.callsAt depth site args fs) := by
  induction fs with
  | nil => rfl
  | cons f fs ih =>
    refine bind_congr fun v => bind_congr fun b => ?_
    rw [ih]
    rfl

/-- Two parts answer as all their predicates do if the truth of what each part answers is what its
predicates answer. -/
theorem joining_askAll {x y : Action Value} {fs gs : List Node}
    (hx : x >>= testingAt host site = host.askAll depth site settling args fs)
    (hy : y >>= testingAt host site = host.askAll depth site settling args gs) :
    host.joining site settling x y = (do
      return .bool (← host.askAll depth site settling args (fs ++ gs))) := by
  rw [askAll_eq] at hx hy
  rw [askAll_eq, Host.callsAt, List.map_append]
  exact joining_askInTurn hx hy

/-- The truth of what a part answers is what its predicates answer one after the other. -/
theorem askParts_testing (htruth : ∀ b : Bool, host.truth (.bool b) = pure b) (b : Bracketing) :
    host.askParts depth site settling args b >>= testingAt host site =
      host.askAll depth site settling args b.predicates := by
  induction b with
  | predicate f =>
    rw [Bracketing.predicates, askAll_eq]
    exact (askInTurn_singleton site _).symm
  | join left right ihl ihr =>
    rw [Host.askParts, joining_askAll ihl ihr, bind_assoc]
    simp only [pure_bind, testingAt_bool htruth, bind_pure]
    rfl

theorem askParts_join (htruth : ∀ b : Bool, host.truth (.bool b) = pure b)
    (left right : Bracketing) : host.askParts depth site settling args (.join left right) = (do
      return .bool
        (← host.askAll depth site settling args (left.predicates ++ right.predicates))) :=
  joining_askAll (askParts_testing htruth left) (askParts_testing htruth right)

end

/-! ### Calls of a composed chain -/

/-- What the runs of the predicates of a chain and of the composed predicate have to do with one
another: the nodes of the predicates stand for their renamed ones, and the node at which the answers
are tested stands for all nodes of the composed predicate. -/
structure Correspondence.Chains (K : Correspondence) (tops : List Parameter) (fs : List Node)
    (site h : Node) : Prop where
  renamed : ∀ f ∈ fs, f.All fun n => ∀ ρ n', (∀ p, p ∉ tops → ρ p = p) → n.Renamed ρ n' →
    K.site n n'
  joined : h.All (K.site site)
  labels : ∀ f ∈ fs, f.All (·.LabelsKnown K)
  operators : ∀ key, K.known (OperatorTable.standard key)
  not_settled : ∀ c w, ¬ K.settled c w
  not_cut : ¬ K.cut

section

variable {K : Correspondence} {L : Likeness K} {host : Host} {site : Node} {settling : Bool}

/-- Where the answers are alike, whatever fails is reported. -/
theorem joining_contained (hH : host.Respects L) {c c' : Caller} (hC : L.Callers c c')
    (hcut : ¬ K.cut) {site' : Node} (hsite : K.site site site') {s s' : Session}
    {x y x' y' : Action Value} (settling : Bool)
    (hx : L.Ends s s' L.value (x.run c s) (x'.run c' s')) (hx' : Contained (x'.run c' s'))
    (hy : ∀ {u u'}, K.later s u → K.later s' u' → L.session u u' →
      L.Ends u u' L.value (y.run c u) (y'.run c' u') ∧ Contained (y'.run c' u')) :
    Contained ((host.joining site' settling x' y').run c' s') := by
  refine deciding_contained hH hC hcut hsite hx hx' fun b t t' ht ht' hst => ?_
  split
  · exact .pure
  · obtain ⟨hends, hcontained⟩ := hy ht ht' hst
    exact deciding_contained hH hC hcut hsite hends hcontained fun _ _ _ _ _ _ => .pure

/-- A body that joins those of the predicates answers as the predicates that are asked part by part,
with a truth value if there are several, and whatever fails in it is reported. -/
theorem Bracketing.Joined.asked {tops ps : List Parameter} {b : Bracketing} {fs : List Node}
    {body h : Node} {arity : Nat} (hjoined : Joined settling tops ps b body) (hH : host.Respects L)
    (hK : K.Chains tops fs site h) (hR : L.Readies (· ∈ fs) (· = h))
    (among : ∀ f ∈ b.predicates, f ∈ fs)
    (hpredicates : ∀ f ∈ fs, f.Predicate arity tops ∧ f.All (·.isOwned)) (hps : ps.Nodup)
    (htops : ∀ p ∈ ps, p ∈ tops) (hbody : body.All (K.site site)) {depth : Nat}
    {args args' : List Value} {u u' : Session} (hu : L.session u u')
    (hargs : List.Forall₂ (L.value u u') args args') (hlen : args.length = arity)
    (hcompiles : ∀ f ∈ fs, u.Compiles f) :
    L.Ends u u' (fun t t' v w => L.value t t' v w ∧
          ∀ left right, b = .join left right → ∃ a, v = .bool a ∧ w = .bool a)
        ((host.askParts (depth + 2) site settling args b).within host depth u)
        (((body.code .standard).run host (Environment.extend [] ps args')).within host depth u') ∧
      Contained
        (((body.code .standard).run host (Environment.extend [] ps args')).within host depth u') := by
  have hS : L.Settles host (Machine.callWithin host depth) :=
    fun _ hw => absurd hw (hK.not_settled _ _)
  have hC : L.Callers (Machine.callWithin host depth) (Machine.callWithin host depth) :=
    hH.callers (fun _ _ _ _ _ _ _ hw => absurd hw (hK.not_settled _ _)) depth
  induction hjoined generalizing u u' with
  | @predicate mark row qs b body ρ renamed moved kept =>
    have hf := among _ (List.mem_singleton_self _)
    obtain ⟨hpredicate, howned⟩ := hpredicates _ hf
    obtain ⟨S, hkeeps⟩ := hpredicate.keeps howned.wellFormed hps htops
      (by rw [Node.declared_lambda, moved]) kept
    have hruns := renamed.runsAs (fun n n' hn h => hn ρ n' kept h) hK.operators
      ((hK.labels _ hf).and (hK.renamed _ hf)).of_lambda
    have hlen' : args.length = qs.length := by
      rw [hlen, ← hpredicate.length_declared, Node.declared_lambda]
    have hcall :=
      calling_alike hR hH hC hS rfl howned hf hkeeps hruns hu (hcompiles _ hf) hargs hlen'
    obtain ⟨S', hmatches, henv⟩ := body_matches (L := L) rfl hkeeps hruns hargs hlen'
    rw [moved] at hcall henv
    refine ⟨hcall.imp fun _ h => ⟨h, nofun⟩, ?_⟩
    exact hmatches.run_contained hH hC hK.not_cut hK.not_settled hu henv
  | @join left right l r hl hr mark ihl ihr =>
    have hchildren : (Node.binary mark (joinOp settling) (.node l) (.node r) .bool).childNodes =
      .ok [l, r] := rfl
    obtain ⟨hleft, hcontained⟩ := ihl (fun f hf => among f (List.mem_append_left _ hf))
      (hbody.of_childNodes hchildren (by simp)) hu hargs hcompiles
    have hright {t t' : Session} (ht : K.later u t) (ht' : K.later u' t') (hst : L.session t t') :=
      ihr (fun f hf => among f (List.mem_append_right _ hf))
        (hbody.of_childNodes hchildren (by simp)) hst (values_later hargs ht ht' hst)
        fun f hf => hR.kept hf ht (hcompiles f hf)
    have hrun : ((Node.binary mark (joinOp settling) (.node l) (.node r) .bool).code .standard).run
        host (Environment.extend [] ps args') =
      host.joining (.binary mark (joinOp settling) (.node l) (.node r) .bool) settling
        ((l.code .standard).run host (Environment.extend [] ps args'))
        ((r.code .standard).run host (Environment.extend [] ps args')) := joined_run ..
    rw [hrun]
    have hleft' := hleft.imp fun _ h => h.1
    have hright' {t t' : Session} (ht : K.later u t) (ht' : K.later u' t') (hst : L.session t t') :=
      (hright ht ht' hst).imp_left fun h => h.imp fun _ h => h.1
    refine ⟨(joining_alike hH hC hbody.holds settling hleft' fun ht ht' hst =>
      (hright' ht ht' hst).1).imp fun hs h => ⟨L.value_of_bool hs h, fun _ _ _ => h⟩, ?_⟩
    exact joining_contained hH hC hK.not_cut hbody.holds settling hleft' hcontained hright'

end

/-- The runs of the predicates of a chain and of the composed predicate, all of which hold plain
values and keep the right functions of some lambdas. -/
def Correspondence.ofChain (kept : Node → Prop) : Correspondence where
  site _ _ := True
  known v := v.isPlain = true
  settled _ _ := False
  later s t := ∀ n, kept n → s.Compiles n → t.Compiles n
  cut := False
  order := .compiling kept

end PredicateTree
