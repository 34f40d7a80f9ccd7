import PredicateTree.Proofs.Evaluation.Containment
import PredicateTree.Proofs.Folding.Step

/-!
# Folding and failures

To fold one tree contains failures as evaluation does (`Machine.fold_contained`).  A lenient folding
pass fails only where a text cannot be made, of a report or of a line of the log
(`Machine.foldConstants_contained`), and it replaces nothing but what could be folded
(`Node.FoldsTo`): every sub-tree that fails is left in place.
-/

namespace PredicateTree

/-- A fault that came out of making the text of an entry of the log. -/
def LogEntry.FailsToShow (f : Fault) : Prop :=
  ∃ (e : LogEntry) (c : Caller) (s t : Session), e.text.run c s = (.raised f, t)

/-- The second tree is the first one with some sub-trees replaced by the literals that they fold to,
from the leaves up. -/
inductive Node.FoldsTo (M : Machine) (overrides : List (Value × Value)) : Node → Node → Prop where
  | same (n : Node) : FoldsTo M overrides n n
  | upon {n : Node} {ns rs : List Node} (children : n.childNodes = .ok ns)
      (each : List.Forall₂ (FoldsTo M overrides) ns rs) (mark row : Nat) :
      FoldsTo M overrides n (n.upon mark row (rs.map .node))
  | folded {n current literal : Node} {s t : Session} (before : FoldsTo M overrides n current)
      (run : (M.fold overrides (.node current)).run M.caller s = (.done literal, t)) :
      FoldsTo M overrides n literal

/-- What holds of the result of a folding pass, if it ends with one, and of its fault, if it ends
with one. -/
def Judgement.folding (c : Caller) (P : Fault → Prop) : Judgement (StateT FoldTrace Action) where
  holds x s post := ∀ trace,
    (∀ a trace' t, (x.run trace).run c s = (.done (a, trace'), t) → post a t) ∧
      ∀ f t, (x.run trace).run c s = (.raised f, t) → P f
  pure h trace := by
    refine ⟨fun a trace' t hrun => ?_, fun f t hrun => nomatch hrun⟩
    cases hrun
    exact h
  bind {α β x k s post} h trace := by
    obtain ⟨hdone, hraised⟩ := h trace
    rw [StateT.run_bind]
    rcases hx : (x.run trace).run c s with ⟨⟨a, trace'⟩ | f | _, t⟩
    · rw [Action.run_bind_done hx]
      exact hdone a trace' t hx trace'
    · rw [Action.run_bind_raised hx]
      constructor
      · intro a after u hrun
        cases hrun
      · intro g u hrun
        cases hrun
        exact hraised f t hx
    · rw [Action.run_bind_exhausted hx]
      constructor
      · intro a after u hrun
        cases hrun
      · intro g u hrun
        cases hrun
  mono h imp trace :=
    ⟨fun a trace' t hrun => imp a t ((h trace).1 a trace' t hrun), (h trace).2⟩

theorem note_raisesOnly (e : LogEntry) (c : Caller) :
    (Action.note e).RaisesOnly c LogEntry.FailsToShow := by
  refine Action.RaisesOnly.bind (fun _ _ _ h => nomatch h) fun s => ?_
  split
  · exact Action.RaisesOnly.bind (fun s f t h => ⟨e, c, s, t, h⟩) fun _ _ _ _ h => nomatch h
  · exact Action.raisesOnly_pure ()

namespace Machine

variable {M : Machine} {overrides : List (Value × Value)} {n : Node}

/-- To fold a tree whose static members have owners contains all failures. -/
theorem fold_contained (h : n.All (·.isOwned)) (hv : OperatorTable.Valid overrides) :
    (M.fold overrides (.node n)).RaisesOnly M.caller M.host.Escapes := by
  intro s f t hrun
  obtain ⟨mark, u, -, heq⟩ := fold_run (M := M) h hv M.caller s
  rw [heq] at hrun
  refine Action.RaisesOnly.bind (x := Action.call _ _) ?_ (fun w => ?_) u f t hrun
  · intro u g v hcall
    rw [Action.run_call, caller] at hcall
    cases hdepth : M.depth with
    | zero =>
      rw [hdepth] at hcall
      cases hcall
    | succ depth =>
      rw [hdepth, callWithin_closure rfl] at hcall
      exact Code.run_raisesOnly M.host _ _ _ u g v hcall
  · intro u g v hliteral
    obtain ⟨type, hdone⟩ := n.asLiteral_run w M.caller u
    cases hdone.symm.trans hliteral

/-- The faults of a lenient folding pass: what takes the place of a report, and texts of the log
that cannot be made. -/
def EscapesPass (M : Machine) (f : Fault) : Prop :=
  M.host.FailsToReport f ∨ LogEntry.FailsToShow f

theorem tryFold_contained {options : FoldOptions} {current : Node}
    (hground : current.Ground options.foldCalls) (hv : OperatorTable.Valid options.overrides)
    (lenient : options.strict = false) (trace : FoldTrace) :
    (M.tryFold options current trace).RaisesOnly M.caller M.EscapesPass := by
  intro s f t h
  have hnote (e : LogEntry) : (Action.note e).RaisesOnly M.caller M.EscapesPass :=
    (note_raisesOnly e M.caller).mono fun _ => .inr
  rcases hrun : (M.fold options.overrides (.node current)).run M.caller s with ⟨r | g | _, u⟩
  · rw [tryFold_of_done trace hrun] at h
    refine Action.RaisesOnly.bind (hnote _) (fun _ => ?_) u f t h
    exact Action.RaisesOnly.bind (fun _ _ _ h => nomatch h) fun _ => Action.raisesOnly_pure _
  · rw [tryFold_of_raised trace hrun] at h
    split at h
    · exact Action.RaisesOnly.bind (hnote _) (fun _ => Action.raisesOnly_pure _) u f t h
    · rename_i hpassed
      cases h
      rcases fold_contained hground.owned hv s f t hrun with heval | hreport
      · exact absurd ⟨heval, lenient⟩ hpassed
      · exact .inl hreport
  · rw [tryFold_of_exhausted trace hrun] at h
    cases h

/-- What a lenient pass makes of a node fits in its place, and differs from it only by what could be
folded. -/
structure PassResult (M : Machine) (options : FoldOptions) (n r : Node) : Prop where
  wellFormed : r.WellFormed
  fits : n.Fits r
  foldsTo : n.FoldsTo M options.overrides r

theorem PassResult.of_tryFold {options : FoldOptions} {current r : Node}
    {trace trace' : FoldTrace} {s t : Session} (hbefore : M.PassResult options n current)
    (hground : current.Ground options.foldCalls) (hv : OperatorTable.Valid options.overrides)
    (h : (M.tryFold options current trace).run M.caller s = (.done (r, trace'), t)) :
    M.PassResult options n r := by
  rcases tryFold_done h with ⟨u, v, hrun, -, -⟩ | ⟨rfl, -⟩
  · obtain ⟨_, _, w, _, type, -, -, rfl, -⟩ := fold_done hground.owned hv hrun
    refine ⟨.intro [] rfl trivial (by simp), fun p hp => ?_, .folded hbefore.foldsTo hrun⟩
    obtain ⟨q, rfl⟩ := hbefore.fits p hp
    cases hground
  · exact hbefore

theorem foldStep_contained {options : FoldOptions} {ns rs : List Node} (h : n.WellFormed)
    (hn : n.childNodes = .ok ns) (hv : OperatorTable.Valid options.overrides)
    (lenient : options.strict = false) (hrs : List.Forall₂ (M.PassResult options) ns rs)
    (s : Session) : (Judgement.folding M.caller M.EscapesPass).holds (M.foldStep options n rs) s
      fun r _ => M.PassResult options n r := by
  intro trace
  have hfits : List.Forall₂ Node.Fits ns rs := hrs.imp fun _ _ h => h.fits
  have hfolds : List.Forall₂ (Node.FoldsTo M options.overrides) ns rs :=
    hrs.imp fun _ _ h => h.foldsTo
  have hwf : ∀ r ∈ rs, r.WellFormed := forall_of_forall₂ hrs fun _ _ _ h => h.wellFormed
  obtain ⟨current, used, hcurrent, hcwf, hrun⟩ :=
    foldStep_run (M := M) options h hn hfits hwf trace M.caller s
  have hover : current = n ∨ ∃ mark row, current = n.upon mark row (rs.map .node) := by
    rcases Node.withChildren_cases hn (.of_fits hn hfits) M.caller s with ⟨-, hsame⟩ | ⟨_, -, hover⟩
    · obtain ⟨hdone, -⟩ := Prod.mk.inj (hcurrent.symm.trans hsame)
      cases hdone
      exact .inl rfl
    · obtain ⟨hdone, -⟩ := Prod.mk.inj (hcurrent.symm.trans hover)
      cases hdone
      exact .inr ⟨_, _, rfl⟩
  have hbefore : M.PassResult options n current := by
    rcases hover with rfl | ⟨mark, row, rfl⟩
    · exact ⟨hcwf, fun p hp => ⟨p, hp⟩, .same _⟩
    · exact ⟨hcwf, Node.fits_upon _ _ _ _, .upon hn hfolds mark row⟩
  rcases hrun with hrun | ⟨hground, hrun⟩
  · rw [hrun]
    refine ⟨fun r trace' t hdone => ?_, fun f t hraised => nomatch hraised⟩
    cases hdone
    exact hbefore
  · rw [hrun]
    refine ⟨fun r trace' t hdone => ?_, fun f t hraised => ?_⟩
    · exact hbefore.of_tryFold hground hv hdone
    · exact tryFold_contained hground hv lenient trace _ f t hraised

/-- A lenient folding pass ends with a tree, unless a text cannot be made, and replaces nothing but
what could be folded. -/
theorem foldConstants_contained {options : FoldOptions} (h : n.WellFormed)
    (hv : OperatorTable.Valid options.overrides) (lenient : options.strict = false) (s : Session) :
    (∀ r trace t, (M.foldConstants options (.node n)).run M.caller s = (.done (r, trace), t) →
        n.FoldsTo M options.overrides r) ∧
      ∀ f t, (M.foldConstants options (.node n)).run M.caller s = (.raised f, t) →
        M.EscapesPass f := by
  have hfold := (Judgement.folding M.caller M.EscapesPass).foldTree_result
    (fun hn h hrs s => foldStep_contained h hn hv lenient hrs s) h s
  obtain ⟨hdone, hraised⟩ := hfold { initial := .node n }
  constructor
  · intro r trace t hrun
    obtain ⟨⟨r', trace'⟩, u, hpass, hrun⟩ := Action.exists_of_run_bind_done hrun
    cases hrun
    exact (hdone _ _ _ hpass).foldsTo
  · intro f t hrun
    rcases hpass : ((foldTree (M.foldStep options) (.node n)).run { initial := .node n }).run
      M.caller s with ⟨r | g | _, u⟩
    · rw [foldConstants, Action.run_bind_done hpass] at hrun
      cases hrun
    · rw [foldConstants, Action.run_bind_raised hpass] at hrun
      cases hrun
      exact hraised f t hpass
    · rw [foldConstants, Action.run_bind_exhausted hpass] at hrun
      cases hrun

end Machine

end PredicateTree
