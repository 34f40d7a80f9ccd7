import PredicateTree.Proofs.Folding.Exhaustion
import PredicateTree.Proofs.Folding.Preservation
import PredicateTree.Proofs.Traversal.Orders

/-!
# The account of a folding pass

A pass records each replacement that it makes, and its record accounts for the change
(`Machine.foldConstants_accounts`): the tree comes back as it is just where nothing was recorded,
and it has shrunk by what the recorded trees were larger than literals.  This is so whatever is run,
if it uses marks up and leaves the record alone (`Machine.Course`).  Where what is run is pure, each
literal on record holds what its tree evaluates to.

A step adds to the account of the children that of their node (`Machine.foldStep_accounted`).
-/

namespace PredicateTree

variable {M : Machine} {S : Sameness} {overrides : List (Value × Value)} {foldCalls : Bool}
  {s t : Session} {n r : Node} {ns rs : List Node}

theorem Session.KeepsObjects.keepsSteps (h : s.KeepsObjects t) : s.KeepsSteps t :=
  fun address o ho htype => ⟨o, h address o ho, htype, rfl⟩

/-! ### Traces as objects -/

theorem askSpecial_run {v : Value} {name : String} (h : v.special? s.store name = none)
    (args : List Value) (c : Caller) : (v.askSpecial name args).run c s = (.done none, s) := by
  have hstore : Action.store.run c s = (.done s.store, s) := rfl
  rw [Value.askSpecial, Action.run_bind_done hstore, h]
  rfl

theorem lengthWithin_list (fuel address : Nat) (c : Caller) (s : Session) :
    ((Value.list address).lengthWithin (fuel + 1)).run c s =
      (.done (s.store.list address).size, s) := by
  rw [Value.lengthWithin, Action.run_bind_done (askSpecial_run rfl [] c)]
  rfl

/-- An object that is a trace with so many steps, and whose class was told nothing. -/
structure Session.HoldsTrace (s : Session) (address steps : Nat) : Prop where
  type : (s.store.object address).type = .foldTrace
  plain : ∀ name, s.store.typeAttribute? .foldTrace name = none
  steps : ∃ list, s.store.attribute? (.object address) "steps" = some (.list list) ∧
    (s.store.list list).size = steps

namespace Session.HoldsTrace

variable {address steps : Nat} (h : s.HoldsTrace address steps) (c : Caller)

include h

theorem special? (name : String) : Value.special? s.store (.object address) name = none := by
  rw [Value.special?, h.type, h.plain]
  rfl

theorem typeOf_run : (Action.typeOf (.object address)).run c s = (.done .foldTrace, s) :=
  congrArg (fun type => (Outcome.done type, s)) h.type

theorem length_run : (Value.object address).length.run c s = (.done steps, s) := by
  obtain ⟨list, hlist, hsize⟩ := h.steps
  have hstore : Action.store.run c s = (.done s.store, s) := rfl
  have hfound : (Value.object address).findAttribute? s.store "steps" = some (.list list) := by
    change ((s.store.attribute? (.object address) "steps").or _).or _ = _
    rw [hlist]
    rfl
  have hread : ((Value.object address).readAttribute "steps").run c s =
      (.done (.list list), s) := by
    rw [Value.readAttribute, Action.run_bind_done hstore, h.special?, hfound]
    rfl
  rw [Value.length, show Query.nesting = 998 + 1 + 1 from rfl, Value.lengthWithin,
    Action.run_bind_done (askSpecial_run (h.special? _) [] c),
    Action.run_bind_done (h.typeOf_run c), if_pos rfl, Action.run_bind_done hread,
    lengthWithin_list, hsize]

theorem truth_run : (Value.object address).truth.run c s = (.done (steps != 0), s) := by
  have hstore : Action.store.run c s = (.done s.store, s) := rfl
  have hsized : (Value.object address).isSized.run c s = (.done true, s) := by
    rw [Value.isSized, Action.run_bind_done hstore, if_pos (by simp [Store.typeOf, h.type])]
    rfl
  rw [Value.truth, Value.objectTruth, Action.run_bind_done (askSpecial_run (h.special? _) [] c),
    Action.run_bind_done (h.typeOf_run c)]
  simp only []
  rw [Action.run_bind_done hsized, if_pos rfl, Action.run_bind_done (h.length_run c)]
  rfl

end Session.HoldsTrace

/-- A trace as an object is true if it has steps, unless its class was told otherwise. -/
theorem FoldTrace.truth_toValue (trace : FoldTrace) (c : Caller)
    (hplain : ∀ name, s.store.typeAttribute? .foldTrace name = none) :
    ∃ t, (trace.toValue >>= (·.truth)).run c s = (.done (!trace.steps.isEmpty), t) := by
  let steps : Rope Value := .items trace.steps.reverse.toArray
  let skipped : Rope Value := .items trace.skipped.reverse.toArray
  let lists := (s.store.withList steps).withList skipped
  let o : StoredObject :=
    { type := .foldTrace
      attributes := [("steps", .list s.store.lists.size),
        ("skipped", .list (s.store.withList steps).lists.size), ("initial", trace.initial),
        ("final", trace.final)] }
  let t : Session := { s with store := lists.withObject o }
  have hrun : trace.toValue.run c s = (.done (.object s.store.objects.size), t) := rfl
  have hobject : t.store.object s.store.objects.size = o := by
    simp [t, lists, Store.object, Store.withObject, Store.withList]
  have htrace : t.HoldsTrace s.store.objects.size trace.steps.length := by
    refine ⟨congrArg StoredObject.type hobject, hplain, s.store.lists.size, ?_, ?_⟩
    · rw [Store.attribute?, Store.attributes, hobject]
      rfl
    · simp [t, lists, steps, Store.list, Store.withObject, Store.withList, Array.getElem_push,
        Rope.size, Rope.sizeBeside]
  refine ⟨t, ?_⟩
  rw [Action.run_bind_done hrun, htrace.truth_run]
  cases trace.steps <;> rfl

/-! ### Courses -/

/-- What a pass may count on: an order of sessions in which all that it runs goes on, and in which
marks are used up and what is recorded stays; and which nodes it comes upon. -/
structure Machine.Course (M : Machine) (overrides : List (Value × Value)) (foldCalls : Bool) where
  later : Session → Session → Prop
  sound : Session → Node → Prop
  order : Session.Order later
  nextMark_le : ∀ {s t : Session}, later s t → s.nextMark ≤ t.nextMark
  keepsSteps : ∀ {s t : Session}, later s t → s.KeepsSteps t
  wellFormed : ∀ {s n}, sound s n → n.WellFormed
  sound_later : ∀ {s t n}, sound s n → later s t → sound t n
  sound_upon : ∀ {s n ns rs}, sound s n → n.childNodes = .ok ns → List.Forall₂ Node.Fits ns rs →
    (∀ r ∈ rs, sound s r) → ∀ mark row, sound s (n.upon mark row (rs.map .node))
  fold_done : ∀ {s t n r}, sound s n → n.foldable foldCalls = pure true →
    (M.fold overrides (.node n)).run M.caller s = (.done r, t) → later s t ∧ sound t r
  fold_raised : ∀ {s t n f}, sound s n → n.foldable foldCalls = pure true →
    (M.fold overrides (.node n)).run M.caller s = (.raised f, t) → later s t
  noteFolded : ∀ {s t n r}, sound s n → sound s r →
    (Action.note (.folded n r)).run M.caller s = (.done (), t) → later s t
  noteLeft : ∀ {s t n f}, sound s n →
    (Action.note (.leftUnfolded n f)).run M.caller s = (.done (), t) → later s t

namespace Machine

/-- Whatever is run from a session on uses marks up and leaves the record alone. -/
def Course.advancing {later : Session → Session → Prop} (s₀ : Session) (order : Session.Order later)
    (nextMark_le : ∀ {s t : Session}, later s t → s.nextMark ≤ t.nextMark)
    (keepsSteps : ∀ {s t : Session}, later s t → s.KeepsSteps t)
    (host : M.host.Advances ((OperatorTable.standard.overridden overrides).Calls foldCalls) later)
    (note : ∀ e s, later s₀ s → later s ((Action.note e).run M.caller s).2)
    (hv : OperatorTable.Valid overrides) : M.Course overrides foldCalls where
  later := later
  sound s n := later s₀ s ∧ n.WellFormed
  order := order
  nextMark_le := nextMark_le
  keepsSteps := keepsSteps
  wellFormed h := h.2
  sound_later h hst := ⟨order.trans h.1 hst, h.2⟩
  sound_upon h hn hfits hrs mark row :=
    ⟨h.1, .intro _ (Node.childNodes_upon hn hfits mark row) trivial fun r hr => (hrs r hr).2⟩
  fold_done h fit hrun := by
    have hg := Node.ground_of_foldable h.2 fit
    have hst := (fold_leaves_later order host hg hv).later_of_run hrun
    obtain ⟨_, _, _, rfl, -⟩ := literal_of_fold h.2 fit hv hrun
    exact ⟨hst, order.trans h.1 hst, .intro [] rfl trivial (by simp)⟩
  fold_raised h fit hrun :=
    (fold_leaves_later order host (Node.ground_of_foldable h.2 fit) hv).later_of_run hrun
  noteFolded {s t n r} h _ hrun := by
    have hst := note (.folded n r) s h.1
    rwa [hrun] at hst
  noteLeft {s t n f} h hrun := by
    have hst := note (.leftUnfolded n f) s h.1
    rwa [hrun] at hst

/-- What is run is pure. -/
def Course.ofPure (hP : M.Pure S overrides foldCalls)
    (keepsSteps : ∀ {s t}, S.later s t → s.KeepsSteps t) (hv : OperatorTable.Valid overrides) :
    M.Course overrides foldCalls where
  later := S.later
  sound s n := S.session s ∧ S.Present s n
  order := S.order
  nextMark_le := S.nextMark_le
  keepsSteps := keepsSteps
  wellFormed h := h.2.wellFormed.1
  sound_later h hst := ⟨S.session_later h.1 hst, Sameness.Alike.later h.2 hst hst⟩
  sound_upon h hn hfits hrs mark row :=
    ⟨h.1, Sameness.Alike.rebuilt hn h.2.labels.holds hfits
      (List.forall₂_same.2 fun r hr => (hrs r hr).2) mark row mark row⟩
  fold_done {s t n r} h fit hrun := by
    have hends := fold_ends_of_foldable (M := M) hP.host hP.host.reads hv h.1 h.1 h.2.akin fit
    rw [hrun] at hends
    cases hends with
    | done hst _ hr => exact ⟨hst, S.session_later h.1 hst, hr⟩
  fold_raised {s t n f} h fit hrun := by
    have hends := fold_ends_of_foldable (M := M) hP.host hP.host.reads hv h.1 h.1 h.2.akin fit
    rw [hrun] at hends
    cases hends with
    | raised hst => exact hst
  noteFolded h hr hrun := by
    obtain ⟨u, hdone, hlater⟩ := hP.noteFolded h.1 h.2 hr.2
    cases hdone.symm.trans hrun
    exact hlater
  noteLeft {s t n f} h hrun := by
    obtain ⟨u, hdone, hlater⟩ := hP.noteLeft f h.1 h.2
    cases hdone.symm.trans hrun
    exact hlater

/-! ### Steps -/

/-- A recorded step tells of a tree that was folded, and of the literal that it was folded to. -/
def Course.Folded (C : M.Course overrides foldCalls) (t : Session) (step : Value)
    (before : Node) : Prop :=
  ∃ after, t.Recorded step before after ∧ ∃ u v, C.sound u before ∧
    before.foldable foldCalls = pure true ∧
    (M.fold overrides (.node before)).run M.caller u = (.done after, v) ∧ C.later v t

/-- Between two traces steps were recorded that account for what became of some trees. -/
def Course.Accounts (C : M.Course overrides foldCalls) (t : Session) (ns rs : List Node)
    (trace trace' : FoldTrace) : Prop :=
  ∃ steps befores, trace'.steps = steps ++ trace.steps ∧
    List.Forall₂ (C.Folded t) steps befores ∧
    (List.Forall₂ (fun n r => n.identical r = true) ns rs ↔ befores = []) ∧
    total Node.size ns + befores.length = total Node.size rs + total Node.size befores

namespace Course

variable {C : M.Course overrides foldCalls} {trace trace' trace'' : FoldTrace} {u : Session}
  {strict : Bool} {current : Node}

theorem Folded.later {step : Value} {before : Node} (h : C.Folded s step before)
    (hst : C.later s t) : C.Folded t step before := by
  obtain ⟨after, hrecorded, u, v, hsound, fit, hrun, hlater⟩ := h
  exact ⟨after, hrecorded.later (C.keepsSteps hst), u, v, hsound, fit, hrun,
    C.order.trans hlater hst⟩

theorem later_refl (C : M.Course overrides foldCalls) (s : Session) : C.later s s :=
  C.order.noted .refl

namespace Accounts

theorem nil (trace : FoldTrace) : C.Accounts t [] [] trace trace :=
  ⟨[], [], rfl, .nil, by simp, rfl⟩

theorem cons (h : C.Accounts s [n] [r] trace trace') (hst : C.later s t)
    (h' : C.Accounts t ns rs trace' trace'') :
    C.Accounts t (n :: ns) (r :: rs) trace trace'' := by
  obtain ⟨steps, befores, hsteps, hfolded, hsame, hsize⟩ := h
  obtain ⟨steps', befores', hsteps', hfolded', hsame', hsize'⟩ := h'
  refine ⟨steps' ++ steps, befores' ++ befores, ?_,
    List.rel_append hfolded' (hfolded.imp fun _ _ h => h.later hst), ?_, ?_⟩
  · rw [hsteps', hsteps, List.append_assoc]
  · rw [List.forall₂_cons] at hsame ⊢
    rw [hsame', List.append_eq_nil_iff, ← hsame]
    simp [and_comm]
  · simp only [total_cons, total_nil, total_append, List.length_append] at hsize hsize' ⊢
    omega

end Accounts

end Course

/-- To try to fold a node leaves it in place, or records that it was replaced by a literal. -/
theorem tryFold_recorded {C : M.Course overrides foldCalls} {strict : Bool} {current : Node}
    {trace trace' : FoldTrace} (hv : OperatorTable.Valid overrides) (hs : C.sound s current)
    (fit : current.foldable foldCalls = pure true)
    (hrun : (M.tryFold ⟨strict, foldCalls, overrides⟩ current trace).run M.caller s =
      (.done (r, trace'), t)) :
    C.later s t ∧ C.sound t r ∧
      (r = current ∧ trace'.steps = trace.steps ∨
        r.isLiteral = true ∧ r.Older t ∧
          ∃ step, trace'.steps = step :: trace.steps ∧ C.Folded t step current) := by
  rcases ho : (M.fold overrides (.node current)).run M.caller s with ⟨after | f | _, u⟩
  · obtain ⟨hsu, hafter⟩ := C.fold_done hs fit ho
    obtain ⟨mark, w, type, rfl, hmark⟩ := literal_of_fold (C.wellFormed hs) fit hv ho
    have htry : (M.tryFold ⟨strict, foldCalls, overrides⟩ current trace).run M.caller s = _ :=
      tryFold_of_done trace ho
    rw [htry] at hrun
    obtain ⟨_, v, hnote, hrun⟩ := Action.exists_of_run_bind_done hrun
    have huv := C.noteFolded (C.sound_later hs hsu) hafter hnote
    obtain ⟨step, x, hstep, hvx, hrecorded⟩ :=
      newFoldStep_recorded current (.literal mark w type) M.caller v
    rw [Action.run_bind_done hstep] at hrun
    cases hrun
    have hut := C.order.trans huv (C.order.noted hvx)
    exact ⟨C.order.trans hsu hut, C.sound_later hafter hut, .inr ⟨rfl,
      fun _ => Nat.lt_of_lt_of_le hmark (C.nextMark_le hut), step, rfl, _, hrecorded, s, u, hs, fit,
      ho, hut⟩⟩
  · have htry : (M.tryFold ⟨strict, foldCalls, overrides⟩ current trace).run M.caller s = _ :=
      tryFold_of_raised trace ho
    rw [htry] at hrun
    have hsu := C.fold_raised hs fit ho
    split at hrun
    · obtain ⟨_, v, hnote, hrun⟩ := Action.exists_of_run_bind_done hrun
      cases hrun
      have hst := C.order.trans hsu (C.noteLeft (C.sound_later hs hsu) hnote)
      exact ⟨hst, C.sound_later hs hst, .inl ⟨rfl, rfl⟩⟩
    · cases hrun
  · have htry : (M.tryFold ⟨strict, foldCalls, overrides⟩ current trace).run M.caller s = _ :=
      tryFold_of_exhausted trace ho
    rw [htry] at hrun
    cases hrun

/-- What a step made of a node over what became of its children, and its part of the account. -/
structure Course.Made (C : M.Course overrides foldCalls) (t : Session) (trace trace' : FoldTrace)
    (n r : Node) : Prop where
  sound : C.sound t r
  replaced : n.Replaced t r
  accounts : C.Accounts t [n] [r] trace trace'

/-- A step that accounts for a node, where what became of its children is accounted for. -/
theorem foldStep_accounted {C : M.Course overrides foldCalls} {strict : Bool}
    {base trace trace' : FoldTrace} (hv : OperatorTable.Valid overrides)
    (hs : C.sound s n) (hn : n.childNodes = .ok ns) (hold : n.Older s)
    (hrs : List.Forall₂ (Node.Replaced s) ns rs) (hsound : ∀ r ∈ rs, C.sound s r)
    (haccounts : C.Accounts s ns rs base trace)
    (hrun : ((M.foldStep ⟨strict, foldCalls, overrides⟩ n rs).run trace).run M.caller s =
      (.done (r, trace'), t)) : C.later s t ∧ C.Made t base trace' n r := by
  have hfits : List.Forall₂ Node.Fits ns rs := hrs.imp fun _ _ h => h.fits
  obtain ⟨mark, row, used, hcurrent, hreplaced⟩ := Node.withChildren_replaced hn hold hrs M.caller
  have hsame := Node.identical_withChildren_iff hn hold (.of_fits hn hfits) hcurrent
  have hchildren := Node.childNodes_upon hn hfits mark row
  have hsu : C.later s (s.marked used) := C.order.noted (.mark .refl used)
  have hcsound : C.sound (s.marked used) (n.upon mark row (rs.map .node)) :=
    C.sound_upon (C.sound_later hs hsu) hn hfits (fun r hr => C.sound_later (hsound r hr) hsu) mark
      row
  obtain ⟨steps, befores, hsteps, hfolded, hshared, hsize⟩ := haccounts
  have hnode : n.size + befores.length =
      (n.upon mark row (rs.map .node)).size + total Node.size befores := by
    rw [Node.size_eq hn, Node.size_eq hchildren]
    omega
  obtain ⟨b, hb, -⟩ := Node.foldable_eq foldCalls (C.wellFormed hcsound)
  rw [foldStep_eq, Action.run_bind_done hcurrent, hb, pure_bind] at hrun
  -- What is left as it was after the children adds nothing to their account.
  have hleft {u : Session} {trace' : FoldTrace} (hst : C.later s u)
      (htrace : trace'.steps = trace.steps) :
      C.Accounts u [n] [n.upon mark row (rs.map .node)] base trace' := by
    refine ⟨steps, befores, htrace.trans hsteps, hfolded.imp fun _ _ h => h.later hst, ?_, ?_⟩
    · rw [← hshared, ← hsame]
      simp
    · simpa using hnode
  cases b with
  | false =>
    cases hrun
    exact ⟨hsu, hcsound, hreplaced, hleft hsu rfl⟩
  | true =>
    rw [if_pos rfl] at hrun
    obtain ⟨hut, hr, hcase⟩ := tryFold_recorded hv hcsound hb hrun
    have hst := C.order.trans hsu hut
    have hdone := hreplaced.tried (C.nextMark_le hut) hb
      (hcase.imp (fun h => h.1) fun h => ⟨h.1, h.2.1⟩)
    refine ⟨hst, hr, hdone, ?_⟩
    rcases hcase with ⟨rfl, htrace⟩ | ⟨hliteral, -, step, htrace, hstep⟩
    · exact hleft hst htrace
    · refine ⟨step :: steps, n.upon mark row (rs.map .node) :: befores, ?_,
        .cons hstep (hfolded.imp fun _ _ h => h.later hst), ?_, ?_⟩
      · rw [htrace, hsteps, List.cons_append]
      · have hapart : ¬ n.identical r = true := by
          intro hid
          have hn := Node.isLiteral_of_foldable hb
          rw [Sameness.isLiteral_upon, Node.isLiteral_of_identical hid hliteral] at hn
          cases hn
        simpa using hapart
      · have hsmall : r.size = 1 := Node.size_eq (Node.childNodes_of_isLiteral hliteral)
        simp only [total_cons, total_nil, List.length_cons]
        omega

/-! ### Passes -/

/-- Passes over several trees account for all of them. -/
theorem mapM_accounted {C : M.Course overrides foldCalls} {c : Caller}
    {g : Node → StateT FoldTrace Action Node} {trace trace' : FoldTrace}
    (each : ∀ k ∈ ns, ∀ {u trace r trace' t}, C.later s u →
      ((g k).run trace).run c u = (.done (r, trace'), t) → C.later u t ∧ C.Made t trace trace' k r)
    {u : Session} (hu : C.later s u)
    (hrun : ((ns.mapM g).run trace).run c u = (.done (rs, trace'), t)) :
    C.later u t ∧ List.Forall₂ (Node.Replaced t) ns rs ∧ (∀ r ∈ rs, C.sound t r) ∧
      C.Accounts t ns rs trace trace' := by
  induction ns generalizing u rs trace with
  | nil =>
    cases hrun
    exact ⟨C.later_refl _, .nil, by simp, .nil _⟩
  | cons n ns ih =>
    rw [List.mapM_cons, StateT.run_bind] at hrun
    obtain ⟨⟨r, trace₁⟩, v, hfirst, hrun⟩ := Action.exists_of_run_bind_done hrun
    rw [StateT.run_bind] at hrun
    obtain ⟨⟨rs', trace₂⟩, w, hrest, hrun⟩ := Action.exists_of_run_bind_done hrun
    cases hrun
    obtain ⟨huv, hr⟩ := each n List.mem_cons_self hu hfirst
    obtain ⟨hvw, hrs, hsound, haccounts⟩ :=
      ih (fun k hk => each k (List.mem_cons_of_mem n hk)) (C.order.trans hu huv) hrest
    exact ⟨C.order.trans huv hvw, .cons (hr.replaced.mono (C.nextMark_le hvw)) hrs,
      List.forall_mem_cons.2 ⟨C.sound_later hr.sound hvw, hsound⟩, hr.accounts.cons hvw haccounts⟩

/-- A pass accounts for what it makes of a tree. -/
theorem foldTree_accounted {C : M.Course overrides foldCalls} {strict : Bool}
    {trace trace' : FoldTrace} (hv : OperatorTable.Valid overrides)
    (h : n.All fun m => m.Older s ∧ C.sound s m) {u : Session} (hu : C.later s u)
    (hrun : ((foldTree (M.foldStep ⟨strict, foldCalls, overrides⟩) (.node n)).run trace).run
      M.caller u = (.done (r, trace'), t)) : C.later u t ∧ C.Made t trace trace' n r := by
  induction h generalizing u trace r trace' t with
  | @intro n ns children holds below ih =>
    have hall : n.All fun m => m.Older s ∧ C.sound s m := .intro ns children holds below
    rw [foldTree_node hall.wellFormed children, StateT.run_bind] at hrun
    obtain ⟨⟨rs, trace₁⟩, v, hchildren, hstep⟩ := Action.exists_of_run_bind_done hrun
    obtain ⟨huv, hrs, hsound, haccounts⟩ :=
      mapM_accounted (fun k hk _ _ _ _ _ hu => ih k hk hu) hu hchildren
    have hsv := C.order.trans hu huv
    obtain ⟨hvt, hmade⟩ := foldStep_accounted hv (C.sound_later holds.2 hsv) children
      (holds.1.mono (C.nextMark_le hsv)) hrs hsound haccounts hstep
    exact ⟨C.order.trans huv hvt, hmade⟩

theorem foldConstants_accounted {C : M.Course overrides foldCalls} {strict : Bool}
    {trace : FoldTrace} (hv : OperatorTable.Valid overrides)
    (h : n.All fun m => m.Older s ∧ C.sound s m)
    (hrun : (M.foldConstants ⟨strict, foldCalls, overrides⟩ (.node n)).run M.caller s =
      (.done (r, trace), t)) :
    n.Replaced t r ∧ ∃ befores, List.Forall₂ (C.Folded t) trace.steps befores ∧
      (n.identical r = true ↔ trace.steps = []) ∧
      n.size + befores.length = r.size + total Node.size befores := by
  obtain ⟨⟨r', trace'⟩, u, htree, hrun⟩ := Action.exists_of_run_bind_done hrun
  cases hrun
  obtain ⟨-, hmade⟩ := foldTree_accounted hv h (C.later_refl s) htree
  obtain ⟨steps, befores, hsteps, hfolded, hsame, hsize⟩ := hmade.accounts
  rw [List.append_nil] at hsteps
  subst hsteps
  refine ⟨hmade.replaced, befores, hfolded, ?_, by simpa using hsize⟩
  have hempty : befores = [] ↔ trace'.steps = [] := by
    rw [← List.length_eq_zero_iff, ← hfolded.length_eq, List.length_eq_zero_iff]
  rw [← hempty, ← hsame]
  simp

/-! ### Pure passes -/

/-- What is folded holds the value that the code of the tree gave. -/
theorem run_of_fold_done (hg : n.Ground foldCalls) (hv : OperatorTable.Valid overrides)
    (hrun : (M.fold overrides (.node n)).run M.caller s = (.done r, t)) :
    ∃ u v w, s.Noted u ∧ v.Noted t ∧
      ((n.code (OperatorTable.standard.overridden overrides)).run M.host []).run M.inner.caller u =
        (.done w, v) ∧
      r = .literal v.nextMark w (if n.type = .object || (v.store.typeValue n.type).isAbsent
        then v.store.typeOf w else n.type) := by
  obtain ⟨mark, u, hu, heq⟩ := fold_run (M := M) hg.owned hv M.caller s
  rw [heq] at hrun
  obtain ⟨w, v, hcall, hliteral⟩ := Action.exists_of_run_bind_done hrun
  rw [n.asLiteral_eq] at hliteral
  cases hliteral
  have hbody := M.call_thunk mark (n.code (OperatorTable.standard.overridden overrides)) u
  rw [hcall] at hbody
  rcases hbody with hbody | hbody
  · cases hbody
  · exact ⟨u, v, w, hu, .mark .refl 1, hbody.symm, rfl⟩

/-- The literal that a tree was folded to holds what the tree evaluates to ever after, and has the
type of the tree, unless nothing is known of that. -/
theorem Course.Folded.evaluates (hP : M.Pure S overrides foldCalls)
    {hkeeps : ∀ {s t}, S.later s t → s.KeepsSteps t} (hv : OperatorTable.Valid overrides)
    {step : Value} {before : Node} (h : (Course.ofPure hP hkeeps hv).Folded t step before) :
    ∃ mark v type, t.Recorded step before (.literal mark v type) ∧
      type = (if before.type = .object || (t.store.typeValue before.type).isAbsent
        then t.store.typeOf v else before.type) ∧
      ∀ u, S.later t u → ∀ bindings, ∃ w u',
        (M.inner.evaluate (.node before) bindings overrides).run M.inner.caller u = (.done w, u') ∧
          S.session u' ∧ S.value u' u' v w := by
  obtain ⟨after, hrecorded, s, s', ⟨hs, present⟩, fit, hrun, hst⟩ := h
  have hg := Node.ground_of_foldable present.wellFormed.1 fit
  obtain ⟨s₁, s₂, v, hs₁, hs₂, hcode, rfl⟩ := run_of_fold_done hg hv hrun
  have hs₁' := S.session_later hs (S.order.noted hs₁)
  have present₁ := present.later (S.order.noted hs₁) (S.order.noted hs₁)
  -- To run the code once more in any session that is later or the same ends the same.
  have hends {u : Session} (hu : S.later s₁ u) := Node.Ground.ends hP.host (M.depth - 1)
    hP.host.reads hg hs₁' (S.session_later hs₁' hu) (present₁.later (S.later_refl s₁) hu).akin
  have hself := hends (S.later_refl s₁)
  change S.Ends s₁ s₁ _ _ (Action.run _ M.inner.caller s₁) (Action.run _ M.inner.caller s₁) at hself
  rw [hcode] at hself
  cases hself with
  | done hs₁₂ _ hvalue =>
    have hst' : S.later s₂ t := S.order.trans (S.order.noted hs₂) hst
    have htype : S.type before.type :=
      hg.type_of_label present.labels.holds (Node.isLiteral_of_foldable fit)
    have hs₂' := S.session_later hs₁' hs₁₂
    refine ⟨_, v, _, hrecorded, ?_, fun u hu bindings => ?_⟩
    · rw [S.isAbsent_eq hs₂' (S.session_later hs₂' hst') htype,
        S.typeOf_eq (S.value_later hvalue (S.later_refl s₂) hst')]
    · have hagain := hends (S.order.trans hs₁₂ (S.order.trans hst' hu))
      change S.Ends s₁ u _ _ (Action.run _ M.inner.caller s₁) (Action.run _ M.inner.caller u)
        at hagain
      rw [hcode] at hagain
      rw [evaluate_owned hg.owned hv, hg.run_eq]
      change ∃ w u', ((before.code _).run M.host []).run M.inner.caller u = (.done w, u') ∧ _
      generalize Action.run _ M.inner.caller u = o at hagain ⊢
      cases hagain with
      | @done _ u' _ w _ huu' hw =>
        have hu' := S.session_later hs₂' (S.order.trans hst' (S.order.trans hu huu'))
        exact ⟨w, u', rfl, hu', S.value_later hw (S.order.trans hst' (S.order.trans hu huu'))
          (S.later_refl u')⟩

/-- The recorded trees can be walked, and so their sizes told. -/
theorem Course.Folded.walks {C : M.Course overrides foldCalls} {steps : List Value}
    {befores : List Node} (h : List.Forall₂ (C.Folded t) steps befores) :
    ∃ kss, List.Forall₂ (fun step ks => ∃ before,
        t.store.attribute? step "before" = some (.node before) ∧ walk (.node before) = pure ks)
          steps kss ∧
      (kss.map fun ks => (ks.length : Int) - 1).sum = total Node.size befores - befores.length := by
  induction h with
  | nil => exact ⟨[], .nil, rfl⟩
  | @cons step before steps befores hstep _ ih =>
    obtain ⟨after, hrecorded, u, _, hsound, -⟩ := hstep
    obtain ⟨ks, hks, hlength⟩ := walk_of_wellFormed (C.wellFormed hsound)
    obtain ⟨kss, hkss, hsum⟩ := ih
    refine ⟨ks :: kss, .cons ⟨before, hrecorded.attributes.1, hks⟩ hkss, ?_⟩
    rw [List.map_cons, List.sum_cons, hsum, hlength, total_cons, List.length_cons]
    omega

end Machine

end PredicateTree
