import PredicateTree.Proofs.Evaluation.Bookkeeping

/-!
# Time

A run leaves a later session than it began with, in an order of sessions that counts bookkeeping as
progress (`Session.Order`).  `Action.Advances` says so of an action however it ends, and
`Host.Advances` of what a host does.
-/

namespace PredicateTree

/-- However an action ends, it leaves a later session. -/
def Action.Advances {α : Type} (later : Session → Session → Prop) (c : Caller) (x : Action α) :
    Prop := ∀ s, later s (x.run c s).2

/-- Calls of some functions, truth, members and texts for reports leave later sessions. -/
structure Host.Advances (host : Host) (callable : Value → Prop)
    (later : Session → Session → Prop) : Prop where
  call : ∀ depth f args, callable f →
    (Action.call f args).Advances later (Machine.callWithin host depth)
  truth : ∀ depth v, (host.truth v).Advances later (Machine.callWithin host depth)
  member : ∀ depth v name, (host.member v name).Advances later (Machine.callWithin host depth)
  describe : ∀ depth n, (host.describe n).Advances later (Machine.callWithin host depth)
  spell : ∀ depth name, (host.spell name).Advances later (Machine.callWithin host depth)

variable {later : Session → Session → Prop} (hl : Session.Order later) {host : Host}
  {callable : Value → Prop} {c : Caller} {α β : Type}

namespace Action.Advances

theorem later_of_run {x : Action α} (hx : x.Advances later c) {s t : Session} {o : Outcome α}
    (h : x.run c s = (o, t)) : later s t := by
  have hs := hx s
  rwa [h] at hs

include hl

theorem of_result {x : Action α} (h : ∀ s, ∃ o, x.run c s = (o, s)) : x.Advances later c := by
  intro s
  obtain ⟨o, ho⟩ := h s
  rw [ho]
  exact hl.noted .refl

theorem bind {x : Action α} {k : α → Action β} (hx : x.Advances later c)
    (hk : ∀ a, (k a).Advances later c) : (x >>= k).Advances later c := by
  intro s
  have hs := hx s
  rcases hrun : x.run c s with ⟨a | f | _, t⟩
  · rw [hrun] at hs
    rw [run_bind_done hrun]
    exact hl.trans hs (hk a t)
  · rw [hrun] at hs
    rw [run_bind_raised hrun]
    exact hs
  · rw [hrun] at hs
    rw [run_bind_exhausted hrun]
    exact hs

theorem handle {x : Action α} {h : Fault → Action α} (hx : x.Advances later c)
    (hh : ∀ f, (h f).Advances later c) : (x.handle h).Advances later c := by
  intro s
  have hs := hx s
  rcases hrun : x.run c s with ⟨a | f | _, t⟩
  · rw [hrun] at hs
    rw [run_handle_done hrun]
    exact hs
  · rw [hrun] at hs
    rw [run_handle_raised hrun]
    exact hl.trans hs (hh f t)
  · rw [hrun] at hs
    rw [run_handle_exhausted hrun]
    exact hs

end Action.Advances

theorem ite_advances {x y : Action α} (hx : x.Advances later c)
    (hy : y.Advances later c) (b : Bool) : (if b then x else y).Advances later c := by
  cases b with
  | false => exact hy
  | true => exact hx

include hl in
theorem pure_advances (a : α) : (pure a : Action α).Advances later c :=
  .of_result hl fun _ => ⟨_, rfl⟩

/-! ### At a node -/

theorem run_of_reporting_done {α : Type} {host : Host} {site : Node} {activity : Action Activity}
    {passes : Fault → Bool} {x : Action α} {a : α} {c : Caller} {s t : Session}
    (h : (reporting host site activity passes x).run c s = (.done a, t)) :
    x.run c s = (.done a, t) := by
  rcases hx : x.run c s with ⟨b | f | _, u⟩
  · rwa [reporting, Action.run_handle_done hx] at h
  · rw [reporting, Action.run_handle_raised hx] at h
    split at h
    · cases h
    · obtain ⟨_, _, _, h⟩ := Action.exists_of_run_bind_done h
      obtain ⟨_, _, _, h⟩ := Action.exists_of_run_bind_done h
      cases h
  · rw [reporting, Action.run_handle_exhausted hx] at h
    cases h

section node

variable (hA : host.Advances callable later) (depth : Nat)

include hl hA

theorem reporting_advances (site : Node) {activity : Action Activity}
    (ha : activity.Advances later (Machine.callWithin host depth)) (passes : Fault → Bool)
    {x : Action α} (hx : x.Advances later (Machine.callWithin host depth)) :
    (reporting host site activity passes x).Advances later (Machine.callWithin host depth) := by
  refine .handle hl hx fun f => ?_
  split
  · exact .of_result hl fun _ => ⟨_, rfl⟩
  · refine .bind hl ha fun _ => .bind hl (hA.describe depth site) fun _ => ?_
    exact .of_result hl fun _ => ⟨_, rfl⟩

theorem callingAt_advances (site : Node) {f : Value} (hf : callable f) (args : List Value) :
    (applyingAt host site (Action.call f args)).Advances later (Machine.callWithin host depth) :=
  reporting_advances hl hA depth site (.of_result hl fun _ => ⟨_, rfl⟩) _ (hA.call depth f args hf)

theorem testingAt_advances (site : Node) (v : Value) :
    (testingAt host site v).Advances later (Machine.callWithin host depth) :=
  reporting_advances hl hA depth site (.of_result hl fun _ => ⟨_, rfl⟩) _ (hA.truth depth v)

theorem readingAt_advances (site : Node) (name v : Value) :
    (readingAt host site name v).Advances later (Machine.callWithin host depth) := by
  refine reporting_advances hl hA depth site ?_ _ (hA.member depth v name)
  exact .bind hl (hA.spell depth name) fun _ => .of_result hl fun _ => ⟨_, rfl⟩

end node

end PredicateTree
