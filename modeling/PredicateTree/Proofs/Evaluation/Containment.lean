import PredicateTree.Proofs.Evaluation.Compilation

/-!
# Containment of failures

Whatever operators, truth tests, members and functions fail with, running code reports it against a
node: the only faults that come out are faults of evaluation.  There is one exception.  A report
holds the text of its node, and what makes the text may fail itself; such a fault takes the place of
the report (`Host.FailsToReport`).  `Machine.evaluate_contained` says that nothing else escapes.
-/

namespace PredicateTree

namespace Action

variable {α β : Type} {c : Caller} {P Q : Fault → Prop}

/-- Every fault that an action ends with, its calls being made by `c`, has a property. -/
def RaisesOnly (c : Caller) (P : Fault → Prop) (x : Action α) : Prop :=
  ∀ s f t, x.run c s = (.raised f, t) → P f

theorem raisesOnly_pure (a : α) : RaisesOnly c P (pure a) := fun _ _ _ h => nomatch h

theorem raisesOnly_raise {f : Fault} (h : P f) : RaisesOnly c P (raise f : Action α) := by
  intro s g t hg
  cases hg
  exact h

theorem RaisesOnly.bind {x : Action α} {k : α → Action β} (hx : RaisesOnly c P x)
    (hk : ∀ a, RaisesOnly c P (k a)) : RaisesOnly c P (x >>= k) := by
  intro s f t h
  rw [run_bind] at h
  split at h
  · exact hk _ _ _ _ h
  · rename_i g u hg
    cases h
    exact hx _ _ _ hg
  · cases h

theorem RaisesOnly.handle {x : Action α} {h : Fault → Action α}
    (hh : ∀ f, RaisesOnly c P (h f)) : RaisesOnly c P (x.handle h) := by
  intro s f t hf
  rcases hx : x.run c s with ⟨a | g | _, u⟩
  · rw [run_handle_done hx] at hf
    cases hf
  · rw [run_handle_raised hx] at hf
    exact hh _ _ _ _ hf
  · rw [run_handle_exhausted hx] at hf
    cases hf

theorem RaisesOnly.mono {x : Action α} (hx : RaisesOnly c P x) (imp : ∀ f, P f → Q f) :
    RaisesOnly c Q x := fun s f t h => imp f (hx s f t h)

end Action

/-! ### Refused overrides -/

namespace OperatorTable

variable {overrides : List (Value × Value)} {c : Caller} {P : Fault → Prop}

theorem refuse_raisesOnly {α : Type} {key : Value} (hP : ∀ f, P (.failure f))
    (h : key.shown.RaisesOnly c P) : (refuse key : Action α).RaisesOnly c P := by
  refine Action.RaisesOnly.bind ?_ fun _ => Action.raisesOnly_raise (hP _)
  cases key with
  | binaryOp op => exact Action.raisesOnly_pure _
  | _ => exact h.bind fun _ => Action.raisesOnly_pure _

theorem overrideAll_raisesOnly (hP : ∀ f, P (.failure f))
    (h : ∀ e ∈ overrides, key? e.1 = none → e.1.shown.RaisesOnly c P) (t : OperatorTable) :
    (t.overrideAll overrides).RaisesOnly c P := by
  by_cases hv : Valid overrides
  · rw [overrideAll_eq hv]
    exact Action.raisesOnly_pure _
  · obtain ⟨key, hkey⟩ := exists_misused hv
    obtain ⟨e, he, rfl⟩ := List.mem_map.1 (List.mem_of_find?_eq_some hkey)
    rw [overrideAll_misused hkey]
    exact refuse_raisesOnly hP (h e he (by simpa using List.find?_some hkey))

/-- What fails otherwise than overrides are refused does so with the table of valid ones. -/
theorem valid_of_raised (hP : ∀ f, P (.failure f))
    (h : ∀ e ∈ overrides, key? e.1 = none → e.1.shown.RaisesOnly c P) {α : Type}
    {k : OperatorTable → Action α} {s t : Session} {f : Fault}
    (hrun : (resolve overrides >>= k).run c s = (.raised f, t)) (hf : ¬ P f) :
    Valid overrides := by
  rcases hr : (resolve overrides).run c s with ⟨u | g | _, s'⟩
  · exact valid_of_run hr
  · rw [Action.run_bind_raised hr] at hrun
    cases hrun
    exact absurd (overrideAll_raisesOnly hP h .standard s f t hr) hf
  · rw [Action.run_bind_exhausted hr] at hrun
    cases hrun

end OperatorTable

/-! ### Reports -/

/-- A fault that came out of making the texts of a report, of a node or of a name. -/
inductive Host.FailsToReport (host : Host) (f : Fault) : Prop where
  | describing {site : Node} {c : Caller} {s t : Session}
      (run : (host.describe site).run c s = (.raised f, t))
  | spelling {name : Value} {c : Caller} {s t : Session}
      (run : (host.spell name).run c s = (.raised f, t))

/-- The faults that running code ends with: faults of evaluation, and what takes the place of a
report that cannot be made. -/
def Host.Escapes (host : Host) (f : Fault) : Prop := f.isEvaluation = true ∨ host.FailsToReport f

section report

variable {host : Host} {c : Caller} {α : Type}

theorem describe_raisesOnly (site : Node) :
    Action.RaisesOnly c host.Escapes (host.describe site) :=
  fun _ _ _ h => .inr (.describing h)

theorem spell_raisesOnly (name : Value) : Action.RaisesOnly c host.Escapes (host.spell name) :=
  fun _ _ _ h => .inr (.spelling h)

/-- Whatever fails at a node, only reports come out of there, what `reporting` passes on, and what
takes the place of a report. -/
theorem reporting_raisesOnly {P : Fault → Prop} {site : Node} {activity : Action Activity}
    {passes : Fault → Bool} (ha : activity.RaisesOnly c P)
    (hd : (host.describe site).RaisesOnly c P) (hp : ∀ f, passes f = true → P f)
    (hr : ∀ shown activity f, P (.failedAt site shown activity f)) (x : Action α) :
    (reporting host site activity passes x).RaisesOnly c P := by
  refine Action.RaisesOnly.handle fun f => ?_
  split
  · rename_i hf
    exact Action.raisesOnly_raise (hp f hf)
  · refine ha.bind fun _ => hd.bind fun _ => ?_
    exact Action.raisesOnly_raise (hr _ _ _)

theorem applyingAt_raisesOnly (site : Node) (x : Action α) :
    (applyingAt host site x).RaisesOnly c host.Escapes :=
  reporting_raisesOnly (Action.raisesOnly_pure _) (describe_raisesOnly site) (fun _ h => .inl h)
    (fun _ _ _ => .inl rfl) x

theorem readingAt_raisesOnly (site : Node) (name v : Value) :
    (readingAt host site name v).RaisesOnly c host.Escapes := by
  refine reporting_raisesOnly ?_ (describe_raisesOnly site) ?_ (fun _ _ _ => .inl rfl) _
  · exact (spell_raisesOnly name).bind fun _ => Action.raisesOnly_pure _
  · intro f hf
    cases hf

theorem testingAt_raisesOnly (site : Node) (v : Value) :
    (testingAt host site v).RaisesOnly c host.Escapes := applyingAt_raisesOnly site _

theorem unboundAt_raisesOnly (p : Parameter) : (unboundAt host p).RaisesOnly c host.Escapes := by
  refine Action.RaisesOnly.bind (fun _ _ _ h => nomatch h) fun s => ?_
  exact (spell_raisesOnly _).bind fun _ => Action.raisesOnly_raise (.inl rfl)

end report

/-! ### Code -/

mutual

/-- Running code raises nothing but faults of evaluation and what takes the place of a report. -/
theorem Code.run_raisesOnly (host : Host) (c : Caller) :
    ∀ (code : Code) (env : Environment), (code.run host env).RaisesOnly c host.Escapes
  | .constant _, _ => Action.raisesOnly_pure _
  | .variable p, env => by
    rw [Code.run]
    split
    · exact Action.raisesOnly_pure _
    · exact unboundAt_raisesOnly p
  | .readMember site target name, env =>
    (Code.run_raisesOnly host c target env).bind fun _ => readingAt_raisesOnly site name _
  | .readStatic site owner name, _ => readingAt_raisesOnly site name owner
  | .applyUnary site f operand, env =>
    (Code.run_raisesOnly host c operand env).bind fun _ => applyingAt_raisesOnly site _
  | .applyBinary site f left right, env =>
    (Code.run_raisesOnly host c left env).bind fun _ =>
      (Code.run_raisesOnly host c right env).bind fun _ => applyingAt_raisesOnly site _
  | .both site left right, env =>
    (Code.run_raisesOnly host c left env).bind fun v =>
      (testingAt_raisesOnly site v).bind fun b => by
        cases b
        · exact Action.raisesOnly_pure _
        · exact (Code.run_raisesOnly host c right env).bind fun w =>
            (testingAt_raisesOnly site w).bind fun _ => Action.raisesOnly_pure _
  | .either site left right, env =>
    (Code.run_raisesOnly host c left env).bind fun v =>
      (testingAt_raisesOnly site v).bind fun b => by
        cases b
        · exact (Code.run_raisesOnly host c right env).bind fun w =>
            (testingAt_raisesOnly site w).bind fun _ => Action.raisesOnly_pure _
        · exact Action.raisesOnly_pure _
  | .choose site test ifTrue ifFalse, env =>
    (Code.run_raisesOnly host c test env).bind fun v =>
      (testingAt_raisesOnly site v).bind fun b => by
        cases b
        · exact Code.run_raisesOnly host c ifFalse env
        · exact Code.run_raisesOnly host c ifTrue env
  | .call site function arguments, env =>
    (Code.run_raisesOnly host c function env).bind fun _ =>
      (runAll_raisesOnly host c arguments env).bind fun _ => applyingAt_raisesOnly site _
  | .abstraction _ _, _ =>
    Action.RaisesOnly.bind (fun _ _ _ h => nomatch h) fun _ => Action.raisesOnly_pure _

theorem runAll_raisesOnly (host : Host) (c : Caller) :
    ∀ (codes : List Code) (env : Environment), (runAll host codes env).RaisesOnly c host.Escapes
  | [], _ => Action.raisesOnly_pure _
  | code :: codes, env =>
    (Code.run_raisesOnly host c code env).bind fun _ =>
      (runAll_raisesOnly host c codes env).bind fun _ => Action.raisesOnly_pure _

end

/-- Evaluation of a tree whose static members have owners contains all failures. -/
theorem Machine.evaluate_contained {M : Machine} {n : Node} {overrides : List (Value × Value)}
    (h : n.All (·.isOwned)) (hv : OperatorTable.Valid overrides)
    (bindings : List (Value × Value)) (c : Caller) :
    (M.evaluate (.node n) bindings overrides).RaisesOnly c M.host.Escapes := by
  rw [evaluate_owned h hv]
  exact Code.run_raisesOnly M.host c _ _

end PredicateTree
