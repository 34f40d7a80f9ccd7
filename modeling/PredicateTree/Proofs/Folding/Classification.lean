import PredicateTree.Proofs.Folding.Exhaustion
import PredicateTree.Proofs.Folding.Overrides

/-!
# Shallow classification

A chain of members is read from the expression that it starts at, its root (`Node.root?`).  The two
quick checks follow the chain link by link, and what they find is decided by the root
(`Node.isConstantSubtree_root`, `Node.isParameterFree_root`).

A chain that starts at a literal is built from literals and has no operator.  So its evaluation
looks at neither bindings nor overrides, and where members are pure (`Host.PureReads`), it comes to
the same whenever it is done (`Machine.classification_sound`).
-/

namespace PredicateTree

namespace Node

/-- The expression that a chain of members starts at.  One that starts at a static member has none,
and what is no member is its own root. -/
def root? : Node → Option Node
  | .member _ expression _ _ _ =>
    match expression with
    | .node inner => inner.root?
    | _ => none
  | n => some n
termination_by structural n => n

variable {n : Node} {foldCalls : Bool}

/-! ### What the checks find -/

theorem constantAlong_root (h : n.WellFormed) :
    constantAlong n.isLiteral n = pure (n.root?.any (·.isLiteral)) := by
  induction h using All.induction with
  | member mark e name owner type _ _ _ ih => exact ih
  | _ => rfl

/-- A node is found constant if its root is a literal. -/
theorem isConstantSubtree_root (h : n.WellFormed) :
    isConstantSubtree (.node n) = pure (n.root?.any (·.isLiteral)) := by
  have hchain := constantAlong_root h
  change (if n.isLiteral then pure true else constantAlong false n) = _
  cases hl : n.isLiteral with
  | false =>
    rw [hl] at hchain
    exact hchain
  | true =>
    cases n with
    | literal => rfl
    | _ => cases hl

/-- A node is found free of parameters unless its root is one. -/
theorem isParameterFree_root (h : n.WellFormed) :
    isParameterFree (.node n) = pure (n.root?.all (·.asParameter?.isNone)) := by
  change parameterFreeAlong n = _
  induction h using All.induction with
  | member mark e name owner type _ _ _ ih => exact ih
  | _ => rfl

theorem any_root_iff : n.root?.any (·.isLiteral) = true ↔
    ∃ mark v type, n.root? = some (.literal mark v type) := by
  rw [Option.any_eq_true]
  constructor
  · rintro ⟨r, hr, hl⟩
    cases r with
    | literal mark v type => exact ⟨mark, v, type, hr⟩
    | _ => cases hl
  · rintro ⟨mark, v, type, hr⟩
    exact ⟨_, hr, rfl⟩

theorem all_root_iff : n.root?.all (·.asParameter?.isNone) = false ↔
    ∃ p, n.root? = some (.parameter p) := by
  rw [Option.all_eq_false]
  constructor
  · rintro ⟨r, hr, hp⟩
    cases r with
    | parameter p => exact ⟨p, hr⟩
    | _ => cases hp
  · rintro ⟨p, hr⟩
    exact ⟨_, hr, rfl⟩

/-! ### Chains that start at a literal -/

/-- A chain that starts at a literal is built from literals. -/
theorem ground_of_root (h : n.WellFormed) (hroot : n.root?.any (·.isLiteral) = true) :
    n.Ground foldCalls := by
  obtain ⟨b, hb, hground⟩ := constantAlong_eq foldCalls h n.isLiteral
  refine hground ?_ rfl
  rw [← Action.pure_injective ((constantAlong_root h).symm.trans hb), hroot]

/-- In a chain that starts at a literal stands no parameter. -/
theorem parametersOf_preorder_of_root (h : n.WellFormed)
    (hroot : n.root?.any (·.isLiteral) = true) : parametersOf n.preorder = [] := by
  induction h using All.induction with
  | literal mark v type =>
    rw [preorder_of_leaf rfl]
    rfl
  | member mark e name owner type _ _ _ ih =>
    rw [preorder_of_ok (childNodes_member ..), List.flatMap_singleton]
    exact ih hroot
  | _ => cases hroot

/-- Tables agree on a chain that starts at a literal, which has no operator. -/
theorem agreeOn_of_root (h : n.WellFormed) (hroot : n.root?.any (·.isLiteral) = true)
    (t t' : OperatorTable) : t.AgreeOn t' n := by
  have hchain := constantAlong_root h
  rw [hroot] at hchain
  refine .of_constantAlong (c := fun f _ s => (.done f, s)) (s := {}) (u := {}) rfl ?_
  rw [hchain]
  rfl

end Node

/-! ### Evaluation -/

/-- Members are pure: under one name the same values are read with the same end, and where that
fails, with faults that are the same.  The texts of reports can be made. -/
structure Host.PureReads (host : Host) (S : Sameness) : Prop extends host.Reporting S where
  member : ∀ depth {s s' v v' name}, S.session s → S.session s' → S.value s s' v v' →
    S.value s s' name name →
    S.Concurs s s' (fun _ => True) (Sameness.Kinship.same S).sameFaults S.value
      ((host.member v name).within host depth s) ((host.member v' name).within host depth s')

variable {n : Node} {S : Sameness} {s s' u u' : Session}

theorem Host.Pure.pureReads {host : Host} {t : OperatorTable} {foldCalls : Bool}
    (hP : host.Pure S t foldCalls)
    (hF : host.FailsWith (.same S) t foldCalls (Sameness.Kinship.same S).sameFaults) :
    host.PureReads S :=
  { hP.reporting with
    member := fun depth _ _ _ _ _ hs hs' hv hname =>
      ⟨hP.member depth hs hs' hv hname, hF.member depth hs hs' hv ⟨rfl, hname⟩⟩ }

/-- Where members are pure, a chain that starts at a literal is read with the same end from two
sessions. -/
theorem Node.code_concurs {host : Host} {t : OperatorTable} (hP : host.PureReads S) (depth : Nat)
    (hs : S.session s) (hs' : S.session s') (h : (Sameness.Kinship.same S).Akin s s' n n)
    (hroot : n.root?.any (·.isLiteral) = true) :
    S.Concurs s s' (·.isEvaluation = true) (Sameness.Kinship.same S).sameFaults S.value
      (((n.code t).run host []).within host depth s)
      (((n.code t).run host []).within host depth s') := by
  induction h.wellFormed.1 using Node.All.induction generalizing s s' with
  | literal mark v type =>
    cases h.kinds with
    | literal hv => exact .pure hv
  | member mark e name owner type _ _ _ ih =>
    obtain ⟨-, here, there⟩ := h.label
    cases h.kinds with
    | member hname he =>
      refine (ih hs hs' he hroot).bind fun hu hu' hv => ?_
      have hus := S.session_later hs hu
      have hus' := S.session_later hs' hu'
      have hread := hP.member depth hus hus' hv (S.value_later hname.2 hu hu')
      exact readingAt_concurs hP.toReporting Sameness.Kinship.reports_sameFaults depth hus hus'
        (h.later hu hu') (S.value_later here.1 hu hu) (S.value_later there.1 hu' hu') hread.ends
        hread.faults
  | _ => cases hroot

namespace Machine

variable {M : Machine} {overrides overrides' : List (Value × Value)}

/-- A chain that starts at a literal is evaluated in the same way whatever is bound or
overridden. -/
theorem evaluate_of_root (h : n.WellFormed) (hroot : n.root?.any (·.isLiteral) = true)
    (hv : OperatorTable.Valid overrides) (hv' : OperatorTable.Valid overrides')
    (bindings : List (Value × Value)) :
    M.evaluate (.node n) bindings overrides = M.evaluate (.node n) [] overrides' := by
  have hground : n.Ground false := Node.ground_of_root h hroot
  rw [evaluate_congr hv hv' (Node.agreeOn_of_root h hroot _ _), evaluate_owned hground.owned hv',
    evaluate_owned hground.owned hv', hground.run_eq]
  rfl

/-- What the quick checks find is decided by the root of a chain of members: a node is found
constant if that is a literal, and found free of parameters unless it is one.  What is found
constant is found free of parameters and refers to none.  It is evaluated in the same way, call by
call, whatever is bound or overridden, and where members are pure, with the same end from whatever
sessions. -/
theorem classification_sound (h : n.WellFormed) :
    ∃ constant free, isConstantSubtree (.node n) = pure constant ∧
      isParameterFree (.node n) = pure free ∧
      (constant = true ↔ ∃ mark v type, n.root? = some (.literal mark v type)) ∧
      (free = false ↔ ∃ p, n.root? = some (.parameter p)) ∧
      (constant = true → free = true ∧ parameterReferences (.node n) = pure [] ∧
        ∀ bindings bindings' overrides overrides', OperatorTable.Valid overrides →
          OperatorTable.Valid overrides' →
          M.evaluate (.node n) bindings overrides = M.evaluate (.node n) bindings' overrides' ∧
          ∀ S : Sameness, M.host.PureReads S → ∀ s u u', S.session s → S.later s u →
            S.later s u' → n.All (S.Label s s) →
            S.Concurs u u' (·.isEvaluation = true) (Sameness.Kinship.same S).sameFaults S.value
              ((M.evaluate (.node n) bindings overrides).run M.caller u)
              ((M.evaluate (.node n) bindings' overrides').run M.caller u')) := by
  refine ⟨_, _, Node.isConstantSubtree_root h, Node.isParameterFree_root h, Node.any_root_iff,
    Node.all_root_iff,
    fun hroot => ⟨?_, ?_, fun bindings bindings' overrides overrides' hv hv' => ?_⟩⟩
  · obtain ⟨mark, v, type, hliteral⟩ := Node.any_root_iff.1 hroot
    rw [hliteral]
    rfl
  · rw [parameterReferences_preorder h, Node.parametersOf_preorder_of_root h hroot]
  · have hplain : OperatorTable.Valid [] := by simp [OperatorTable.Valid]
    refine ⟨(evaluate_of_root h hroot hv hplain bindings).trans
      (evaluate_of_root h hroot hv' hplain bindings').symm, fun S hP s u u' hs hu hu' labels => ?_⟩
    have hground : n.Ground false := Node.ground_of_root h hroot
    rw [evaluate_of_root h hroot hv hplain, evaluate_of_root h hroot hv' hplain,
      evaluate_owned hground.owned hplain]
    exact Node.code_concurs hP M.depth (S.session_later hs hu) (S.session_later hs hu')
      ((Sameness.Present.of_labels labels).later hu hu').akin hroot

/-- A member of a member of a number: a value is bound and an operator is overridden, or not. -/
theorem classification_sound_chain :
    let x : Parameter := ⟨1, "x", .object, 0⟩
    let inner : Node := .member 2 (.node (.literal 3 (.ofInt 5) .int)) (.ofText "real") .absent
      .object
    let n : Node := .member 4 (.node inner) (.ofText "imag") .absent .object
    let bindings : List (Value × Value) := [(.node (.parameter x), .ofInt 7)]
    let overrides : List (Value × Value) := [(.unaryOp .negate, .raiser 5 .value "no")]
    let M : Machine := ⟨Host.plain, 9⟩
    n.WellFormed ∧ isConstantSubtree (.node n) = pure true ∧ isParameterFree (.node n) = pure true ∧
      parameterReferences (.node n) = pure [] ∧
      M.evaluate (.node n) bindings overrides = M.evaluate (.node n) [] [] ∧
      Sameness.plain.Concurs { nextMark := 6 } { nextMark := 8 } (·.isEvaluation = true)
        (Sameness.Kinship.same Sameness.plain).sameFaults Sameness.plain.value
        ((M.evaluate (.node n) bindings overrides).run M.caller { nextMark := 6 })
        ((M.evaluate (.node n) [] []).run M.caller { nextMark := 8 }) := by
  intro x inner n bindings overrides M
  let P := Sameness.plain.Label { nextMark := 6 } { nextMark := 6 }
  have hname (text : String) : (Value.ofText text).PlainlySame (.ofText text) := .same rfl
  have hobject : Sameness.plain.type .object := fun _ => rfl
  have hliteral : (Node.literal 3 (.ofInt 5) .int).All P := .intro [] rfl (.same rfl) (by simp)
  have hinner : inner.All P := .intro [_] rfl ⟨hname "real", hobject⟩ (by simpa using hliteral)
  have hall : n.All P := .intro [inner] rfl ⟨hname "imag", hobject⟩ (by simpa using hinner)
  have hv : OperatorTable.Valid overrides := by simp [OperatorTable.Valid, overrides]; rfl
  have hv' : OperatorTable.Valid [] := by simp [OperatorTable.Valid]
  obtain ⟨constant, free, hconstant, hfree, hroot, -, hsound⟩ :=
    classification_sound (M := M) hall.wellFormed
  obtain rfl := hroot.2 ⟨3, .ofInt 5, .int, rfl⟩
  obtain ⟨rfl, hreferences, hevaluate⟩ := hsound rfl
  obtain ⟨hsame, hpure⟩ := hevaluate bindings [] overrides [] hv hv'
  have hlater : Sameness.plain.later { nextMark := 6 } { nextMark := 8 } :=
    ⟨⟨by decide, id⟩, fun _ _ h => h⟩
  exact ⟨hall.wellFormed, hconstant, hfree, hreferences, hsame,
    hpure Sameness.plain (Host.plain_pure.pureReads Host.plain_failsWith) { nextMark := 6 } _ _ rfl
      (Sameness.plain.later_refl _) hlater hall⟩

end Machine

end PredicateTree
