import PredicateTree.Proofs.Evaluation.Overrides
import PredicateTree.Proofs.Folding.Confluence
import PredicateTree.Proofs.Folding.Lockstep

/-!
# The reach of overrides in folding passes

What a folding pass tries to fold has no operator below its root
(`OperatorTable.AgreeOn.of_foldable`), and over new children a node keeps its operator.  So overrides
that agree on the operators of a tree do the same in every step of a pass over it
(`Machine.foldStep_congr`), and hence in the whole pass.  `Machine.overrides_local` puts this beside
what evaluation does with such overrides.
-/

namespace PredicateTree

variable {M : Machine} {c : Caller} {s u : Session} {t t' : OperatorTable} {n m k : Node}

/-! ### Operators of what is folded -/

namespace OperatorTable.AgreeOn

theorem of_offspring (here : ∀ key, n.operator? = some key → t key = t' key)
    (below : ∀ k ∈ n.offspring, t.AgreeOn t' k) : t.AgreeOn t' n := by
  intro m hm
  rw [Node.preorder_eq] at hm
  rcases List.mem_cons.1 hm with rfl | hm
  · exact here
  · obtain ⟨k, hk, hm⟩ := List.mem_flatMap.1 hm
    exact below k hk m hm

theorem of_isLiteral (h : n.isLiteral = true) : t.AgreeOn t' n := by
  cases n with
  | literal => exact .of_offspring (fun _ hkey => nomatch hkey) (fun _ hk => nomatch hk)
  | _ => cases h

/-- In a chain of members that starts at a literal there is no operator. -/
theorem of_constantAlong {constant : Bool} (hconstant : constant = n.isLiteral)
    (h : (constantAlong constant n).run c s = (.done true, u)) : t.AgreeOn t' n := by
  induction n using Node.offspring_induction generalizing constant s with
  | step n ih =>
    cases n with
    | member mark e name owner type =>
      refine .of_offspring (fun _ hkey => nomatch hkey) fun k hk => ?_
      cases e with
      | node e =>
        cases List.mem_singleton.1 hk
        exact ih k hk rfl h
      | _ => cases hk
    | _ =>
      cases h
      exact .of_isLiteral hconstant.symm

/-- What is folded has no operator below its root. -/
theorem of_foldable {foldCalls : Bool} (h : (n.foldable foldCalls).run c s = (.done true, u))
    (here : ∀ key, n.operator? = some key → t key = t' key) : t.AgreeOn t' n := by
  refine .of_offspring here fun k hk => ?_
  cases hn : n.childNodes with
  | error => simp [Node.offspring_of_error hn] at hk
  | ok ns =>
    rw [Node.offspring_of_ok hn] at hk
    cases Node.hasChildren_of_childNodes hn with
    | literal | parameter | static | lambda => cases h
    | member mark e name owner type =>
      cases List.mem_singleton.1 hk
      obtain ⟨b, v, hconstant, h⟩ := Action.exists_of_run_bind_done h
      cases b with
      | false => cases h
      | true => exact of_constantAlong (rfl : k.isLiteral = k.isLiteral) hconstant
    | unary mark op x type =>
      cases List.mem_singleton.1 hk
      exact of_isLiteral (Outcome.done.inj (Prod.mk.inj h).1)
    | binary mark op l r type =>
      have hall := Bool.and_eq_true_iff.1 (Outcome.done.inj (Prod.mk.inj h).1)
      rcases List.mem_pair.1 hk with rfl | rfl
      · exact of_isLiteral hall.1
      · exact of_isLiteral hall.2
    | conditional mark c x y type =>
      have hall := Bool.and_eq_true_iff.1 (Outcome.done.inj (Prod.mk.inj h).1)
      have hboth := Bool.and_eq_true_iff.1 hall.1
      rcases List.mem_cons.1 hk with rfl | hk
      · exact of_isLiteral hboth.1
      · rcases List.mem_pair.1 hk with rfl | rfl
        · exact of_isLiteral hboth.2
        · exact of_isLiteral hall.2
    | call mark f row args type =>
      have hall := Bool.and_eq_true_iff.1 (Outcome.done.inj (Prod.mk.inj h).1)
      rcases List.mem_cons.1 hk with rfl | hk
      · exact of_isLiteral (Bool.and_eq_true_iff.1 hall.1).2
      · exact of_isLiteral (List.all_eq_true.1 hall.2 _ (List.mem_map_of_mem hk))

end OperatorTable.AgreeOn

/-- Over new children a node has the operator that it had. -/
theorem Node.operator?_of_withChildren {vs : List Value}
    (h : (n.withChildren vs).run c s = (.done m, u)) : m.operator? = n.operator? := by
  obtain ⟨old, v, -, h⟩ := Action.exists_of_run_bind_done h
  split at h
  · cases h
  · split at h
    · cases h
      rfl
    · unfold rebuilt at h
      split at h
      all_goals
        repeat obtain ⟨_, _, _, h⟩ := Action.exists_of_run_bind_done h
        cases h
        rfl

/-! ### Folding -/

namespace Machine

variable {overrides overrides' : List (Value × Value)} (hv : OperatorTable.Valid overrides)
  (hv' : OperatorTable.Valid overrides')

include hv hv'

/-- Overrides that agree on the operators of a tree fold it in the same way. -/
theorem fold_congr (h : (OperatorTable.standard.overridden overrides).AgreeOn
    (OperatorTable.standard.overridden overrides') n) :
    M.fold overrides (.node n) = M.fold overrides' (.node n) := by
  have hthunk (mark row : Nat) : (OperatorTable.standard.overridden overrides).AgreeOn
      (OperatorTable.standard.overridden overrides') (.lambda mark row [] (.node n)) := by
    refine .of_offspring (fun _ hkey => nomatch hkey) fun k hk => ?_
    cases List.mem_singleton.1 hk
    exact h
  simp only [fold, Builder.lambda, Builder.lambdaOver, bind_assoc, pure_bind]
  refine bind_congr fun row => bind_congr fun mark => ?_
  rw [compileLambda_congr hv hv' (hthunk mark row)]

/-- Overrides that agree on the operator of a node do the same in a step of a pass. -/
theorem foldStep_congr {strict foldCalls : Bool}
    (h : ∀ key, n.operator? = some key → OperatorTable.standard.overridden overrides key =
      OperatorTable.standard.overridden overrides' key) (rs : List Node) :
    M.foldStep ⟨strict, foldCalls, overrides⟩ n rs =
      M.foldStep ⟨strict, foldCalls, overrides'⟩ n rs := by
  refine StateT.ext fun trace => ?_
  rw [foldStep_eq, foldStep_eq]
  funext c s
  refine Action.run_bind_congr fun current u hcurrent => Action.run_bind_congr fun b v hb => ?_
  cases b with
  | false => rw [if_neg Bool.false_ne_true, if_neg Bool.false_ne_true]
  | true =>
    have hagree := OperatorTable.AgreeOn.of_foldable hb fun key hkey =>
      h key ((Node.operator?_of_withChildren hcurrent).symm.trans hkey)
    rw [if_pos rfl, if_pos rfl, tryFold, tryFold, fold_congr hv hv' hagree]

/-- Overrides that agree on the operators of a tree do the same in a pass over it. -/
theorem foldConstants_congr (h : (OperatorTable.standard.overridden overrides).AgreeOn
    (OperatorTable.standard.overridden overrides') n) (strict foldCalls : Bool) :
    M.foldConstants ⟨strict, foldCalls, overrides⟩ (.node n) =
      M.foldConstants ⟨strict, foldCalls, overrides'⟩ (.node n) := by
  rw [foldConstants, foldConstants,
    foldTree_congr fun k hk bs => foldStep_congr hv hv' (h k hk) bs]

end Machine

/-- To override an operator affects only the trees that use it.  Overrides that agree on the operators
of a tree evaluate it in the same way, call by call, and fold it in the same way.  Where operators,
calls, truth tests and members are pure, it does not matter in which sessions the two passes run: they
end with equal trees or with faults of one class.  The short-circuit operators of the tree are control
flow, whatever is overridden. -/
theorem Machine.overrides_local {overrides overrides' : List (Value × Value)}
    (hv : OperatorTable.Valid overrides) (hv' : OperatorTable.Valid overrides')
    (agree : (OperatorTable.standard.overridden overrides).AgreeOn
      (OperatorTable.standard.overridden overrides') n) :
    (∀ bindings,
      M.evaluate (.node n) bindings overrides = M.evaluate (.node n) bindings overrides') ∧
    (∀ strict foldCalls, M.foldConstants ⟨strict, foldCalls, overrides⟩ (.node n) =
      M.foldConstants ⟨strict, foldCalls, overrides'⟩ (.node n)) ∧
    (∀ (S : Sameness) strict foldCalls, M.Pure S overrides foldCalls →
      M.host.FailsWith (.same S) (OperatorTable.standard.overridden overrides) foldCalls
        (Sameness.Kinship.same S).sameFaults →
      S.Compares M.caller → ∀ s u u', S.session s → S.later s u → S.later s u' →
      n.All (·.Older s) → n.All (S.Label s s) →
        S.Concurs u u' (fun f => f.isEvaluation = true ∧ strict = true)
          (fun _ _ f g => f.errorClass = g.errorClass)
          (fun t t' x y => ∀ w, S.later t w → S.later t' w →
            (structurallyEqual (.node x.1) (.node y.1)).Affirms M.caller w)
          ((M.foldConstants ⟨strict, foldCalls, overrides⟩ (.node n)).run M.caller u)
          ((M.foldConstants ⟨strict, foldCalls, overrides'⟩ (.node n)).run M.caller u')) ∧
    ∀ overrides, OperatorTable.Valid overrides →
      let code (v : Value) := v.code (OperatorTable.standard.overridden overrides)
      ∀ k ∈ n.preorder, ∀ mark l r type env,
        (k = .binary mark .andAlso l r type → (code (.node k)).run M.host env = do
          let v ← (code l).run M.host env
          if ← testingAt M.host k v then
            let w ← (code r).run M.host env
            return .bool (← testingAt M.host k w)
          else return .bool false) ∧
        (k = .binary mark .orElse l r type → (code (.node k)).run M.host env = do
          let v ← (code l).run M.host env
          if ← testingAt M.host k v then return .bool true
          else
            let w ← (code r).run M.host env
            return .bool (← testingAt M.host k w)) := by
  refine ⟨evaluate_congr hv hv' agree, foldConstants_congr hv hv' agree,
    fun S strict foldCalls hP hF hC s u u' hs hu hu' hold labels => ?_, ?_⟩
  · have hus := S.session_later hs hu
    have hakin := ((Sameness.Present.of_labels labels).later hu hu').akin
    have hpure : M.Pure S (FoldOptions.mk strict foldCalls overrides).overrides foldCalls := hP
    have hends := foldConstants_concurs hpure hF
      Sameness.Kinship.reports_sameFaults hP.host.reads hv hus (S.session_later hs hu') hakin
      (hold.mono fun _ h => h.later hu) (hold.mono fun _ h => h.later hu')
    rw [← foldConstants_congr hv hv' agree]
    refine ⟨(hends.mono fun ht _ h w hw hw' => ?_).ends,
      fun hf hg => (hends.faults hf hg).errorClass⟩
    exact h.affirms hC (Sameness.Kinship.same_compares hC) (S.session_later hus ht) hw hw'
  · intro overrides _ code k _ mark l r type env
    constructor
    · rintro rfl
      exact Node.code_run_both M env mark l r type
    · rintro rfl
      exact Node.code_run_either M env mark l r type

/-- The unary minus is overridden, and the tree only has the binary one. -/
theorem Machine.overrides_local_difference :
    let x : Parameter := ⟨1, "x", .object, 0⟩
    let sum : Node := .binary 1 .add (.node (.literal 2 (.ofInt 1) .int))
      (.node (.literal 3 (.ofInt 2) .int)) .object
    let difference : Node := .binary 4 .subtract (.node (.literal 5 (.ofInt 9) .int)) (.node sum)
      .object
    let n : Node := .binary 6 .andAlso (.node difference) (.node (.parameter x)) .bool
    let overrides : List (Value × Value) := [(.unaryOp .negate, .raiser 7 .value "no")]
    let M : Machine := ⟨Host.plain, 9⟩
    let s : Session := { nextMark := 8 }
    OperatorTable.Valid overrides ∧ OperatorTable.standard.overridden overrides (.unary .negate) ≠
        OperatorTable.standard (.unary .negate) ∧
      (∀ bindings, M.evaluate (.node n) bindings [] = M.evaluate (.node n) bindings overrides) ∧
      ∃ r trace t r' trace' t', (M.foldConstants ⟨false, true, []⟩ (.node n)).run
          M.caller s = (.done (r, trace), t) ∧ trace.steps.length = 2 ∧
        (M.foldConstants ⟨false, true, overrides⟩ (.node n)).run M.caller t =
          (.done (r', trace'), t') ∧
        (structurallyEqual (.node r) (.node r')).Affirms M.caller t' := by
  intro x sum difference n overrides M s
  let P (m : Node) : Prop := m.Older s ∧ Sameness.plain.Label s s m
  have hobject : Sameness.plain.type .object := fun _ => rfl
  have hbool : Sameness.plain.type .bool := fun _ => rfl
  have hliteral (mark : Nat) (i : Int) (hmark : mark < 8) :
      (Node.literal mark (.ofInt i) .int).All P :=
    .intro [] rfl ⟨fun _ => hmark, .same rfl⟩ (by simp)
  have hsum : sum.All P := .intro [_, _] rfl ⟨fun _ => by decide, hobject⟩
    (by simpa using ⟨hliteral 2 1 (by decide), hliteral 3 2 (by decide)⟩)
  have hdifference : difference.All P := .intro [_, _] rfl ⟨fun _ => by decide, hobject⟩
    (by simpa using ⟨hliteral 5 9 (by decide), hsum⟩)
  have hx : (Node.parameter x).All P :=
    .intro [] rfl ⟨Node.older_parameter x, trivial⟩ (by simp)
  have hall : n.All P := .intro [_, _] rfl ⟨fun _ => by decide, hbool⟩
    (by simpa using ⟨hdifference, hx⟩)
  have hv : OperatorTable.Valid [] := by simp [OperatorTable.Valid]
  have hv' : OperatorTable.Valid overrides := by simp [OperatorTable.Valid, overrides]; rfl
  have hpre : n.preorder = [n, difference, .literal 5 (.ofInt 9) .int, sum,
      .literal 2 (.ofInt 1) .int, .literal 3 (.ofInt 2) .int, .parameter x] := by
    have cn : n.childNodes = .ok [difference, .parameter x] := rfl
    have cd : difference.childNodes = .ok [.literal 5 (.ofInt 9) .int, sum] := rfl
    have cs : sum.childNodes = .ok [.literal 2 (.ofInt 1) .int, .literal 3 (.ofInt 2) .int] := rfl
    simp [Node.preorder_of_ok cn, Node.preorder_of_ok cd, Node.preorder_of_ok cs,
      Node.preorder_of_leaf (n := .parameter _) rfl,
      Node.preorder_of_leaf (n := .literal _ _ _) rfl]
  have agree : (OperatorTable.standard.overridden []).AgreeOn
      (OperatorTable.standard.overridden overrides) n := by
    intro k hk key hkey
    rw [hpre] at hk
    simp only [List.mem_cons, List.not_mem_nil, or_false] at hk
    rcases hk with rfl | rfl | rfl | rfl | rfl | rfl | rfl <;> cases hkey <;> rfl
  obtain ⟨hevaluate, -, hfold, -⟩ := Machine.overrides_local (M := M) hv hv' agree
  have hs : Sameness.plain.session s := rfl
  have hlater := Sameness.plain.later_refl
  have hpasses (u : Session) (hu : Sameness.plain.later s u) :=
    hfold Sameness.plain false true plain_pure Host.plain_failsWith
      (Sameness.plain_compares M.caller) s s u hs (hlater s) hu (hall.mono fun _ h => h.1)
      (hall.mono fun _ h => h.2)
  have hsteps : (((M.foldConstants ⟨false, true, []⟩ (.node n)).run M.caller s).1.map
      (·.2.steps.length)) = .done 2 := by cbv
  refine ⟨hv', ?_, hevaluate, ?_⟩
  · rintro h
    cases h
  rcases hpass : (M.foldConstants ⟨false, true, []⟩ (.node n)).run M.caller s with ⟨⟨r, trace⟩ | f | _, t⟩
  case raised | exhausted =>
    rw [hpass] at hsteps
    cases hsteps
  have hst : Sameness.plain.later s t := by
    have hboth := (hpasses s (hlater s)).ends
    rw [hpass] at hboth
    generalize (M.foldConstants _ _).run M.caller s = o at hboth
    cases hboth with
    | done h => exact h
  have hnext := (hpasses t hst).ends
  rw [hpass] at hsteps hnext
  generalize hrun : (M.foldConstants _ _).run M.caller t = o at hnext
  cases hnext with
  | @done _ t' _ r' _ htt' hequal =>
    exact ⟨r, trace, t, r'.1, r'.2, t', rfl, Outcome.done.inj hsteps, hrun,
      hequal t' htt' (hlater t')⟩

end PredicateTree
