import PredicateTree.Proofs.Folding.Step
import PredicateTree.Proofs.Traversal.Orders

/-!
# Invalid overrides

Where overrides are not valid, the first key that cannot be overridden is refused
(`OperatorTable.resolve_misused`), before anything of a tree is looked at.  A folding pass looks at
its overrides only when it tries to fold a node, and it comes to the first such node with the tree
as it was (`Machine.foldTree_begins`).  So invalid overrides are refused by evaluation and by
folding in any case, and by a pass if it has something to fold
(`Machine.invalid_overrides_refused`).
-/

namespace PredicateTree

namespace Machine

variable {M : Machine} {overrides : List (Value × Value)} {key : Value}

/-- Of a tree that is to be folded with invalid overrides only the lambda around it is made. -/
theorem fold_misused (h : OperatorTable.misused? overrides = some key) (n : Node) :
    M.fold overrides (.node n) = (do
      let _ ← Action.freshMark
      let _ ← Action.freshMark
      OperatorTable.refuse key) := by
  have hr (mark row : Nat) : requireLambda "compile_lambda expects"
    (.node (.lambda mark row [] (.node n))) = pure (row, [], .node n) := rfl
  simp only [fold, Builder.lambda, Builder.lambdaOver, compileLambda, codeOf, hr, bind_assoc,
    pure_bind, OperatorTable.resolve_misused h, OperatorTable.refuse_bind]

/-- A pass that tries to fold a node with invalid overrides ends there, strict or not. -/
theorem tryFold_misused (h : OperatorTable.misused? overrides = some key)
    {strict foldCalls : Bool} (n : Node) (trace : FoldTrace) {c : Caller} {s t : Session}
    {f : Failure} (hf : (OperatorTable.complaint key).run c (s.marked 2) = (.done f, t)) :
    (M.tryFold ⟨strict, foldCalls, overrides⟩ n trace).run c s = (.raised (.failure f), t) := by
  have hfold : (M.fold overrides (.node n)).run c s = (.raised (.failure f), t) := by
    rw [fold_misused h]
    exact OperatorTable.refuse_run hf
  -- a refusal is no fault of evaluation, so a lenient pass does not go on either
  rw [tryFold_of_raised trace hfold, if_neg (by simp [Fault.isEvaluation_failure])]

/-! ### Up to the first node that is tried -/

/-- What a part of a pass does that is to give `a` if none of the nodes `ns` is tried: if none can
be folded it does nothing else, and otherwise it begins by trying one of them. -/
def Begins {α : Type} (M : Machine) (options : FoldOptions) (ns : List Node)
    (x : StateT FoldTrace Action α) (a : α) : Prop :=
  (∀ k ∈ ns, k.foldable options.foldCalls = pure false) ∧ x = pure a ∨
    ∃ k ∈ ns, k.foldable options.foldCalls = pure true ∧
      ∃ rest, ∀ trace, x.run trace = M.tryFold options k trace >>= rest

namespace Begins

variable {α β : Type} {options : FoldOptions} {ns ms : List Node}

theorem pure (a : α) : M.Begins options [] (pure a) a := .inl ⟨by simp, rfl⟩

theorem bind {x : StateT FoldTrace Action α} {k : α → StateT FoldTrace Action β} {a : α} {b : β}
    (hx : M.Begins options ns x a) (hk : M.Begins options ms (k a) b) :
    M.Begins options (ns ++ ms) (x >>= k) b := by
  rcases hx with ⟨hnone, rfl⟩ | ⟨m, hm, hfit, rest, hrest⟩
  · rw [pure_bind]
    rcases hk with ⟨hnone', hk⟩ | ⟨m, hm, hfit, hrest⟩
    · exact .inl ⟨fun m hm => (List.mem_append.1 hm).elim (hnone m) (hnone' m), hk⟩
    · exact .inr ⟨m, List.mem_append_right ns hm, hfit, hrest⟩
  · refine .inr ⟨m, List.mem_append_left ms hm, hfit, fun r => rest r >>= fun p => (k p.1).run p.2,
      fun trace => ?_⟩
    rw [StateT.run_bind, hrest, bind_assoc]

theorem mapM {g : Node → StateT FoldTrace Action Node} {order : Node → List Node}
    (each : ∀ k ∈ ns, M.Begins options (order k) (g k) k) :
    M.Begins options (ns.flatMap order) (ns.mapM g) ns := by
  induction ns with
  | nil => exact .pure []
  | cons k ns ih =>
    rw [List.flatMap_cons, List.mapM_cons]
    refine (each k List.mem_cons_self).bind ?_
    rw [← List.append_nil (ns.flatMap order)]
    exact (ih fun m hm => each m (List.mem_cons_of_mem k hm)).bind (.pure _)

end Begins

variable {n : Node} {ns : List Node}

/-- Over its own children a node is tried as it is. -/
theorem foldStep_begins (options : FoldOptions) (h : n.WellFormed) (hn : n.childNodes = .ok ns) :
    M.Begins options [n] (M.foldStep options n ns) n := by
  obtain ⟨b, hb, -⟩ := Node.foldable_eq options.foldCalls h
  have hrun (trace : FoldTrace) : (M.foldStep options n ns).run trace =
      if b then M.tryFold options n trace else pure (n, trace) := by
    rw [foldStep_eq, Node.withChildren_self hn, pure_bind, hb, pure_bind]
  cases b with
  | false => exact .inl ⟨by simpa using hb, StateT.ext hrun⟩
  | true =>
    refine .inr ⟨n, List.mem_singleton_self n, hb, pure, fun trace => ?_⟩
    rw [hrun, if_pos rfl, bind_pure]

/-- A pass over a tree in which nothing can be folded gives the tree.  Any other pass begins by
trying a node of the tree. -/
theorem foldTree_begins (options : FoldOptions) (h : n.WellFormed) :
    M.Begins options n.postorder (foldTree (M.foldStep options) (.node n)) n := by
  induction h with
  | @intro n ns hn _ below ih =>
    have hwf : n.WellFormed := .intro ns hn trivial below
    rw [foldTree_node hwf hn, Node.postorder_of_ok hn]
    exact (Begins.mapM ih).bind (foldStep_begins options hwf hn)

/-- A pass that finds nothing to fold gives the tree as it is, whatever is overridden. -/
theorem foldConstants_of_none (options : FoldOptions) (h : n.WellFormed)
    (hnone : ∀ k ∈ n.preorder, k.foldable options.foldCalls = pure false) :
    M.foldConstants options (.node n) =
      pure (n, { initial := .node n, final := .node n }) := by
  rcases foldTree_begins (M := M) options h with ⟨-, hrun⟩ | ⟨m, hm, hfit, -⟩
  · rw [foldConstants, hrun]
    rfl
  · have hno := hnone m (n.postorder_perm.mem_iff.1 hm)
    cases Action.pure_injective (hfit.symm.trans hno)

/-- A pass that has something to fold refuses invalid overrides. -/
theorem foldConstants_misused (h : OperatorTable.misused? overrides = some key)
    {strict foldCalls : Bool} (hn : n.WellFormed) {k : Node} (hk : k ∈ n.preorder)
    (hfit : k.foldable foldCalls = pure true) {c : Caller} {s t : Session} {f : Failure}
    (hf : (OperatorTable.complaint key).run c (s.marked 2) = (.done f, t)) :
    (M.foldConstants ⟨strict, foldCalls, overrides⟩ (.node n)).run c s =
      (.raised (.failure f), t) := by
  rcases foldTree_begins (M := M) ⟨strict, foldCalls, overrides⟩ hn with
    ⟨hnone, -⟩ | ⟨m, -, -, rest, hrest⟩
  · have hno := hnone k (n.postorder_perm.mem_iff.2 hk)
    cases Action.pure_injective (hfit.symm.trans hno)
  · rw [foldConstants, hrest, bind_assoc]
    exact Action.run_bind_raised (tryFold_misused h m _ hf)

/-! ### Refusal -/

/-- The first invalid key is refused by evaluation and by folding, with a failure of the class of
bad values and before anything of the tree is looked at or called.  A pass refuses it in the same
way if it has something to fold, strict or not and with or without calls; otherwise it does not look
at the overrides and gives the tree as it is. -/
theorem invalid_overrides_refused (h : ¬ OperatorTable.Valid overrides) :
    ∃ key, OperatorTable.misused? overrides = some key ∧
      (∀ c s f t, (OperatorTable.complaint key).run c s = (.done f, t) → f.errorClass = .value) ∧
      (∀ v bindings, M.evaluate v bindings overrides = OperatorTable.refuse key) ∧
      ∀ n : Node,
        (M.fold overrides (.node n) = do
          let _ ← Action.freshMark
          let _ ← Action.freshMark
          OperatorTable.refuse key) ∧
        (n.WellFormed → ∀ strict foldCalls c s,
          ((∃ k ∈ n.preorder, k.foldable foldCalls = pure true) → ∀ f t,
            (OperatorTable.complaint key).run c (s.marked 2) = (.done f, t) →
            (M.foldConstants ⟨strict, foldCalls, overrides⟩ (.node n)).run c s =
              (.raised (.failure f), t)) ∧
          ((∀ k ∈ n.preorder, k.foldable foldCalls = pure false) →
            (M.foldConstants ⟨strict, foldCalls, overrides⟩ (.node n)).run c s =
              (.done (n, { initial := .node n, final := .node n }), s))) := by
  obtain ⟨key, hkey⟩ := OperatorTable.exists_misused h
  refine ⟨key, hkey, fun _ _ _ _ => OperatorTable.complaint_errorClass, evaluate_misused hkey,
    fun n => ⟨fold_misused hkey n, fun hwf strict foldCalls c s => ⟨?_, fun hnone => ?_⟩⟩⟩
  · rintro ⟨k, hk, hfit⟩ f t hf
    exact foldConstants_misused hkey hwf hk hfit hf
  · rw [foldConstants_of_none _ hwf hnone]
    rfl

/-- A sum is overridden, and so is the conjunction, beside a sum of literals that a pass tries to
fold. -/
theorem invalid_overrides_refused_sum :
    let x : Parameter := ⟨1, "x", .object, 0⟩
    let sum : Node := .binary 1 .add (.node (.literal 2 (.ofInt 1) .int))
      (.node (.literal 3 (.ofInt 2) .int)) .object
    let n : Node := .binary 4 .add (.node (.parameter x)) (.node sum) .object
    let overrides : List (Value × Value) :=
      [(.binaryOp .add, .named .pair), (.binaryOp .andAlso, .named .pair)]
    let s : Session := { nextMark := 8 }
    let refused : Fault := .failure (.fixedOperator "&&")
    ¬ OperatorTable.Valid overrides ∧ refused.errorClass = .value ∧
      (standard.evaluate (.node n) [] overrides).run standard.caller s = (.raised refused, s) ∧
      (standard.fold overrides (.node n)).run standard.caller s =
        (.raised refused, s.marked 2) ∧
      (standard.foldConstants ⟨false, false, overrides⟩ (.node n)).run standard.caller s =
        (.raised refused, s.marked 2) := by
  intro x sum n overrides s refused
  have hv : ¬ OperatorTable.Valid overrides := by
    intro h
    cases h (.binaryOp .andAlso, .named .pair) (by simp [overrides])
  obtain ⟨key, hkey, hclass, hevaluate, hn⟩ := invalid_overrides_refused (M := standard) hv
  obtain rfl : .binaryOp .andAlso = key := Option.some.inj hkey
  have hliteral (mark : Nat) (v : Value) (type : StaticType) :
      (Node.literal mark v type).WellFormed := .intro [] rfl trivial (by simp)
  have hsum : sum.WellFormed := .intro [_, _] rfl trivial
    (by simpa using ⟨hliteral 2 (.ofInt 1) .int, hliteral 3 (.ofInt 2) .int⟩)
  have hwf : n.WellFormed := .intro [.parameter x, sum] rfl trivial
    (by simpa using ⟨.intro [] rfl trivial (by simp), hsum⟩)
  have hmember : sum ∈ n.preorder :=
    Node.preorder_subset (by simp [Node.offspring_of_ok (n := n) rfl]) sum.self_mem_preorder
  obtain ⟨hfold, hpass⟩ := hn n
  refine ⟨hv, hclass standard.caller s _ s rfl, ?_, ?_, ?_⟩
  · rw [hevaluate]
    rfl
  · rw [hfold]
    rfl
  · exact (hpass hwf false false standard.caller s).1 ⟨sum, hmember, rfl⟩ _ _ rfl

/-- A pass over a parameter, even a strict one, gives the parameter and lets the overrides stand,
which evaluation refuses. -/
theorem invalid_overrides_unnoticed :
    let x : Parameter := ⟨1, "x", .object, 0⟩
    let overrides : List (Value × Value) := [(.binaryOp .andAlso, .named .pair)]
    let s : Session := { nextMark := 8 }
    ¬ OperatorTable.Valid overrides ∧ (Node.parameter x).WellFormed ∧
      (standard.evaluate (.node (.parameter x)) [] overrides).run standard.caller s =
        (.raised (.failure (.fixedOperator "&&")), s) ∧
      (standard.foldConstants ⟨true, true, overrides⟩ (.node (.parameter x))).run standard.caller
          s =
        (.done (.parameter x, { initial := .node (.parameter x), final := .node (.parameter x) }),
          s) := by
  intro x overrides s
  have hwf : (Node.parameter x).WellFormed := .intro [] rfl trivial (by simp)
  have hnone : ∀ k ∈ (Node.parameter x).preorder, k.foldable true = pure false := by
    rw [Node.preorder_of_leaf rfl]
    simp [Node.foldable]
  refine ⟨fun h => ?_, hwf, rfl, ?_⟩
  · cases h (.binaryOp .andAlso, .named .pair) (by simp [overrides])
  · rw [foldConstants_of_none ⟨true, true, overrides⟩ hwf hnone]
    rfl

end Machine

end PredicateTree
