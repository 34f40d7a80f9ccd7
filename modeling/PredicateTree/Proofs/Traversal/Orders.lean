import Mathlib.Data.List.Perm.Basic
import PredicateTree.Proofs.Tree.Recursion

/-!
# Recursion over any tree

The traversals look at the children of a node before they go on with them, so there is a recursion
over every tree, a malformed one too: a node that is astray is where it stops.  `Node.gather` is this
recursion.  The pre-order and the post-order of the nodes are cases of it (`Node.preorder`,
`Node.postorder`), and so is the fold of a tree (`Node.recurse`), which `foldTree` computes whatever
the tree (`foldTree_recurse`).

A tree is well formed if no node of its pre-order is astray, and then a walk gives the pre-order
(`walk_preorder`).  The first node that is astray decides what a traversal of a malformed tree ends
with (`walkLoop_eq`, `recurse_of_malformed`).
-/

namespace PredicateTree

namespace Node

/-- The nodes that a traversal goes on with from a node: its children, and none if it is astray. -/
def offspring (n : Node) : List Node := n.childNodes.toOption.getD []

/-- In which way a node is astray. -/
def stray? (n : Node) : Option Stray :=
  match n.childNodes with
  | .ok _ => none
  | .error stray => some stray

variable {n k : Node} {ns : List Node} {stray : Stray}

theorem offspring_of_ok (hn : n.childNodes = .ok ns) : n.offspring = ns := by
  rw [offspring, hn]
  rfl

theorem offspring_of_error (hn : n.childNodes = .error stray) : n.offspring = [] := by
  rw [offspring, hn]
  rfl

theorem stray?_of_ok (hn : n.childNodes = .ok ns) : n.stray? = none := by
  rw [stray?, hn]

theorem stray?_of_error (hn : n.childNodes = .error stray) : n.stray? = some stray := by
  rw [stray?, hn]

theorem childNodes_of_stray? (h : n.stray? = none) : n.childNodes = .ok n.offspring := by
  unfold stray? at h
  split at h
  · rename_i ns hn
    rw [hn, offspring_of_ok hn]
  · cases h

theorem work_lt_of_mem_offspring (h : k ∈ n.offspring) : k.work < n.work := by
  cases hn : n.childNodes with
  | error => simp [offspring_of_error hn] at h
  | ok ns =>
    rw [offspring_of_ok hn] at h
    have hle := le_total_of_mem Node.work h
    have hlt := total_work_childNodes hn
    omega

/-- Induction over all trees, the malformed ones too. -/
@[elab_as_elim]
theorem offspring_induction {motive : Node → Prop}
    (step : ∀ n, (∀ k ∈ n.offspring, motive k) → motive n) (n : Node) : motive n :=
  step n fun k _ => offspring_induction step k
termination_by n.work
decreasing_by exact work_lt_of_mem_offspring ‹_›

/-! ### Gathering -/

section gather

variable {β : Type} (f : Node → List β → β)

/-- What comes of a tree if `f` puts together what comes of the children of a node. -/
def gather (n : Node) : β := f n (n.offspring.attach.map fun k => k.1.gather)
termination_by n.work
decreasing_by exact work_lt_of_mem_offspring k.2

theorem gather_eq (n : Node) : n.gather f = f n (n.offspring.map (gather f)) := by
  rw [gather]
  exact congrArg (f n) List.attach_map_val

end gather

/-! ### Orders -/

/-- The nodes of a tree, every node before its children. -/
def preorder (n : Node) : List Node := n.gather fun m orders => m :: orders.flatten

/-- The nodes of a tree, every node after its children. -/
def postorder (n : Node) : List Node := n.gather fun m orders => orders.flatten ++ [m]

theorem preorder_eq (n : Node) : n.preorder = n :: n.offspring.flatMap preorder := by
  rw [preorder, gather_eq]
  rfl

theorem postorder_eq (n : Node) : n.postorder = n.offspring.flatMap postorder ++ [n] := by
  rw [postorder, gather_eq]
  rfl

theorem preorder_of_ok (hn : n.childNodes = .ok ns) : n.preorder = n :: ns.flatMap preorder := by
  rw [preorder_eq, offspring_of_ok hn]

theorem preorder_of_leaf (hn : n.childNodes = .ok []) : n.preorder = [n] := preorder_of_ok hn

theorem postorder_of_ok (hn : n.childNodes = .ok ns) :
    n.postorder = ns.flatMap postorder ++ [n] := by
  rw [postorder_eq, offspring_of_ok hn]

theorem self_mem_preorder (n : Node) : n ∈ n.preorder := by
  rw [preorder_eq]
  exact List.mem_cons_self

theorem preorder_subset (h : k ∈ n.offspring) : k.preorder ⊆ n.preorder := by
  rw [preorder_eq n]
  exact fun m hm => List.mem_cons_of_mem n (List.mem_flatMap_of_mem h hm)

/-- The nodes below a node of a tree are nodes of the tree. -/
theorem mem_preorder_trans {m : Node} (hm : m ∈ n.preorder) (hk : k ∈ m.preorder) :
    k ∈ n.preorder := by
  induction n using offspring_induction with
  | step n ih =>
    rw [preorder_eq] at hm
    rcases List.mem_cons.1 hm with rfl | hm
    · exact hk
    · obtain ⟨l, hl, hm⟩ := List.mem_flatMap.1 hm
      exact preorder_subset hl (ih l hl hm)

/-- The two orders are of the same occurrences of nodes. -/
theorem postorder_perm (n : Node) : n.postorder.Perm n.preorder := by
  induction n using offspring_induction with
  | step n ih =>
    rw [preorder_eq, postorder_eq]
    refine List.perm_append_comm.trans (.cons n ?_)
    exact List.Perm.flatMap_left n.offspring ih

/-- The nodes without children stand in both orders in the same succession. -/
theorem filterMap_postorder {α : Type} (f : Node → Option α)
    (leaf : ∀ m, (f m).isSome → m.offspring = []) (n : Node) :
    n.postorder.filterMap f = n.preorder.filterMap f := by
  induction n using offspring_induction with
  | step n ih =>
    rw [preorder_eq, postorder_eq]
    cases hf : f n with
    | some a => rw [leaf n (by rw [hf]; rfl), List.flatMap_nil, List.flatMap_nil, List.nil_append]
    | none =>
      rw [List.filterMap_append, List.filterMap_cons_none hf, List.filterMap_cons_none hf,
        List.filterMap_nil, List.append_nil, List.filterMap_flatMap, List.filterMap_flatMap]
      exact List.flatMap_congr ih

/-! ### Well-formed trees -/

theorem all_iff {P : Node → Prop} :
    n.All P ↔ ∀ k ∈ n.preorder, k.stray? = none ∧ P k := by
  constructor
  · intro h
    induction h with
    | intro ns children holds _ ih =>
      rw [preorder_eq, offspring_of_ok children]
      refine List.forall_mem_cons.2 ⟨⟨stray?_of_ok children, holds⟩, fun k hk => ?_⟩
      obtain ⟨m, hm, hk⟩ := List.mem_flatMap.1 hk
      exact ih m hm k hk
  · intro h
    induction n using offspring_induction with
    | step n ih =>
      obtain ⟨hn, hP⟩ := h n n.self_mem_preorder
      exact .intro n.offspring (childNodes_of_stray? hn) hP
        fun k hk => ih k hk fun m hm => h m (preorder_subset hk hm)

theorem wellFormed_iff : n.WellFormed ↔ n.preorder.findSome? stray? = none := by
  rw [List.findSome?_eq_none_iff, WellFormed, all_iff]
  simp only [and_true]

theorem length_preorder (n : Node) : n.preorder.length = n.size := by
  induction n using offspring_induction with
  | step n ih =>
    rw [preorder_eq, List.length_cons]
    cases hn : n.childNodes with
    | error stray =>
      rw [offspring_of_error hn, size]
      split
      · rfl
      · rename_i hs
        cases hn.symm.trans hs
    | ok ns =>
      rw [offspring_of_ok hn] at ih ⊢
      rw [size_eq hn]
      congr 1
      clear hn
      induction ns with
      | nil => rfl
      | cons k ns ihns =>
        rw [List.flatMap_cons, List.length_append, total_cons, ih k List.mem_cons_self,
          ihns fun m hm => ih m (List.mem_cons_of_mem k hm)]

section congruence

variable {β : Type} {f g : Node → List β → β}

/-- What comes of a tree depends on what is done at its own nodes only. -/
theorem gather_congr (h : ∀ k ∈ n.preorder, ∀ bs, f k bs = g k bs) : n.gather f = n.gather g := by
  induction n using offspring_induction with
  | step n ih =>
    have hbelow : n.offspring.map (gather f) = n.offspring.map (gather g) :=
      List.map_congr_left fun k hk => ih k hk fun m hm => h m (preorder_subset hk hm)
    rw [gather_eq, gather_eq, hbelow, h n n.self_mem_preorder]

end congruence

end Node

/-! ### Looking at the children -/

/-- Nothing goes on after a node that is astray. -/
theorem liftM_raise_bind {m : Type → Type} [Monad m] [LawfulMonad m] [MonadLiftT Action m]
    [LawfulMonadLiftT Action m] {α β : Type} (stray : Stray) (k : α → m β) :
    (liftM (stray.raise : Action α) : m α) >>= k = liftM (stray.raise : Action β) := by
  -- what is raised has no value, so it is the same whatever is done with that
  have hraise (γ : Type) :
      (stray.raise : Action γ) = (stray.raise : Action Empty) >>= fun e => nomatch e := by
    simp only [Stray.raise, bind_assoc]
    rfl
  rw [hraise α, hraise β, liftM_bind, liftM_bind, bind_assoc]
  exact bind_congr fun e => nomatch e

theorem raise_bind {α β : Type} (stray : Stray) (k : α → Action β) :
    stray.raise >>= k = stray.raise := liftM_raise_bind stray k

/-- What is found out about several nodes: the first one that is astray decides. -/
def verdict (ns : List Node) : Except Stray Unit :=
  match ns.findSome? Node.stray? with
  | none => .ok ()
  | some stray => .error stray

theorem verdict_cons_of_ok {n : Node} {ns ks : List Node} (hn : n.childNodes = .ok ks) :
    verdict (n :: ns) = verdict ns := by
  rw [verdict, List.findSome?_cons, Node.stray?_of_ok hn]
  rfl

theorem verdict_cons_of_error {n : Node} {ns : List Node} {stray : Stray}
    (hn : n.childNodes = .error stray) : verdict (n :: ns) = .error stray := by
  rw [verdict, List.findSome?_cons, Node.stray?_of_error hn]

/-- Looking at the children of several nodes, one after the other, comes to the verdict. -/
theorem forM_children (ns : List Node) :
    (forM ns fun k => do let _ ← k.children) = Stray.orRaise (verdict ns) := by
  induction ns with
  | nil => rfl
  | cons n ns ih =>
    rw [List.forM_cons, ih, Node.children]
    cases hn : n.childNodes with
    | ok ks =>
      rw [verdict_cons_of_ok hn]
      rfl
    | error stray =>
      rw [verdict_cons_of_error hn, Stray.orRaise, raise_bind, raise_bind]
      rfl

/-! ### Folds -/

/-- A fold that counts the nodes of a tree, by the results and besides. -/
def counting (_ : Node) (sizes : List Nat) : StateT Nat Action Nat := do
  modify (· + 1)
  return total id sizes + 1

namespace Node

section recurse

variable {m : Type → Type} [Monad m] [MonadLiftT Action m] {β : Type}
  (combine : Node → List β → m β)

/-- The fold of a tree by recursion: the children of a node are looked at, the trees below are folded
from left to right, and their results are combined. -/
def recurse (n : Node) : m β :=
  n.gather fun k folds => do
    let _ ← liftM k.children
    combine k (← folds.mapM id)

variable {combine} {n : Node} {ns : List Node} {stray : Stray} [LawfulMonad m]
  [LawfulMonadLiftT Action m]

theorem recurse_of_ok (hn : n.childNodes = .ok ns) :
    n.recurse combine = ns.mapM (·.recurse combine) >>= combine n := by
  rw [recurse, gather_eq, children, hn, offspring_of_ok hn, Stray.orRaise, liftM_pure, pure_bind,
    List.mapM_map]
  rfl

theorem recurse_of_error (hn : n.childNodes = .error stray) :
    n.recurse combine = liftM (stray.raise : Action β) := by
  rw [recurse, gather_eq, children, hn, Stray.orRaise, liftM_raise_bind]

/-- The work on any node that is entered comes down to the recursion. -/
theorem computes_recurse (n : Node) : Computes combine n (n.recurse combine) := by
  induction n using offspring_induction with
  | step n ih =>
    cases hn : n.childNodes with
    | ok ns =>
      rw [recurse_of_ok hn]
      exact computes_of_children hn fun k hk => ih k (by rwa [offspring_of_ok hn])
    | error stray =>
      intro rest results
      rw [recurse_of_error hn, liftM_raise_bind, foldLoop]
      split
      · rename_i hs
        cases hn.symm.trans hs
        rfl
      · rename_i hs
        cases hn.symm.trans hs

end recurse

end Node

section traversals

variable {m : Type → Type} [Monad m] [LawfulMonad m] [MonadLiftT Action m]
  [LawfulMonadLiftT Action m] {β : Type}

/-- A fold is the recursion over the tree, whatever the value. -/
theorem foldTree_recurse (combine : Node → List β → m β) (v : Value) :
    foldTree combine v = liftM v.requireTree >>= fun n => n.recurse combine := by
  rw [foldTree]
  refine bind_congr fun n => ?_
  rw [n.computes_recurse [] []]
  simp only [foldLoop, bind_assoc, pure_bind, bind_pure]

/-- A fold depends on what is done at the nodes of its own tree only. -/
theorem foldTree_congr {combine combine' : Node → List β → m β} {n : Node}
    (h : ∀ k ∈ n.preorder, ∀ bs, combine k bs = combine' k bs) :
    foldTree combine (.node n) = foldTree combine' (.node n) := by
  have hrecurse : n.recurse combine = n.recurse combine' :=
    Node.gather_congr fun k hk folds => bind_congr fun _ => bind_congr (h k hk)
  have hn : (Value.node n).requireTree = pure n := rfl
  rw [foldTree_recurse, foldTree_recurse, hn, liftM_pure, pure_bind, pure_bind, hrecurse]

/-- Of several trees that are not all well formed, some that are well formed are folded, and then the
first node that is astray ends the fold. -/
theorem mapM_recurse_of_malformed {stray : Stray} {ns : List Node}
    (each : ∀ n ∈ ns, n.preorder.findSome? Node.stray? = some stray →
      ∃ before : List Node, (∀ k ∈ before, k.WellFormed ∧ k ∈ n.preorder) ∧
        ∀ combine : Node → List β → m β, n.recurse combine =
          before.mapM (·.recurse combine) >>= fun _ => liftM (stray.raise : Action β))
    (h : (ns.flatMap Node.preorder).findSome? Node.stray? = some stray) :
    ∃ before : List Node, (∀ k ∈ before, k.WellFormed ∧ k ∈ ns.flatMap Node.preorder) ∧
      ∀ (combine : Node → List β → m β) (next : List β → m β),
        ns.mapM (·.recurse combine) >>= next =
          before.mapM (·.recurse combine) >>= fun _ => liftM (stray.raise : Action β) := by
  induction ns with
  | nil => cases h
  | cons n ns ih =>
    rw [List.flatMap_cons, List.findSome?_append] at h
    cases hn : n.preorder.findSome? Node.stray? with
    | some stray' =>
      rw [hn, Option.some_or] at h
      obtain ⟨before, hbefore, hfold⟩ := each n List.mem_cons_self (hn.trans h)
      refine ⟨before, fun k hk => ⟨(hbefore k hk).1, ?_⟩, fun combine next => ?_⟩
      · exact List.mem_flatMap_of_mem List.mem_cons_self (hbefore k hk).2
      · simp only [List.mapM_cons, hfold, bind_assoc, liftM_raise_bind]
    | none =>
      rw [hn, Option.none_or] at h
      obtain ⟨before, hbefore, hfold⟩ := ih (fun k hk => each k (List.mem_cons_of_mem n hk)) h
      have hself : n ∈ (n :: ns).flatMap Node.preorder :=
        List.mem_flatMap_of_mem List.mem_cons_self n.self_mem_preorder
      refine ⟨n :: before, List.forall_mem_cons.2 ⟨⟨Node.wellFormed_iff.2 hn, hself⟩,
        fun k hk => ⟨(hbefore k hk).1, ?_⟩⟩, fun combine next => ?_⟩
      · rw [List.flatMap_cons]
        exact List.mem_append_right _ (hbefore k hk).2
      · simp only [List.mapM_cons, bind_assoc, pure_bind]
        exact bind_congr fun r => hfold combine fun rs => next (r :: rs)

/-- The fold of a malformed tree folds some well-formed trees, and ends with the first node that is
astray. -/
theorem recurse_of_malformed (m : Type → Type) [Monad m] [LawfulMonad m] [MonadLiftT Action m]
    [LawfulMonadLiftT Action m] (β : Type) {stray : Stray} {n : Node}
    (h : n.preorder.findSome? Node.stray? = some stray) :
    ∃ before : List Node, (∀ k ∈ before, k.WellFormed ∧ k ∈ n.preorder) ∧
      ∀ combine : Node → List β → m β, n.recurse combine =
        before.mapM (·.recurse combine) >>= fun _ => liftM (stray.raise : Action β) := by
  induction n using Node.offspring_induction generalizing stray with
  | step n ih =>
    cases hn : n.childNodes with
    | error stray' =>
      rw [Node.preorder_eq, List.findSome?_cons, Node.stray?_of_error hn] at h
      cases h
      refine ⟨[], by simp, fun combine => ?_⟩
      rw [Node.recurse_of_error hn, List.mapM_nil, pure_bind]
    | ok ns =>
      rw [Node.preorder_of_ok hn, List.findSome?_cons, Node.stray?_of_ok hn] at h
      rw [Node.offspring_of_ok hn] at ih
      obtain ⟨before, hbefore, hfold⟩ := mapM_recurse_of_malformed (fun k hk => ih k hk) h
      refine ⟨before, fun k hk => ⟨(hbefore k hk).1, ?_⟩,
        fun combine => (Node.recurse_of_ok hn).trans (hfold combine (combine n))⟩
      rw [Node.preorder_of_ok hn]
      exact List.mem_cons_of_mem n (hbefore k hk).2

end traversals

/-! ### Walks -/

/-- A walk gives the nodes in pre-order, up to the first one that is astray. -/
theorem walkLoop_eq (stack visited : List Node) :
    walkLoop stack visited =
      (fun _ => visited.reverse ++ stack.flatMap Node.preorder) <$>
        verdict (stack.flatMap Node.preorder) := by
  fun_induction walkLoop stack visited with
  | case1 visited =>
    rw [List.flatMap_nil, List.append_nil]
    rfl
  | case2 n rest visited stray hn =>
    rw [List.flatMap_cons, Node.preorder_eq, List.cons_append, verdict_cons_of_error hn]
    rfl
  | case3 n rest visited ns hn ih =>
    rw [ih, List.flatMap_cons, Node.preorder_of_ok hn, List.cons_append, verdict_cons_of_ok hn,
      List.flatMap_append, List.reverse_cons, List.append_assoc, List.singleton_append]

theorem walk_node (n : Node) :
    walk (.node n) = Stray.orRaise ((fun _ => n.preorder) <$> verdict n.preorder) := by
  have hn : (Value.node n).requireTree = pure n := rfl
  rw [walk, hn, pure_bind, walkLoop_eq, List.flatMap_singleton]
  rfl

/-- A walk of a well-formed tree gives its pre-order. -/
theorem walk_preorder {n : Node} (h : n.WellFormed) : walk (.node n) = pure n.preorder := by
  rw [walk_node, verdict, Node.wellFormed_iff.1 h]
  rfl

/-- A walk of a well-formed tree visits every node that stands in it. -/
theorem walk_of_wellFormed {n : Node} (h : n.WellFormed) :
    ∃ ms, walk (.node n) = pure ms ∧ ms.length = n.size :=
  ⟨n.preorder, walk_preorder h, n.length_preorder⟩

/-- The query for parameters lists those of the pre-order, if it finds no node that is astray. -/
theorem parameterReferences_node (n : Node) :
    parameterReferences (.node n) =
      (fun _ => parametersOf n.preorder) <$> Stray.orRaise (verdict n.preorder) := by
  rw [parameterReferences, walk_node]
  cases verdict n.preorder with
  | ok => rfl
  | error stray =>
    rw [map_eq_pure_bind]
    exact (raise_bind stray _).trans (raise_bind stray _).symm

theorem parameterReferences_preorder {n : Node} (h : n.WellFormed) :
    parameterReferences (.node n) = pure (parametersOf n.preorder) := by
  rw [parameterReferences_node, verdict, Node.wellFormed_iff.1 h]
  rfl

end PredicateTree
