import PredicateTree.Proofs.Traversal.Orders

/-!
# The stack of a fold

What the loop of a fold does, round by round (`Rounds`): whenever the results for the children of a
node are taken off the results that are kept, they are there, and the result for the node takes their
place.  A well-formed tree on top of the stack takes two rounds for each node that stands in it and
leaves its one result (`Node.rounds_of_wellFormed`).

A fold that writes down at which nodes it is called (`recording`) writes down the post-order of the
tree (`Node.run_recurse_recording`).  All of it together is `traversals_compute_recursion`.
-/

namespace PredicateTree

variable {m : Type → Type} [Monad m] {β : Type}

/-! ### Calls -/

/-- A step of a fold that writes down, one after the other, at which nodes it is called. -/
def recording (combine : Node → List β → m β) (n : Node) (results : List β) :
    StateT (List Node) m β := do
  modify (· ++ [n])
  combine n results

theorem run_recording [LawfulMonad m] (combine : Node → List β → m β) (n : Node)
    (results : List β) (seen : List Node) :
    (recording combine n results).run seen =
      (fun b => (b, seen ++ [n])) <$> combine n results := by
  simp [recording]

section calls

variable [LawfulMonad m] [MonadLiftT Action m] {combine : Node → List β → m β}

theorem run_mapM_recording {ns : List Node}
    (each : ∀ n ∈ ns, ∀ seen, (n.recurse (recording combine)).run seen =
      (fun b => (b, seen ++ n.postorder)) <$> n.recurse combine) (seen : List Node) :
    (ns.mapM fun k : Node => k.recurse (recording combine)).run seen =
      (fun bs => (bs, seen ++ ns.flatMap Node.postorder)) <$>
        ns.mapM fun k => k.recurse combine := by
  induction ns generalizing seen with
  | nil =>
    rw [List.mapM_nil, List.mapM_nil, StateT.run_pure, map_pure, List.flatMap_nil, List.append_nil]
  | cons n ns ih =>
    have hns := ih fun k hk => each k (List.mem_cons_of_mem n hk)
    simp only [List.mapM_cons, StateT.run_bind, StateT.run_pure, each n List.mem_cons_self, hns,
      map_eq_pure_bind, bind_assoc, pure_bind, List.flatMap_cons, List.append_assoc]

/-- A fold is called once at every occurrence of a node, in post-order. -/
theorem Node.run_recurse_recording [LawfulMonadLiftT Action m] (n : Node) (seen : List Node) :
    (n.recurse (recording combine)).run seen =
      (fun b => (b, seen ++ n.postorder)) <$> n.recurse combine := by
  induction n using offspring_induction generalizing seen with
  | step n ih =>
    cases hn : n.childNodes with
    | ok ns =>
      rw [offspring_of_ok hn] at ih
      rw [recurse_of_ok hn, recurse_of_ok hn, postorder_eq, offspring_of_ok hn]
      simp only [StateT.run_bind, run_mapM_recording ih, run_recording, map_eq_pure_bind,
        bind_assoc, pure_bind, List.append_assoc]
    | error stray =>
      rw [recurse_of_error hn, recurse_of_error hn, map_eq_pure_bind, liftM_raise_bind]
      exact liftM_raise_bind stray _

end calls

/-! ### Rounds -/

variable [MonadLiftT Action m]

/-- The loop of a fold, begun with a stack and the results that are kept, comes to `x` in so many
rounds.  The results that are taken off are as many as they should be. -/
inductive Rounds (combine : Node → List β → m β) :
    (count : Nat) → List Pending → List β → m (List β) → Prop where
  | done (results : List β) : Rounds combine 0 [] results (pure results)
  | enter {count : Nat} {rest : List Pending} {results : List β} {x : m (List β)} {n : Node}
      {ns : List Node} (children : n.childNodes = .ok ns)
      (later : Rounds combine count (ns.map .enter ++ .leave n ns.length :: rest) results x) :
      Rounds combine (count + 1) (.enter n :: rest) results x
  | leave {count : Nat} {rest : List Pending} {results : List β} {k : β → m (List β)} (n : Node)
      (rs : List β) (later : ∀ b, Rounds combine count rest (b :: results) (k b)) :
      Rounds combine (count + 1) (.leave n rs.length :: rest) (rs.reverse ++ results)
        (combine n rs >>= k)

variable {combine : Node → List β → m β}

/-- What the rounds come to is what the loop comes to. -/
theorem Rounds.foldLoop_eq {count : Nat} {stack : List Pending} {results : List β}
    {x : m (List β)} (h : Rounds combine count stack results x) :
    foldLoop combine stack results = x := by
  induction h with
  | done results => rw [foldLoop]
  | enter children _ ih =>
    rw [foldLoop]
    split
    · rename_i hs
      cases children.symm.trans hs
    · rename_i hs
      cases children.symm.trans hs
      exact ih
  | @leave _ _ results _ n rs _ ih =>
    rw [foldLoop, ← List.length_reverse, List.take_left, List.drop_left, List.reverse_reverse]
    exact bind_congr ih

/-- A tree on top of a stack takes two rounds for each of its nodes, and leaves its result. -/
def Node.TakesRounds (combine : Node → List β → m β) (n : Node) : Prop :=
  ∀ (count : Nat) (rest : List Pending) (results : List β) (k : β → m (List β)),
    (∀ b, Rounds combine count rest (b :: results) (k b)) →
      Rounds combine (2 * n.size + count) (.enter n :: rest) results (n.recurse combine >>= k)

variable [LawfulMonad m]

/-- Several trees leave their results, the last one on top. -/
theorem Rounds.of_trees {ns : List Node} (each : ∀ n ∈ ns, n.TakesRounds combine) {count : Nat}
    {rest : List Pending} {results : List β} {k : List β → m (List β)}
    (later : ∀ rs : List β, rs.length = ns.length →
      Rounds combine count rest (rs.reverse ++ results) (k rs)) :
    Rounds combine (2 * total Node.size ns + count) (ns.map .enter ++ rest) results
      (ns.mapM (·.recurse combine) >>= k) := by
  induction ns generalizing results k with
  | nil =>
    rw [total_nil, Nat.mul_zero, Nat.zero_add, List.mapM_nil, pure_bind]
    exact later [] rfl
  | cons n ns ih =>
    have hcount : 2 * total Node.size (n :: ns) + count =
        2 * n.size + (2 * total Node.size ns + count) := by
      rw [total_cons]
      omega
    simp only [hcount, List.mapM_cons, bind_assoc, pure_bind]
    refine each n List.mem_cons_self _ _ _ _ fun b => ?_
    refine ih (fun k hk => each k (List.mem_cons_of_mem n hk)) fun rs hrs => ?_
    have hlater := later (b :: rs) (congrArg (· + 1) hrs)
    rwa [List.reverse_cons, List.append_assoc] at hlater

variable [LawfulMonadLiftT Action m]

theorem Node.rounds_of_wellFormed {n : Node} (h : n.WellFormed) : n.TakesRounds combine := by
  induction h with
  | @intro n ns children _ _ ih =>
    intro count rest results k later
    have hcount : 2 * n.size + count = 2 * total Node.size ns + (count + 1) + 1 := by
      rw [size_eq children]
      omega
    rw [hcount, recurse_of_ok children, bind_assoc]
    refine .enter children (.of_trees ih fun rs hrs => ?_)
    rw [← hrs]
    exact .leave n rs later

/-! ### Together -/

/-- On a well-formed tree the loops compute the recursive traversals.  The fold is the recursion that
combines what comes of the children of a node, whatever combining does besides; it is called once at
every occurrence of a node, in post-order.  It takes two rounds for each occurrence, in which the
results for the children of a node are always there, and leaves one result.  A walk lists the same
occurrences in pre-order. -/
theorem traversals_compute_recursion (combine : Node → List β → m β) {n : Node}
    (h : n.WellFormed) :
    foldTree combine (.node n) = n.recurse combine ∧
      (∀ k ns, k.childNodes = .ok ns →
        k.recurse combine = ns.mapM (·.recurse combine) >>= combine k) ∧
      (foldTree (recording combine) (.node n)).run [] =
        (fun b => (b, n.postorder)) <$> n.recurse combine ∧
      foldLoop combine [.enter n] [] = (fun b => [b]) <$> n.recurse combine ∧
      Rounds combine (2 * n.size) [.enter n] [] (foldLoop combine [.enter n] []) ∧
      walk (.node n) = pure n.preorder ∧ n.postorder.Perm n.preorder ∧
      n.preorder.length = n.size := by
  have hrounds : Rounds combine (2 * n.size) [.enter n] []
      ((fun b => [b]) <$> n.recurse combine) := by
    rw [map_eq_pure_bind]
    exact Node.rounds_of_wellFormed h 0 [] [] _ fun b => .done [b]
  refine ⟨foldTree_eq_of_computes n.computes_recurse, fun k ns => Node.recurse_of_ok, ?_,
    hrounds.foldLoop_eq, ?_, walk_preorder h, n.postorder_perm, n.length_preorder⟩
  · rw [foldTree_eq_of_computes n.computes_recurse, n.run_recurse_recording, List.nil_append]
  · rwa [hrounds.foldLoop_eq]

/-- A function of no parameters, called without arguments, gives a static member; it is added to
itself.  The nodes are counted, by the results and besides. -/
theorem traversals_compute_recursion_childless :
    let b : Node := .member 4 .absent (.ofText "a") (.ofInt 0) .object
    let l : Node := .lambda 2 3 [] (.node b)
    let s : Node := .call 1 (.node l) 5 [] .object
    let n : Node := .binary 6 .add (.node s) (.node s) .object
    n.WellFormed ∧ (foldTree counting (.node n)).run 0 = pure (7, 7) ∧
      n.postorder = [b, l, s, b, l, s, n] ∧
      Rounds counting 14 [.enter n] [] (foldLoop counting [.enter n] []) ∧
      walk (.node n) = pure [n, s, l, b, s, l, b] := by
  intro b l s n
  have cb : b.childNodes = .ok [] := rfl
  have cl : l.childNodes = .ok [b] := rfl
  have cs : s.childNodes = .ok [l] := rfl
  have cn : n.childNodes = .ok [s, s] := rfl
  have hpre : n.preorder = [n, s, l, b, s, l, b] := by
    simp [Node.preorder_of_ok cn, Node.preorder_of_ok cs, Node.preorder_of_ok cl,
      Node.preorder_of_ok cb]
  have hpost : n.postorder = [b, l, s, b, l, s, n] := by
    simp [Node.postorder_of_ok cn, Node.postorder_of_ok cs, Node.postorder_of_ok cl,
      Node.postorder_of_ok cb]
  have hn : n.WellFormed := by
    rw [Node.wellFormed_iff, hpre]
    rfl
  obtain ⟨hfold, hrec, -, -, hrounds, hwalk, -, hsize⟩ := traversals_compute_recursion counting hn
  refine ⟨hn, ?_, hpost, ?_, ?_⟩
  · rw [hfold, hrec n _ cn]
    simp only [List.mapM_cons, List.mapM_nil, hrec s _ cs, hrec l _ cl, hrec b _ cb]
    rfl
  · rwa [← hsize, hpre] at hrounds
  · rw [hwalk, hpre]

end PredicateTree
