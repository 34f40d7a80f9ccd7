import PredicateTree.Proofs.Renaming.Occurrences
import PredicateTree.Proofs.Tree.Positions

/-!
# Free occurrences

A parameter occurs free at a position of a tree if it stands there and no node on the way declares it
(`Node.FreeAt`).  The pre-order of a tree lists its nodes in the lexicographic order of positions
(`Node.preorder_comesFrom`), and the query for free parameters finds the free occurrences in this
order (`Node.Refers.comesFrom`), whatever it carries along on its stack.  So its answer is
characterized by positions alone (`freeParameters_occurrences`): the parameters that occur free
somewhere, each once, in the order of the first position at which they do.
-/

namespace PredicateTree

variable {α : Type}

/-! ### Lists by position -/

/-- What is listed by position, in the order of the positions. -/
def InOrder (es : List (List Nat × α)) : Prop := es.Pairwise fun e f => e.1 < f.1

/-- A list comes from the positions at which `Q` is true of what is listed, in their order. -/
def ComesFrom (as : List α) (Q : α → List Nat → Prop) : Prop :=
  ∃ es : List (List Nat × α), es.map Prod.snd = as ∧ InOrder es ∧
    ∀ path a, (path, a) ∈ es ↔ Q a path

/-- Of trees that stand side by side, the first one at the place `i`, the lists come one after the
other. -/
theorem ComesFrom.flatten {κ : Type} {Q : κ → α → List Nat → Prop} {ks : List κ}
    {ass : List (List α)} (h : List.Forall₂ (fun k as => ComesFrom as (Q k)) ks ass) (i : Nat) :
    ComesFrom ass.flatten fun a path =>
      ∃ j rest k, path = (i + j) :: rest ∧ ks[j]? = some k ∧ Q k a rest := by
  induction h generalizing i with
  | nil => exact ⟨[], rfl, .nil, by simp⟩
  | @cons k as ks ass hk _ ih =>
    obtain ⟨es, rfl, hes, hmem⟩ := hk
    obtain ⟨fs, hfs, hord, hmems⟩ := ih (i + 1)
    refine ⟨es.map (fun e => (i :: e.1, e.2)) ++ fs, ?_, ?_, fun path a => ?_⟩
    · rw [List.map_append, List.map_map, hfs]
      rfl
    · refine List.pairwise_append.2 ⟨?_, hord, ?_⟩
      · exact List.pairwise_map.2 (hes.imp fun hlt => List.cons_lt_cons_iff.2 (.inr ⟨rfl, hlt⟩))
      · rintro e he ⟨path, a⟩ hf
        obtain ⟨e', -, rfl⟩ := List.mem_map.1 he
        obtain ⟨j, rest, k, rfl, -, -⟩ := (hmems path a).1 hf
        exact List.cons_lt_cons_iff.2 (.inl (by omega))
    · rw [List.mem_append, hmems]
      constructor
      · rintro (h | ⟨j, rest, l, rfl, hl, h⟩)
        · obtain ⟨e, he, heq⟩ := List.mem_map.1 h
          cases heq
          exact ⟨0, e.1, k, rfl, rfl, (hmem _ _).1 he⟩
        · exact ⟨j + 1, rest, l, by rw [Nat.add_right_comm, Nat.add_assoc], hl, h⟩
      · rintro ⟨j, rest, l, rfl, hl, h⟩
        cases j with
        | zero =>
          cases hl
          exact .inl (List.mem_map.2 ⟨(rest, a), (hmem _ _).2 h, rfl⟩)
        | succ j => exact .inr ⟨j, rest, l, by rw [Nat.add_right_comm, Nat.add_assoc], hl, h⟩

/-- Without the repetitions, parameters are in the order of the positions at which they occur
first. -/
theorem InOrder.distinctBeside {es : List (List Nat × Parameter)} (h : InOrder es)
    (seen : ParameterSet) : (distinctBeside seen (es.map Prod.snd)).Pairwise fun p q =>
      ∃ path, (path, p) ∈ es ∧ ∀ path', (path', q) ∈ es → path < path' := by
  induction es generalizing seen with
  | nil => exact .nil
  | cons e es ih =>
    obtain ⟨hlt, hes⟩ := List.pairwise_cons.1 h
    -- what is listed later on is another parameter than that of the entry
    have hrest (seen : ParameterSet) (hseen : seen.contains e.2 = true) :
        (PredicateTree.distinctBeside seen (es.map Prod.snd)).Pairwise fun p q =>
          ∃ path, (path, p) ∈ e :: es ∧ ∀ path', (path', q) ∈ e :: es → path < path' := by
      refine (ih hes seen).imp_of_mem fun {p q} _ hq ⟨path, hpath, hfirst⟩ =>
        ⟨path, List.mem_cons_of_mem e hpath, fun path' hpath' => ?_⟩
      rcases List.mem_cons.1 hpath' with rfl | hpath'
      · exact absurd hseen (by simp [(mem_distinctBeside.1 hq).2])
      · exact hfirst path' hpath'
    rw [List.map_cons, PredicateTree.distinctBeside]
    split
    · exact hrest seen ‹_›
    · have hinsert : (seen.insert e.2).contains e.2 = true := by
        simp [ParameterSet.contains_insert]
      refine List.pairwise_cons.2 ⟨fun q hq => ⟨e.1, List.mem_cons_self, fun path' hpath' => ?_⟩,
        hrest _ hinsert⟩
      rcases List.mem_cons.1 hpath' with rfl | hpath'
      · exact absurd hinsert (by simp [(mem_distinctBeside.1 hq).2])
      · exact hlt _ hpath'

/-- The parameters that occur where `Q` is true of them, each once, in the order of the first of
these positions. -/
theorem ComesFrom.distinct {ps : List Parameter} {Q : Parameter → List Nat → Prop}
    (h : ComesFrom ps Q) : (∀ p, p ∈ distinct ps ↔ ∃ path, Q p path) ∧
      (distinct ps).Pairwise fun p q => ∃ path, Q p path ∧ ∀ path', Q q path' → path < path' := by
  obtain ⟨es, rfl, hes, hmem⟩ := h
  simp only [← hmem]
  exact ⟨fun p => by simp [mem_distinct], hes.distinctBeside {}⟩

namespace Node

variable {n k : Node} {ns : List Node} {p : Parameter}

/-! ### Positions in pre-order -/

theorem at?_cons_offspring (i : Nat) (path : List Nat) :
    n.at? (i :: path) = n.offspring[i]?.bind (·.at? path) := by
  cases hn : n.childNodes with
  | ok ns => rw [at?_cons hn, offspring_of_ok hn]
  | error => simp [at?, hn, offspring_of_error hn, Except.toOption]

/-- The pre-order lists the nodes of a tree in the order of their positions. -/
theorem preorder_comesFrom (n : Node) :
    ComesFrom n.preorder fun k path => n.at? path = some k := by
  induction n using offspring_induction with
  | step n ih =>
    have hbelow : List.Forall₂ (fun m as => ComesFrom as fun k path => m.at? path = some k)
        n.offspring (n.offspring.map preorder) :=
      List.forall₂_map_right_iff.2 (List.forall₂_same.2 ih)
    obtain ⟨es, hes, hord, hmem⟩ := ComesFrom.flatten hbelow 0
    refine ⟨([], n) :: es, ?_, List.pairwise_cons.2 ⟨fun e he => ?_, hord⟩, fun path k => ?_⟩
    · rw [List.map_cons, hes, preorder_eq]
      rfl
    · obtain ⟨j, rest, m, hpath, -, -⟩ := (hmem e.1 e.2).1 he
      rw [hpath]
      exact List.nil_lt_cons _ _
    · rw [List.mem_cons, hmem]
      cases path with
      | nil => simp [at?, eq_comm]
      | cons i path => simp [at?_cons_offspring, Option.bind_eq_some_iff]

theorem at?_append (path path' : List Nat) :
    n.at? (path ++ path') = (n.at? path).bind (·.at? path') := by
  induction path generalizing n with
  | nil => rfl
  | cons i path ih =>
    simp only [List.cons_append, at?, ih, Option.bind_assoc]

/-! ### Free occurrences -/

/-- Whether a node is a lambda that declares a parameter. -/
def Declares : Node → Parameter → Prop
  | .lambda _ _ parameters _, p => .node (.parameter p) ∈ parameters
  | _, _ => False

/-- A parameter occurs free at a position: it stands there, and no node on the way declares it. -/
def FreeAt (n : Node) (p : Parameter) (path : List Nat) : Prop :=
  n.at? path = some (.parameter p) ∧
    ∀ before after m, path = before ++ after → n.at? before = some m → ¬ m.Declares p

theorem freeAt_nil : n.FreeAt p [] ↔ n = .parameter p := by
  constructor
  · rintro ⟨h, -⟩
    exact Option.some.inj h
  · rintro rfl
    refine ⟨rfl, fun before after m hpath hm => ?_⟩
    obtain ⟨rfl, rfl⟩ := List.nil_eq_append_iff.1 hpath
    cases hm
    exact id

theorem freeAt_cons (hn : n.childNodes = .ok ns) {i : Nat} {path : List Nat} :
    n.FreeAt p (i :: path) ↔ ¬ n.Declares p ∧ ∃ k, ns[i]? = some k ∧ k.FreeAt p path := by
  rw [FreeAt, at?_cons hn, Option.bind_eq_some_iff]
  constructor
  · rintro ⟨⟨k, hk, hp⟩, hway⟩
    refine ⟨hway [] _ n rfl rfl, k, hk, hp, fun before after m hpath hm => ?_⟩
    refine hway (i :: before) after m (by rw [hpath, List.cons_append]) ?_
    rw [at?_cons hn, hk]
    exact hm
  · rintro ⟨hself, k, hk, hp, hway⟩
    refine ⟨⟨k, hk, hp⟩, fun before after m hpath hm => ?_⟩
    rcases List.cons_eq_append_iff.1 hpath with ⟨rfl, -⟩ | ⟨before, rfl, rfl⟩
    · cases hm
      exact hself
    · rw [at?_cons hn, hk] at hm
      exact hway before after m rfl hm

theorem freeAt_parameter {q : Parameter} {path : List Nat} :
    (Node.parameter q).FreeAt p path ↔ path = [] ∧ p = q := by
  cases path with
  | nil => simp [freeAt_nil, eq_comm]
  | cons i path => simp [freeAt_cons (n := .parameter q) rfl]

theorem mem_boundBy (hn : n.childNodes = .ok ns) : p ∈ boundBy n ns ↔ n.Declares p := by
  by_cases hl : n.kind? = some .lambda
  · obtain ⟨mark, row, ps, b, rfl, rfl⟩ := lambda_of_childNodes hn hl
    rw [boundBy_lambda]
    simp [Declares, declarations]
  · rw [boundBy_of_ne hl]
    cases n with
    | lambda => exact absurd rfl hl
    | _ => simp [Declares]

/-- The scope of a node is what is left of its children without the declarations.  No parameter
occurs free in those but the ones that the node binds. -/
theorem exists_scopeOf_eq_drop (hn : n.childNodes = .ok ns) :
    ∃ i, scopeOf n ns = ns.drop i ∧
      ∀ j < i, ∀ k p path, ns[j]? = some k → k.FreeAt p path → n.Declares p := by
  by_cases hl : n.kind? = some .lambda
  · obtain ⟨mark, row, ps, b, rfl, rfl⟩ := lambda_of_childNodes hn hl
    refine ⟨ps.length, ?_, fun j hj k p path hk hfree => ?_⟩
    · rw [scopeOf_lambda]
      simp
    · rw [List.getElem?_append_left (by simpa using hj), List.getElem?_map,
        Option.map_eq_some_iff] at hk
      obtain ⟨q, hq, rfl⟩ := hk
      obtain ⟨-, rfl⟩ := freeAt_parameter.1 hfree
      exact List.mem_map.2 ⟨p, List.mem_of_getElem? hq, rfl⟩
  · exact ⟨0, by rw [scopeOf_of_ne hl, List.drop_zero], fun j hj => absurd hj (Nat.not_lt_zero j)⟩

/-- What a declaration of a lambda stands at is no free occurrence. -/
theorem not_freeAt_declaration {path : List Nat} {i mark row : Nat} {ps : List Parameter} {b : Node}
    (hpath : n.at? path = some (.lambda mark row (declarations ps) (.node b)))
    (hi : i < ps.length) (p : Parameter) : ¬ n.FreeAt p (path ++ [i]) := by
  rintro ⟨hp, hway⟩
  refine hway path [i] _ rfl hpath ?_
  rw [at?_append, hpath, Option.bind_some, at?_cons (childNodes_lambda mark row ps b),
    List.getElem?_append_left (by simpa using hi), List.getElem?_map, List.getElem?_eq_getElem hi]
    at hp
  cases hp
  exact List.mem_map.2 ⟨ps[i], List.getElem_mem hi, rfl⟩

/-- What occurs free in a tree occurs free in a child that is in the scope of its root. -/
theorem freeAt_iff_scope (other : n.asParameter? = none) (hn : n.childNodes = .ok ns) {i : Nat}
    (hscope : scopeOf n ns = ns.drop i)
    (hbefore : ∀ j < i, ∀ k p path, ns[j]? = some k → k.FreeAt p path → n.Declares p)
    {path : List Nat} : n.FreeAt p path ↔ ¬ n.Declares p ∧
      ∃ j rest k, path = (i + j) :: rest ∧ (scopeOf n ns)[j]? = some k ∧ k.FreeAt p rest := by
  cases path with
  | nil =>
    rw [freeAt_nil]
    refine ⟨?_, fun ⟨_, j, rest, k, hpath, _⟩ => nomatch hpath⟩
    rintro rfl
    cases other
  | cons j path =>
    rw [freeAt_cons hn, hscope]
    refine and_congr_right fun hself => ⟨?_, ?_⟩
    · rintro ⟨k, hk, hfree⟩
      have hij : i ≤ j := Nat.not_lt.1 fun hj => hself (hbefore j hj k p path hk hfree)
      refine ⟨j - i, path, k, by rw [Nat.add_sub_cancel' hij], ?_, hfree⟩
      rw [List.getElem?_drop, Nat.add_sub_cancel' hij, hk]
    · rintro ⟨j', rest, k, hpath, hk, hfree⟩
      cases hpath
      rw [List.getElem?_drop] at hk
      exact ⟨k, hk, hfree⟩

/-- The free parameters that the recursion lists come from the free occurrences. -/
theorem Refers.comesFrom {bs ps : List Parameter} (h : Refers (some bs) n ps) :
    ComesFrom ps fun p path => n.FreeAt p path ∧ p ∉ bs := by
  induction n using offspring_induction generalizing bs ps with
  | step n ih =>
    cases h with
    | parameter _ q =>
      by_cases hq : q ∈ bs
      · refine ⟨[], by simp [occurrence, hq], .nil, fun path p => ?_⟩
        refine ⟨fun h => (List.not_mem_nil h).elim, fun h => ?_⟩
        obtain ⟨-, rfl⟩ := freeAt_parameter.1 h.1
        exact absurd hq h.2
      · refine ⟨[([], q)], by simp [occurrence, hq], List.pairwise_singleton _ _, fun path p => ?_⟩
        simp only [freeAt_parameter, List.mem_singleton, Prod.mk.injEq]
        exact ⟨fun h => ⟨h, h.2 ▸ hq⟩, And.left⟩
    | @other _ _ ns pss other children length each =>
      obtain ⟨i, hscope, hbefore⟩ := exists_scopeOf_eq_drop children
      have hbelow : List.Forall₂ (fun k ps => ComesFrom ps fun p path =>
          k.FreeAt p path ∧ p ∉ boundBy n ns ++ bs) (scopeOf n ns) pss := by
        refine forall₂_of_zip length fun e he => ih e.1 ?_ (each e he)
        rw [offspring_of_ok children]
        exact mem_of_mem_scopeOf (List.of_mem_zip he).1
      have hfree (p : Parameter) (path : List Nat) : n.FreeAt p path ∧ p ∉ bs ↔
          ∃ j rest k, path = (i + j) :: rest ∧ (scopeOf n ns)[j]? = some k ∧
            k.FreeAt p rest ∧ p ∉ boundBy n ns ++ bs := by
        rw [freeAt_iff_scope other children hscope hbefore]
        simp only [List.mem_append, mem_boundBy children, not_or]
        constructor
        · rintro ⟨⟨hself, j, rest, k, hpath, hk, hfree⟩, hp⟩
          exact ⟨j, rest, k, hpath, hk, hfree, hself, hp⟩
        · rintro ⟨j, rest, k, hpath, hk, hfree, hself, hp⟩
          exact ⟨⟨hself, j, rest, k, hpath, hk, hfree⟩, hp⟩
      simp only [hfree]
      exact .flatten hbelow i

end Node

/-- The query for free parameters gives the parameters that occur free, each once, in the order of
the first position at which they do so.  The order of positions is that of a walk, and no declaration
counts as an occurrence. -/
theorem freeParameters_occurrences {n : Node} (h : n.WellFormed) :
    ∃ visits free, walk (.node n) = pure (visits.map Prod.snd) ∧ InOrder visits ∧
      (∀ path k, (path, k) ∈ visits ↔ n.at? path = some k) ∧
      freeParameters (.node n) = pure free ∧ free.Nodup ∧
      (∀ p, p ∈ free ↔ ∃ path, n.FreeAt p path) ∧
      (free.Pairwise fun p q =>
        ∃ path, n.FreeAt p path ∧ ∀ path', n.FreeAt q path' → path < path') ∧
      ∀ path mark row ps b i p,
        n.at? path = some (.lambda mark row (Node.declarations ps) (.node b)) → i < ps.length →
        ¬ n.FreeAt p (path ++ [i]) := by
  obtain ⟨visits, hvisits, hord, hat⟩ := n.preorder_comesFrom
  obtain ⟨ps, hps⟩ := Node.Refers.exists_of_wellFormed h (some [])
  obtain ⟨hmem, hfirst⟩ := hps.comesFrom.distinct
  simp only [List.not_mem_nil, not_false_eq_true, and_true] at hmem hfirst
  refine ⟨visits, distinct ps, by rw [walk_preorder h, hvisits], hord, hat,
    hps.freeParameters_eq h, nodup_distinct ps, hmem, hfirst,
    fun path mark row ps b i p hpath hi => Node.not_freeAt_declaration hpath hi p⟩

/-- A parameter is bound in the function that is called and free in the argument. -/
theorem freeParameters_occurrences_rebound :
    let x : Parameter := ⟨1, "x", .object, 0⟩
    let y : Parameter := ⟨2, "y", .object, 0⟩
    let sum : Node := .binary 1 .add (.node (.parameter x)) (.node (.parameter y)) .object
    let f : Node := .lambda 2 3 (Node.declarations [x]) (.node sum)
    let n : Node := .call 4 (.node f) 5 [.node (.parameter x)] .object
    n.WellFormed ∧ ∃ free, freeParameters (.node n) = pure free ∧ x ∈ free ∧ y ∈ free := by
  intro x y sum f n
  have cn : n.childNodes = .ok [f, .parameter x] := rfl
  have cf : f.childNodes = .ok [.parameter x, sum] := rfl
  have cs : sum.childNodes = .ok [.parameter x, .parameter y] := rfl
  have hp (p : Parameter) : (Node.parameter p).preorder = [.parameter p] :=
    Node.preorder_of_leaf rfl
  have hn : n.WellFormed := by
    rw [Node.wellFormed_iff]
    simp [Node.preorder_of_ok cn, Node.preorder_of_ok cf, Node.preorder_of_ok cs, hp,
      Node.stray?_of_ok cn, Node.stray?_of_ok cf, Node.stray?_of_ok cs,
      Node.stray?_of_ok (n := .parameter _) rfl]
  have hx : n.FreeAt x [1] :=
    (Node.freeAt_cons cn).2 ⟨id, .parameter x, rfl, Node.freeAt_parameter.2 ⟨rfl, rfl⟩⟩
  have hsum : sum.FreeAt y [1] :=
    (Node.freeAt_cons cs).2 ⟨id, .parameter y, rfl, Node.freeAt_parameter.2 ⟨rfl, rfl⟩⟩
  have hy : n.FreeAt y [0, 1, 1] :=
    (Node.freeAt_cons cn).2 ⟨id, f, rfl, (Node.freeAt_cons cf).2
      ⟨by simp [Node.Declares, Node.declarations, f, x, y], sum, rfl, hsum⟩⟩
  obtain ⟨-, free, -, -, -, hfree, -, hmem, -⟩ := freeParameters_occurrences hn
  exact ⟨hn, free, hfree, (hmem x).2 ⟨_, hx⟩, (hmem y).2 ⟨_, hy⟩⟩

end PredicateTree
