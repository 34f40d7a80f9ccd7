import PredicateTree.Proofs.Likeness.Tree
import PredicateTree.Proofs.Traversal.Orders
import PredicateTree.Tree.Rename

/-!
# Renamed trees

`Node.Renamed ρ n n'` says that `n'` is `n` with every parameter replaced by what `ρ` renames it to,
declarations included.  A renamed tree runs as the tree (`Node.Renamed.runsAs`) where scopes are
kept, which a renaming that is injective on the parameters of the tree does
(`Node.keeps_of_references`).
-/

namespace PredicateTree

namespace Node

variable {ρ : Parameter → Parameter} {n n' : Node} {S : Parameter → Prop}

/-- A tree with all parameters renamed. -/
inductive Renamed (ρ : Parameter → Parameter) : Node → Node → Prop where
  | parameter (p : Parameter) : Renamed ρ (.parameter p) (.parameter (ρ p))
  | upon {n : Node} {ns rs : List Node} (other : n.asParameter? = none)
      (children : n.childNodes = .ok ns) (each : List.Forall₂ (Renamed ρ) ns rs)
      (mark row : Nat) : Renamed ρ n (n.upon mark row (rs.map .node))

theorem Renamed.fits (h : n.Renamed ρ n') : n.Fits n' := by
  cases h with
  | parameter p => exact fun _ _ => ⟨ρ p, rfl⟩
  | upon other children each mark row => exact fits_upon n mark row _

theorem isOwned_upon {ns rs : List Node} (hn : n.childNodes = .ok ns)
    (hr : List.Forall₂ Fits ns rs) (mark row : Nat) (h : n.isOwned = true) :
    (n.upon mark row (rs.map .node)).isOwned = true := by
  cases hasChildren_of_childNodes hn with
  | literal | parameter | lambda => rfl
  | static =>
    obtain ⟨⟩ := hr
    exact h
  | member | unary =>
    obtain _ | ⟨_, ⟨⟩⟩ := hr
    rfl
  | binary =>
    obtain _ | ⟨_, _ | ⟨_, ⟨⟩⟩⟩ := hr
    rfl
  | conditional =>
    obtain _ | ⟨_, _ | ⟨_, _ | ⟨_, ⟨⟩⟩⟩⟩ := hr
    rfl
  | call =>
    obtain ⟨f', args', _, _, rfl⟩ := List.forall₂_cons_left_iff.1 hr
    rfl

/-- A renamed tree has owners where the tree has. -/
theorem Renamed.owned (h : n.All (·.isOwned)) {n' : Node} (hr : n.Renamed ρ n') :
    n'.All (·.isOwned) := by
  induction h generalizing n' with
  | intro ns children holds _ ih =>
    cases hr with
    | parameter p => exact .intro [] rfl rfl (by simp)
    | upon _ children' each mark row =>
      cases children.symm.trans children'
      have hfits := each.imp fun _ _ h => h.fits
      refine .intro _ (childNodes_upon children hfits mark row)
        (isOwned_upon children hfits mark row holds) ?_
      exact forall_of_forall₂ each fun k hk r hr => ih k hk hr

/-- A renamed tree runs as the tree. -/
theorem Renamed.runsAs {K : Correspondence} {t : OperatorTable}
    {P : Node → Prop} (hsite : ∀ n n', P n → Renamed ρ n n' → K.site n n')
    (ht : ∀ key, K.known (t key)) (h : n.All fun m => m.LabelsKnown K ∧ P m) {n' : Node}
    (hr : n.Renamed ρ n') : n.RunsAs K t ρ n' := by
  induction h generalizing n' with
  | intro ns children holds _ ih =>
    obtain ⟨hlabels, hP⟩ := holds
    have hn := hsite _ _ hP hr
    cases hr with
    | parameter p => exact .parameter hn
    | upon other children' each mark row =>
      cases children.symm.trans children'
      refine .upon ht children other hlabels ?_ mark row hn
      exact forall₂_of_zip each.length_eq fun e he =>
        ih e.1 (List.of_mem_zip he).1 (zip_of_forall₂ each e he)

/-! ### Occurrences -/

theorem scopeOf_lambda (mark row : Nat) (vs : List Value) (v : Value) (ns : List Node) (b : Node) :
    scopeOf (.lambda mark row vs v) (ns ++ [b]) = [b] := by
  rw [scopeOf, List.length_append, List.length_singleton, Nat.add_sub_cancel, List.drop_left]

theorem boundBy_lambda (mark row : Nat) (vs : List Value) (v : Value) (ps : List Parameter)
    (b : Node) : boundBy (.lambda mark row vs v) (ps.map .parameter ++ [b]) = ps := by
  rw [boundBy, List.length_append, List.length_singleton, Nat.add_sub_cancel, List.take_left,
    parametersOf, List.filterMap_map]
  exact List.filterMap_some

theorem scopeOf_of_ne (hl : n.kind? ≠ some .lambda) (ns : List Node) : scopeOf n ns = ns := by
  cases n with
  | lambda => exact absurd rfl hl
  | _ => rfl

theorem mem_of_mem_scopeOf {ns : List Node} {m : Node} (h : m ∈ scopeOf n ns) : m ∈ ns := by
  unfold scopeOf at h
  split at h
  · exact List.mem_of_mem_drop h
  · exact h

theorem boundBy_of_ne (hl : n.kind? ≠ some .lambda) (ns : List Node) : boundBy n ns = [] := by
  cases n with
  | lambda => exact absurd rfl hl
  | _ => rfl

/-- Free in the trees on a stack is only what the loop finds. -/
theorem keeps_of_freeLoop {stack : List (Node × List Parameter)} {free fs : List Parameter}
    (h : freeLoop stack free = .ok fs) :
    (∀ p ∈ free, p ∈ fs) ∧ ∀ e ∈ stack, ∀ S, e.1.Keeps ρ S →
      e.1.Keeps ρ fun p => S p ∧ (p ∈ e.2 ∨ p ∈ fs) := by
  fun_induction freeLoop stack free with
  | case1 free =>
    cases h
    exact ⟨fun p hp => List.mem_reverse.2 hp, fun e he => nomatch he⟩
  | case2 p bound rest free ih =>
    obtain ⟨hfree, hstack⟩ := ih h
    have hp : p ∈ bound ∨ p ∈ fs := by
      by_cases hb : p ∈ bound
      · exact .inl hb
      · exact .inr (hfree p (by simp [hb]))
    refine ⟨fun q hq => hfree q ?_, fun e he => ?_⟩
    · split
      · exact hq
      · exact List.mem_cons_of_mem p hq
    · rcases List.mem_cons.1 he with rfl | he
      · exact fun S hk => .parameter ⟨hk.of_parameter, hp⟩
      · exact hstack e he
  | case3 => cases h
  | case4 n bound rest free hparameter ns hn ih =>
    obtain ⟨hfree, hstack⟩ := ih h
    refine ⟨hfree, fun e he => ?_⟩
    rcases List.mem_cons.1 he with rfl | he
    · intro S hk
      by_cases hl : n.kind? = some .lambda
      · obtain ⟨mark, row, ps, b, rfl, rfl⟩ := lambda_of_childNodes hn hl
        rw [scopeOf_lambda, boundBy_lambda] at hstack
        obtain ⟨S', hscope, hb⟩ := hk.of_lambda
        refine .lambda (fun p ⟨hS', hp⟩ => ⟨(hscope p hS').1, fun hnot => ?_⟩)
          (hstack (b, ps ++ bound) (by simp) S' hb)
        exact ⟨(hscope p hS').2 hnot, by simpa [hnot] using hp⟩
      · have hp : n.kind? ≠ some .parameter := by
          cases n with
          | parameter p => exact absurd rfl (hparameter p)
          | _ => simp [kind?]
        rw [scopeOf_of_ne hl, boundBy_of_ne hl] at hstack
        exact .other hp hl ns hn fun m hm =>
          hstack (m, bound) (by simp [hm]) S (hk.each hp hl ns hn m hm)
    · exact hstack e (List.mem_append_right _ he)

theorem freeLoop_of_wellFormed (stack : List (Node × List Parameter)) (free : List Parameter)
    (h : ∀ e ∈ stack, e.1.WellFormed) : ∃ fs, freeLoop stack free = .ok fs := by
  fun_induction freeLoop stack free with
  | case1 => exact ⟨_, rfl⟩
  | case2 p bound rest free ih => exact ih fun e he => h e (List.mem_cons_of_mem _ he)
  | case3 n bound rest free _ stray hn =>
    obtain ⟨ns, hns, _⟩ := (h _ List.mem_cons_self).children
    cases hn.symm.trans hns
  | case4 n bound rest free _ ns hn ih =>
    obtain ⟨ms, hms, below⟩ := (h _ List.mem_cons_self).children
    cases hn.symm.trans hms
    refine ih fun e he => ?_
    rcases List.mem_append.1 he with he | he
    · obtain ⟨m, hm, rfl⟩ := List.mem_map.1 he
      exact below m (mem_of_mem_scopeOf hm)
    · exact h e (List.mem_cons_of_mem _ he)

/-- The free parameters of a well-formed tree are what the loop finds, each once. -/
theorem freeParameters_eq (h : n.WellFormed) :
    ∃ fs, freeLoop [(n, [])] [] = .ok fs ∧ freeParameters (.node n) = pure (distinct fs) := by
  obtain ⟨fs, hfs⟩ := freeLoop_of_wellFormed [(n, [])] [] (by simpa using h)
  have hn : (Value.node n).requireTree = pure n := rfl
  refine ⟨fs, hfs, ?_⟩
  rw [freeParameters, hn, pure_bind, hfs, Stray.orRaise, pure_bind]

theorem freeParameters_of_closed (h : n.WellFormed) (hloop : freeLoop [(n, [])] [] = .ok []) :
    freeParameters (.node n) = pure [] := by
  obtain ⟨fs, hfs, hfree⟩ := freeParameters_eq h
  cases hloop.symm.trans hfs
  exact hfree

/-- The references of a well-formed tree are the parameters that stand in it. -/
theorem parameterReferences_eq (h : n.WellFormed) :
    ∃ ps, parameterReferences (.node n) = pure ps ∧ n.All (Occurs (· ∈ ps)) := by
  refine ⟨parametersOf n.preorder, parameterReferences_preorder h, all_iff.2 fun m hm => ?_⟩
  exact ⟨(all_iff.1 h m hm).1, fun p hp => List.mem_filterMap.2 ⟨m, hm, hp⟩⟩

/-- Where scopes are kept, free is only what `freeParameters` finds. -/
theorem Keeps.of_freeParameters (h : n.WellFormed) {fs : List Parameter}
    (hfs : freeParameters (.node n) = pure fs) (hk : n.Keeps ρ S) : n.Keeps ρ (· ∈ fs) := by
  obtain ⟨gs, hgs, hfs'⟩ := freeParameters_eq h
  cases Action.pure_injective (hfs.symm.trans hfs')
  have hkeeps := (keeps_of_freeLoop hgs).2 (n, []) List.mem_cons_self S hk
  exact hkeeps.mono fun p ⟨_, hp⟩ => mem_distinct.2 (hp.resolve_left List.not_mem_nil)

/-- A renaming that is injective on the parameters of a tree keeps its scopes. -/
theorem keeps_of_references {ps fs : List Parameter} (h : n.WellFormed)
    (hps : parameterReferences (.node n) = pure ps) (hfs : freeParameters (.node n) = pure fs)
    (hinj : ∀ p ∈ ps, ∀ q ∈ ps, ρ p = ρ q → p = q) : n.Keeps ρ (· ∈ fs) := by
  obtain ⟨ps', hps', hall⟩ := parameterReferences_eq h
  cases Action.pure_injective (hps.symm.trans hps')
  have hkeeps := keeps_of_occurs (A := (· ∈ ps)) (fun p q hp hq => hinj p hp q hq) hall
  exact hkeeps.of_freeParameters h hfs

end Node

end PredicateTree
