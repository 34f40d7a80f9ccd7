import PredicateTree.Proofs.Traversal.Malformation
import PredicateTree.Proofs.Traversal.Stacks

/-!
# Occurrences of parameters in a fold

A fold meets the nodes of a tree in post-order, the query for parameters in pre-order.  Parameters
have no children, so both meet them in the same succession (`parametersOf_postorder`), and of a
malformed tree both report the same node (`parameterReferences_of_fold`).

They part where a value is no node.  The query asks any value for its kind before it refuses it, so a
value without one makes it fail with the lack of the attribute (`parameterReferences_lacks_kind`).
-/

namespace PredicateTree

theorem parametersOf_postorder (n : Node) : parametersOf n.postorder = parametersOf n.preorder := by
  refine Node.filterMap_postorder _ (fun m hm => ?_) n
  cases m with
  | parameter p => rfl
  | _ => cases hm

/-- What a node that is astray ends with is the same whatever the value would have been for. -/
theorem raise_run (stray : Stray) (c : Caller) (s : Session) :
    (∃ f t, ∀ α : Type, (stray.raise : Action α).run c s = (.raised f, t)) ∨
      ∃ t, ∀ α : Type, (stray.raise : Action α).run c s = (.exhausted, t) := by
  rcases h : stray.fault.run c s with ⟨f | f | _, t⟩
  · exact .inl ⟨f, t, fun α => Action.run_bind_done h⟩
  · exact .inl ⟨f, t, fun α => Action.run_bind_raised h⟩
  · exact .inr ⟨t, fun α => Action.run_bind_exhausted h⟩

theorem raise_steady {α β : Type} {stray : Stray} {c : Caller} {s t : Session}
    (h : ((stray.raise : Action α).run c t).1 = ((stray.raise : Action α).run c s).1) :
    ((stray.raise : Action β).run c t).1 = ((stray.raise : Action β).run c s).1 := by
  rcases raise_run stray c s with ⟨f, u, hs⟩ | ⟨u, hs⟩ <;>
    rcases raise_run stray c t with ⟨g, w, ht⟩ | ⟨w, ht⟩ <;>
    simp_all

section fold

variable {later : Session → Session → Prop} (hl : Session.Order later) {c : Caller} {s : Session}
  {σ β : Type} {combine : Node → List β → StateT σ Action β}

/-- The parameters among the nodes at which a fold was called. -/
def parametersMet (result : (β × List Node) × σ) : List Parameter := parametersOf result.1.2

include hl

theorem parameterReferences_of_node (total : NeverFails later c s combine) (n : Node)
    (carried : σ) :
    ∃ t, later s t ∧
      ((parametersMet <$> ((foldTree (recording combine) (.node n)).run []).run carried).run c s).1 =
        ((parameterReferences (.node n)).run c t).1 ∧
      ((∀ u, later s u → ((Value.node n).check.run c u).1 = ((Value.node n).check.run c s).1) →
        ((parameterReferences (.node n)).run c t).1 =
          ((parameterReferences (.node n)).run c s).1) := by
  have hfold : ((foldTree (recording combine) (.node n)).run []).run carried =
      (fun r => ((r.1, n.postorder), r.2)) <$> (n.recurse combine).run carried := by
    rw [foldTree_eq_of_computes n.computes_recurse, n.run_recurse_recording, List.nil_append,
      StateT.run_map]
  have hmet : parametersMet <$> ((foldTree (recording combine) (.node n)).run []).run carried =
      (fun _ => parametersOf n.preorder) <$> (n.recurse combine).run carried := by
    rw [hfold, ← parametersOf_postorder, Functor.map_map]
    rfl
  rw [hmet, parameterReferences_node, Value.check_node]
  obtain ⟨t, ht, ⟨hok, b, after, hrun⟩ | ⟨stray, herror, hrun⟩⟩ := recurse_ends hl total n carried
  · refine ⟨t, ht, ?_, fun _ => by rw [hok]; rfl⟩
    rw [hok, map_eq_pure_bind, Action.run_bind_done hrun]
    rfl
  · have hraise : (fun _ : Unit => parametersOf n.preorder) <$> (stray.raise : Action Unit) =
        stray.raise := by
      rw [map_eq_pure_bind, raise_bind]
    rw [herror, Stray.orRaise, hraise]
    refine ⟨t, ht, congrArg Prod.fst (Action.run_map_of_raise _ hrun), fun steady => ?_⟩
    exact raise_steady (steady t ht)

/-- The query for parameters gives the parameters that a fold meets, in this order, and ends as the
fold does, for every node, and for any other value whose kind can be read, which leaves its type.  A
malformed node is reported in the session that the fold has come to; where the report reads the same
in later sessions, the two end the same. -/
theorem parameterReferences_of_fold (total : NeverFails later c s combine) (v : Value) (carried : σ)
    (hv : v.node?.isSome ∨ ∃ w u, (v.readAttribute "kind").run c s = (.done w, u) ∧
      u.store.typeOf v = s.store.typeOf v) :
    ∃ t, later s t ∧
      ((parametersMet <$> ((foldTree (recording combine) v).run []).run carried).run c s).1 =
        ((parameterReferences v).run c t).1 ∧
      ((∀ u, later s u → (v.check.run c u).1 = (v.check.run c s).1) →
        ((parameterReferences v).run c t).1 = ((parameterReferences v).run c s).1) := by
  by_cases hn : ∃ n, v = .node n
  · obtain ⟨n, rfl⟩ := hn
    exact parameterReferences_of_node hl total n carried
  · obtain ⟨w, u, hread, htype⟩ := hv.resolve_left fun h => by
      cases v with
      | node n => exact hn ⟨n, rfl⟩
      | _ => cases h
    refine ⟨s, hl.noted .refl, ?_, fun _ => rfl⟩
    have hfold : (((foldTree (recording combine) v).run []).run carried).run c s =
        (.raised (.malformed (.notANode (s.store.typeOf v)) v), s) := by
      rw [foldTree_recurse]
      cases v with
      | node n => exact absurd ⟨n, rfl⟩ hn
      | _ => rfl
    have hquery : (parameterReferences v).run c s =
        (.raised (.malformed (.notANode (u.store.typeOf v)) v), u) := by
      cases v with
      | node n => exact absurd ⟨n, rfl⟩ hn
      | _ => exact Action.run_bind_done hread
    rw [map_eq_pure_bind, Action.run_bind_raised hfold, hquery, htype]

end fold

/-- A lambda declares a parameter that its body adds to another one. -/
theorem parameterReferences_of_fold_sum :
    let x : Parameter := ⟨1, "x", .object, 0⟩
    let y : Parameter := ⟨2, "y", .object, 0⟩
    let sum : Node := .binary 3 .add (.node (.parameter x)) (.node (.parameter y)) .object
    let v : Value := .node (.lambda 1 2 (Node.declarations [x]) (.node sum))
    let c : Caller := fun _ _ s => (.exhausted, s)
    ((parametersMet <$> ((foldTree (recording counting) v).run []).run 0).run c {}).1 =
      .done [x, x, y] := by
  intro x y sum v c
  obtain ⟨t, -, hfold, -⟩ := parameterReferences_of_fold
    ⟨fun _ => trivial, fun _ _ => trivial⟩ counting_neverFails v 0 (.inl rfl)
  have hpre : (Node.lambda 1 2 (Node.declarations [x]) (.node sum)).preorder =
      [.lambda 1 2 (Node.declarations [x]) (.node sum), .parameter x, sum, .parameter x,
        .parameter y] := by
    have cl : (Node.lambda 1 2 (Node.declarations [x]) (.node sum)).childNodes =
      .ok [.parameter x, sum] := rfl
    have cs : sum.childNodes = .ok [.parameter x, .parameter y] := rfl
    have hp (p : Parameter) : (Node.parameter p).preorder = [.parameter p] :=
      Node.preorder_of_leaf rfl
    simp [Node.preorder_of_ok cl, Node.preorder_of_ok cs, hp]
  rw [hfold, parameterReferences_node, hpre]
  rfl

/-- A number has no kind, so the query fails with the lack of it; a fold says that it is no node. -/
theorem parameterReferences_lacks_kind :
    let c : Caller := fun _ _ s => (.exhausted, s)
    (∃ f, ((parameterReferences (.ofInt 5)).run c {}).1 = .raised f ∧ f.errorClass = .attribute) ∧
      (((foldTree counting (.ofInt 5)).run 0).run c {}).1 =
        .raised (.malformed (.notANode .int) (.ofInt 5)) :=
  ⟨⟨_, rfl, rfl⟩, rfl⟩

end PredicateTree
