import PredicateTree.Proofs.Equality.Labelling
import PredicateTree.Proofs.Purity.Kinship

/-!
# Structural equality of trees that correspond

Trees that correspond, with the very same parameters, are structurally equal
(`Sameness.Kinship.Akin.structurallyEqual`), if the same values and names are equal.  In particular
so are trees that are the same but for marks (`Sameness.Alike.structurallyEqual`).
-/

namespace PredicateTree

namespace Sameness

/-- Where values are compared, the same values are the same thing or equal, and every number is
one. -/
structure Compares (S : Sameness) (c : Caller) : Prop where
  same : ∀ {s v w}, S.session s → S.value s s v w →
    ∃ t, (v.same w).run c s = (.done true, t) ∧ S.later s t
  number : ∀ {s mark x}, S.value s s (.float mark x) (.float mark x) → (x == x) = true

variable {S : Sameness} {K : S.Kinship} {c : Caller} {s : Session} {n m : Node}

namespace Kinship

/-- Where names are compared, the same names are equal, and only a parameter itself stands for it. -/
structure Compares (K : S.Kinship) (c : Caller) : Prop where
  names : ∀ {s v w}, S.session s → K.name s s v w →
    ∃ t, (v.equal w).run c s = (.done true, t) ∧ S.later s t
  parameter_eq : ∀ {p q}, K.parameter p q → p = q

theorem same_compares (hC : S.Compares c) : (same S).Compares c where
  names := by
    rintro s v _ hs ⟨rfl, hv⟩
    rw [Value.equal_self fun mark x hx => hC.number (hx ▸ hv)]
    exact ⟨s, rfl, S.later_refl s⟩
  parameter_eq h := h

theorem Label.sameLabel_answers (hC : S.Compares c) (hK : K.Compares c) (hs : S.session s)
    (h : K.Label s s n m) (hid : ¬ n.identical m = true) :
    (n.sameLabel m).Answers (S.later s) c True True := by
  cases h with
  | parameter h =>
    cases hK.parameter_eq h
    exact absurd (Node.identical_self _) hid
  | agree h =>
    cases h with
    | literal value =>
      rw [Node.sameLabel, if_pos rfl]
      intro u hu
      obtain ⟨t, hrun, hut⟩ := hC.same (S.session_later hs hu) (S.value_later value hu hu)
      rw [hrun]
      exact ⟨S.order.trans hu hut, by simp, fun _ => ⟨true, rfl⟩⟩
    | member name owner =>
      rw [Node.sameLabel, if_pos rfl]
      intro u hu
      obtain ⟨t, hrun, hut⟩ := hK.names (S.session_later hs hu) (K.name_later name hu hu)
      rw [Action.run_bind_done hrun, if_pos rfl, owner]
      exact ⟨S.order.trans hu hut, iff_of_true rfl trivial, fun _ => ⟨true, rfl⟩⟩
    | _ =>
      refine .pure ?_
      simp

/-- Trees that correspond are structurally equal, whenever they are compared. -/
theorem Akin.structurallyEqual (hC : S.Compares c) (hK : K.Compares c) (hs : S.session s)
    (h : K.Akin s s n m) :
    (PredicateTree.structurallyEqual (.node n) (.node m)).Answers (S.later s) c True True := by
  induction h with
  | @intro n m ns ms label here there left right length each ih =>
    by_cases hid : n.identical m = true
    · rw [structurallyEqual_of_identical hid]
      exact .pure (by simp)
    · rw [structurallyEqual_node hid left right]
      have hlabel := label.sameLabel_answers hC hK hs hid
      have hchildren := Action.Answers.allHold fun e he => ih e (List.mem_reverse.1 he)
      exact (hlabel.and fun _ => .ite fun _ => hchildren).congr (by simp [length])

theorem Akin.affirms {t t' u : Session} (hC : S.Compares c) (hK : K.Compares c) (ht : S.session t)
    (h : K.Akin t t' n m) (hu : S.later t u) (hu' : S.later t' u) :
    (PredicateTree.structurallyEqual (.node n) (.node m)).Affirms c u :=
  (((h.later hu hu').structurallyEqual hC hK (S.session_later ht hu)).affirms_iff
    (S.later_refl u)).2 trivial

end Kinship

/-- Trees that are the same are structurally equal. -/
theorem Alike.structurallyEqual (hC : S.Compares c) (hs : S.session s) (h : S.Alike s s n m) :
    ∃ t, (PredicateTree.structurallyEqual (.node n) (.node m)).run c s = (.done true, t) :=
  h.akin.affirms hC (Kinship.same_compares hC) hs (S.later_refl s) (S.later_refl s)

end Sameness

end PredicateTree
