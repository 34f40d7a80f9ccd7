import PredicateTree.Proofs.Equality.Recursion
import PredicateTree.Proofs.Tree.Recursion

/-!
# What structural equality finds

A comparison of two values may fail, or not come to an end.  Where at least the answer that they are
equal is right, and comes whenever it should (`Labelling`), so it is with trees: structural equality
comes to the answer that two trees are equal exactly if they are so by the recursive definition
(`Labelling.structurallyEqual_answers`).
-/

namespace PredicateTree

/-! ### Answers -/

namespace Action

/-- In every session of a kind a test leaves a session of that kind, and it comes to the answer that
something is so exactly if it is.  If `total`, it always comes to an answer. -/
def Answers (x : Action Bool) (session : Session → Prop) (c : Caller) (total Q : Prop) : Prop :=
  ∀ s, session s → session (x.run c s).2 ∧ ((x.run c s).1 = .done true ↔ Q) ∧
    (total → ∃ answer, (x.run c s).1 = .done answer)

/-- A test, made in a session, comes to the answer that it is so. -/
def Affirms (x : Action Bool) (c : Caller) (s : Session) : Prop :=
  ∃ t, x.run c s = (.done true, t)

namespace Answers

variable {x y : Action Bool} {session : Session → Prop} {c : Caller} {s : Session}
  {total Q R : Prop}

theorem affirms_iff (h : x.Answers session c total Q) (hs : session s) : x.Affirms c s ↔ Q := by
  rw [← (h s hs).2.1]
  constructor
  · rintro ⟨t, hrun⟩
    rw [hrun]
  · intro hdone
    exact ⟨(x.run c s).2, Prod.ext hdone rfl⟩

theorem pure {b : Bool} (h : b = true ↔ Q) :
    (Pure.pure b : Action Bool).Answers session c total Q := by
  intro s hs
  refine ⟨hs, Iff.trans ⟨fun hdone => ?_, fun hb => ?_⟩ h, fun _ => ⟨b, rfl⟩⟩
  · exact Outcome.done.inj hdone
  · rw [hb]
    rfl

theorem congr (h : x.Answers session c total Q) (hiff : Q ↔ R) :
    x.Answers session c total R := by
  intro s hs
  obtain ⟨ht, hanswer, htotal⟩ := h s hs
  exact ⟨ht, hanswer.trans hiff, htotal⟩

/-- Two tests, the second of which is only made where the first one holds. -/
theorem and (hx : x.Answers session c total Q) (hy : Q → y.Answers session c total R) :
    (do if ← x then y else return false : Action Bool).Answers session c total (Q ∧ R) := by
  intro s hs
  obtain ⟨ht, hanswer, htotal⟩ := hx s hs
  rcases hrun : x.run c s with ⟨answer | f | _, t⟩ <;> rw [hrun] at ht hanswer htotal
  case done =>
    rw [Action.run_bind_done hrun]
    cases answer with
    | true =>
      have hQ : Q := hanswer.1 rfl
      obtain ⟨hu, hanswer', htotal'⟩ := hy hQ t ht
      exact ⟨hu, hanswer'.trans (by simp [hQ]), htotal'⟩
    | false =>
      have hQ : ¬ Q := fun hQ => nomatch hanswer.2 hQ
      exact ⟨ht, ⟨nofun, fun h => absurd h.1 hQ⟩, fun _ => ⟨false, rfl⟩⟩
  case raised =>
    rw [Action.run_bind_raised hrun]
    exact ⟨ht, ⟨nofun, fun h => nomatch hanswer.2 h.1⟩, fun h => nomatch htotal h⟩
  case exhausted =>
    rw [Action.run_bind_exhausted hrun]
    exact ⟨ht, ⟨nofun, fun h => nomatch hanswer.2 h.1⟩, fun h => nomatch htotal h⟩

/-- A test that is only made where something holds anyway. -/
theorem ite {P : Prop} [Decidable P] (hx : P → x.Answers session c total Q) :
    (if P then x else return false : Action Bool).Answers session c total (P ∧ Q) := by
  split
  case isTrue hP => exact (hx hP).congr (by simp [hP])
  case isFalse hP => exact pure (by simp [hP])

theorem allHold {α : Type} {p : α → Action Bool} {P : α → Prop} {as : List α}
    (h : ∀ a ∈ as, (p a).Answers session c total (P a)) :
    (PredicateTree.allHold p as).Answers session c total (∀ a ∈ as, P a) := by
  induction as with
  | nil => exact pure (by simp)
  | cons a as ih =>
    have hrest := ih fun b hb => h b (List.mem_cons_of_mem a hb)
    rw [PredicateTree.allHold]
    exact ((h a List.mem_cons_self).and fun _ => hrest).congr (by simp)

end Answers

end Action

/-! ### Labels -/

/-- The values that the literals of trees hold and the names of their members, and which of them are
equal where they are compared. -/
structure Labelling (c : Caller) where
  /-- The sessions in question. -/
  session : Session → Prop
  value : Value → Prop
  name : Value → Prop
  equal : Value → Value → Prop
  equalNames : Value → Value → Prop
  /-- Whether all comparisons come to an answer. -/
  total : Prop
  same : ∀ {v w}, value v → value w → (v.same w).Answers session c total (equal v w)
  equals : ∀ {v w}, name v → name w → (v.equal w).Answers session c total (equalNames v w)

namespace Labelling

variable {c : Caller} (K : Labelling c) {n m : Node} {ns : List Node}

/-- A node holds a value or a name of those that are compared, if any. -/
def Holds : Node → Prop
  | .literal _ v _ => K.value v
  | .member _ _ name _ _ => K.name name
  | _ => True

theorem sameLabel_answers (hn : K.Holds n) (hm : K.Holds m) (children : n.childNodes = .ok ns) :
    (n.sameLabel m).Answers K.session c K.total (n.Agree K.equal K.equalNames m) := by
  unfold Node.sameLabel
  split
  case h_1 mark v t mark' w u =>
    split
    case isTrue ht =>
      cases ht
      exact (K.same hn hm).congr ⟨.literal, fun h => by cases h; assumption⟩
    case isFalse ht => exact .pure ⟨nofun, fun h => by cases h; exact absurd rfl ht⟩
  case h_2 mark e name o t mark' e' name' q u =>
    split
    case isTrue ht =>
      cases ht
      refine ((K.equals hn hm).and fun _ => .pure Iff.rfl).congr ⟨fun h => ?_, fun h => ?_⟩
      · exact .member h.1 h.2
      · cases h with
        | member hname howner => exact ⟨hname, howner⟩
    case isFalse ht => exact .pure ⟨nofun, fun h => by cases h; exact absurd rfl ht⟩
  case h_3 | h_4 =>
    refine .pure ⟨fun h => ?_, fun h => ?_⟩
    · simp only [Bool.and_eq_true, decide_eq_true_eq, beq_iff_eq] at h
      obtain ⟨rfl, rfl⟩ := h
      constructor
    · cases h
      simp
  case h_5 | h_6 =>
    refine .pure ⟨fun h => ?_, fun h => ?_⟩
    · cases of_decide_eq_true h
      constructor
    · cases h
      simp
  case h_7 => exact .pure ⟨fun _ => .lambda, fun _ => rfl⟩
  case h_8 => cases children
  case h_9 literal member unary binary conditional call lambda _ =>
    refine .pure ⟨nofun, fun h => ?_⟩
    cases h with
    | literal => exact (literal _ _ _ _ _ _ rfl rfl).elim
    | member => exact (member _ _ _ _ _ _ _ _ _ _ rfl rfl).elim
    | unary => exact (unary _ _ _ _ _ _ _ _ rfl rfl).elim
    | binary => exact (binary _ _ _ _ _ _ _ _ _ _ rfl rfl).elim
    | conditional => exact (conditional _ _ _ _ _ _ _ _ _ _ rfl rfl).elim
    | call => exact (call _ _ _ _ _ _ _ _ _ _ rfl rfl).elim
    | lambda => exact (lambda _ _ _ _ _ _ _ _ rfl rfl).elim

/-- Structural equality comes to the answer that two trees are equal exactly if they are so by the
recursive definition. -/
theorem structurallyEqual_answers (hn : n.All K.Holds) (hm : m.All K.Holds) :
    (structurallyEqual (.node n) (.node m)).Answers K.session c K.total
      (n.Equal K.equal K.equalNames m) := by
  induction hn generalizing m with
  | @intro n ns children holds below ih =>
    obtain ⟨ms, hms, below'⟩ := hm.children
    by_cases hid : n.identical m = true
    · rw [structurallyEqual_of_identical hid]
      exact .pure ⟨fun _ => .identical hid, fun _ => rfl⟩
    · rw [structurallyEqual_node hid children hms]
      have hchildren (e : Node × Node) (he : e ∈ (ns.zip ms).reverse) :
          (structurallyEqual (.node e.1) (.node e.2)).Answers K.session c K.total
            (e.1.Equal K.equal K.equalNames e.2) := by
        have hmem := List.of_mem_zip (List.mem_reverse.1 he)
        exact ih e.1 hmem.1 (below' e.2 hmem.2)
      have hlabel := K.sameLabel_answers holds hm.holds children
      exact (hlabel.and fun _ => .ite fun _ => .allHold hchildren).congr
        (Node.Equal.iff_children hid children hms).symm

end Labelling

end PredicateTree
