import PredicateTree.Proofs.Folding.Repetition
import PredicateTree.Proofs.Typing.Operators

/-!
# Soundness of static types

Trees are built from literals of data by operators and conditionals, with the static types that the
constructors infer (`Node.Built`).  Such a type is right where the branches of every conditional
agree (`Node.BranchesAgree`): a conditional has the type of its first branch, whichever branch it
takes.  Then the value of the tree has the type, or nothing is known of it
(`Machine.staticType_sound`), and where two branches differ it need not
(`Machine.staticType_mismatch`).
-/

namespace PredicateTree

open Action (Yields)

variable {A B : Nat → Prop} {n : Node}

/-! ### Trees that are built without types -/

/-- Trees over literals of data, made by constructors that are given no static types. -/
inductive Node.Built (A : Nat → Prop) : Node → Prop where
  | literal {v : Value} {c : Caller} {s t : Session} {n : Node} (data : v.Data A)
      (made : (Builder.literal v none).run c s = (.done n, t)) : Built A n
  | unary {op : UnaryOp} {x : Node} {c : Caller} {s t : Session} {n : Node} (operand : Built A x)
      (made : (Builder.unary op (.node x) none).run c s = (.done n, t)) : Built A n
  | binary {op : BinaryOp} {l r : Node} {c : Caller} {s t : Session} {n : Node} (left : Built A l)
      (right : Built A r)
      (made : (Builder.binary op (.node l) (.node r) none).run c s = (.done n, t)) : Built A n
  | conditional {test x y : Node} {c : Caller} {s t : Session} {n : Node} (condition : Built A test)
      (ifTrue : Built A x) (ifFalse : Built A y)
      (made : (Builder.conditional (.node test) (.node x) (.node y) none).run c s = (.done n, t)) :
      Built A n

/-- Whether the type of the first branch of a conditional is unknown, or that of the other one. -/
def Node.BranchesAgree : Node → Prop
  | .conditional _ _ (.node x) (.node y) _ => x.type = .object ∨ x.type = y.type
  | _ => True

theorem Value.Data.typeOf_eq {v : Value} (h : v.Data A) (s : Store) :
    s.typeOf v = v.fixedType := by
  cases h <;> rfl

namespace Node.Built

theorem owned (h : n.Built A) : n.All (·.isOwned) := by
  induction h with
  | literal data made =>
    cases made
    exact .intro [] rfl rfl (by simp)
  | @unary _ x _ _ _ _ _ made ih =>
    cases made
    exact .intro [x] rfl rfl (by simpa using ih)
  | @binary _ l r _ _ _ _ _ _ made ihl ihr =>
    cases made
    exact .intro [l, r] rfl rfl (by simpa using ⟨ihl, ihr⟩)
  | @conditional test x y _ _ _ _ _ _ _ made ihc ihx ihy =>
    cases made
    exact .intro [test, x, y] rfl rfl (by simpa using ⟨ihc, ihx, ihy⟩)

end Node.Built

/-! ### Running -/

section

variable {depth : Nat} {site : Node} {α : Type} {Q : (Nat → Prop) → α → Prop}

/-- What is reported against a node yields what it yields unreported. -/
theorem Action.Yields.reporting {host : Host} {c : Caller} {activity : Action Activity}
    {passes : Fault → Bool} {x : Action α} (hx : x.Yields c A Q) :
    (reporting host site activity passes x).Yields c A Q :=
  fun _ _ _ hs hrun => hx hs (run_of_reporting_done hrun)

theorem testingAt_yields {v : Value} (hv : v.Data A) :
    (testingAt Host.standard site v).Yields (Machine.callWithin Host.standard depth) A
      fun _ _ => True :=
  Yields.reporting hv.truth_steady.yields

/-- A call of an operator is what the operator makes of its operands. -/
theorem callOperator_yields {key : OperatorKey} {vs : List Value} {Q : (Nat → Prop) → Value → Prop}
    (h : ∀ depth, (key.call vs).Yields (Machine.callWithin Host.standard depth) A Q) :
    (applyingAt Host.standard site (Action.call (.operator key) vs)).Yields
      (Machine.callWithin Host.standard depth) A Q := by
  refine Yields.reporting fun s v t hs hrun => ?_
  cases depth with
  | zero => cases hrun
  | succ depth => exact h depth hs hrun

end

theorem OperatorKey.call_binary (op : BinaryOp) (a b : Value) :
    OperatorKey.call (.binary op) [a, b] = op.applyTo a b := by
  cases op <;> rfl

section

variable {depth : Nat} {env : Environment} {site l r : Node}

/-- The code of a tree yields data that the type of the tree describes, whatever lists there are
more. -/
def Node.Sound (A : Nat → Prop) (depth : Nat) (env : Environment) (n : Node) : Prop :=
  ∀ B, (∀ a, A a → B a) → ((n.code .standard).run Host.standard env).Yields
    (Machine.callWithin Host.standard depth) B fun C v => v.DataOf C n.type

/-- Both operands are evaluated, and the operator is applied. -/
theorem applyBinary_yields {op : BinaryOp} (hl : l.Sound A depth env) (hr : r.Sound A depth env)
    (hAB : ∀ a, A a → B a) :
    ((Code.applyBinary site (.operator (.binary op)) (l.code .standard) (r.code .standard)).run
      Host.standard env).Yields (Machine.callWithin Host.standard depth) B
        fun C v => v.DataOf C (op.resultType l.type r.type) := by
  refine (hl B hAB).bind fun C hC v hv => ?_
  refine (hr C fun a ha => hC a (hAB a ha)).bind fun D hD w hw => ?_
  refine callOperator_yields fun depth => ?_
  rw [OperatorKey.call_binary]
  refine (op.applyTo_yields (hv.data.mono hD) hw.data).mono fun E _ u hu => ?_
  exact ⟨hu.data, BinaryOp.resultType_describes hv.type hw.type hu.type⟩

/-- The right operand is evaluated if the left one leaves the question open. -/
theorem shortCircuit_yields {x : Action Value} {y : Bool → Action Value} {t : StaticType}
    {Q : (Nat → Prop) → Value → Prop}
    (hx : x.Yields (Machine.callWithin Host.standard depth) B fun C v => v.DataOf C t)
    (hy : ∀ C, (∀ a, B a → C a) → ∀ b,
      (y b).Yields (Machine.callWithin Host.standard depth) C Q) :
    (do
      let v ← x
      y (← testingAt Host.standard site v)).Yields (Machine.callWithin Host.standard depth) B Q := by
  refine hx.bind fun C hC v hv => ?_
  refine (testingAt_yields hv.data).bind fun D hD b _ => ?_
  exact hy D (fun a ha => hD a (hC a ha)) b

/-- A tree yields data, and its static type describes them. -/
theorem Node.Built.sound (h : n.Built A) (hagree : n.All (·.BranchesAgree)) (depth : Nat)
    (env : Environment) : n.Sound A depth env := by
  induction h with
  | literal data made =>
    cases made
    intro B hAB
    exact Action.Steady.yields (.pure ⟨data.mono hAB, .inr (data.typeOf_eq _)⟩)
  | @unary op x _ _ _ _ _ made ih =>
    cases made
    obtain ⟨ns, hns, hbelow⟩ := hagree.children
    cases hns
    intro B hAB
    refine (ih (hbelow x List.mem_cons_self) B hAB).bind fun C _ v hv => ?_
    refine callOperator_yields fun depth => Action.Steady.yields ?_
    refine (op.applyTo_steady hv.data).mono fun w hw => ?_
    exact ⟨hw.data, UnaryOp.resultType_describes hv.type hw.type⟩
  | @binary op l r _ _ _ _ _ _ made ihl ihr =>
    cases made
    obtain ⟨ns, hns, hbelow⟩ := hagree.children
    cases hns
    have hl := ihl (hbelow l (by simp))
    have hr := ihr (hbelow r (by simp))
    intro B hAB
    have hright (site : Node) (C : Nat → Prop) (hC : ∀ a, B a → C a) :
        (do
          let w ← (r.code .standard).run Host.standard env
          return Value.bool (← testingAt Host.standard site w)).Yields
            (Machine.callWithin Host.standard depth) C fun D => Value.DataOf D .bool :=
      shortCircuit_yields (hr C fun a ha => hC a (hAB a ha)) fun _ _ b =>
        Action.Steady.yields (.pure (.bool b))
    cases op with
    | andAlso =>
      refine shortCircuit_yields (hl B hAB) fun C hC b => ?_
      cases b with
      | true => exact hright _ C hC
      | false => exact Action.Steady.yields (.pure (.bool false))
    | orElse =>
      refine shortCircuit_yields (hl B hAB) fun C hC b => ?_
      cases b with
      | true => exact Action.Steady.yields (.pure (.bool true))
      | false => exact hright _ C hC
    | _ => exact applyBinary_yields hl hr hAB
  | @conditional test x y _ _ _ _ _ _ _ made ihc ihx ihy =>
    cases made
    have hbranches : x.type = .object ∨ x.type = y.type := hagree.holds
    obtain ⟨ns, hns, hbelow⟩ := hagree.children
    cases hns
    intro B hAB
    refine shortCircuit_yields (ihc (hbelow test (by simp)) B hAB) fun C hC b => ?_
    have hAC (a : Nat) (ha : A a) : C a := hC a (hAB a ha)
    cases b with
    | true => exact ihx (hbelow x (by simp)) C hAC
    | false =>
      refine (ihy (hbelow y (by simp)) C hAC).mono fun D _ v hv => ⟨hv.data, ?_⟩
      rcases hbranches with h | h
      · exact .inl h
      · change x.type.Describes v
        rw [h]
        exact hv.type

end

/-! ### Evaluating and folding -/

theorem Session.Noted.lists_eq {s t : Session} (h : s.Noted t) : t.store.lists = s.store.lists := by
  induction h with
  | refl => rfl
  | mark _ _ ih => exact ih
  | line _ _ ih => exact ih
  | object _ _ ih => exact ih

/-- The literal of a value in the place of a tree has the type of the tree, if that is known, or
that of the value. -/
theorem Node.asLiteral_type {w : Value} {c : Caller} {s t : Session} {r : Node}
    (h : (n.asLiteral w).run c s = (.done r, t)) :
    ∃ mark type, r = .literal mark w type ∧ t.store = s.store ∧
      (type = s.store.typeOf w ∨ type = n.type ∧ n.type ≠ .object) := by
  rw [asLiteral_eq] at h
  split at h
  · cases h
    exact ⟨_, _, rfl, rfl, .inl rfl⟩
  · rename_i hkept
    cases h
    refine ⟨_, _, rfl, rfl, .inr ⟨rfl, fun hobject => hkept ?_⟩⟩
    simp [hobject]

namespace Machine

/-- Static types are sound where the branches of conditionals agree: the type of a tree is unknown
or the type of its value, and a tree folds to a literal that has the type of its value. -/
theorem staticType_sound (depth : Nat) (h : n.Built A) (hagree : n.All (·.BranchesAgree))
    {s : Session} (hs : s.Holds A) :
    let M : Machine := ⟨Host.standard, depth⟩
    (∀ bindings v t, (M.evaluate (.node n) bindings []).run M.caller s = (.done v, t) →
        n.type = .object ∨ n.type = t.store.typeOf v) ∧
      ∀ r t, (M.fold [] (.node n)).run M.caller s = (.done r, t) →
        ∃ mark v, r = .literal mark v (t.store.typeOf v) := by
  intro M
  have hv : OperatorTable.Valid [] := by simp [OperatorTable.Valid]
  constructor
  · intro bindings v t hrun
    rw [evaluate_owned h.owned hv] at hrun
    obtain ⟨B, -, -, hdata, htype⟩ := h.sound hagree depth _ A (fun _ => id) hs hrun
    rw [hdata.typeOf_eq]
    exact htype
  · intro r t hrun
    obtain ⟨mark, u, hnote, heq⟩ := fold_run (M := M) h.owned hv M.caller s
    rw [heq] at hrun
    obtain ⟨w, x, hcall, hliteral⟩ := Action.exists_of_run_bind_done hrun
    have hu : u.Holds A := hs.of_lists hnote.lists_eq
    have hw : ∃ B, w.DataOf B n.type := by
      cases depth with
      | zero => cases hcall
      | succ depth =>
        rw [Action.run_call, caller, callWithin_closure rfl] at hcall
        obtain ⟨B, -, -, hw⟩ := h.sound hagree depth _ A (fun _ => id) hu hcall
        exact ⟨B, hw⟩
    obtain ⟨B, hdata, htype⟩ := hw
    obtain ⟨m, type, rfl, hstore, hkept⟩ := Node.asLiteral_type hliteral
    refine ⟨m, w, ?_⟩
    rw [hstore]
    rcases hkept with rfl | ⟨rfl, hknown⟩
    · rfl
    · rw [htype.resolve_left hknown, hdata.typeOf_eq]

/-- A list is joined with itself in the branch of a conditional that is taken. -/
theorem staticType_sound_list :
    let s : Session := { store := { lists := #[.items #[.ofInt 1]] } }
    let list : Node := .literal 4 (.list 0) .list
    let n : Node := .conditional 7 (.node (.literal 1 (.bool true) .bool))
      (.node (.binary 6 .add (.node list) (.node list) .list)) (.node list) .list
    (∃ v t, (standard.evaluate (.node n) [] []).run standard.caller s = (.done v, t) ∧
        n.type = t.store.typeOf v) ∧
      ∃ mark v t, (standard.fold [] (.node n)).run standard.caller s =
        (.done (.literal mark v (t.store.typeOf v)), t) := by
  intro s list n
  have hs : s.Holds (· = 0) := by
    rintro a rfl
    refine ⟨Nat.zero_lt_one, fun v hv => ?_⟩
    cases List.mem_singleton.1 hv
    exact .int 0 1
  let c : Caller := standard.caller
  have hlist : list.Built (· = 0) :=
    .literal (c := c) (s := { nextMark := 4 }) (.list rfl) rfl
  have hbuilt : n.Built (· = 0) :=
    .conditional (c := c) (s := { nextMark := 7 })
      (.literal (c := c) (s := {}) (.bool true) rfl)
      (.binary (c := c) (s := { nextMark := 6 }) hlist hlist rfl) hlist rfl
  have hagree : n.All (·.BranchesAgree) := by
    have hliteral (mark : Nat) (v : Value) (t : StaticType) :
        (Node.literal mark v t).All (·.BranchesAgree) := .intro [] rfl trivial (by simp)
    refine .intro _ rfl (.inr rfl) fun m hm => ?_
    simp only [List.mem_cons, List.not_mem_nil, or_false] at hm
    rcases hm with rfl | rfl | rfl
    · exact hliteral _ _ _
    · exact .intro [list, list] rfl trivial (by simpa using hliteral _ _ _)
    · exact hliteral _ _ _
  have hv : OperatorTable.Valid [] := by simp [OperatorTable.Valid]
  obtain ⟨hvalue, hfolded⟩ := staticType_sound 1000 hbuilt hagree hs
  constructor
  · have hrun : ∃ v t, (standard.evaluate (.node n) [] []).run standard.caller s =
        (.done v, t) := by
      rw [evaluate_owned hbuilt.owned hv]
      exact ⟨_, _, rfl⟩
    obtain ⟨v, t, hrun⟩ := hrun
    exact ⟨v, t, hrun, (hvalue [] v t hrun).resolve_left nofun⟩
  · have hrun : ∃ r t, (standard.fold [] (.node n)).run standard.caller s = (.done r, t) := by
      obtain ⟨mark, t, -, heq⟩ := fold_run (M := standard) hbuilt.owned hv standard.caller s
      rw [heq]
      exact ⟨_, _, rfl⟩
    obtain ⟨r, t, hrun⟩ := hrun
    obtain ⟨mark, v, rfl⟩ := hfolded r t hrun
    exact ⟨mark, v, t, hrun⟩

/-- The second branch of a conditional is taken, which has another type than the first one. -/
theorem staticType_mismatch :
    let n : Node := .conditional 4 (.node (.literal 1 (.bool false) .bool))
      (.node (.literal 2 (.ofInt 1) .int)) (.node (.literal 3 (.ofText "a") .str)) .int
    n.Built (fun _ => False) ∧
      (∃ t, (standard.evaluate (.node n) [] []).run standard.caller {} = (.done (.ofText "a"), t) ∧
        n.type ≠ .object ∧ n.type ≠ t.store.typeOf (.ofText "a")) ∧
      ∃ mark t, (standard.fold [] (.node n)).run standard.caller {} =
        (.done (.literal mark (.ofText "a") .int), t) := by
  intro n
  let c : Caller := standard.caller
  have hbuilt : n.Built (fun _ => False) :=
    .conditional (c := c) (s := { nextMark := 4 })
      (.literal (c := c) (s := {}) (.bool false) rfl)
      (.literal (c := c) (s := { nextMark := 2 }) (.int 0 1) rfl)
      (.literal (c := c) (s := { nextMark := 3 }) (.str 0 "a") rfl) rfl
  have hv : OperatorTable.Valid [] := by simp [OperatorTable.Valid]
  refine ⟨hbuilt, ?_, ?_⟩
  · rw [evaluate_owned hbuilt.owned hv]
    exact ⟨_, rfl, nofun, nofun⟩
  · obtain ⟨mark, t, -, heq⟩ := fold_run (M := standard) hbuilt.owned hv standard.caller {}
    rw [heq]
    exact ⟨_, _, rfl⟩

end Machine

end PredicateTree
