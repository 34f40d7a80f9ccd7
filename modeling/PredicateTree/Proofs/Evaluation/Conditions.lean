import PredicateTree.Builder
import PredicateTree.Proofs.Evaluation.Refinement

/-!
# Chains of conditions

Conditions are asked in turn until one of them settles what is asked (`Host.askInTurn`): each is
evaluated and then tested at a node.  The builder joins any number of conditions from left to right
(`Node.Chains`), and the tree that it makes asks them in turn, each at the node that has it as an
operand (`Machine.chain_asks`).  The inner nodes test the answers of the parts again, which tells
nothing new and cannot fail, since a truth value is its own truth.

A fault of evaluation that a truth test raises is not reported at the chain, for such a fault passes
every node unchanged (`Machine.chain_test_passes`).
-/

namespace PredicateTree

/-! ### Joins -/

/-- The operator that joins conditions: the conjunction, which a failing one settles, or the
disjunction, which one that holds settles. -/
def joinOp (settling : Bool) : BinaryOp := if settling then .orElse else .andAlso

/-- Answers as the first action does if that settles the question, and as the second one otherwise.
Their answers are tested at a node. -/
def Host.joining (host : Host) (site : Node) (settling : Bool) (x y : Action Value) :
    Action Value := do
  let v ← x
  if (← testingAt host site v) = settling then return .bool settling
  else
    let w ← y
    return .bool (← testingAt host site w)

/-- Tests conditions in turn, each at a node, until one of them settles what is asked. -/
def Host.askInTurn (host : Host) (settling : Bool) : List (Node × Action Value) → Action Bool
  | [] => pure !settling
  | (site, condition) :: rest => do
    let v ← condition
    if (← testingAt host site v) = settling then return settling
    else host.askInTurn settling rest

section

variable {host : Host} {site : Node} {settling : Bool}

theorem joined_run (t : OperatorTable) (site : Node) (settling : Bool) (l r : Code)
    (env : Environment) : (Code.ofBinary t site (joinOp settling) l r).run host env =
      host.joining site settling (l.run host env) (r.run host env) := by
  cases settling with
  | false =>
    refine congrArg (l.run host env >>= ·) (funext fun v => ?_)
    refine congrArg (testingAt host site v >>= ·) (funext fun b => ?_)
    cases b <;> rfl
  | true =>
    refine congrArg (l.run host env >>= ·) (funext fun v => ?_)
    refine congrArg (testingAt host site v >>= ·) (funext fun b => ?_)
    cases b <;> rfl

theorem testingAt_bool (htruth : ∀ b : Bool, host.truth (.bool b) = pure b) (b : Bool) :
    testingAt host site (.bool b) = pure b := by
  rw [testingAt, htruth]
  rfl

theorem askInTurn_singleton (site : Node) (x : Action Value) :
    host.askInTurn settling [(site, x)] = x >>= testingAt host site := by
  rw [Host.askInTurn]
  refine bind_congr fun v => ?_
  rw [← bind_pure (testingAt host site v), bind_assoc]
  refine bind_congr fun b => ?_
  rw [pure_bind]
  cases b <;> cases settling <;> rfl

/-- What settles the first conditions is settled, else the others are asked. -/
theorem askInTurn_append (es fs : List (Node × Action Value)) :
    host.askInTurn settling (es ++ fs) = (do
      if (← host.askInTurn settling es) = settling then return settling
      else host.askInTurn settling fs) := by
  induction es with
  | nil =>
    have hopen : (!settling) ≠ settling := by cases settling <;> decide
    rw [Host.askInTurn, pure_bind, if_neg hopen, List.nil_append]
  | cons e es ih =>
    rw [List.cons_append, Host.askInTurn, Host.askInTurn, bind_assoc]
    refine bind_congr fun v => ?_
    rw [bind_assoc]
    refine bind_congr fun b => ?_
    split
    · rw [pure_bind, if_pos rfl]
    · exact ih

/-- Two parts answer as all their conditions do if the truth of what each part answers is what its
conditions answer. -/
theorem joining_askInTurn {x y : Action Value} {es fs : List (Node × Action Value)}
    (hx : x >>= testingAt host site = host.askInTurn settling es)
    (hy : y >>= testingAt host site = host.askInTurn settling fs) :
    host.joining site settling x y = (do
      return .bool (← host.askInTurn settling (es ++ fs))) := by
  rw [askInTurn_append, ← hx, ← hy, bind_assoc, bind_assoc]
  refine bind_congr fun v => ?_
  refine bind_congr fun b => ?_
  split
  · rw [pure_bind]
  · rw [bind_assoc]

/-- Where the first conditions leave it open, the next one is tested. -/
theorem askInTurn_run {es fs : List (Node × Action Value)} {x : Action Value} {v : Value}
    {c : Caller} {s t u : Session}
    (hes : (host.askInTurn settling es).run c s = (.done !settling, t))
    (hx : x.run c t = (.done v, u)) :
    (host.askInTurn settling (es ++ (site, x) :: fs)).run c s = (do
      if (← testingAt host site v) = settling then return settling
      else host.askInTurn settling fs : Action Bool).run c u := by
  have hopen : (!settling) ≠ settling := by cases settling <;> decide
  rw [askInTurn_append, Action.run_bind_done hes, if_neg hopen, Host.askInTurn,
    Action.run_bind_done hx]

end

/-! ### The tree of a chain -/

/-- A node stands for a value: it is that value, or a literal of it. -/
def Node.Wraps (n : Node) (v : Value) : Prop :=
  match v with
  | .node m => n = m
  | v => ∃ mark type, n = .literal mark v type

/-- A tree that joins conditions from left to right.  They are listed together with the nodes that
have them as operands. -/
inductive Node.Chains (settling : Bool) : List (Node × Value) → Node → Prop where
  | pair {mark : Nat} {l r j : Node} {v w : Value} (left : l.Wraps v) (right : r.Wraps w)
      (joined : j = .binary mark (joinOp settling) (.node l) (.node r) .bool) :
      Chains settling [(j, v), (j, w)] j
  | snoc {mark : Nat} {asked : List (Node × Value)} {l r j : Node} {w : Value}
      (left : Chains settling asked l) (right : r.Wraps w)
      (joined : j = .binary mark (joinOp settling) (.node l) (.node r) .bool) :
      Chains settling (asked ++ [(j, w)]) j

/-- The builder's chain of conditions. -/
def chainOf (settling : Bool) (conditions : List Value) : Action Node :=
  if settling then Builder.anyOf conditions else Builder.allOf conditions

variable {settling : Bool} {conditions : List Value} {n : Node} {v w : Value}

theorem chainOf_eq (settling : Bool) (conditions : List Value) :
    chainOf settling conditions = Builder.joinConditions
      (fun l r => Builder.binary (joinOp settling) l r (some .bool)) (!settling) conditions := by
  cases settling <;> rfl

theorem toNode_run (v : Value) (c : Caller) (s : Session) :
    ∃ n t, (Builder.toNode v).run c s = (.done n, t) ∧ n.Wraps v := by
  cases v with
  | node m => exact ⟨m, s, rfl, rfl⟩
  | _ => exact ⟨_, _, rfl, _, _, rfl⟩

theorem toNodes_run (vs : List Value) (c : Caller) (s : Session) :
    ∃ ns t, (Builder.toNodes vs).run c s = (.done ns, t) ∧ List.Forall₂ Node.Wraps ns vs := by
  induction vs generalizing s with
  | nil => exact ⟨[], s, rfl, .nil⟩
  | cons v vs ih =>
    obtain ⟨n, t, hrun, hn⟩ := toNode_run v c s
    obtain ⟨ns, u, hrest, hns⟩ := ih t
    refine ⟨n :: ns, u, ?_, .cons hn hns⟩
    rw [Builder.toNodes, Action.run_bind_done hrun, Action.run_bind_done hrest]
    rfl

theorem joinAll_run {asked : List (Node × Value)} {first : Node} {ns : List Node} {vs : List Value}
    (hfirst : first.Chains settling asked) (hns : List.Forall₂ Node.Wraps ns vs) (c : Caller)
    (s : Session) :
    ∃ n t more, (Builder.joinAll
        (fun l r => Builder.binary (joinOp settling) l r (some .bool)) first ns).run c s =
        (.done n, t) ∧ n.Chains settling (asked ++ more) ∧ more.map (·.2) = vs := by
  induction hns generalizing asked first s with
  | nil => exact ⟨first, s, [], rfl, by rwa [List.append_nil], rfl⟩
  | @cons r v ns vs hr hns ih =>
    let j : Node := .binary s.nextMark (joinOp settling) (.node first) (.node r) .bool
    have hjoin : (Builder.binary (joinOp settling) (.node first) (.node r) (some .bool)).run c s =
        (.done j, { s with nextMark := s.nextMark + 1 }) := rfl
    obtain ⟨n, t, more, hrun, hchain, hmore⟩ := ih (.snoc hfirst hr rfl) _
    refine ⟨n, t, (j, v) :: more, ?_, ?_, by rw [List.map_cons, hmore]⟩
    · rw [Builder.joinAll, Action.run_bind_done hjoin, hrun]
    · rwa [List.append_assoc, List.singleton_append] at hchain

/-! ### Evaluating a chain -/

namespace Machine

variable {M : Machine} {bindings overrides : List (Value × Value)}

/-- The value of a condition: a node is evaluated, and any other value is itself. -/
def conditionValue (M : Machine) (bindings overrides : List (Value × Value)) :
    Value → Action Value
  | .node n => M.evaluate (.node n) bindings overrides
  | v => pure v

/-- The conditions of a chain and the nodes where they are tested, ready to be asked in turn. -/
def questions (M : Machine) (bindings overrides : List (Value × Value))
    (asked : List (Node × Value)) : List (Node × Action Value) :=
  asked.map fun e => (e.1, M.conditionValue bindings overrides e.2)

theorem questions_append (asked more : List (Node × Value)) :
    M.questions bindings overrides (asked ++ more) =
      M.questions bindings overrides asked ++ M.questions bindings overrides more :=
  List.map_append

end Machine

namespace Node

variable {M : Machine} {bindings overrides : List (Value × Value)} {asked : List (Node × Value)}

theorem Wraps.owned (h : n.Wraps v) (hv : ∀ m, v = .node m → m.All (·.isOwned)) :
    n.All (·.isOwned) := by
  cases v with
  | node m => exact h ▸ hv m rfl
  | _ =>
    obtain ⟨mark, type, rfl⟩ := h
    exact .intro [] rfl rfl (by simp)

theorem Wraps.evaluate (h : n.Wraps v) (hv : OperatorTable.Valid overrides) :
    M.evaluate (.node n) bindings overrides = M.conditionValue bindings overrides v := by
  cases v with
  | node m => exact h ▸ rfl
  | _ =>
    obtain ⟨mark, type, rfl⟩ := h
    exact Machine.evaluate_owned (.intro [] rfl rfl (by simp)) hv bindings

theorem all_isOwned_join {mark : Nat} {op : BinaryOp} {l r : Node} {type : StaticType}
    (hl : l.All (·.isOwned)) (hr : r.All (·.isOwned)) :
    (Node.binary mark op (.node l) (.node r) type).All (·.isOwned) :=
  .intro [l, r] rfl rfl (by simp [hl, hr])

theorem Chains.owned (h : n.Chains settling asked)
    (hasked : ∀ m, .node m ∈ asked.map (·.2) → m.All (·.isOwned)) : n.All (·.isOwned) := by
  induction h with
  | pair hl hr hj =>
    subst hj
    exact all_isOwned_join (hl.owned fun m hm => hasked m (by simp [hm]))
      (hr.owned fun m hm => hasked m (by simp [hm]))
  | snoc _ hr hj ih =>
    subst hj
    refine all_isOwned_join (ih fun m hm => hasked m ?_)
      (hr.owned fun m hm => hasked m (by simp [hm]))
    rw [List.map_append]
    exact List.mem_append_left _ hm

/-- The node that joins two trees asks the first one and then the second one. -/
theorem evaluate_join {mark : Nat} {l r j : Node} (hv : OperatorTable.Valid overrides)
    (hl : l.All (·.isOwned)) (hr : r.All (·.isOwned))
    (hj : j = .binary mark (joinOp settling) (.node l) (.node r) .bool) :
    M.evaluate (.node j) bindings overrides = M.host.joining j settling
      (M.evaluate (.node l) bindings overrides) (M.evaluate (.node r) bindings overrides) := by
  subst hj
  rw [Machine.evaluate_owned (all_isOwned_join hl hr) hv, Machine.evaluate_owned hl hv,
    Machine.evaluate_owned hr hv]
  exact joined_run ..

/-- A chain asks its conditions in turn. -/
theorem Chains.evaluate (h : n.Chains settling asked)
    (htruth : ∀ b : Bool, M.host.truth (.bool b) = pure b) (hv : OperatorTable.Valid overrides)
    (hasked : ∀ m, .node m ∈ asked.map (·.2) → m.All (·.isOwned)) :
    M.evaluate (.node n) bindings overrides = (do
      return .bool (← M.host.askInTurn settling (M.questions bindings overrides asked))) := by
  induction h with
  | @pair mark l r j v w hl hr hj =>
    have howned := hl.owned fun m hm => hasked m (by simp [hm])
    have howned' := hr.owned fun m hm => hasked m (by simp [hm])
    rw [evaluate_join hv howned howned' hj, hl.evaluate hv, hr.evaluate hv]
    exact joining_askInTurn (askInTurn_singleton _ _).symm (askInTurn_singleton _ _).symm
  | @snoc mark asked l r j w hl hr hj ih =>
    have hbefore : ∀ m, .node m ∈ asked.map (·.2) → m.All (·.isOwned) := by
      intro m hm
      refine hasked m ?_
      rw [List.map_append]
      exact List.mem_append_left _ hm
    have howned' := hr.owned fun m hm => hasked m (by simp [hm])
    rw [evaluate_join hv (hl.owned hbefore) howned' hj, ih hbefore, hr.evaluate hv,
      Machine.questions_append]
    -- the answer of the part before is a truth value, and its test gives that answer again
    refine joining_askInTurn ?_ (askInTurn_singleton _ _).symm
    rw [bind_assoc]
    simp only [pure_bind, testingAt_bool htruth, bind_pure]

end Node

theorem chainOf_run (settling : Bool) (conditions : List Value) (c : Caller) (s : Session) :
    ∃ n t, (chainOf settling conditions).run c s = (.done n, t) ∧
      (conditions = [] → n.Wraps (.bool !settling)) ∧
      (∀ v, conditions = [v] → n.Wraps v) ∧
      (2 ≤ conditions.length →
        ∃ asked, asked.map (·.2) = conditions ∧ n.Chains settling asked) := by
  obtain ⟨ns, t, hrun, hns⟩ := toNodes_run conditions c s
  rw [chainOf_eq, Builder.joinConditions, Action.run_bind_done hrun]
  cases hns with
  | nil => exact ⟨_, _, rfl, fun _ => ⟨_, _, rfl⟩, nofun, nofun⟩
  | @cons n v ns vs hn hns =>
    cases hns with
    | nil =>
      refine ⟨n, t, rfl, nofun, fun w hw => ?_, fun h => absurd h (by simp)⟩
      rwa [← (List.cons.inj hw).1]
    | @cons r w ns vs hr hns =>
      let j : Node := .binary t.nextMark (joinOp settling) (.node n) (.node r) .bool
      obtain ⟨n', u, more, hjoin, hchain, hmore⟩ := joinAll_run (.pair (j := j) hn hr rfl) hns c
        { t with nextMark := t.nextMark + 1 }
      refine ⟨n', u, hjoin, nofun, nofun, fun _ => ⟨_, ?_, hchain⟩⟩
      rw [List.map_append, hmore]
      rfl

namespace Machine

variable {M : Machine} {bindings overrides : List (Value × Value)} {asked : List (Node × Value)}

/-- The conditions before one are asked and leave it open, and what that one comes to is about to be
tested. -/
def ReachesTest (M : Machine) (settling : Bool) (bindings overrides : List (Value × Value))
    (before : List (Node × Value)) (v : Value) (c : Caller) (s : Session) (x : Value)
    (u : Session) : Prop :=
  ∃ t, (M.host.askInTurn settling (M.questions bindings overrides before)).run c s =
      (.done !settling, t) ∧ (M.conditionValue bindings overrides v).run c t = (.done x, u)

/-- A tree answers as its conditions do when they are asked in turn, each at its node, with a truth
value.  It ends with the first one that settles it, and with the first truth test that fails. -/
structure AsksInTurn (M : Machine) (settling : Bool) (bindings overrides : List (Value × Value))
    (asked : List (Node × Value)) (n : Node) : Prop where
  answers : M.evaluate (.node n) bindings overrides = (do
    return .bool (← M.host.askInTurn settling (M.questions bindings overrides asked)))
  settled : ∀ before site v after, asked = before ++ (site, v) :: after → ∀ c s x u w,
    M.ReachesTest settling bindings overrides before v c s x u →
      (M.host.truth x).run c u = (.done settling, w) →
      (M.evaluate (.node n) bindings overrides).run c s = (.done (.bool settling), w)
  reported : ∀ before site v after, asked = before ++ (site, v) :: after → ∀ c s x u f w shown w',
    M.ReachesTest settling bindings overrides before v c s x u →
      (M.host.truth x).run c u = (.raised f, w) → f.isEvaluation = false →
      (M.host.describe site).run c w = (.done shown, w') →
      (M.evaluate (.node n) bindings overrides).run c s =
        (.raised (.failedAt site shown .evaluating f), w')
  passed : ∀ before site v after, asked = before ++ (site, v) :: after → ∀ c s x u f w,
    M.ReachesTest settling bindings overrides before v c s x u →
      (M.host.truth x).run c u = (.raised f, w) → f.isEvaluation = true →
      (M.evaluate (.node n) bindings overrides).run c s = (.raised f, w)

theorem AsksInTurn.of_answers
    (h : M.evaluate (.node n) bindings overrides = (do
      return .bool (← M.host.askInTurn settling (M.questions bindings overrides asked)))) :
    M.AsksInTurn settling bindings overrides asked n := by
  have hasks {before after : List (Node × Value)} {site : Node} {v x : Value} {c : Caller}
      {s u : Session} (hasked : asked = before ++ (site, v) :: after)
      (hreach : M.ReachesTest settling bindings overrides before v c s x u) :
      (M.host.askInTurn settling (M.questions bindings overrides asked)).run c s = (do
        if (← testingAt M.host site x) = settling then return settling
        else M.host.askInTurn settling (M.questions bindings overrides after) : Action Bool).run c
          u := by
    obtain ⟨t, hbefore, hv⟩ := hreach
    rw [hasked, questions_append]
    exact askInTurn_run hbefore hv
  refine ⟨h, ?_, ?_, ?_⟩
  · intro before site v after hasked c s x u w hreach htruth
    have htest : (testingAt M.host site x).run c u = (.done settling, w) :=
      applyingAt_iff.2 (.done htruth)
    have hanswer := hasks hasked hreach
    rw [Action.run_bind_done htest, if_pos rfl] at hanswer
    rw [h, Action.run_bind_done hanswer]
    rfl
  · intro before site v after hasked c s x u f w shown w' hreach htruth hother hshown
    have htest : (testingAt M.host site x).run c u =
        (.raised (.failedAt site shown .evaluating f), w') :=
      applyingAt_iff.2 (.reported htruth hother (.described hshown))
    have hanswer := hasks hasked hreach
    rw [Action.run_bind_raised htest] at hanswer
    rw [h, Action.run_bind_raised hanswer]
  · intro before site v after hasked c s x u f w hreach htruth hpasses
    have htest : (testingAt M.host site x).run c u = (.raised f, w) :=
      applyingAt_iff.2 (.passed htruth hpasses)
    have hanswer := hasks hasked hreach
    rw [Action.run_bind_raised htest] at hanswer
    rw [h, Action.run_bind_raised hanswer]

/-- A chain of conditions asks them in turn, each at the node that has it as an operand.  The chain
of one condition is that condition, and that of none is a literal. -/
theorem chain_asks (M : Machine) (htruth : ∀ b : Bool, M.host.truth (.bool b) = pure b)
    (settling : Bool) {conditions : List Value}
    (howned : ∀ m, .node m ∈ conditions → m.All (·.isOwned)) (c : Caller) (s : Session) :
    ∃ n t, (chainOf settling conditions).run c s = (.done n, t) ∧
      ∃ asked, (2 ≤ conditions.length → asked.map (·.2) = conditions ∧ n.Chains settling asked) ∧
        ∀ bindings overrides, OperatorTable.Valid overrides →
          match conditions with
          | [] => M.evaluate (.node n) bindings overrides = pure (.bool !settling)
          | [v] => M.evaluate (.node n) bindings overrides = M.conditionValue bindings overrides v
          | _ => M.AsksInTurn settling bindings overrides asked n := by
  obtain ⟨n, t, hrun, hnone, hone, hmany⟩ := chainOf_run settling conditions c s
  refine ⟨n, t, hrun, ?_⟩
  match conditions, hnone, hone, hmany with
  | [], hnone, _, _ => exact ⟨[], nofun, fun _ _ hv => (hnone rfl).evaluate hv⟩
  | [v], _, hone, _ =>
    exact ⟨[], fun h => absurd h (by simp), fun _ _ hv => (hone v rfl).evaluate hv⟩
  | v :: w :: vs, _, _, hmany =>
    obtain ⟨asked, hasked, hchain⟩ := hmany (by simp)
    exact ⟨asked, fun _ => ⟨hasked, hchain⟩,
      fun _ _ hv => .of_answers (hchain.evaluate htruth hv (hasked ▸ howned))⟩

/-- The conjunction of a parameter, a false value and a parameter that has no value. -/
theorem chain_asks_stopping :
    let p : Parameter := ⟨1, "p", .object, 0⟩
    let q : Parameter := ⟨2, "q", .object, 0⟩
    let conditions : List Value := [.node (.parameter p), .ofInt 0, .node (.parameter q)]
    ∃ n t, (chainOf false conditions).run standard.caller {} = (.done n, t) ∧
      (standard.evaluate (.node n) [(.node (.parameter p), .ofInt 5)]
        [(.binaryOp .add, .named .pair)]).run standard.caller t = (.done (.bool false), t) := by
  intro p q conditions
  have hparameter (r : Parameter) : (Node.parameter r).All (·.isOwned) :=
    .intro [] rfl rfl (by simp)
  have howned : ∀ m, .node m ∈ conditions → m.All (·.isOwned) := by
    intro m hm
    simp only [conditions, List.mem_cons, List.not_mem_nil, or_false, Value.node.injEq] at hm
    obtain rfl | hm | rfl := hm
    · exact hparameter p
    · cases hm
    · exact hparameter q
  have hv : OperatorTable.Valid [(.binaryOp .add, .named .pair)] := by
    intro e he
    cases List.mem_singleton.1 he
    rfl
  obtain ⟨n, t, hrun, asked, hchain, hasks⟩ :=
    chain_asks standard (fun _ => rfl) false howned standard.caller {}
  obtain ⟨⟨first, v⟩, rest, rfl, rfl, hrest⟩ :=
    List.map_eq_cons_iff.1 (hchain (by simp [conditions])).1
  obtain ⟨⟨site, v⟩, after, rfl, rfl, -⟩ := List.map_eq_cons_iff.1 hrest
  have hanswers := hasks [(.node (.parameter p), .ofInt 5)] _ hv
  have hvalue : standard.conditionValue [(.node (.parameter p), .ofInt 5)]
      [(.binaryOp .add, .named .pair)] (.node (.parameter p)) = pure (.ofInt 5) :=
    evaluate_owned (hparameter p) hv _
  refine ⟨n, t, hrun, hanswers.settled [_] _ _ _ rfl _ _ _ t _ ⟨t, ?_, rfl⟩ rfl⟩
  rw [questions, List.map_singleton, hvalue]
  rfl

/-- The truth test of the first of two conditions raises an evaluation fault of its own, and that
is not reported at the node which joins them. -/
theorem chain_test_passes :
    let flag : StaticType := .custom "Flag"
    let objects : Store := { objects := #[{ type := flag }] }
    let method : Attributes := [("__bool__", .raiser 1 .evaluation "boom")]
    let s : Session := { store := objects.withAttributes (.type flag) method }
    let j : Node := .binary 3 .andAlso (.node (.literal 1 (.object 0) flag))
      (.node (.literal 2 (.bool true) .bool)) .bool
    let t : Session := { s with nextMark := 4 }
    (chainOf false [.object 0, .bool true]).run standard.caller s = (.done j, t) ∧
      j.Chains false [(j, .object 0), (j, .bool true)] ∧
      ((standard.host.truth (.object 0)).run standard.caller t).1 =
        .raised (.raised .evaluation "boom") ∧
      ((standard.evaluate (.node j) [] []).run standard.caller t).1 =
        .raised (.raised .evaluation "boom") ∧
      (Fault.raised .evaluation "boom").subject ≠ some (.node j) := by
  intro flag objects method s j t
  have hchain : j.Chains false [(j, .object 0), (j, .bool true)] :=
    .pair (by exact ⟨_, _, rfl⟩) (by exact ⟨_, _, rfl⟩) rfl
  have howned : j.All (·.isOwned) := hchain.owned (by simp)
  refine ⟨rfl, hchain, rfl, ?_, nofun⟩
  rw [evaluate_owned howned (by simp [OperatorTable.Valid])]
  rfl

end Machine

end PredicateTree
