import PredicateTree.Proofs.Likeness.Run
import PredicateTree.Value.Number

/-!
# Plain values

A small host that shows how likenesses arise.  It adds, subtracts, multiplies and compares integers,
records the calls of its tracers, and knows nothing else of values but their truth; the texts of its
reports never fail (`Host.plain`).  Plain values are alike if they are equal but for marks, and
functions if their code matches and their environments are alike (`Value.PlainlyAlike`).  The host
respects this likeness (`Host.plain_respects`).
-/

namespace PredicateTree

/-! ### The host -/

/-- The meaning of an operator on integers. -/
def BinaryOp.onIntegers (op : BinaryOp) (i j : Int) : Action Value :=
  match op with
  | .add => Action.newInt (i + j)
  | .subtract => Action.newInt (i - j)
  | .multiply => Action.newInt (i * j)
  | .equal => pure (.bool (i == j))
  | .less => pure (.bool (i < j))
  | _ => Action.fail (.unsupportedOperands op.symbol .int .int)

/-- The meaning of an operator on values, of which it takes two integers only. -/
def OperatorKey.onPlain (key : OperatorKey) (args : List Value) : Action Value :=
  match key, args.map (·.ownInteger?) with
  | .binary op, [some i, some j] => op.onIntegers i j
  | key, _ => Action.fail (.notCallable (Value.operator key).fixedType)

/-- The truth of a value that holds nothing. -/
def Value.plainTruth : Value → Bool
  | .absent => false
  | .bool b => b
  | .int _ i => i != 0
  | .str _ s => !s.isEmpty
  | _ => true

/-- A host that computes with integers and records calls. -/
def Host.plain : Host where
  call f args :=
    match f with
    | .operator key => key.onPlain args
    | .tracer mark nameMark name => do
      Action.recordCall ⟨.tracer mark nameMark name, args⟩
      return args.getLastD .absent
    | f => Action.fail (.notCallable f.fixedType)
  truth v := pure v.plainTruth
  member v _ := Action.fail (.missingMember v.fixedType.name)
  describe n := pure n.kindSymbol
  spell name := pure (match name with | .str _ s => s | _ => "")

/-! ### The likeness -/

/-- Whether a value holds nothing and is no function with an environment. -/
def Value.isPlain : Value → Bool
  | .absent | .bool _ | .int .. | .str .. | .operator _ | .tracer .. => true
  | _ => false

/-- Values that are alike in whatever session. -/
inductive Value.PlainlyAlike (K : Correspondence) : Value → Value → Prop where
  | same {v : Value} (h : v.isPlain = true) : PlainlyAlike K v v
  | int (m m' : Nat) (i : Int) : PlainlyAlike K (.int m i) (.int m' i)
  | closure {ρ : Parameter → Parameter} {S : Parameter → Prop} {m m' : Nat}
      {ps ps' : List Parameter} {b b' : Code} {env env' : Environment}
      (code : Code.Matches K ρ S (.abstraction ps b) (.abstraction ps' b'))
      (bound : ∀ p, S p → (env.get? p).isSome = (env'.get? (ρ p)).isSome)
      (values : ∀ p v v', S p → env.get? p = some v → env'.get? (ρ p) = some v' →
        PlainlyAlike K v v') :
      PlainlyAlike K (.closure m ps b env) (.closure m' ps' b' env')

variable {K : Correspondence} {v v' : Value}

namespace Value.PlainlyAlike

theorem ownInteger?_eq (h : PlainlyAlike K v v') : v.ownInteger? = v'.ownInteger? := by
  cases h <;> rfl

theorem plainTruth_eq (h : PlainlyAlike K v v') : v.plainTruth = v'.plainTruth := by
  cases h <;> rfl

end Value.PlainlyAlike

theorem ownIntegers_eq {vs vs' : List Value} (h : List.Forall₂ (Value.PlainlyAlike K) vs vs') :
    vs.map (·.ownInteger?) = vs'.map (·.ownInteger?) :=
  map_eq_of_forall₂ h fun _ _ h => h.ownInteger?_eq

theorem onPlain_congr (key : OperatorKey) {vs vs' : List Value}
    (h : vs.map (·.ownInteger?) = vs'.map (·.ownInteger?)) : key.onPlain vs = key.onPlain vs' := by
  unfold OperatorKey.onPlain
  rw [h]

/-- An operator makes an integer or a truth value of integers, and refuses anything else. -/
theorem onPlain_cases (key : OperatorKey) (vs : List Value) :
    (∃ i, key.onPlain vs = Action.newInt i) ∨ (∃ b, key.onPlain vs = pure (.bool b)) ∨
      ∃ f, key.onPlain vs = Action.fail f := by
  unfold OperatorKey.onPlain
  split
  · rename_i op i j _
    cases op with
    | add | subtract | multiply => exact .inl ⟨_, rfl⟩
    | equal | less => exact .inr (.inl ⟨_, rfl⟩)
    | _ => exact .inr (.inr ⟨_, rfl⟩)
  · exact .inr (.inr ⟨_, rfl⟩)

theorem newInt_run (i : Int) (c : Caller) (s : Session) :
    ∃ m used, (Action.newInt i).run c s = (.done (.int m i), s.marked used) := by
  unfold Action.newInt
  split
  · exact ⟨0, 0, rfl⟩
  · exact ⟨s.nextMark, 1, rfl⟩

/-- A plain value that is called gives a plain value or one of its arguments, or fails. -/
theorem Host.plain_apply {f : Value} (h : f.isPlain = true) (args : List Value) (c : Caller)
    (s : Session) :
    (∃ v t, (Host.plain.apply f args).run c s = (.done v, t) ∧ (v.isPlain = true ∨ v ∈ args)) ∨
      ∃ g, (Host.plain.apply f args).run c s = (.raised (.failure g), s) := by
  cases f with
  | operator key =>
    change (∃ v t, (key.onPlain args).run c s = (.done v, t) ∧ _) ∨
      ∃ g, (key.onPlain args).run c s = (.raised (.failure g), s)
    rcases onPlain_cases key args with ⟨i, heq⟩ | ⟨b, heq⟩ | ⟨g, heq⟩
    · obtain ⟨m, used, hrun⟩ := newInt_run i c s
      rw [heq]
      exact .inl ⟨_, _, hrun, .inl rfl⟩
    · rw [heq]
      exact .inl ⟨_, _, rfl, .inl rfl⟩
    · rw [heq]
      exact .inr ⟨g, rfl⟩
  | tracer mark nameMark name =>
    refine .inl ⟨_, _, rfl, ?_⟩
    rcases args.eq_nil_or_concat with rfl | ⟨as, a, rfl⟩
    · exact .inl rfl
    · rw [List.concat_eq_append, List.getLastD_concat]
      exact .inr (by simp)
  | absent | bool | int | str => exact .inr ⟨_, rfl⟩
  | _ => cases h

/-- Two calls of like functions with like arguments. -/
def RecordedCall.PlainlyAlike (K : Correspondence) (c c' : RecordedCall) : Prop :=
  Value.PlainlyAlike K c.function c'.function ∧
    List.Forall₂ (Value.PlainlyAlike K) c.arguments c'.arguments

theorem isSome_eq_of_rel {R : Value → Value → Prop} {v? w? : Option Value}
    (h : Option.Rel R v? w?) : v?.isSome = w?.isSome := by
  cases h <;> rfl

theorem Environment.Alike.bound_iff {R : Value → Value → Prop} {ρ : Parameter → Parameter}
    {S : Parameter → Prop} {env env' : Environment} :
    Environment.Alike R ρ S env env' ↔
      (∀ p, S p → (env.get? p).isSome = (env'.get? (ρ p)).isSome) ∧
        ∀ p v v', S p → env.get? p = some v → env'.get? (ρ p) = some v' → R v v' := by
  constructor
  · intro h
    refine ⟨fun p hp => ?_, fun p v v' hp hv hv' => ?_⟩
    · exact isSome_eq_of_rel (h p hp)
    · have hrel := h p hp
      rw [hv, hv'] at hrel
      cases hrel
      assumption
  · rintro ⟨hbound, hvalues⟩ p hp
    have hsome := hbound p hp
    cases hv : env.get? p with
    | none =>
      rw [hv] at hsome
      rw [Option.isSome_eq_false_iff.1 hsome.symm |> Option.isNone_iff_eq_none.1]
      exact .none
    | some v =>
      rw [hv] at hsome
      obtain ⟨v', hv'⟩ := Option.isSome_iff_exists.1 hsome.symm
      rw [hv']
      exact .some (hvalues p v v' hp hv hv')

/-- The likeness of plain values, where both runs know none but such. -/
def Likeness.plain (K : Correspondence) (known : ∀ v, K.known v → v.isPlain = true) :
    Likeness K where
  session s s' := List.Forall₂ (RecordedCall.PlainlyAlike K) s.calls s'.calls
  value _ _ := Value.PlainlyAlike K
  value_later h _ _ _ := h
  value_known _ hv := .same (known _ hv)
  value_bool b _ := .same rfl
  calls h := h
  closure := by
    intro s s' ρ S ps ps' b b' env env' hs hcode henv
    obtain ⟨hbound, hvalues⟩ := Environment.Alike.bound_iff.1 henv
    exact ⟨hs, .closure hcode hbound hvalues⟩
  of_closure := by
    intro s s' mark ps b env f h
    cases h with
    | same h => cases h
    | closure code bound values =>
      exact ⟨_, _, _, _, _, _, rfl, code, Environment.Alike.bound_iff.2 ⟨bound, values⟩⟩

/-! ### Respect -/

variable {known : ∀ v, K.known v → v.isPlain = true}

/-- The operations of the plain host treat like values alike. -/
theorem Host.plain_respects (K : Correspondence) (known : ∀ v, K.known v → v.isPlain = true)
    (later : ∀ s c, K.later s { s with calls := c :: s.calls }) :
    Host.plain.Respects (Likeness.plain K known) where
  apply := by
    intro c c' s s' f f' args args' _ hs hf hargs hclosure
    have hrefuse : ∀ t t' : StaticType, (Likeness.plain K known).Ends s s'
        (Likeness.plain K known).value ((Action.fail (.notCallable t)).run c s)
        ((Action.fail (.notCallable t')).run c' s') :=
      fun _ _ => .raise hs (.failure rfl)
    cases hf with
    | int m m' i => exact hrefuse _ _
    | closure => exact absurd rfl (hclosure _ _ _ _)
    | same h =>
      cases f with
      | operator key =>
        change (Likeness.plain K known).Ends s s' _ ((key.onPlain args).run c s)
          ((key.onPlain args').run c' s')
        rw [onPlain_congr key (ownIntegers_eq hargs)]
        rcases onPlain_cases key args' with ⟨i, heq⟩ | ⟨b, heq⟩ | ⟨f, heq⟩
        · obtain ⟨m, used, hrun⟩ := newInt_run i c s
          obtain ⟨m', used', hrun'⟩ := newInt_run i c' s'
          rw [heq, hrun, hrun']
          exact .done (K.order.noted (.mark .refl used)) (K.order.noted (.mark .refl used')) hs
            (.int m m' i)
        · rw [heq]
          exact .pure hs (.same rfl)
        · rw [heq]
          exact .raise hs (.failure rfl)
      | tracer mark nameMark name =>
        exact .done (later s _) (later s' _) (.cons ⟨.same rfl, hargs⟩ hs)
          (getLastD_of_forall₂ hargs (.same rfl))
      | absent | bool | int | str => exact hrefuse _ _
      | _ => cases h
  truth := fun _ hs hv => .pure hs hv.plainTruth_eq
  member := fun _ hs _ _ => .raise hs (.failure rfl)
  describe := fun _ hs _ => ⟨_, _, _, _, rfl, rfl, K.later_refl _, K.later_refl _, hs⟩
  spell := fun _ hs _ => ⟨_, _, _, _, rfl, rfl, K.later_refl _, K.later_refl _, hs⟩
  spellParameter := fun _ hs _ => ⟨_, _, _, _, rfl, rfl, K.later_refl _, K.later_refl _, hs⟩

end PredicateTree
