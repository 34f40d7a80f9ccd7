import PredicateTree.Proofs.Typing.Template

/-!
# Types of results

The static types that nodes get from their operators are right on data: whatever an operator makes
of data is data, and the type that is inferred from the types of the operands describes it
(`BinaryOp.applyTo_yields`, `UnaryOp.applyTo_steady`).

The types of numbers are looked at apart from the values that are numbers (`Numeral.type`), since
arithmetic reads truth values as integers.
-/

namespace PredicateTree

open Action (Steady Yields)

variable {A : Nat → Prop} {a b : Value}

/-- A static type describes a value where it is the type of the value, or where nothing is known. -/
def StaticType.Describes (t : StaticType) (v : Value) : Prop := t = .object ∨ t = v.fixedType

/-- Data that a static type describes. -/
structure Value.DataOf (A : Nat → Prop) (t : StaticType) (v : Value) : Prop where
  data : v.Data A
  type : t.Describes v

theorem Value.DataOf.bool (x : Bool) : (Value.bool x).DataOf A .bool := ⟨.bool x, .inr rfl⟩

/-! ### Inferred types -/

namespace StaticType

@[simp] theorem numeric_object : object.numeric = object := rfl

@[simp] theorem isNumber_object : object.isNumber = false := rfl

theorem numeric_numeric (t : StaticType) : t.numeric.numeric = t.numeric := by
  cases t <;> rfl

end StaticType

/-- Where nothing is known of an operand, only what every result is can be inferred. -/
theorem BinaryOp.resultType_object (op : BinaryOp) {s t : StaticType}
    (h : s = .object ∨ t = .object) :
    op.resultType s t = .object ∨ ∀ u v, op.resultType s t = op.resultType u v := by
  cases op
  case equal | notEqual | less | lessEqual | greater | greaterEqual | contains | andAlso | orElse =>
    exact .inr fun _ _ => rfl
  all_goals
    left
    rcases h with rfl | rfl <;>
      simp [resultType, isComparison, isShortCircuit, isArithmetic]

/-- What is inferred from types that describe the operands describes a value as well as what is
inferred from the types of the operands themselves. -/
theorem BinaryOp.resultType_describes {op : BinaryOp} {s t : StaticType} {v : Value}
    (hs : s.Describes a) (ht : t.Describes b)
    (hv : (op.resultType a.fixedType b.fixedType).Describes v) : (op.resultType s t).Describes v := by
  have hunknown (h : s = .object ∨ t = .object) : (op.resultType s t).Describes v := by
    rcases op.resultType_object h with hobject | hsame
    · exact .inl hobject
    · rw [hsame a.fixedType b.fixedType]
      exact hv
  rcases hs with hs | rfl
  · exact hunknown (.inl hs)
  · rcases ht with ht | rfl
    · exact hunknown (.inr ht)
    · exact hv

theorem UnaryOp.resultType_describes {op : UnaryOp} {s : StaticType} {v : Value}
    (hs : s.Describes a) (hv : (op.resultType a.fixedType).Describes v) :
    (op.resultType s).Describes v := by
  rcases hs with rfl | rfl
  · cases op with
    | not => exact hv
    | _ => exact .inl rfl
  · exact hv

/-! ### Numbers -/

/-- The type of a numeral. -/
def Numeral.type : Numeral → StaticType
  | .int _ => .int
  | .float _ => .float

theorem Value.numeric_fixedType {n : Numeral} (h : a.numeral? = some n) :
    a.fixedType.numeric = n.type := by
  cases a <;> cases h <;> rfl

theorem Value.ofNumeral_steady (n : Numeral) :
    (Value.ofNumeral n).Steady A (Value.DataOf A n.type) := by
  cases n with
  | int i =>
    refine (Steady.newInt i).mono ?_
    rintro v ⟨m, rfl⟩
    exact ⟨.int m i, .inr rfl⟩
  | float x =>
    refine (Steady.newFloat x).mono ?_
    rintro v ⟨m, rfl⟩
    exact ⟨.float m x, .inr rfl⟩

namespace Numeral

variable {onInts : Int → Int → Except Failure Numeral}
  {onFloats : Float → Float → Except Failure Numeral} {x y n : Numeral}

/-- Numbers of one type stay so. -/
theorem type_lift (hints : ∀ i j n, onInts i j = .ok n → n.type = .int)
    (hfloats : ∀ x y n, onFloats x y = .ok n → n.type = .float)
    (h : lift onInts onFloats x y = .ok n) (hxy : x.type = y.type) : n.type = x.type := by
  cases x with
  | int i =>
    cases y with
    | int j => exact hints i j n h
    | float y => cases hxy
  | float x =>
    cases y with
    | int j => cases hxy
    | float y => exact hfloats x y n h

theorem type_divide (h : divide x y = .ok n) : n.type = .float := by
  have hfloats {x y : Float} (h : (if y == 0.0 then .error (.division .floatQuotient)
      else .ok (.float (x / y)) : Except Failure Numeral) = .ok n) : n.type = .float := by
    split at h
    · cases h
    · cases h
      rfl
  have hmixed {x y : Numeral} (h : (do
      let x ← x.toFloat
      let y ← y.toFloat
      if y == 0.0 then .error (.division .floatQuotient) else .ok (.float (x / y)) :
        Except Failure Numeral) = .ok n) : n.type = .float := by
    obtain ⟨x, _, h⟩ := exists_of_bind_eq_ok h
    obtain ⟨y, _, h⟩ := exists_of_bind_eq_ok h
    exact hfloats h
  cases x with
  | float x => exact hmixed h
  | int i =>
    cases y with
    | float y => exact hmixed h
    | int j =>
      simp only [divide, lift] at h
      split at h
      · cases h
      · split at h
        · cases h
          rfl
        · cases h

end Numeral

theorem Value.Data.truth_steady (ha : a.Data A) : a.truth.Steady A fun _ => True := by
  cases ha with
  | list => exact (Steady.ofQuery _).bind fun _ _ => .pure trivial
  | _ => exact .pure trivial

namespace BinaryOp

variable {op : BinaryOp} {x y n : Numeral}

/-- Arithmetic infers types of numbers, not of truth values. -/
theorem resultType_numeric (hop : op.isArithmetic = true) (s t : StaticType) :
    op.resultType s.numeric t.numeric = op.resultType s t := by
  simp only [resultType, hop, StaticType.numeric_numeric, if_true]

/-- Where arithmetic keeps the type of its operands, its results on numbers have it. -/
theorem type_onNumerals (hop : op.isArithmetic = true) (hdivide : op ≠ .divide)
    (hpower : op ≠ .power) (h : op.onNumerals x y = .ok n) (hxy : x.type = y.type) :
    n.type = x.type := by
  have hfloat {z : Float} {n : Numeral} (h : (.ok (.float z) : Except Failure Numeral) = .ok n) :
      n.type = .float := by
    cases h
    rfl
  have hint {i : Int} {n : Numeral} (h : (.ok (.int i) : Except Failure Numeral) = .ok n) :
      n.type = .int := by
    cases h
    rfl
  have hunless {p : Prop} [Decidable p] {f : Failure} {m n : Numeral}
      (h : (if p then .error f else .ok m : Except Failure Numeral) = .ok n) :
      (.ok m : Except Failure Numeral) = .ok n := by
    split at h
    · cases h
    · exact h
  cases op with
  | divide => exact absurd rfl hdivide
  | power => exact absurd rfl hpower
  | add | subtract | multiply =>
    exact Numeral.type_lift (fun _ _ _ h => hint h) (fun _ _ _ h => hfloat h) h hxy
  | floorDivide | modulo =>
    exact Numeral.type_lift (fun _ _ _ h => hint (hunless h)) (fun _ _ _ h => hfloat (hunless h)) h
      hxy
  | _ => cases hop

/-- The type that is inferred for arithmetic on numbers is that of the result, or unknown. -/
theorem onNumerals_describes (hop : op.isArithmetic = true) (h : op.onNumerals x y = .ok n) :
    op.resultType x.type y.type = .object ∨ op.resultType x.type y.type = n.type := by
  by_cases hdivide : op = .divide
  · subst hdivide
    have hfloat : BinaryOp.resultType .divide x.type y.type = .float := by
      cases x <;> cases y <;> rfl
    exact .inr (hfloat.trans (Numeral.type_divide h).symm)
  · by_cases hpower : op = .power
    · subst hpower
      exact .inl rfl
    · have hcommon : op.resultType x.type y.type =
          if x.type = y.type then x.type else .object := by
        cases op <;> cases hop <;> first | contradiction | (cases x <;> cases y <;> rfl)
      rw [hcommon]
      split
      · rename_i hxy
        exact .inr (type_onNumerals hop hdivide hpower h hxy).symm
      · exact .inl rfl

/-! ### Data operated on -/

/-- Data that the type describes which is inferred for an operator on two operands. -/
abbrev Result (op : BinaryOp) (a b : Value) (A : Nat → Prop) (v : Value) : Prop :=
  v.DataOf A (op.resultType a.fixedType b.fixedType)

theorem refuse_steady (op : BinaryOp) (a b : Value) (Q : Value → Prop) :
    (op.refuse a b).Steady A Q :=
  (Steady.typeOf a).bind fun _ _ => (Steady.typeOf b).bind fun _ _ => .fail _

/-- No class is asked what an operator does with data. -/
theorem askedOr_eq (ha : a.Data A) (hb : b.Data A) (op : BinaryOp) (otherwise : Action Value) :
    op.askedOr a b otherwise = otherwise := by
  rw [askedOr, ha.isObject_eq, hb.isObject_eq]
  rfl

variable {c : Caller} {otherwise : Action Value}

theorem arithmetic_yields (hop : op.isArithmetic = true) (ha : a.Data A) (hb : b.Data A)
    (hother : otherwise.Yields c A (op.Result a b)) :
    (op.arithmetic a b otherwise).Yields c A (op.Result a b) := by
  unfold arithmetic
  split
  · rename_i x y hx hy
    unfold computed
    split
    · rename_i n hn
      refine ((Value.ofNumeral_steady n).mono fun v hv => ⟨hv.data, ?_⟩).yields
      rw [← resultType_numeric hop, Value.numeric_fixedType hx, Value.numeric_fixedType hy]
      rcases onNumerals_describes hop hn with h | h
      · exact .inl h
      · rw [h]
        exact hv.type
    · exact Steady.yields (.fail _)
  · rw [askedOr_eq ha hb]
    exact hother

theorem joinedTexts_steady {m k : Nat} {s t : String} :
    (joinedTexts (.str m s) (.str k t) s t).Steady A (Value.DataOf A .str) := by
  unfold joinedTexts
  split
  · exact .pure ⟨.str k t, .inr rfl⟩
  · split
    · exact .pure ⟨.str m s, .inr rfl⟩
    · refine (Steady.newText _).mono ?_
      rintro v ⟨m, rfl⟩
      exact ⟨.str m _, .inr rfl⟩

theorem joinedTuples_steady {m k : Nat} {xs ys : List Value} (hxs : ∀ v ∈ xs, v.Data A)
    (hys : ∀ v ∈ ys, v.Data A) :
    (joinedTuples (.tuple m xs) (.tuple k ys) xs ys).Steady A (Value.DataOf A .tuple) := by
  unfold joinedTuples
  split
  · exact .pure ⟨.tuple hys, .inr rfl⟩
  · split
    · exact .pure ⟨.tuple hxs, .inr rfl⟩
    · refine (Steady.newTuple _).mono ?_
      rintro v ⟨m, rfl⟩
      refine ⟨.tuple fun v hv => ?_, .inr rfl⟩
      exact (List.mem_append.1 hv).elim (hxs v) (hys v)

/-- A list of data and others. -/
theorem joinedLists_yields {x y : Nat} (hx : A x) (hy : A y) :
    (Action.joinedLists x y).Yields c A fun B => Value.DataOf B .list := by
  intro s v t hs hrun
  have happended : ∀ v ∈ ((s.store.list x).append (s.store.list y)).toList, v.Data A := by
    intro v hv
    rw [Rope.toList_append] at hv
    exact (List.mem_append.1 hv).elim ((hs x hx).2 v) ((hs y hy).2 v)
  obtain ⟨B, hB, ht, a, rfl, ha⟩ := Yields.newRope happended hs hrun
  exact ⟨B, hB, ht, .list ha, .inr rfl⟩

theorem sum_yields (ha : a.Data A) (hb : b.Data A) :
    (sum a b).Yields c A (BinaryOp.Result .add a b) := by
  refine arithmetic_yields rfl ha hb ?_
  have hrefused : (do
      if a.isSequence then Action.fail (.concatenation a.fixedType (← Action.typeOf b))
      else refuse .add a b).Yields c A (BinaryOp.Result .add a b) := by
    refine Steady.yields ?_
    split
    · exact (Steady.typeOf b).bind fun _ _ => .fail _
    · exact refuse_steady _ _ _ _
  cases ha with
  | str =>
    cases hb with
    | str => exact joinedTexts_steady.yields
    | _ => exact hrefused
  | list hx =>
    cases hb with
    | list hy => exact joinedLists_yields hx hy
    | _ => exact hrefused
  | tuple hxs =>
    cases hb with
    | tuple hys => exact (joinedTuples_steady hxs hys).yields
    | _ => exact hrefused
  | _ => exact hrefused

/-- A repetition holds nothing but what is repeated. -/
theorem mem_repetition {α β : Type} [Append α] {empty r : α} (toList : α → List β)
    (toList_empty : toList empty = [])
    (toList_append : ∀ x y, toList (x ++ y) = toList x ++ toList y) {n : Nat} {y : β}
    (h : y ∈ toList (repetition empty r n)) : y ∈ toList r := by
  rw [toList_repetition toList toList_empty toList_append] at h
  obtain ⟨l, hl, hy⟩ := List.mem_flatten.1 h
  rw [(List.mem_replicate.1 hl).2] at hy
  exact hy

theorem repeated_yields (ha : a.Data A) (count : Int) :
    (repeated a count).Yields c A fun B v => v.Data B := by
  by_cases hlarge : (!Number.fitsWord count) = true
  · simp only [repeated, if_pos hlarge]
    exact Steady.yields (.fail _)
  cases ha with
  | str m s =>
    simp only [repeated, if_neg hlarge]
    split
    · exact Steady.yields (.fail _)
    · split
      · exact Steady.yields (.pure (.str m s))
      · refine Yields.after (Template.lifted_steady (requireRoom _)) fun _ _ => ?_
        refine Steady.yields ((Steady.newText _).mono ?_)
        rintro v ⟨m, rfl⟩
        exact .str m _
  | @list address h =>
    simp only [repeated, if_neg hlarge]
    refine Yields.after Steady.storeItems fun s hs => ?_
    refine Yields.after (Template.lifted_steady (requireRoom _)) fun _ _ => ?_
    refine (Yields.newRope fun v hv => hs address h v ?_).mono ?_
    · rw [Rope.toList_items] at hv
      split at hv
      · exact hv
      · exact mem_repetition Array.toList rfl (fun _ _ => Array.toList_append) hv
    · rintro B - v ⟨i, rfl, hi⟩
      exact .list hi
  | @tuple m xs h =>
    simp only [repeated, if_neg hlarge]
    split
    · exact Steady.yields (.pure (.tuple h))
    · refine Yields.after (Template.lifted_steady (requireRoom _)) fun _ _ => ?_
      refine Steady.yields ((Steady.newTuple _).mono ?_)
      rintro v ⟨m, rfl⟩
      refine .tuple fun v hv => h v ?_
      split at hv
      · exact hv
      · exact mem_repetition (fun l : List Value => l) rfl (fun _ _ => rfl) hv
  | _ =>
    simp only [repeated, if_neg hlarge]
    exact Steady.yields (.pure (by constructor <;> assumption))

/-- A sequence times what gives an index, which is no type that is fixed. -/
theorem repeatedAsked_yields {x y : Value} (hx : x.Data A) (hy : y.Data A)
    (hunknown : y.ownInteger?.isSome →
      BinaryOp.resultType .multiply a.fixedType b.fixedType = .object) :
    (do
      match ← y.index? with
      | some n => repeated x n
      | none => Action.fail (.repetition (← Action.typeOf y)) : Action Value).Yields c A
      (BinaryOp.Result .multiply a b) := by
  refine Yields.after hy.index?_steady fun o ho => ?_
  subst ho
  split
  · rename_i n hn
    refine (repeated_yields hx n).mono fun B _ v hv => ⟨hv, .inl (hunknown ?_)⟩
    rw [hn]
    rfl
  · exact Steady.yields ((Steady.typeOf y).bind fun _ _ => .fail _)

theorem product_yields (ha : a.Data A) (hb : b.Data A) :
    (product a b).Yields c A (BinaryOp.Result .multiply a b) := by
  refine arithmetic_yields rfl ha hb ?_
  simp only
  split
  · rename_i hseq
    refine repeatedAsked_yields ha hb fun hint => ?_
    cases ha <;> cases hseq <;> cases hb <;> first | rfl | cases hint
  · split
    · rename_i hseq
      refine repeatedAsked_yields hb ha fun hint => ?_
      cases hb <;> cases hseq <;> cases ha <;> first | rfl | cases hint
    · exact (refuse_steady _ _ _ _).yields

theorem remainder_yields (ha : a.Data A) (hb : b.Data A) :
    (remainder a b).Yields c A (BinaryOp.Result .modulo a b) := by
  have hnumbers : (arithmetic .modulo a b (refuse .modulo a b)).Yields c A
      (BinaryOp.Result .modulo a b) :=
    arithmetic_yields rfl ha hb (refuse_steady _ _ _ _).yields
  cases ha with
  | str m s =>
    refine ((Template.format_steady m s hb).mono ?_).yields
    rintro v ⟨m, t, rfl⟩
    refine ⟨.str m t, ?_⟩
    cases hb <;> first | exact .inl rfl | exact .inr rfl
  | int m i =>
    cases hb with
    | int k j =>
      simp only [remainder]
      split
      · exact Steady.yields (.pure ⟨.int m i, .inr rfl⟩)
      · exact hnumbers
    | _ => exact hnumbers
  | _ => exact hnumbers

theorem bitwise_yields {op : BinaryOp} (hop : op.isBitwise = true) (ha : a.Data A) (hb : b.Data A)
    (hother : otherwise.Yields c A (op.Result a b)) :
    (op.bitwise a b otherwise).Yields c A (op.Result a b) := by
  have htype (s t : StaticType) : op.resultType s t = if s = t then s else .object := by
    cases op <;> cases hop <;> rfl
  have hasked : (op.askedOr (if op = .or then a.asDict else a) b otherwise).Yields c A
      (op.Result a b) := by
    rw [ha.asDict_eq, ite_self, askedOr_eq ha hb]
    exact hother
  have hint {a b : Value} (i : Int) (h : op.resultType a.fixedType b.fixedType = .object ∨
      op.resultType a.fixedType b.fixedType = .int) :
      (Action.newInt i).Yields c A (op.Result a b) := by
    refine ((Steady.newInt i).mono ?_).yields
    rintro v ⟨m, rfl⟩
    exact ⟨.int m i, h⟩
  cases ha with
  | bool x =>
    cases hb with
    | bool y => exact Steady.yields (.pure ⟨.bool _, .inr (htype _ _)⟩)
    | int => exact hint _ (.inl (htype _ _))
    | _ => exact hasked
  | int m i =>
    cases hb with
    | bool => exact hint _ (.inl (htype _ _))
    | int => exact hint _ (.inr (htype _ _))
    | _ => exact hasked
  | _ => exact hasked

theorem meet_yields (ha : a.Data A) (hb : b.Data A) :
    (meet a b).Yields c A (BinaryOp.Result .and a b) := by
  have hlambda : isLambda a = false := by cases ha <;> rfl
  rw [meet, if_neg (by simp [hlambda])]
  exact bitwise_yields rfl ha hb (refuse_steady _ _ _ _).yields

theorem join_yields (ha : a.Data A) (hb : b.Data A) :
    (join a b).Yields c A (BinaryOp.Result .or a b) := by
  have hlambda : isLambda a = false := by cases ha <;> rfl
  rw [join, if_neg (by simp [hlambda])]
  refine bitwise_yields rfl ha hb ?_
  rw [ha.asDict_eq, hb.asDict_eq]
  have hrefused : (refuse .or a b).Yields c A (BinaryOp.Result .or a b) :=
    (refuse_steady _ _ _ _).yields
  cases ha with
  | dict hkeys hvalues =>
    cases hb with
    | dict hkeys' hvalues' =>
      refine Steady.yields ?_
      refine (Value.Data.merge_steady (fun e he => ⟨hkeys e he, hvalues e he⟩)
        fun e he => ⟨hkeys' e he, hvalues' e he⟩).bind fun es hes => ?_
      refine (Steady.newDict es).mono ?_
      rintro v ⟨m, rfl⟩
      exact ⟨.dict (fun e he => (hes e he).1) fun e he => (hes e he).2, .inr rfl⟩
    | _ => exact hrefused
  | absent => cases hb <;> exact hrefused
  | _ => exact hrefused

/-- The answers of the comparisons to data are truth values. -/
theorem applyTo_comparison (hop : op.isComparison = true) (ha : a.Data A) (hb : b.Data A) :
    (op.applyTo a b).Steady A Value.Data.IsTruth := by
  have hnode {v : Value} (hv : v.Data A) (n : Node) : v ≠ .node n := by
    rintro rfl
    cases hv
  have hobject : ¬(a.isObject || b.isObject) = true := by simp [ha.isObject_eq, hb.isObject_eq]
  cases op with
  | equal =>
    simp only [applyTo, Value.equals]
    split
    · exact absurd rfl (hnode ha _)
    · exact absurd rfl (hnode ha _)
    · rw [if_neg hobject]
      exact (ha.equal_steady hb).bind fun _ _ => .pure ⟨_, rfl⟩
  | notEqual =>
    simp only [applyTo, Value.differs]
    split
    · exact absurd rfl (hnode ha _)
    · rw [if_neg hobject]
      exact (ha.equal_steady hb).bind fun _ _ => .pure ⟨_, rfl⟩
  | less | lessEqual | greater | greaterEqual => exact ha.ordered_steady hb _
  | contains => exact (ha.isIn_steady hb).bind fun _ _ => .pure ⟨_, rfl⟩
  | _ => cases hop

/-- What an operator makes of data is data, and the type that is inferred describes it. -/
theorem applyTo_yields (op : BinaryOp) (ha : a.Data A) (hb : b.Data A) :
    (op.applyTo a b).Yields c A (op.Result a b) := by
  have htruth (hop : op.isComparison = true ∨ op.isShortCircuit = true) (x : Bool) :
      op.Result a b A (.bool x) := by
    have htype : op.resultType a.fixedType b.fixedType = .bool := by
      rcases hop with h | h <;> simp [resultType, h]
    refine ⟨.bool x, .inr htype⟩
  have hnumbers (hop : op.isArithmetic = true) :
      (arithmetic op a b (refuse op a b)).Yields c A (op.Result a b) :=
    arithmetic_yields hop ha hb (refuse_steady _ _ _ _).yields
  cases op with
  | add => exact sum_yields ha hb
  | multiply => exact product_yields ha hb
  | subtract | divide | floorDivide | power => exact hnumbers rfl
  | modulo => exact remainder_yields ha hb
  | equal | notEqual | less | lessEqual | greater | greaterEqual | contains =>
    refine ((applyTo_comparison rfl ha hb).mono ?_).yields
    rintro v ⟨x, rfl⟩
    exact htruth (.inl rfl) x
  | and => exact meet_yields ha hb
  | or => exact join_yields ha hb
  | xor => exact bitwise_yields rfl ha hb (refuse_steady _ _ _ _).yields
  | andAlso =>
    refine Yields.after ha.truth_steady fun x _ => ?_
    split
    · exact Steady.yields (hb.truth_steady.bind fun y _ => .pure (htruth (.inr rfl) y))
    · exact Steady.yields (.pure (htruth (.inr rfl) false))
  | orElse =>
    refine Yields.after ha.truth_steady fun x _ => ?_
    split
    · exact Steady.yields (.pure (htruth (.inr rfl) true))
    · exact Steady.yields (hb.truth_steady.bind fun y _ => .pure (htruth (.inr rfl) y))

end BinaryOp

namespace UnaryOp

theorem asked_steady (ha : a.Data A) (name operation : String) (Q : Value → Prop) :
    (asked a name operation).Steady A Q := by
  refine (Steady.askSpecial ha.isObject_eq _ _).bind fun o ho => ?_
  subst ho
  exact (Steady.typeOf a).bind fun _ _ => .fail _

/-- What an operator makes of data is data, and the type that is inferred describes it. -/
theorem applyTo_steady (op : UnaryOp) (ha : a.Data A) :
    (op.applyTo a).Steady A (Value.DataOf A (op.resultType a.fixedType)) := by
  cases op with
  | not => exact ha.truth_steady.bind fun x _ => .pure (.bool _)
  | negate =>
    simp only [applyTo]
    split
    · rename_i n hn
      have htype : UnaryOp.resultType .negate a.fixedType = n.negate.type := by
        have hnegate : n.negate.type = n.type := by cases n <;> rfl
        exact (Value.numeric_fixedType hn).trans hnegate.symm
      rw [htype]
      exact Value.ofNumeral_steady _
    · exact asked_steady ha _ _ _
  | invert =>
    simp only [applyTo]
    split
    · rename_i i hi
      have htype : UnaryOp.resultType .invert a.fixedType = .int := Value.numeric_fixedType hi
      rw [htype]
      refine (Steady.newInt _).mono ?_
      rintro v ⟨m, rfl⟩
      exact ⟨.int m _, .inr rfl⟩
    · exact asked_steady ha _ _ _

end UnaryOp

end PredicateTree
