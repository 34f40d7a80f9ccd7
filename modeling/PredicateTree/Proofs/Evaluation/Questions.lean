import PredicateTree.Proofs.Evaluation.Time
import PredicateTree.Value.Container

/-!
# Questions to values

The truth of a value and its member under a text ask what classes say, by calling functions, and make
new objects and new marks besides.  So in an order of sessions in which calls leave later sessions,
they do so too (`Value.truth_advances`, `Value.member_advances`).
-/

namespace PredicateTree

variable {later : Session → Session → Prop} (hl : Session.Order later) {c : Caller} {α : Type}

include hl

theorem freshMark_advances : Action.freshMark.Advances later c :=
  fun _ => hl.noted (.mark .refl 1)

theorem newObject_advances (type : StaticType) (attributes : Attributes) :
    (Action.newObject type attributes).Advances later c :=
  fun _ => hl.noted (.object .refl _)

theorem fail_advances (f : StaticType → Failure) (v : Value) :
    (do Action.fail (f (← Action.typeOf v)) : Action α).Advances later c :=
  .of_result hl fun _ => ⟨_, rfl⟩

theorem newText_advances (text : String) : (Action.newText text).Advances later c := by
  unfold Action.newText
  split
  · exact pure_advances hl _
  · exact .bind hl (freshMark_advances hl) fun _ => pure_advances hl _

theorem textPiece_advances (text : String) : (Action.textPiece text).Advances later c := by
  unfold Action.textPiece
  split
  · exact pure_advances hl _
  · exact newText_advances hl text

namespace Value

variable (hc : ∀ f args, (Action.call f args).Advances later c)

theorem readFound_advances (v found : Value) (name : String) :
    (v.readFound found name).Advances later c := by
  unfold readFound
  split
  · exact .bind hl (freshMark_advances hl) fun _ => pure_advances hl _
  · exact .bind hl (freshMark_advances hl) fun _ => pure_advances hl _
  · split
    · exact .bind hl (freshMark_advances hl) fun _ => pure_advances hl _
    · exact pure_advances hl _
  · split
    · exact textPiece_advances hl _
    · exact pure_advances hl _
  · exact pure_advances hl _

include hc

theorem askSpecial_advances (v : Value) (name : String) (args : List Value) :
    (v.askSpecial name args).Advances later c := by
  refine .bind hl (.of_result hl fun _ => ⟨_, rfl⟩) fun s => ?_
  split
  · exact .bind hl (hc _ _) fun _ => pure_advances hl _
  · exact pure_advances hl _

/-! ### Attributes -/

theorem answerMissing_advances (v : Value) (name : String) (lack : Fault) :
    (v.answerMissing name lack).Advances later c := by
  refine .bind hl (askSpecial_advances hl hc v _ _) fun answer => ?_
  split
  · exact pure_advances hl _
  · refine .bind hl (.of_result hl fun _ => ⟨_, rfl⟩) fun s => ?_
    split <;> exact .of_result hl fun _ => ⟨_, rfl⟩

theorem readAttribute_advances (v : Value) (name : String) :
    (v.readAttribute name).Advances later c := by
  refine .bind hl (.of_result hl fun _ => ⟨_, rfl⟩) fun s => ?_
  split
  · refine .handle hl (hc _ _) fun fault => ?_
    split
    · exact answerMissing_advances hl hc v name fault
    · exact .of_result hl fun _ => ⟨_, rfl⟩
  · split
    · exact readFound_advances hl v _ name
    · exact answerMissing_advances hl hc v name _

/-! ### Truth -/

theorem integerAsked?_advances (v : Value) (name : String) :
    (v.integerAsked? name).Advances later c := by
  refine .bind hl (askSpecial_advances hl hc v name []) fun answer => ?_
  split
  · exact pure_advances hl _
  · split
    · exact pure_advances hl _
    · exact fail_advances hl _ _

theorem index_advances (v : Value) : v.index.Advances later c := by
  refine .bind hl ?_ fun i => ?_
  · unfold index?
    split
    · exact pure_advances hl _
    · exact integerAsked?_advances hl hc v _
  · split
    · exact pure_advances hl _
    · exact fail_advances hl _ _

theorem lengthGiven_advances (v : Value) : v.lengthGiven.Advances later c := by
  refine .bind hl (index_advances hl hc v) fun i => ?_
  split
  · exact .of_result hl fun _ => ⟨_, rfl⟩
  · split <;> exact .of_result hl fun _ => ⟨_, rfl⟩

omit hc in
theorem fixedLength?_advances (v : Value) : v.fixedLength?.Advances later c := by
  unfold fixedLength?
  split <;> exact .of_result hl fun _ => ⟨_, rfl⟩

theorem lengthWithin_advances (fuel : Nat) (v : Value) :
    (v.lengthWithin fuel).Advances later c := by
  induction fuel generalizing v with
  | zero => exact .of_result hl fun _ => ⟨_, rfl⟩
  | succ fuel ih =>
    refine .bind hl (askSpecial_advances hl hc v _ _) fun answer => ?_
    split
    · exact lengthGiven_advances hl hc _
    · refine .bind hl (.of_result hl fun _ => ⟨_, rfl⟩) fun t => ?_
      split
      · exact .bind hl (readAttribute_advances hl hc v _) fun steps => ih steps
      · refine .bind hl (fixedLength?_advances hl v) fun length => ?_
        split <;> exact .of_result hl fun _ => ⟨_, rfl⟩

theorem objectTruth_advances (v : Value) : v.objectTruth.Advances later c := by
  refine .bind hl (askSpecial_advances hl hc v _ _) fun answer => ?_
  refine .bind hl (.of_result hl fun _ => ⟨_, rfl⟩) fun t => ?_
  split
  · exact pure_advances hl _
  · exact fail_advances hl _ _
  · exact .of_result hl fun _ => ⟨_, rfl⟩
  · refine .bind hl ?_ fun sized => ite_advances ?_ (pure_advances hl _) sized
    · refine .bind hl (.of_result hl fun _ => ⟨_, rfl⟩) fun s => ?_
      refine ite_advances (pure_advances hl _) ?_ _
      exact .bind hl (fixedLength?_advances hl v) fun _ => pure_advances hl _
    · exact .bind hl (lengthWithin_advances hl hc _ v) fun _ => pure_advances hl _

theorem truth_advances (v : Value) : v.truth.Advances later c := by
  cases v with
  | object address => exact objectTruth_advances hl hc (.object address)
  | _ => exact .of_result hl fun _ => ⟨_, rfl⟩

/-! ### Members -/

theorem answerEqual?_advances (v w : Value) : (v.answerEqual? w).Advances later c := by
  refine .bind hl (askSpecial_advances hl hc v _ _) fun answer => ?_
  split
  · exact pure_advances hl _
  · refine .bind hl (.of_result hl fun _ => ⟨_, rfl⟩) fun t => ?_
    split
    · exact .bind hl (newObject_advances hl _ _) fun _ => pure_advances hl _
    · exact pure_advances hl _

omit hc in
theorem firstAnswer_advances {left right : Action (Option Value)} (hleft : left.Advances later c)
    (hright : right.Advances later c) (v w : Value) :
    (firstAnswer left right v w).Advances later c := by
  refine .bind hl (.of_result hl fun _ => ⟨_, rfl⟩) fun s => ?_
  dsimp only
  -- which of the two is asked first depends on their types
  split
  · refine .bind hl hright fun answer => ?_
    split
    · exact pure_advances hl _
    · exact hleft
  · refine .bind hl hleft fun answer => ?_
    split
    · exact pure_advances hl _
    · exact hright

theorem objectsSame_advances (v w : Value) : (objectsSame v w).Advances later c := by
  have hleft := answerEqual?_advances hl hc v w
  have hright := answerEqual?_advances hl hc w v.asDict
  refine .bind hl (firstAnswer_advances hl hleft hright v w) fun answer => ?_
  split
  · exact truth_advances hl hc _
  · exact pure_advances hl _

/-- A comparison with a text asks nothing but what the class of an object says. -/
theorem same_text_advances (v : Value) (mark : Nat) (text : String) :
    (v.same (.str mark text)).Advances later c := by
  cases v with
  | object address => exact objectsSame_advances hl hc _ _
  | node n =>
    cases n with
    | _ => exact .of_result hl fun _ => ⟨_, rfl⟩
  | _ => exact .of_result hl fun _ => ⟨_, rfl⟩

theorem find?_text_advances (mark : Nat) (text : String) (entries : List (Value × Value)) :
    (Entries.find? (.str mark text) entries).Advances later c := by
  induction entries with
  | nil => exact pure_advances hl _
  | cons e rest ih =>
    obtain ⟨k, v⟩ := e
    rw [Entries.find?]
    refine ite_advances ih (.bind hl ?_ fun same => ite_advances (pure_advances hl _) ih same) _
    refine .bind hl (.of_result hl fun _ => ⟨_, rfl⟩) fun s => ?_
    exact ite_advances (same_text_advances hl hc k mark text) (pure_advances hl _) _

theorem member_advances (v : Value) (mark : Nat) (text : String) :
    (v.member (.str mark text)).Advances later c := by
  have hread := readAttribute_advances hl hc v text
  cases v with
  | dict _ entries | mapping _ entries =>
    refine .bind hl (.of_result hl fun _ => ⟨_, rfl⟩) fun _ => ?_
    refine .bind hl (find?_text_advances hl hc mark text entries) fun found => ?_
    split
    · exact pure_advances hl _
    · exact .of_result hl fun _ => ⟨_, rfl⟩
  | _ => exact hread

end Value

end PredicateTree
