import PredicateTree.Proofs.Likeness.Plain
import PredicateTree.Proofs.Purity.Equality
import PredicateTree.Proofs.Purity.Running

/-!
# Plain values are pure

Plain values are the same in whatever sessions if they are equal but for marks
(`Sameness.plain`).  On them the plain host is pure, the calls of its tracers included
(`Host.plain_pure`), and where it fails, it fails with the same faults (`Host.plain_failsWith`).
-/

namespace PredicateTree

/-- Plain values that are the same in whatever sessions. -/
inductive Value.PlainlySame : Value → Value → Prop where
  | same {v : Value} (h : v.isPlain = true) : PlainlySame v v
  | int (m m' : Nat) (i : Int) : PlainlySame (.int m i) (.int m' i)

namespace Value.PlainlySame

variable {v w x : Value}

theorem symm (h : v.PlainlySame w) : w.PlainlySame v := by
  cases h with
  | same h => exact .same h
  | int m m' i => exact .int m' m i

theorem trans (h : v.PlainlySame w) (h' : w.PlainlySame x) : v.PlainlySame x := by
  cases h with
  | same => exact h'
  | int m m' i =>
    cases h' with
    | same => exact .int m m' i
    | int _ m'' => exact .int m m'' i

theorem ownInteger?_eq (h : v.PlainlySame w) : v.ownInteger? = w.ownInteger? := by
  cases h <;> rfl

theorem plainTruth_eq (h : v.PlainlySame w) : v.plainTruth = w.plainTruth := by
  cases h <;> rfl

theorem typeOf_eq (h : v.PlainlySame w) (s t : Store) : s.typeOf v = t.typeOf w := by
  cases h with
  | int => rfl
  | same h =>
    cases v with
    | object => cases h
    | _ => rfl

theorem same_eq (h : v.PlainlySame w) : v.same w = pure true := by
  cases h with
  | same => exact v.same_self
  | int m m' i =>
    rw [Value.same, sameBy.eq_def]
    simp [settled?]

theorem equal_eq (h : v.PlainlySame w) : v.equal w = pure true := by
  cases h with
  | same h =>
    refine Value.equal_self fun mark x hx => ?_
    rw [hx] at h
    cases h
  | int m m' i => exact same_eq (.int m m' i)

end Value.PlainlySame

/-- Plain values in sessions that are not logged and keep their objects. -/
def Sameness.plain : Sameness where
  session s := s.logging = false
  later s t :=
    (s.nextMark ≤ t.nextMark ∧ (s.logging = false → t.logging = false)) ∧ s.KeepsObjects t
  value _ _ := Value.PlainlySame
  type τ := ∀ s : Store, s.typeValue τ = .type τ
  order := .and .marking .keeping
  session_later hs h := h.1.2 hs
  nextMark_le h := h.1.1
  value_symm := .symm
  value_trans := .trans
  value_later h _ _ := h
  value_bool b _ _ := .same rfl
  typeOf_eq h := h.typeOf_eq _ _
  isAbsent_eq _ _ h := by rw [h, h]

theorem Sameness.plain_compares (c : Caller) : Sameness.plain.Compares c where
  same {s v w} _ h := ⟨s, by rw [Value.PlainlySame.same_eq h]; rfl, plain.later_refl s⟩
  number h := by
    cases h with
    | same h => cases h

section

variable {s s' : Session} {E : Fault → Prop} {α β : Type} {P : Session → Session → α → β → Prop}
  {c c' : Caller}

theorem fail_ends (f g : Failure) (hf : E (.failure f)) (hg : E (.failure g)) :
    Sameness.plain.Ends s s' E P ((Action.fail f : Action α).run c s)
      ((Action.fail g : Action β).run c' s') :=
  .raised (Sameness.plain.later_refl s) (Sameness.plain.later_refl s') hf hg

theorem onPlain_ends (key : OperatorKey) {args args' : List Value}
    (h : List.Forall₂ Value.PlainlySame args args') :
    Sameness.plain.Ends s s' (fun _ => True) Sameness.plain.value ((key.onPlain args).run c s)
      ((key.onPlain args').run c' s') := by
  rw [onPlain_congr key (map_eq_of_forall₂ h fun _ _ h => h.ownInteger?_eq)]
  rcases onPlain_cases key args' with ⟨i, heq⟩ | ⟨b, heq⟩ | ⟨f, heq⟩
  · obtain ⟨m, used, hrun⟩ := newInt_run i c s
    obtain ⟨m', used', hrun'⟩ := newInt_run i c' s'
    rw [heq, hrun, hrun']
    exact .done (Sameness.plain.order.noted (.mark .refl used))
      (Sameness.plain.order.noted (.mark .refl used')) (.int m m' i)
  · rw [heq]
    exact .pure (.same rfl)
  · rw [heq]
    exact fail_ends f f trivial trivial

/-- The plain host is pure, calls included. -/
theorem Host.plain_pure : Host.plain.Pure Sameness.plain .standard true where
  operator := by
    rintro (_ | depth) key s s' args args' - - hargs
    · exact .exhausted
    · exact onPlain_ends key hargs
  call := by
    rintro - (_ | depth) s s' f f' args args' - - hf hargs
    · exact .exhausted
    · cases hf with
      | int => exact fail_ends _ _ trivial trivial
      | same h =>
        cases f with
        | operator key => exact onPlain_ends key hargs
        | tracer mark nameMark name =>
          have hlater (s : Session) (call : RecordedCall) :
              Sameness.plain.later s { s with calls := call :: s.calls } :=
            ⟨⟨Nat.le_refl _, id⟩, fun _ _ h => h⟩
          exact .done (hlater s _) (hlater s' _) (getLastD_of_forall₂ hargs (.same rfl))
        | absent | bool | int | str => exact fail_ends _ _ trivial trivial
        | _ => cases h
  truth _ _ _ _ _ _ _ h := .pure (Value.PlainlySame.plainTruth_eq h)
  member _ _ _ _ _ _ _ _ _ _ := fail_ends _ _ trivial trivial
  describe _ s _ _ _ := ⟨_, s, rfl, Sameness.plain.later_refl s⟩
  spell _ s _ _ _ := ⟨_, s, rfl, Sameness.plain.later_refl s⟩

variable {F : Faults}

theorem fail_between {f : Failure} (h : F s s' (.failure f) (.failure f)) :
    F.Between ((Action.fail f : Action α).run c s) ((Action.fail f : Action β).run c' s') := by
  rintro _ _ _ _ ⟨⟩ ⟨⟩
  exact h

theorem onPlain_between (key : OperatorKey) {args args' : List Value}
    (h : List.Forall₂ Value.PlainlySame args args')
    (hF : ∀ f, F s s' (.failure f) (.failure f)) :
    F.Between ((key.onPlain args).run c s) ((key.onPlain args').run c' s') := by
  rw [onPlain_congr key (map_eq_of_forall₂ h fun _ _ h => h.ownInteger?_eq)]
  rcases onPlain_cases key args' with ⟨i, heq⟩ | ⟨b, heq⟩ | ⟨f, heq⟩
  · obtain ⟨m, used, hrun⟩ := newInt_run i c s
    rw [heq, hrun]
    exact fun hx => nomatch hx
  · rw [heq]
    exact fun hx => nomatch hx
  · rw [heq]
    exact fail_between (hF f)

/-- The plain host fails with the same faults on the same values, calls included. -/
theorem Host.plain_failsWith : Host.plain.FailsWith (.same Sameness.plain) .standard true
    (Sameness.Kinship.same Sameness.plain).sameFaults where
  operator := by
    rintro (_ | depth) key s s' args args' - - hargs
    · exact fun hx => nomatch hx
    · exact onPlain_between key hargs fun f => .failure rfl
  call := by
    rintro - (_ | depth) s s' f f' args args' - - hf hargs
    · exact fun hx => nomatch hx
    · cases hf with
      | int => exact fail_between (.failure rfl)
      | same h =>
        cases f with
        | operator key => exact onPlain_between key hargs fun f => .failure rfl
        | tracer => exact fun hx => nomatch hx
        | absent | bool | int | str => exact fail_between (.failure rfl)
        | _ => cases h
  truth _ _ _ _ _ _ _ _ := fun hx => nomatch hx
  member depth s s' v v' a b _ _ hv _ := by
    have htype : v.fixedType = v'.fixedType := by
      cases hv <;> rfl
    change Faults.Between _ ((Action.fail (.missingMember v.fixedType.name) : Action Value).run _ s)
      ((Action.fail (.missingMember v'.fixedType.name) : Action Value).run _ s')
    rw [htype]
    exact fail_between (.failure rfl)

end

end PredicateTree
