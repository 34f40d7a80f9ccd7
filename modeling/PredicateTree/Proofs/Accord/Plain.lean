import PredicateTree.Proofs.Accord.Run
import PredicateTree.Proofs.Likeness.Plain

/-!
# Plain values in accord

Plain values are in accord if they are equal but for marks, and functions if their code and their
environments agree (`Value.PlainlyAccords`).  The plain host keeps to every accord whose values are
related in this way (`Host.plain_accords`).
-/

namespace PredicateTree

/-- Values that are in accord in whatever sessions. -/
inductive Value.PlainlyAccords (A : Atoms) : Value → Value → Prop where
  | same {v : Value} (h : v.isPlain = true) : PlainlyAccords A v v
  | int (m m' : Nat) (i : Int) : PlainlyAccords A (.int m i) (.int m' i)
  | closure {m m' : Nat} {ps : List Parameter} {b b' : Code} {env env' : Environment}
      (code : b.Agrees A b') (bound : ∀ p, (env.get? p).isSome = (env'.get? p).isSome)
      (values : ∀ p v v', env.get? p = some v → env'.get? p = some v' → PlainlyAccords A v v') :
      PlainlyAccords A (.closure m ps b env) (.closure m' ps b' env')

variable {A : Atoms} {v w : Value} {env env' : Environment}

namespace Value.PlainlyAccords

theorem ownInteger?_eq (h : v.PlainlyAccords A w) : v.ownInteger? = w.ownInteger? := by
  cases h <;> rfl

theorem plainTruth_eq (h : v.PlainlyAccords A w) : v.plainTruth = w.plainTruth := by
  cases h <;> rfl

/-- Functions are in accord if their code and their environments agree. -/
theorem of_agrees {m m' : Nat} {ps : List Parameter} {b b' : Code} (code : b.Agrees A b')
    (h : Environment.Agrees (PlainlyAccords A) env env') :
    PlainlyAccords A (.closure m ps b env) (.closure m' ps b' env') := by
  obtain ⟨bound, values⟩ := Environment.Alike.bound_iff.1 h
  exact .closure code (fun p => bound p trivial) fun p v v' => values p v v' trivial

theorem of_closure {m : Nat} {ps : List Parameter} {b : Code} {f : Value}
    (h : (Value.closure m ps b env).PlainlyAccords A f) : ∃ m' b' env', f = .closure m' ps b' env' ∧
      b.Agrees A b' ∧ Environment.Agrees (PlainlyAccords A) env env' := by
  cases h with
  | same h => cases h
  | closure code bound values =>
    exact ⟨_, _, _, rfl, code, Environment.Alike.bound_iff.2
      ⟨fun p _ => bound p, fun p v v' _ => values p v v'⟩⟩

end Value.PlainlyAccords

/-- Two calls of functions in accord with arguments in accord. -/
def RecordedCall.PlainlyAccords (A : Atoms) (c c' : RecordedCall) : Prop :=
  c.function.PlainlyAccords A c'.function ∧
    List.Forall₂ (Value.PlainlyAccords A) c.arguments c'.arguments

/-- The plain host keeps to an accord on plain values. -/
theorem Host.plain_accords {L : Accord A}
    (hvalue : ∀ {s s' v w}, L.value s s' v w ↔ v.PlainlyAccords A w)
    (hmarked : ∀ {s s'} (i j : Nat), L.session s s' → L.session (s.marked i) (s'.marked j))
    (hcalled : ∀ {s s' c c'}, L.session s s' → RecordedCall.PlainlyAccords A c c' →
      L.session { s with calls := c :: s.calls } { s' with calls := c' :: s'.calls })
    (hlater : ∀ s c, L.later s { s with calls := c :: s.calls }) : Host.plain.Accords L where
  apply := by
    intro c c' s s' f f' args args' _ hs hf hargs hclosure
    have hplain : List.Forall₂ (Value.PlainlyAccords A) args args' := hargs.imp fun _ _ => hvalue.1
    have hrefuse : ∀ t t' : StaticType, L.Ends (fun _ => True) s s' L.value
        ((Action.fail (.notCallable t)).run c s) ((Action.fail (.notCallable t')).run c' s') :=
      fun _ _ => .raise hs (.failure rfl) trivial
    cases hvalue.1 hf with
    | int m m' i => exact hrefuse _ _
    | closure => exact absurd rfl (hclosure _ _ _ _)
    | same h =>
      cases f with
      | operator key =>
        change L.Ends _ s s' _ ((key.onPlain args).run c s) ((key.onPlain args').run c' s')
        rw [onPlain_congr key (map_eq_of_forall₂ hplain fun _ _ h => h.ownInteger?_eq)]
        rcases onPlain_cases key args' with ⟨i, heq⟩ | ⟨b, heq⟩ | ⟨f, heq⟩
        · obtain ⟨m, used, hrun⟩ := newInt_run i c s
          obtain ⟨m', used', hrun'⟩ := newInt_run i c' s'
          rw [heq, hrun, hrun']
          exact .done (L.order.noted (.mark .refl used)) (L.order.noted (.mark .refl used'))
            (hmarked used used' hs) (hvalue.2 (.int m m' i))
        · rw [heq]
          exact .pure hs (hvalue.2 (.same rfl))
        · rw [heq]
          exact .raise hs (.failure rfl) trivial
      | tracer mark nameMark name =>
        exact .done (hlater s _) (hlater s' _) (hcalled hs ⟨.same rfl, hplain⟩)
          (hvalue.2 (getLastD_of_forall₂ hplain (.same rfl)))
      | absent | bool | int | str => exact hrefuse _ _
      | _ => cases h
  truth _ hs hv := .pure hs (hvalue.1 hv).plainTruth_eq
  member _ hs _ _ := .raise hs (.failure rfl) trivial
  describe _ hs _ := ⟨_, _, _, _, rfl, rfl, L.later_refl _, L.later_refl _, hs⟩
  spell _ hs _ := ⟨_, _, _, _, rfl, rfl, L.later_refl _, L.later_refl _, hs⟩
  spellParameter _ hs _ := ⟨_, _, _, _, rfl, rfl, L.later_refl _, L.later_refl _, hs⟩

/-- The accord of plain values where the calls of tracers are watched. -/
def Accord.plain (A : Atoms) (known : ∀ {v w}, A.constant v w → v.PlainlyAccords A w) : Accord A where
  session s s' := List.Forall₂ (RecordedCall.PlainlyAccords A) s.calls s'.calls
  value _ _ := Value.PlainlyAccords A
  later _ _ := True
  order := ⟨fun _ => trivial, fun _ _ => trivial⟩
  value_later h _ _ _ := h
  value_constant _ h := known h
  value_bool _ _ := .same rfl
  closure hs code henv := ⟨hs, .of_agrees code henv⟩
  of_closure h := h.of_closure

theorem Host.plain_accords_plain (known : ∀ {v w}, A.constant v w → v.PlainlyAccords A w) :
    Host.plain.Accords (Accord.plain A known) :=
  Host.plain_accords Iff.rfl (fun _ _ h => h) (fun h hc => .cons hc h) fun _ _ => trivial

end PredicateTree
