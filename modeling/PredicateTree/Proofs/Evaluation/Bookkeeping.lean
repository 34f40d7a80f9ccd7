import PredicateTree.Proofs.Evaluation.Compilation
import PredicateTree.Proofs.Tree.Rebuilding

/-!
# Bookkeeping

Besides what its values do, the library itself leaves traces in a session: it takes marks, logs its
steps, and makes objects for the steps of a folding pass.  `Session.Noted s t` says that nothing
else was done between `s` and `t`.
-/

namespace PredicateTree

/-- Only bookkeeping of the library stands between two sessions. -/
inductive Session.Noted (s : Session) : Session → Prop where
  | refl : Noted s s
  | mark {t : Session} (h : Noted s t) (used : Nat) : Noted s (t.marked used)
  | line {t : Session} (h : Noted s t) (l : LogLine) : Noted s { t with log := l :: t.log }
  | object {t : Session} (h : Noted s t) (o : StoredObject) :
      Noted s { t with store := t.store.withObject o }

theorem Session.Noted.trans {s t u : Session} (h : s.Noted t) (h' : t.Noted u) : s.Noted u := by
  induction h' with
  | refl => exact h
  | mark _ used ih => exact ih.mark used
  | line _ l ih => exact ih.line l
  | object _ o ih => exact ih.object o

theorem Session.Noted.nextMark_le {s t : Session} (h : s.Noted t) : s.nextMark ≤ t.nextMark := by
  induction h with
  | refl => exact Nat.le_refl _
  | mark _ used ih => exact Nat.le_add_right_of_le ih
  | line _ _ ih | object _ _ ih => exact ih

theorem Session.Noted.logging {s t : Session} (h : s.Noted t) (hs : s.logging = false) :
    t.logging = false := by
  induction h with
  | refl => exact hs
  | mark _ _ ih | line _ _ ih | object _ _ ih => exact ih

/-- The objects of one session are there in another one as they were. -/
def Session.KeepsObjects (s t : Session) : Prop :=
  ∀ (address : Nat) o, s.store.objects[address]? = some o → t.store.objects[address]? = some o

theorem Session.KeepsObjects.trans {s t u : Session} (h : s.KeepsObjects t)
    (h' : t.KeepsObjects u) : s.KeepsObjects u :=
  fun address o ho => h' address o (h address o ho)

theorem Session.Noted.keepsObjects {s t : Session} (h : s.Noted t) : s.KeepsObjects t := by
  induction h with
  | refl => exact fun _ _ ho => ho
  | mark _ _ ih | line _ _ ih => exact ih
  | @object t _ new ih =>
    intro address o ho
    obtain ⟨hlt, hget⟩ := Array.getElem?_eq_some_iff.1 (ih address o ho)
    change (t.store.objects.push new)[address]? = some o
    rw [Array.getElem?_push_lt hlt, hget]

/-- An order in time among sessions, in which bookkeeping makes them later. -/
structure Session.Order (later : Session → Session → Prop) : Prop where
  noted : ∀ {s t : Session}, s.Noted t → later s t
  trans : ∀ {s t u : Session}, later s t → later t u → later s u

/-- Marks are used up, and what is not logged stays so. -/
theorem Session.Order.marking :
    Session.Order fun s t => s.nextMark ≤ t.nextMark ∧ (s.logging = false → t.logging = false) :=
  ⟨fun h => ⟨h.nextMark_le, h.logging⟩, fun h h' => ⟨Nat.le_trans h.1 h'.1, h'.2 ∘ h.2⟩⟩

/-- What is there stays as it is. -/
theorem Session.Order.keeping : Session.Order Session.KeepsObjects :=
  ⟨Session.Noted.keepsObjects, Session.KeepsObjects.trans⟩

theorem Session.Order.and {later later' : Session → Session → Prop} (h : Session.Order later)
    (h' : Session.Order later') : Session.Order fun s t => later s t ∧ later' s t :=
  ⟨fun hs => ⟨h.noted hs, h'.noted hs⟩, fun hs ht => ⟨h.trans hs.1 ht.1, h'.trans hs.2 ht.2⟩⟩

/-! ### The log -/

/-- An entry whose text is known is noted without fail. -/
theorem note_run {e : LogEntry} {text : String} (h : e.text = pure text) (c : Caller)
    (s : Session) : ∃ t, (Action.note e).run c s = (.done (), t) ∧ s.Noted t := by
  by_cases hs : s.logging = true
  · refine ⟨{ s with log := ⟨e.source, text⟩ :: s.log }, ?_, .line .refl _⟩
    have hsession : Action.session.run c s = (.done s, s) := rfl
    rw [Action.note, Action.run_bind_done hsession, if_pos hs, h, pure_bind]
    rfl
  · exact ⟨s, Action.run_note_of_not_logging e c (Bool.eq_false_iff.2 hs), .refl⟩

/-! ### Functions -/

/-- Runs an action whose calls nest so deep at most. -/
abbrev Action.within {α : Type} (x : Action α) (host : Host) (depth : Nat) (s : Session) :
    Outcome α × Session := x.run (Machine.callWithin host depth) s

/-- A function that is given as many arguments as it has parameters runs its body. -/
theorem callWithin_closure {host : Host} {depth mark : Nat} {ps : List Parameter} {body : Code}
    {env : Environment} {args : List Value} (h : args.length = ps.length) (s : Session) :
    Machine.callWithin host (depth + 1) (.closure mark ps body env) args s =
      (body.run host (env.extend ps args)).within host depth s := by
  rw [Machine.callWithin, Host.apply, if_pos h]

end PredicateTree
