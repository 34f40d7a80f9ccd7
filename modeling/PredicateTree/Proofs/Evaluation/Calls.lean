import PredicateTree.Proofs.Evaluation.Bookkeeping

/-!
# Calls of lambdas

A lambda that is called itself is compiled at its first call, and the session keeps its function
for the calls to come.  As long as a session keeps the right functions (`Session.Compiles`), a call
runs the body, whatever was called before; besides that it at most keeps one function more
(`callWithin_lambda`).
-/

namespace PredicateTree

/-- The function that a lambda compiles to where it is called itself. -/
def Node.function (mark : Nat) : Node → Value
  | .lambda _ _ vs b => .closure mark (vs.filterMap (·.parameter?)) (b.code .standard) []
  | _ => .absent

/-- What a session keeps for the calls of a lambda, if it keeps something, is its function. -/
def Session.Compiles (s : Session) (n : Node) : Prop :=
  ∀ f, s.store.compiled? n.mark = some f → ∃ mark, f = n.function mark

/-- Nothing stands between two sessions but that the function of a lambda was made and kept. -/
inductive Session.Readied (n : Node) (s : Session) : Session → Prop where
  | refl : Readied n s s
  | compiled {t : Session} (h : s.Noted t) (mark : Nat) :
      Readied n s { t with store := t.store.withCompiled n.mark (n.function mark) }

variable {n : Node} {s t : Session}

theorem Session.Noted.compiled?_eq (h : s.Noted t) (mark : Nat) :
    t.store.compiled? mark = s.store.compiled? mark := by
  induction h with
  | refl => rfl
  | mark _ _ ih | line _ _ ih | object _ _ ih => exact ih

theorem Session.Noted.calls_eq (h : s.Noted t) : t.calls = s.calls := by
  induction h with
  | refl => rfl
  | mark _ _ ih | line _ _ ih | object _ _ ih => exact ih

theorem Session.Noted.compiles (h : s.Noted t) (hs : s.Compiles n) : t.Compiles n := by
  intro f hf
  rw [h.compiled?_eq] at hf
  exact hs f hf

/-- Lambdas whose kept functions are the right ones keep right ones. -/
theorem Session.Order.compiling (kept : Node → Prop) :
    Session.Order fun s t => ∀ n, kept n → s.Compiles n → t.Compiles n :=
  ⟨fun h _ _ hs => h.compiles hs, fun h h' n hn hs => h' n hn (h n hn hs)⟩

theorem Session.Readied.calls_eq (h : s.Readied n t) : t.calls = s.calls := by
  cases h with
  | refl => rfl
  | compiled h => exact h.calls_eq

/-- To make a lambda ready does not disturb the functions of lambdas with other marks. -/
theorem Session.Readied.compiles {m : Node} (h : s.Readied n t)
    (hmark : m.mark = n.mark → m = n) (hs : s.Compiles m) : t.Compiles m := by
  cases h with
  | refl => exact hs
  | compiled h mark =>
    intro f hf
    rw [Store.compiled?, Store.withCompiled, Std.TreeMap.getElem?_insertIfNew] at hf
    split at hf
    · rename_i hnew
      cases hf
      rw [hmark (Std.compare_eq_iff_eq.1 hnew.1).symm]
      exact ⟨mark, rfl⟩
    · exact h.compiles hs f hf

variable {mark row : Nat} {ps : List Parameter} {b : Node}

theorem compileLogged_run (h : n.All (·.isOwned)) (t : OperatorTable) (parameters : List Value)
    (c : Caller) (s : Session) : ∃ u, (compileLogged t parameters (.node n)).run c s =
      (.done (n.code t), u) ∧ s.Noted u := by
  obtain ⟨u, hrun, hu⟩ := note_run (e := .compiled parameters.length) rfl c s
  refine ⟨u, ?_, hu⟩
  rw [compileLogged, compileTree_node h.wellFormed, ownerless?_of_owned h, refusing, pure_bind,
    Action.run_bind_done hrun]
  rfl

/-- A lambda is compiled unless a session keeps its function. -/
theorem compiled_run (host : Host) (hn : n = .lambda mark row (Node.declarations ps) (.node b))
    (h : n.All (·.isOwned)) (hs : s.Compiles n) (c : Caller) :
    ∃ m t, (host.compiled mark (Node.declarations ps) (.node n)).run c s =
      (.done (n.function m), t) ∧ s.Readied n t := by
  have hmark : n.mark = mark := by
    rw [hn]
    rfl
  have hstore : Action.store.run c s = (.done s.store, s) := rfl
  rw [Host.compiled, Action.run_bind_done hstore]
  cases hkept : s.store.compiled? mark with
  | some f =>
    rw [← hmark] at hkept
    obtain ⟨m, rfl⟩ := hs f hkept
    exact ⟨m, s, rfl, .refl⟩
  | none =>
    obtain ⟨u, hrun, hu⟩ := compileLogged_run h .standard (Node.declarations ps) c s
    have hcode : ((n.code .standard).run host []).run c u =
        (.done (n.function u.nextMark), u.marked 1) := by
      rw [hn]
      rfl
    refine ⟨u.nextMark, _, ?_, .compiled (hu.mark 1) u.nextMark⟩
    simp only [Action.run_bind_done hrun, Action.run_bind_done hcode, hmark]
    rfl

/-- A call of a lambda with as many arguments as it has parameters runs its body. -/
theorem callWithin_lambda (host : Host) (depth : Nat) {args : List Value}
    (hn : n = .lambda mark row (Node.declarations ps) (.node b)) (h : n.All (·.isOwned))
    (hs : s.Compiles n) (hlen : args.length = ps.length) :
    ∃ t, s.Readied n t ∧ Machine.callWithin host (depth + 2) (.node n) args s =
      ((b.code .standard).run host (Environment.extend [] ps args)).within host depth t := by
  obtain ⟨m, t, hrun, ht⟩ := compiled_run host hn h hs (Machine.callWithin host (depth + 1))
  refine ⟨t, ht, ?_⟩
  have hfunction : n.function m = .closure m ps (b.code .standard) [] := by
    rw [hn, Node.function, filterMap_declarations]
    rfl
  have happly : host.apply (.node n) args =
      host.compiled mark (Node.declarations ps) (.node n) >>= fun g => Action.call g args := by
    rw [hn]
    rfl
  rw [Machine.callWithin, happly, Action.run_bind_done hrun, hfunction, Action.run_call,
    callWithin_closure hlen]

end PredicateTree
