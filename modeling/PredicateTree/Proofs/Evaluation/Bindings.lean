import PredicateTree.Proofs.Equality.Recursion
import PredicateTree.Proofs.Evaluation.Compilation

/-!
# Bindings

The arguments of a call are bound to the parameters of a function in an environment, those of an
evaluation by a dictionary.  A dictionary that is made of the parameters and the arguments binds the
same as the environment (`Machine.exists_bindings`).
-/

namespace PredicateTree

theorem keyIs_parameter_self (p : Parameter) :
    keyIs (.node (.parameter p)) (.node (.parameter p)) = pure true := by
  funext c s
  change ((if s.store.alike (.node (.parameter p)) (.node (.parameter p)) then
    (Value.node (.parameter p)).same (.node (.parameter p)) else pure false : Action Bool).run c s) = _
  rw [if_pos (by simp [Store.alike, Value.isObject]), Value.same_self]
  rfl

/-! ### Values of dictionaries -/

/-- To set a value adds no other value. -/
theorem value_of_mem_insertHashable {t t' : IndexedEntries} {e : Value × Value} {c : Caller}
    {s u : Session} (h : (t.insertHashable e).run c s = (.done t', u)) :
    ∀ x ∈ t'.entries.toList, x.2 = e.2 ∨ ∃ y ∈ t.entries.toList, y.2 = x.2 := by
  obtain ⟨_, v, -, h⟩ := Action.exists_of_run_bind_done h
  obtain ⟨place, w, -, h⟩ := Action.exists_of_run_bind_done h
  intro x hx
  cases place with
  | none =>
    cases h
    rw [IndexedEntries.push, Array.toList_push, List.mem_append, List.mem_singleton] at hx
    rcases hx with hx | rfl
    · exact .inr ⟨x, hx, rfl⟩
    · exact .inl rfl
  | some i =>
    cases h
    rw [Entries.setAt, Array.toList_modify] at hx
    obtain ⟨j, hj, rfl⟩ := List.mem_iff_getElem.1 hx
    rw [List.getElem_modify]
    split
    · exact .inl rfl
    · exact .inr ⟨_, List.getElem_mem _, rfl⟩

/-- The values of a dictionary are among those that were set. -/
theorem value_of_mem_foldlM {pairs : List (Value × Value)} {t t' : IndexedEntries} {c : Caller}
    {s u : Session} (h : (pairs.foldlM IndexedEntries.insertHashable t).run c s = (.done t', u)) :
    ∀ x ∈ t'.entries.toList, (∃ e ∈ pairs, e.2 = x.2) ∨ ∃ y ∈ t.entries.toList, y.2 = x.2 := by
  induction pairs generalizing t s with
  | nil =>
    cases h
    exact fun x hx => .inr ⟨x, hx, rfl⟩
  | cons e pairs ih =>
    rw [List.foldlM_cons] at h
    obtain ⟨m, v, hinsert, hrest⟩ := Action.exists_of_run_bind_done h
    intro x hx
    rcases ih hrest x hx with ⟨d, hd, hdx⟩ | ⟨y, hy, hyx⟩
    · exact .inl ⟨d, List.mem_cons_of_mem e hd, hdx⟩
    · rcases value_of_mem_insertHashable hinsert y hy with hye | ⟨z, hz, hzy⟩
      · exact .inl ⟨e, List.mem_cons_self, hye.symm.trans hyx⟩
      · exact .inr ⟨z, hz, hzy.trans hyx⟩

theorem value_of_mem_ofList {pairs entries : List (Value × Value)}
    (h : Entries.ofList pairs = pure entries) : ∀ x ∈ entries, ∃ e ∈ pairs, e.2 = x.2 := by
  have hrun : (Entries.ofList pairs).run (fun _ _ s => (.exhausted, s)) {} =
      (.done entries, {}) := by rw [h]; rfl
  obtain ⟨t, u, hfold, hentries⟩ := Action.exists_of_run_bind_done hrun
  cases hentries
  intro x hx
  rcases value_of_mem_foldlM hfold x hx with he | ⟨y, hy, -⟩
  · exact he
  · cases hy

/-! ### Environments -/

namespace Machine

theorem get?_environmentOf_cons (p q : Parameter) (v : Value) (entries : List (Value × Value)) :
    (environmentOf ((.node (.parameter q), v) :: entries)).get? p =
      if p = q then some v else (environmentOf entries).get? p := by
  have hcons : environmentOf ((.node (.parameter q), v) :: entries) =
      (q, v) :: environmentOf entries := rfl
  rw [hcons, Environment.get?, List.lookup_cons]
  by_cases h : p = q
  · rw [h, beq_self_eq_true, if_pos rfl]
  · rw [beq_eq_false_iff_ne.2 h, if_neg h]
    rfl

/-- Among parameters a parameter is not bound, or its place is that of its value. -/
theorem placeFrom_parameter_cases {entries : List (Value × Value)}
    (h : ∀ k ∈ entries.map (·.1), ∃ p, k = .node (.parameter p)) (q : Parameter) (v : Value)
    (i : Nat) :
    (Entries.placeFrom (.node (.parameter q)) i entries = pure none ∧
        (environmentOf entries).get? q = none) ∨
      ∃ k, Entries.placeFrom (.node (.parameter q)) i entries = pure (some (i + k)) ∧
        ∀ p, (environmentOf (entries.modify k fun e => (e.1, v))).get? p =
          if p = q then some v else (environmentOf entries).get? p := by
  induction entries generalizing i with
  | nil => exact .inl ⟨rfl, rfl⟩
  | cons e rest ih =>
    obtain ⟨key, w⟩ := e
    obtain ⟨r, rfl⟩ := h key List.mem_cons_self
    by_cases hq : q = r
    · subst hq
      refine .inr ⟨0, ?_, fun p => ?_⟩
      · rw [Entries.placeFrom_cons, keyIs_parameter_self, pure_bind]
        rfl
      · rw [List.modify_zero_cons, get?_environmentOf_cons, get?_environmentOf_cons]
        split <;> rfl
    · -- Another parameter is another object, so it is passed over without being asked.
      have hskip : Entries.placeFrom (.node (.parameter q)) i
          ((.node (.parameter r), w) :: rest) =
            Entries.placeFrom (.node (.parameter q)) (i + 1) rest := by
        rw [Entries.placeFrom]
        exact if_pos (bne_iff_ne.2 hq)
      rw [hskip]
      rcases ih (fun k hk => h k (List.mem_cons_of_mem _ hk)) (i + 1) with
        ⟨hplace, hnone⟩ | ⟨k, hplace, hvalues⟩
      · refine .inl ⟨hplace, ?_⟩
        rw [get?_environmentOf_cons, if_neg hq, hnone]
      · refine .inr ⟨k + 1, ?_, fun p => ?_⟩
        · rw [hplace, Nat.add_right_comm, Nat.add_assoc]
        · rw [List.modify_succ_cons, get?_environmentOf_cons, get?_environmentOf_cons, hvalues]
          split
          · rename_i hp
            rw [if_neg (hp ▸ Ne.symm hq)]
          · rfl

/-- To set the value of a parameter among parameters gives it that value. -/
theorem insertHashable_parameter {t : IndexedEntries}
    (ht : ∀ k ∈ Entries.keys t.entries, ∃ p, k = .node (.parameter p)) (q : Parameter)
    (v : Value) : ∃ t', t.insertHashable (.node (.parameter q), v) = pure t' ∧
      (∀ k ∈ Entries.keys t'.entries, ∃ p, k = .node (.parameter p)) ∧
      ∀ p, (environmentOf t'.entries.toList).get? p =
        if p = q then some v else (environmentOf t.entries.toList).get? p := by
  have hhashable : (Value.node (.parameter q)).requireHashable = pure () := rfl
  have hplace? : t.place? (.node (.parameter q)) =
      Entries.placeFrom (.node (.parameter q)) 0 t.entries.toList := by
    unfold IndexedEntries.place?
    cases t.places? <;> rfl
  rw [IndexedEntries.insertHashable, hhashable, pure_bind, IndexedEntries.insert, hplace?]
  rcases placeFrom_parameter_cases ht q v 0 with ⟨hplace, hnone⟩ | ⟨k, hplace, hvalues⟩
  · rw [hplace, pure_bind]
    refine ⟨_, rfl, fun k hk => ?_, fun p => ?_⟩
    · rw [IndexedEntries.push, Entries.keys_push, List.mem_append, List.mem_singleton] at hk
      rcases hk with hk | rfl
      · exact ht k hk
      · exact ⟨q, rfl⟩
    · have hpush : environmentOf (t.push (.node (.parameter q), v)).entries.toList =
          environmentOf t.entries.toList ++ [(q, v)] := by
        rw [IndexedEntries.push, Array.toList_push, environmentOf, List.filterMap_append]
        rfl
      rw [hpush, Environment.get?, List.lookup_append, List.lookup_cons]
      by_cases hp : p = q
      · rw [hp, beq_self_eq_true, if_pos rfl, ← Environment.get?, hnone]
        rfl
      · rw [beq_eq_false_iff_ne.2 hp, if_neg hp]
        exact Option.or_none
  · rw [hplace, pure_bind]
    refine ⟨_, rfl, fun k hk => ?_, fun p => ?_⟩
    · rw [Entries.keys_setAt] at hk
      exact ht k hk
    · rw [← hvalues, Entries.setAt, Array.toList_modify, Nat.zero_add]

/-- To set the values of parameters one after the other gives each the last one. -/
theorem foldlM_insertHashable_values (pairs : List (Parameter × Value)) (t : IndexedEntries)
    (ht : ∀ k ∈ Entries.keys t.entries, ∃ p, k = .node (.parameter p)) :
    ∃ t', (pairs.map fun e => (Value.node (.parameter e.1), e.2)).foldlM
        IndexedEntries.insertHashable t = pure t' ∧
      ∀ p, (environmentOf t'.entries.toList).get? p =
        (pairs.reverse.lookup p).or ((environmentOf t.entries.toList).get? p) := by
  induction pairs generalizing t with
  | nil => exact ⟨t, rfl, fun _ => rfl⟩
  | cons e pairs ih =>
    obtain ⟨q, v⟩ := e
    obtain ⟨u, hinsert, hkeys, hvalue⟩ := insertHashable_parameter ht q v
    obtain ⟨t', hrun, hvalues⟩ := ih u hkeys
    refine ⟨t', ?_, fun p => ?_⟩
    · rw [List.map_cons, List.foldlM_cons, hinsert, pure_bind, hrun]
    · rw [hvalues, hvalue, List.reverse_cons, List.lookup_append, Option.or_assoc,
        List.lookup_cons]
      by_cases hp : p = q
      · rw [hp, beq_self_eq_true, if_pos rfl]
        rfl
      · rw [beq_eq_false_iff_ne.2 hp, if_neg hp]
        rfl

/-- A dictionary from the parameters of a function to its arguments binds what a call of it does: of
a parameter that is declared twice the last argument counts. -/
theorem exists_bindings (ps : List Parameter) (args : List Value) :
    ∃ bindings, Entries.ofList ((Node.declarations ps).zip args) = pure bindings ∧
      ∀ p, (environmentOf bindings).get? p = (Environment.extend [] ps args).get? p := by
  have hzip : (Node.declarations ps).zip args =
      (ps.zip args).map fun e => (Value.node (.parameter e.1), e.2) := by
    rw [Node.declarations, List.zip_map_left]
    rfl
  obtain ⟨t, hrun, hvalues⟩ := foldlM_insertHashable_values (ps.zip args) {} (by simp [Entries.keys])
  refine ⟨t.entries.toList, ?_, fun p => ?_⟩
  · rw [hzip, Entries.ofList, hrun, pure_bind]
  · rw [hvalues, Environment.extend, List.append_nil]
    exact Option.or_none

end Machine

end PredicateTree
