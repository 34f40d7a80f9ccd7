import PredicateTree.Proofs.Renaming.Tree

/-!
# Occurrences of parameters

`Node.Refers bound n ps` lists the parameters that stand in a tree, in pre-order, by recursion: all of
them, declarations included, or those that are referred to and not bound.  The loops with a stack find
just these (`Node.Refers.parameterReferences_eq`, `Node.Refers.freeParameters_eq`), so what keeps the
lists of the recursion keeps what the queries answer.
-/

namespace PredicateTree

namespace Node

/-- A parameter where it stands: not listed if only free ones are and it is bound. -/
def occurrence (bound : Option (List Parameter)) (p : Parameter) : List Parameter :=
  match bound with
  | none => [p]
  | some bs => if p ∈ bs then [] else [p]

/-- The children of a node in which parameters are looked for. -/
def searched (bound : Option (List Parameter)) (n : Node) (ns : List Node) : List Node :=
  match bound with
  | none => ns
  | some _ => scopeOf n ns

/-- What is bound within a node. -/
def boundWithin (bound : Option (List Parameter)) (n : Node) (ns : List Node) :
    Option (List Parameter) := bound.map (boundBy n ns ++ ·)

/-- The parameters that stand in a tree, one after the other: all of them, or, where it is said which
ones are bound around the tree, the free ones. -/
inductive Refers : (bound : Option (List Parameter)) → Node → List Parameter → Prop where
  | parameter (bound : Option (List Parameter)) (p : Parameter) :
      Refers bound (.parameter p) (occurrence bound p)
  | other {bound : Option (List Parameter)} {n : Node} {ns : List Node}
      {pss : List (List Parameter)} (other : n.asParameter? = none)
      (children : n.childNodes = .ok ns) (length : (searched bound n ns).length = pss.length)
      (each : ∀ e ∈ (searched bound n ns).zip pss, Refers (boundWithin bound n ns) e.1 e.2) :
      Refers bound n pss.flatten

variable {bound : Option (List Parameter)} {n r : Node} {ns rs : List Node} {ps : List Parameter}

theorem mem_of_mem_searched {m : Node} (h : m ∈ searched bound n ns) : m ∈ ns := by
  cases bound with
  | none => exact h
  | some => exact mem_of_mem_scopeOf h

namespace Refers

theorem of_children {pss : List (List Parameter)} (hother : n.asParameter? = none)
    (hn : n.childNodes = .ok ns)
    (each : List.Forall₂ (Refers (boundWithin bound n ns)) (searched bound n ns) pss) :
    Refers bound n pss.flatten :=
  .other hother hn each.length_eq (zip_of_forall₂ each)

theorem children (h : Refers bound n ps) (hother : n.asParameter? = none)
    (hn : n.childNodes = .ok ns) : ∃ pss, ps = pss.flatten ∧
      List.Forall₂ (Refers (boundWithin bound n ns)) (searched bound n ns) pss := by
  cases h with
  | parameter => cases hother
  | other _ children length each =>
    cases hn.symm.trans children
    exact ⟨_, rfl, forall₂_of_zip length each⟩

theorem of_parameter {p : Parameter} (h : Refers bound (.parameter p) ps) :
    ps = occurrence bound p := by
  cases h with
  | parameter => rfl
  | other hother => cases hother

/-- The parameters of a well-formed tree can be listed. -/
theorem exists_of_wellFormed (h : n.WellFormed) (bound : Option (List Parameter)) :
    ∃ ps, Refers bound n ps := by
  induction h generalizing bound with
  | @intro n ns children _ _ ih =>
    cases hn : n.asParameter? with
    | some p =>
      cases n with
      | parameter p => exact ⟨_, .parameter bound p⟩
      | _ => cases hn
    | none =>
      have hall : ∀ ms : List Node, (∀ m ∈ ms, m ∈ ns) →
          ∃ pss, List.Forall₂ (Refers (boundWithin bound n ns)) ms pss := by
        intro ms hms
        induction ms with
        | nil => exact ⟨[], .nil⟩
        | cons m ms ihms =>
          obtain ⟨ps, hps⟩ := ih m (hms m List.mem_cons_self) (boundWithin bound n ns)
          obtain ⟨pss, hpss⟩ := ihms fun k hk => hms k (List.mem_cons_of_mem m hk)
          exact ⟨ps :: pss, .cons hps hpss⟩
      obtain ⟨pss, hpss⟩ := hall (searched bound n ns) fun m hm => mem_of_mem_searched hm
      exact ⟨_, .of_children hn children hpss⟩

/-! ### The loops -/

/-- The parameters of a tree are those of its pre-order. -/
theorem parametersOf_preorder (h : Refers none n ps) : parametersOf n.preorder = ps := by
  induction n using offspring_induction generalizing ps with
  | step n ih =>
    cases h with
    | parameter => exact congrArg parametersOf (preorder_of_leaf rfl)
    | @other _ _ ns pss other children length each =>
      rw [offspring_of_ok children] at ih
      have hbelow : List.Forall₂ (fun k ps => parametersOf k.preorder = ps) ns pss :=
        forall₂_of_zip length fun e he => ih e.1 (List.of_mem_zip he).1 (each e he)
      have hpss : ns.map (fun k => parametersOf k.preorder) = pss.map id :=
        map_eq_of_forall₂ hbelow fun _ _ h => h
      rw [parametersOf, preorder_of_ok children, List.filterMap_cons_none other,
        List.filterMap_flatMap]
      exact congrArg List.flatten (hpss.trans (List.map_id pss))

theorem of_freeLoop {stack : List (Node × List Parameter)} {free fs : List Parameter}
    {pss : List (List Parameter)} (h : freeLoop stack free = .ok fs)
    (hpss : List.Forall₂ (fun e => Refers (some e.2) e.1) stack pss) :
    fs = free.reverse ++ pss.flatten := by
  fun_induction freeLoop stack free generalizing pss with
  | case1 =>
    cases h
    cases hpss
    simp
  | case2 p bound rest free ih =>
    obtain ⟨ps, pss, hps, hrest, rfl⟩ := List.forall₂_cons_left_iff.1 hpss
    rw [ih h hrest, Refers.of_parameter hps]
    by_cases hp : p ∈ bound <;> simp [occurrence, hp]
  | case3 => cases h
  | case4 n bound rest free hparameter ns hn ih =>
    obtain ⟨ps, pss, hps, hrest, rfl⟩ := List.forall₂_cons_left_iff.1 hpss
    have hother : n.asParameter? = none := by
      cases n with
      | parameter p => exact (hparameter p rfl).elim
      | _ => rfl
    obtain ⟨qss, rfl, each⟩ := Refers.children hps hother hn
    have hscope : List.Forall₂ (fun e : Node × List Parameter => Refers (some e.2) e.1)
        ((scopeOf n ns).map (·, boundBy n ns ++ bound)) qss := List.forall₂_map_left_iff.2 each
    rw [ih h (List.rel_append hscope hrest)]
    simp

end Refers

theorem Refers.parameterReferences_eq (h : Refers none n ps) (hn : n.WellFormed) :
    parameterReferences (.node n) = pure ps := by
  rw [parameterReferences_preorder hn, h.parametersOf_preorder]

theorem Refers.freeParameters_eq (h : Refers (some []) n ps) (hn : n.WellFormed) :
    freeParameters (.node n) = pure (distinct ps) := by
  obtain ⟨fs, hfs, hfree⟩ := Node.freeParameters_eq hn
  rw [hfree, of_freeLoop hfs (.cons h .nil)]
  simp

/-! ### Trees with the same parameters -/

/-- The same parameters stand in two trees, in the same order, and the same ones are free. -/
structure RefersLike (n m : Node) : Prop where
  parameter : m.asParameter? = n.asParameter?
  refers : ∀ bound ps, Refers bound n ps → Refers bound m ps

theorem RefersLike.refl (n : Node) : n.RefersLike n := ⟨rfl, fun _ _ h => h⟩

theorem RefersLike.trans {m k : Node} (h : n.RefersLike m) (h' : m.RefersLike k) :
    n.RefersLike k :=
  ⟨h'.parameter.trans h.parameter, fun bound ps hps => h'.refers bound ps (h.refers bound ps hps)⟩

theorem parametersOf_eq {ms : List Node} (h : List.Forall₂ RefersLike ns ms) :
    parametersOf ms = parametersOf ns := by
  induction h with
  | nil => rfl
  | cons h _ ih =>
    rw [parametersOf, parametersOf, List.filterMap_cons, List.filterMap_cons, h.parameter]
    rw [parametersOf, parametersOf] at ih
    rw [ih]

theorem scopeOf_of_kind {m : Node} (h : m.kind? = n.kind?) (ns : List Node) :
    scopeOf m ns = scopeOf n ns := by
  by_cases hl : n.kind? = some .lambda
  · cases n with
    | lambda =>
      cases m with
      | lambda => rfl
      | _ => cases h
    | _ => cases hl
  · rw [scopeOf_of_ne hl, scopeOf_of_ne (h ▸ hl)]

theorem boundBy_of_kind {m : Node} (h : m.kind? = n.kind?) (ns : List Node) :
    boundBy m ns = boundBy n ns := by
  by_cases hl : n.kind? = some .lambda
  · cases n with
    | lambda =>
      cases m with
      | lambda => rfl
      | _ => cases h
    | _ => cases hl
  · rw [boundBy_of_ne hl, boundBy_of_ne (h ▸ hl)]

theorem kind_upon (n : Node) (mark row : Nat) (vs : List Value) :
    (n.upon mark row vs).kind? = n.kind? := by
  unfold upon
  split <;> rfl

theorem asParameter?_of_kind {m : Node} (h : m.kind? = n.kind?) (hn : n.asParameter? = none) :
    m.asParameter? = none := by
  cases m with
  | parameter =>
    cases n with
    | parameter => cases hn
    | _ => cases h
  | _ => rfl

/-- In nodes of one kind stand the same parameters if that is so of their children. -/
theorem RefersLike.of_children {m : Node} {ms : List Node} (kind : m.kind? = n.kind?)
    (hother : n.asParameter? = none) (hn : n.childNodes = .ok ns) (hm : m.childNodes = .ok ms)
    (each : List.Forall₂ RefersLike ns ms) : n.RefersLike m := by
  have hother' := asParameter?_of_kind kind hother
  refine ⟨hother'.trans hother.symm, fun bound ps h => ?_⟩
  obtain ⟨pss, rfl, hpss⟩ := h.children hother hn
  have hsearched : List.Forall₂ RefersLike (searched bound n ns) (searched bound m ms) := by
    cases bound with
    | none => exact each
    | some =>
      rw [searched, searched, scopeOf_of_kind kind]
      unfold scopeOf
      split
      · rw [each.length_eq]
        exact List.forall₂_drop _ each
      · exact each
  have hwithin : boundWithin bound m ms = boundWithin bound n ns := by
    have hbound : boundBy n ms = boundBy n ns := by
      unfold boundBy
      split
      · rw [each.length_eq]
        exact parametersOf_eq (List.forall₂_take _ each)
      · rfl
    rw [boundWithin, boundWithin, boundBy_of_kind kind, hbound]
  refine .of_children hother' hm ?_
  rw [hwithin]
  exact forall₂_of_both hsearched hpss fun _ _ _ _ hlike h => hlike.refers _ _ h

/-- A tree in which no parameter and no lambda stands. -/
def Closed (n : Node) : Prop :=
  n.All fun m => m.asParameter? = none ∧ m.kind? ≠ some .lambda

theorem Closed.refers (h : n.Closed) (hps : Refers bound n ps) : ps = [] := by
  induction h generalizing bound ps with
  | @intro n ns children holds below ih =>
    obtain ⟨pss, rfl, each⟩ := hps.children holds.1 children
    refine List.flatten_eq_nil_iff.2 (forall_of_forall₂ each fun k hk qs h => ?_)
    exact ih k (mem_of_mem_searched hk) h

/-- The queries for parameters answer the same on trees in which the same parameters stand. -/
theorem RefersLike.queries {m : Node} (h : n.RefersLike m) (hn : n.WellFormed)
    (hm : m.WellFormed) :
    parameterReferences (.node m) = parameterReferences (.node n) ∧
      freeParameters (.node m) = freeParameters (.node n) := by
  obtain ⟨ps, hps⟩ := Refers.exists_of_wellFormed hn none
  obtain ⟨fs, hfs⟩ := Refers.exists_of_wellFormed hn (some [])
  constructor
  · rw [hps.parameterReferences_eq hn, (h.refers none ps hps).parameterReferences_eq hm]
  · rw [hfs.freeParameters_eq hn, (h.refers (some []) fs hfs).freeParameters_eq hm]

end Node

end PredicateTree
