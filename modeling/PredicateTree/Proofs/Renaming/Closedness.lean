import PredicateTree.Proofs.Evaluation.Bindings
import PredicateTree.Proofs.Renaming.Composition
import PredicateTree.Proofs.Renaming.Occurrences

/-!
# Renaming keeps what is bound

A declaration is renamed along with the references to it, so what is bound in a tree is bound in the
renamed tree: only what free parameters are renamed to can be free there (`Node.Refers.of_renamed`),
and all of it is, if no two parameters of the tree are renamed to one (`Node.Refers.to_renamed`).
Composed predicates are therefore closed if both predicates are, whatever parameters they share and
however often one of them declares a parameter (`replacement_keeps_closed`).
-/

namespace PredicateTree

theorem exists_mem_flatten {α β : Type} {R : α → β → Prop} {ass : List (List α)}
    {bss : List (List β)} (h : List.Forall₂ (fun as bs => ∀ b ∈ bs, ∃ a ∈ as, R a b) ass bss) :
    ∀ b ∈ bss.flatten, ∃ a ∈ ass.flatten, R a b := by
  induction h with
  | nil => exact fun _ hb => nomatch hb
  | @cons as bs ass bss hhead _ ih =>
    intro b hb
    rw [List.flatten_cons, List.mem_append] at hb
    rcases hb with hb | hb
    · obtain ⟨a, ha, hab⟩ := hhead b hb
      exact ⟨a, by simp [ha], hab⟩
    · obtain ⟨a, ha, hab⟩ := ih b hb
      exact ⟨a, by rw [List.flatten_cons]; exact List.mem_append_right as ha, hab⟩

/-! ### Parameters of renamed trees -/

namespace Node

variable {ρ : Parameter → Parameter} {n r b : Node} {ns rs : List Node}
  {bs cs ps qs : List Parameter} {A : Parameter → Prop}

namespace Renamed

theorem exists_of_other (h : n.Renamed ρ r) (other : n.asParameter? = none)
    (hn : n.childNodes = .ok ns) : ∃ rs mark row, List.Forall₂ (Renamed ρ) ns rs ∧
      r = n.upon mark row (rs.map .node) := by
  cases h with
  | parameter => cases other
  | upon _ children each mark row =>
    cases hn.symm.trans children
    exact ⟨_, mark, row, each, rfl⟩

theorem asParameter?_eq (h : n.Renamed ρ r) : r.asParameter? = n.asParameter?.map ρ := by
  cases h with
  | parameter p => rfl
  | upon other _ _ mark row =>
    rw [other, asParameter?_of_kind (kind_upon _ mark row _) other]
    rfl

theorem parametersOf_eq (h : List.Forall₂ (Renamed ρ) ns rs) :
    parametersOf rs = (parametersOf ns).map ρ := by
  induction h with
  | nil => rfl
  | @cons k r ns rs h _ ih =>
    rw [parametersOf, parametersOf] at ih
    rw [parametersOf, parametersOf, List.filterMap_cons, List.filterMap_cons, h.asParameter?_eq]
    cases k.asParameter? with
    | none => exact ih
    | some p =>
      rw [Option.map_some, List.map_cons, ih]

end Renamed

/-- What a lambda binds is declared by one of its children. -/
theorem mem_of_mem_boundBy {p : Parameter} (h : p ∈ boundBy n ns) : Node.parameter p ∈ ns := by
  unfold boundBy at h
  split at h
  · obtain ⟨m, hm, hmp⟩ := List.mem_filterMap.1 h
    cases m with
    | parameter q =>
      cases hmp
      exact List.mem_of_mem_take hm
    | _ => cases hmp
  · cases h

namespace Refers

/-- What stands in a tree and in the renamed tree comes from children and their renamed copies, whose
bound parameters are renamed along. -/
theorem children_renamed (hr : n.Renamed ρ r) (other : n.asParameter? = none)
    (hn : n.childNodes = .ok ns) (hps : Refers (some bs) n ps) (hqs : Refers (some cs) r qs) :
    ∃ pss qss, ps = pss.flatten ∧ qs = qss.flatten ∧
      List.Forall₂ (fun ps qs => ∃ k ∈ ns, ∃ l, k.Renamed ρ l ∧
        Refers (some (boundBy n ns ++ bs)) k ps ∧
        Refers (some ((boundBy n ns).map ρ ++ cs)) l qs) pss qss := by
  obtain ⟨rs, mark, row, each, rfl⟩ := hr.exists_of_other other hn
  have hkind := kind_upon n mark row (rs.map .node)
  obtain ⟨pss, rfl, hpss⟩ := hps.children other hn
  obtain ⟨qss, rfl, hqss⟩ := hqs.children (asParameter?_of_kind hkind other)
    (childNodes_upon hn (each.imp fun _ _ h => h.fits) mark row)
  have hscope : List.Forall₂ (Renamed ρ) (scopeOf n ns) (scopeOf n rs) := by
    unfold scopeOf
    split
    · rw [each.length_eq]
      exact List.forall₂_drop _ each
    · exact each
  have hbound : boundBy n rs = (boundBy n ns).map ρ := by
    unfold boundBy
    split
    · rw [each.length_eq]
      exact Renamed.parametersOf_eq (List.forall₂_take _ each)
    · rfl
  rw [searched, scopeOf_of_kind hkind, boundWithin, Option.map_some, boundBy_of_kind hkind,
    hbound] at hqss
  have hboth : List.Forall₂ (fun l ps => ∃ k ∈ ns, k.Renamed ρ l ∧
      Refers (some (boundBy n ns ++ bs)) k ps) (scopeOf n rs) pss :=
    forall₂_of_both hscope hpss fun k hk l ps hkl hkp => ⟨k, mem_of_mem_scopeOf hk, hkl, hkp⟩
  refine ⟨pss, qss, rfl, rfl, forall₂_of_both hboth hqss fun l _ ps qs hlp hlq => ?_⟩
  obtain ⟨k, hk, hkl, hkp⟩ := hlp
  exact ⟨k, hk, l, hkl, hkp, hlq⟩

/-- Free in a renamed tree is only what free parameters are renamed to. -/
theorem of_renamed (h : n.WellFormed) (hr : n.Renamed ρ r) (hps : Refers (some bs) n ps)
    (hqs : Refers (some cs) r qs) (hbound : ∀ p ∈ bs, ρ p ∈ cs) : ∀ q ∈ qs, ∃ p ∈ ps, ρ p = q := by
  induction h generalizing r bs cs ps qs with
  | @intro n ns children _ below ih =>
    by_cases hother : n.asParameter? = none
    · obtain ⟨pss, qss, rfl, rfl, heach⟩ := children_renamed hr hother children hps hqs
      refine exists_mem_flatten (heach.imp fun ps qs ⟨k, hk, l, hkl, hkp, hlq⟩ => ?_)
      refine ih k hk hkl hkp hlq fun p hp => ?_
      rw [List.mem_append] at hp ⊢
      exact hp.imp List.mem_map_of_mem (hbound p)
    · cases hr with
      | upon other => exact absurd other hother
      | parameter p =>
        intro q hq
        rw [hqs.of_parameter, occurrence] at hq
        split at hq
        · cases hq
        · rename_i hp
          rw [hps.of_parameter, occurrence, if_neg fun h => hp (hbound p h)]
          exact ⟨p, List.mem_singleton_self p, (List.mem_singleton.1 hq).symm⟩

/-- What free parameters are renamed to is free, if no two parameters are renamed to one. -/
theorem to_renamed (h : n.All (Occurs A)) (hinj : ∀ p q, A p → A q → ρ p = ρ q → p = q)
    (hr : n.Renamed ρ r) (hps : Refers (some bs) n ps) (hqs : Refers (some cs) r qs)
    (hbound : ∀ p, A p → ρ p ∈ cs → p ∈ bs) : ∀ p ∈ ps, ∃ q ∈ qs, ρ p = q := by
  induction h generalizing r bs cs ps qs with
  | @intro n ns children holds below ih =>
    by_cases hother : n.asParameter? = none
    · obtain ⟨pss, qss, rfl, rfl, heach⟩ := children_renamed hr hother children hps hqs
      have hdeclared : ∀ p ∈ boundBy n ns, A p := fun p hp =>
        (below _ (mem_of_mem_boundBy hp)).holds p rfl
      refine exists_mem_flatten (R := fun q p => ρ p = q)
        (heach.flip.imp fun qs ps ⟨k, hk, l, hkl, hkp, hlq⟩ => ?_)
      refine ih k hk hkl hkp hlq fun p hA hp => ?_
      rw [List.mem_append] at hp ⊢
      refine hp.imp (fun hp => ?_) (hbound p hA)
      obtain ⟨q, hq, hqp⟩ := List.mem_map.1 hp
      rwa [← hinj q p (hdeclared q hq) hA hqp]
    · cases hr with
      | upon other => exact absurd other hother
      | parameter p =>
        intro q hq
        rw [hps.of_parameter, occurrence] at hq
        split at hq
        · cases hq
        · rename_i hp
          cases List.mem_singleton.1 hq
          rw [hqs.of_parameter, occurrence, if_neg fun h => hp (hbound p (holds p rfl) h)]
          exact ⟨_, List.mem_singleton_self _, rfl⟩

/-- A parameter is free in the body of a lambda only if it is declared or free in the lambda. -/
theorem of_lambda {mark row : Nat}
    (h : Refers (some bs) (.lambda mark row (declarations ps) (.node b)) qs) :
    Refers (some (ps ++ bs)) b qs := by
  obtain ⟨qss, rfl, each⟩ := h.children rfl (childNodes_lambda mark row ps b)
  rw [searched, scopeOf_lambda, boundWithin, Option.map_some, boundBy_lambda] at each
  cases each with
  | cons hb hrest =>
    cases hrest
    rwa [List.flatten_cons, List.flatten_nil, List.append_nil]

/-- Nothing is free in a lambda if nothing but what it declares is free in its body. -/
theorem lambda {mark row : Nat} (h : Refers (some (ps ++ bs)) b qs) :
    Refers (some bs) (.lambda mark row (declarations ps) (.node b)) qs := by
  have each : List.Forall₂ (Refers (some (ps ++ bs))) [b] [qs] := .cons h .nil
  have hlambda : Refers (some bs) (.lambda mark row (declarations ps) (.node b)) [qs].flatten := by
    refine .of_children rfl (childNodes_lambda mark row ps b) ?_
    rwa [searched, scopeOf_lambda, boundWithin, Option.map_some, boundBy_lambda]
  rwa [List.flatten_cons, List.flatten_nil, List.append_nil] at hlambda

/-- Nothing is free in a tree for which the query finds nothing. -/
theorem eq_nil (h : Refers (some []) n ps) (hn : n.WellFormed)
    (hfree : freeParameters (.node n) = pure []) : ps = [] := by
  have hps := Action.pure_injective ((h.freeParameters_eq hn).symm.trans hfree)
  refine List.eq_nil_iff_forall_not_mem.2 fun p hp => ?_
  have hmem := mem_distinct.2 hp
  rw [hps] at hmem
  cases hmem

end Refers

end Node

/-! ### Dictionaries from parameters to parameters -/

/-- What is declared has one of the arguments as its value. -/
theorem Environment.get?_extend_of_mem {ps : List Parameter} {args : List Value} {p : Parameter}
    (env : Environment) (hlen : args.length = ps.length) (hp : p ∈ ps) :
    ∃ v ∈ args, (env.extend ps args).get? p = some v := by
  rw [get?_extend hlen]
  cases hd : declarationOf ps p with
  | none => exact absurd hp (not_mem_of_declarationOf hd)
  | some i =>
    have hi : i < args.length := by
      rw [hlen]
      exact lt_of_declarationOf hd
    refine ⟨args[i], List.getElem_mem hi, ?_⟩
    rw [Option.map_some, List.getD_eq_getElem _ _ hi]
    rfl

namespace Substitution

theorem lookup_ofParameters {entries : List (Value × Value)}
    (h : ∀ e ∈ entries, e.2.parameter?.isSome) (q : Parameter) :
    (ofParameters entries).lookup q =
      ((Machine.environmentOf entries).get? q).bind Value.parameter? := by
  induction entries with
  | nil => rfl
  | cons e rest ih =>
    obtain ⟨old, new⟩ := e
    obtain ⟨p, hp⟩ := Option.isSome_iff_exists.1 (h _ List.mem_cons_self)
    simp only at hp
    have hrest := ih fun e he => h e (List.mem_cons_of_mem _ he)
    rw [ofParameters, Machine.environmentOf, List.filterMap_cons, List.filterMap_cons]
    rw [ofParameters, Machine.environmentOf] at hrest
    cases hold : old.parameter? with
    | none => simpa [hold] using hrest
    | some r =>
      simp only [hold, hp, Option.bind_some, Option.map_some, Environment.get?, List.lookup_cons]
      split
      · exact hp.symm
      · exact hrest

/-- A dictionary from parameters to parameters describes a substitution that replaces each of the
former by one of the latter, also where one of them is named twice. -/
theorem exists_of_declarations {ps qs : List Parameter} (hlen : ps.length = qs.length) :
    ∃ entries σ, Entries.ofList ((Node.declarations qs).zip (Node.declarations ps)) =
        pure entries ∧ ofEntries entries = pure σ ∧ ∀ q ∈ qs, σ.get q ∈ ps := by
  obtain ⟨entries, hentries, hbinds⟩ := Machine.exists_bindings qs (Node.declarations ps)
  have hvalues : ∀ e ∈ entries, ∃ p ∈ ps, e.2 = .node (.parameter p) := by
    intro e he
    obtain ⟨⟨v, w⟩, hpair, hw⟩ := value_of_mem_ofList hentries e he
    obtain ⟨p, hp, rfl⟩ := List.mem_map.1 (List.of_mem_zip hpair).2
    exact ⟨p, hp, hw.symm⟩
  have hparameters : ∀ e ∈ entries, e.2.parameter?.isSome := by
    intro e he
    obtain ⟨p, -, hp⟩ := hvalues e he
    rw [hp]
    rfl
  refine ⟨entries, ofParameters entries, hentries, ofEntries_eq hparameters, fun q hq => ?_⟩
  have hcount : (Node.declarations ps).length = qs.length := by
    rw [Node.declarations, List.length_map, hlen]
  obtain ⟨v, hv, hget⟩ := Environment.get?_extend_of_mem [] hcount hq
  obtain ⟨p, hp, rfl⟩ := List.mem_map.1 hv
  rw [get, lookup_ofParameters hparameters, hbinds, hget]
  exact hp

end Substitution

/-! ### Composed predicates -/

/-- In a composed lambda nothing is free if nothing but what it declares is free in either body. -/
theorem composed_closed {bf bg : Node} {ps : List Parameter} (mark row : Nat) (op : BinaryOp)
    (hf : bf.WellFormed) (hg : bg.WellFormed) (hffree : Node.Refers (some ps) bf [])
    (hgfree : Node.Refers (some ps) bg []) :
    freeParameters (.node (.lambda (mark + 1) row (Node.declarations ps)
      (.node (.binary mark op (.node bf) (.node bg) .bool)))) = pure [] := by
  have hh := composed_all mark row op ps hf hg (fun _ => trivial) trivial trivial
  have hbody : Node.Refers (some (ps ++ [])) (.binary mark op (.node bf) (.node bg) .bool)
      [[], []].flatten := by
    have hchildren : (Node.binary mark op (.node bf) (.node bg) .bool).childNodes =
      .ok [bf, bg] := rfl
    refine .of_children rfl hchildren ?_
    rw [List.append_nil]
    exact .cons hffree (.cons hgfree .nil)
  exact hbody.lambda.freeParameters_eq hh

/-- What is free in a tree with its parameters replaced is what free parameters are replaced by, and
all of that is free if no two parameters of the tree are replaced by one.  Composed predicates are
closed if both predicates are. -/
theorem replacement_keeps_closed (s : Session) (c : Caller) :
    (∀ (n : Node) (entries : List (Value × Value)), n.All (·.Older s) →
      (∀ e ∈ entries, e.2.parameter?.isSome) →
      ∃ n' t references free free',
        (Substitution.ofEntries entries >>= fun σ => replaceParameters σ (.node n)).run c s =
            (.done n', t) ∧
          parameterReferences (.node n) = pure references ∧
          freeParameters (.node n) = pure free ∧ freeParameters (.node n') = pure free' ∧
          (∀ q ∈ free', ∃ p ∈ free, (Substitution.ofParameters entries).get p = q) ∧
          ((∀ p ∈ references, ∀ q ∈ references, (Substitution.ofParameters entries).get p =
              (Substitution.ofParameters entries).get q → p = q) →
            ∀ p ∈ free, (Substitution.ofParameters entries).get p ∈ free')) ∧
    ∀ (settling : Bool) (fmark frow gmark grow : Nat) (ps qs : List Parameter) (f g bf bg : Node),
      f = .lambda fmark frow (Node.declarations ps) (.node bf) →
      g = .lambda gmark grow (Node.declarations qs) (.node bg) → ps.length = qs.length →
      f.All (·.Older s) → g.All (·.Older s) →
      freeParameters (.node f) = pure [] → freeParameters (.node g) = pure [] →
      ∃ h t, (composition settling (.node f) (.node g)).run c s = (.done h, t) ∧
        freeParameters (.node h) = pure [] := by
  constructor
  · intro n entries hold hentries
    obtain ⟨n', t, hrun, -, hn', hold'⟩ :=
      replaceParameters_run (Substitution.ofParameters entries) hold c
    obtain ⟨references, hreferences, hoccurs⟩ := Node.parameterReferences_eq hold.wellFormed
    obtain ⟨free, hfree⟩ := Node.Refers.exists_of_wellFormed hold.wellFormed (some [])
    obtain ⟨free', hfree'⟩ := Node.Refers.exists_of_wellFormed hold'.wellFormed (some [])
    refine ⟨n', t, references, distinct free, distinct free', ?_, hreferences,
      hfree.freeParameters_eq hold.wellFormed, hfree'.freeParameters_eq hold'.wellFormed, ?_, ?_⟩
    · rw [Substitution.ofEntries_eq hentries, pure_bind, hrun]
    · intro q hq
      obtain ⟨p, hp, hpq⟩ := hfree.of_renamed hold.wellFormed hn' hfree' (fun p hp => nomatch hp)
        q (mem_distinct.1 hq)
      exact ⟨p, mem_distinct.2 hp, hpq⟩
    · intro hinj p hp
      obtain ⟨q, hq, rfl⟩ := hfree.to_renamed hoccurs (fun p q hp hq => hinj p hp q hq) hn' hfree'
        (fun p _ hp => nomatch hp) p (mem_distinct.1 hp)
      exact mem_distinct.2 hq
  · intro settling fmark frow gmark grow ps qs f g bf bg hf hg hlen hfold hgold hffree hgfree
    subst hf hg
    obtain ⟨entries, σ, hentries, hσ, hmem⟩ := Substitution.exists_of_declarations hlen
    obtain ⟨mark, bg', t, -, hrun, hrenamed, hgold', -⟩ := composition_run_of_entries settling rfl
      rfl hlen hentries hσ hgold.of_lambda c
    have hwf := hgold'.wellFormed
    obtain ⟨ffree, hfs⟩ := Node.Refers.exists_of_wellFormed hfold.wellFormed (some [])
    obtain ⟨gfree, hgs⟩ := Node.Refers.exists_of_wellFormed hgold.wellFormed (some [])
    obtain ⟨free, hbg'⟩ := Node.Refers.exists_of_wellFormed hwf (some (ps ++ []))
    have hbf := hfs.of_lambda
    have hbg := hgs.of_lambda
    rw [hfs.eq_nil hfold.wellFormed hffree] at hbf
    rw [hgs.eq_nil hgold.wellFormed hgfree] at hbg
    have hnone : free = [] := by
      refine List.eq_nil_iff_forall_not_mem.2 fun q hq => ?_
      obtain ⟨p, hp, -⟩ := hbg.of_renamed hgold.of_lambda.wellFormed hrenamed hbg'
        (by simpa using hmem) q hq
      cases hp
    rw [hnone] at hbg'
    rw [List.append_nil] at hbf hbg'
    exact ⟨_, t, hrun, composed_closed mark frow _ hfold.of_lambda.wellFormed hwf hbf hbg'⟩

/-- Two parameters are exchanged around and below a declaration of one of them; and a predicate that
declares a parameter twice is composed with one in which a declaration catches a reference. -/
theorem replacement_keeps_closed_shared :
    let x : Parameter := ⟨1, "x", .object, 0⟩
    let y : Parameter := ⟨2, "y", .object, 0⟩
    let sum (mark : Nat) : Node :=
      .binary mark .add (.node (.parameter x)) (.node (.parameter y)) .object
    let n : Node := .lambda 1 2 (Node.declarations [x]) (.node (sum 3))
    let entries := [(Value.node (.parameter x), Value.node (.parameter y)),
      (.node (.parameter y), .node (.parameter x))]
    let f : Node := .lambda 4 5 (Node.declarations [x, x]) (.node (.parameter x))
    let g : Node := .lambda 6 7 (Node.declarations [y, x])
      (.node (.lambda 8 9 (Node.declarations [x]) (.node (sum 10))))
    let s : Session := { nextMark := 11 }
    let c := Machine.standard.caller
    (∃ n' t free', (Substitution.ofEntries entries >>= fun σ =>
        replaceParameters σ (.node n)).run c s = (.done n', t) ∧
      freeParameters (.node n') = pure free' ∧ x ∈ free' ∧ ∀ q ∈ free', q = x) ∧
    ∀ settling, ∃ h t, (composition settling (.node f) (.node g)).run c s = (.done h, t) ∧
      freeParameters (.node h) = pure [] := by
  intro x y sum n entries f g s c
  let P (m : Node) : Prop := m.Older s
  have hparameter (p : Parameter) : (Node.parameter p).All P :=
    .intro [] rfl (Node.older_parameter p) (by simp)
  have hsum (mark : Nat) (hmark : mark < 11) : (sum mark).All P :=
    .intro [.parameter x, .parameter y] rfl (fun _ => hmark) (by simp [hparameter])
  have hn : n.All P :=
    .intro [.parameter x, sum 3] rfl (fun _ => by decide) (by simp [hparameter, hsum])
  have hf : f.All P :=
    .intro [.parameter x, .parameter x, .parameter x] rfl (fun _ => by decide)
      (by simp [hparameter])
  have hinner : (Node.lambda 8 9 (Node.declarations [x]) (.node (sum 10))).All P :=
    .intro [.parameter x, sum 10] rfl (fun _ => by decide) (by simp [hparameter, hsum])
  have hg : g.All P :=
    .intro [.parameter y, .parameter x, _] rfl (fun _ => by decide) (by simp [hparameter, hinner])
  obtain ⟨hreplaced, hcomposed⟩ := replacement_keeps_closed s c
  constructor
  · obtain ⟨n', t, references, free, free', hrun, hreferences, hfree, hfree', hof, hto⟩ :=
      hreplaced n entries hn (by simp [entries, Value.parameter?, Node.asParameter?])
    have hwalk : walkLoop [n] [] = .ok [n, .parameter x, sum 3, .parameter x, .parameter y] := by
      cbv
    have hall : parameterReferences (.node n) = pure [x, x, y] := by
      have htree : (Value.node n).requireTree = pure n := rfl
      rw [parameterReferences, walk, htree, pure_bind, hwalk]
      rfl
    cases Action.pure_injective (hreferences.symm.trans hall)
    have hloop : freeLoop [(n, [])] [] = .ok [y] := by cbv
    obtain ⟨fs, hfs, hdistinct⟩ := Node.freeParameters_eq hn.wellFormed
    cases hloop.symm.trans hfs
    cases Action.pure_injective (hfree.symm.trans hdistinct)
    refine ⟨n', t, free', hrun, hfree', hto ?_ y (mem_distinct.2 (by simp)), fun q hq => ?_⟩
    · have hxy : (Substitution.ofParameters entries).get x ≠
          (Substitution.ofParameters entries).get y := by decide
      have hyx : (Substitution.ofParameters entries).get y ≠
          (Substitution.ofParameters entries).get x := hxy.symm
      simp [hxy, hyx]
    · obtain ⟨p, hp, rfl⟩ := hof q hq
      rw [List.mem_singleton.1 (mem_distinct.1 hp)]
      rfl
  · intro settling
    exact hcomposed settling 4 5 6 7 [x, x] [y, x] f g _ _ rfl rfl rfl hf hg
      (Node.freeParameters_of_closed hf.wellFormed (by cbv))
      (Node.freeParameters_of_closed hg.wellFormed (by cbv))

end PredicateTree
