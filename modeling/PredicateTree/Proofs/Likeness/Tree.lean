import PredicateTree.Proofs.Likeness.Basic

/-!
# Trees that run as others

`Node.Keeps ρ S n` says that renaming parameters by `ρ` keeps the scopes of the tree `n`: every
reference is resolved to the declaration that it was resolved to, and what is free lies in the scope
`S`.  `Node.RunsAs` says that the code of a tree matches that of another one where scopes are kept.
A node over children that run as the old ones runs as the old node (`Node.RunsAs.upon`).
-/

namespace PredicateTree

namespace Node

variable {K : Correspondence} {t : OperatorTable} {ρ : Parameter → Parameter} {n r : Node}
  {S S' : Parameter → Prop}

/-! ### Scopes -/

/-- Renaming keeps the scopes of a tree whose free parameters lie in `S`. -/
inductive Keeps (ρ : Parameter → Parameter) : (Parameter → Prop) → Node → Prop where
  | parameter {S : Parameter → Prop} {p : Parameter} (hp : S p) : Keeps ρ S (.parameter p)
  | lambda {S S' : Parameter → Prop} {mark row : Nat} {ps : List Parameter} {b : Node}
      (hscope : ∀ p, S' p → PredicateTree.Keeps ρ ps p ∧ (p ∉ ps → S p)) (hb : Keeps ρ S' b) :
      Keeps ρ S (.lambda mark row (declarations ps) (.node b))
  | other {S : Parameter → Prop} {n : Node} (hp : n.kind? ≠ some .parameter)
      (hl : n.kind? ≠ some .lambda) (ns : List Node) (children : n.childNodes = .ok ns)
      (each : ∀ m ∈ ns, Keeps ρ S m) : Keeps ρ S n

namespace Keeps

theorem of_parameter {p : Parameter} (h : (Node.parameter p).Keeps ρ S) : S p := by
  cases h with
  | parameter hp => exact hp
  | other hp => exact absurd rfl hp

theorem of_lambda {mark row : Nat} {ps : List Parameter} {b : Node}
    (h : (Node.lambda mark row (declarations ps) (.node b)).Keeps ρ S) :
    ∃ S', (∀ p, S' p → PredicateTree.Keeps ρ ps p ∧ (p ∉ ps → S p)) ∧ b.Keeps ρ S' := by
  generalize hn : Node.lambda mark row (declarations ps) (.node b) = n at h
  cases h with
  | parameter => cases hn
  | lambda hscope hb =>
    obtain ⟨-, -, hps, hbody⟩ := Node.lambda.inj hn
    cases Value.node.inj hbody
    have hdeclared := congrArg (List.filterMap (·.parameter?)) hps
    rw [filterMap_declarations, filterMap_declarations] at hdeclared
    subst hdeclared
    exact ⟨_, hscope, hb⟩
  | other _ hl =>
    subst hn
    exact absurd rfl hl

theorem each (h : n.Keeps ρ S) (hp : n.kind? ≠ some .parameter)
    (hl : n.kind? ≠ some .lambda) (ns : List Node) (hn : n.childNodes = .ok ns) :
    ∀ m ∈ ns, m.Keeps ρ S := by
  cases h with
  | parameter => exact absurd rfl hp
  | lambda => exact absurd rfl hl
  | other _ _ _ children each =>
    cases hn.symm.trans children
    exact each

theorem mono (h : n.Keeps ρ S) (imp : ∀ p, S p → S' p) : n.Keeps ρ S' := by
  induction h generalizing S' with
  | parameter hp => exact .parameter (imp _ hp)
  | lambda hscope hb => exact .lambda (fun p hp => ⟨(hscope p hp).1, imp p ∘ (hscope p hp).2⟩) hb
  | other hp hl ns children _ ih => exact .other hp hl ns children fun m hm => ih m hm imp

end Keeps

/-- A parameter that stands in a tree has a property. -/
def Occurs (A : Parameter → Prop) (n : Node) : Prop := ∀ p, n.asParameter? = some p → A p

/-- A renaming that is injective on what stands in a tree keeps its scopes. -/
theorem keeps_of_occurs {A : Parameter → Prop} (hinj : ∀ p q, A p → A q → ρ p = ρ q → p = q)
    (h : n.All (Occurs A)) : n.Keeps ρ A := by
  induction h with
  | @intro n ns children holds below ih =>
    by_cases hl : n.kind? = some .lambda
    · obtain ⟨mark, row, ps, b, rfl, rfl⟩ := lambda_of_childNodes children hl
      have hps : ∀ p ∈ ps, A p := fun p hp =>
        (below (.parameter p) (by simp [hp])).holds p rfl
      refine .lambda (fun p hA => ⟨?_, fun _ => hA⟩) (ih b (by simp))
      exact keeps_of_injective fun q hq => hinj q p (hps q hq) hA
    · cases n with
      | parameter p => exact .parameter (holds p rfl)
      | _ => exact .other (by simp [kind?]) hl ns children ih

/-- Without renaming all scopes are kept. -/
theorem keeps_id_of_wellFormed (h : n.WellFormed) : n.Keeps id fun _ => True :=
  keeps_of_occurs (fun _ _ _ _ heq => heq) (h.mono fun _ _ _ _ => trivial)

/-! ### Code -/

/-- A tree may run in the place of another: a parameter is what it is renamed to, and where scopes
are kept the code of the tree matches. -/
structure RunsAs (K : Correspondence) (t : OperatorTable) (ρ : Parameter → Parameter)
    (n r : Node) : Prop where
  declared : ∀ p, n = .parameter p → r = .parameter (ρ p)
  code : ∀ {S : Parameter → Prop}, n.Keeps ρ S → (n.code t).Matches K ρ S (r.code t)

namespace RunsAs

theorem parameter {p : Parameter} (hsite : K.site (.parameter p) (.parameter (ρ p))) :
    (Node.parameter p).RunsAs K t ρ (.parameter (ρ p)) := by
  refine ⟨fun q hq => ?_, fun hk => .reference hk.of_parameter hsite⟩
  cases hq
  rfl

theorem of_declarations {ps : List Parameter} {b : Node} {rs : List Node}
    (h : List.Forall₂ (RunsAs K t ρ) (ps.map .parameter ++ [b]) rs) :
    ∃ b', b.RunsAs K t ρ b' ∧ rs = (ps.map ρ).map .parameter ++ [b'] := by
  induction ps generalizing rs with
  | nil =>
    obtain ⟨b', _, hb, hnone, rfl⟩ := List.forall₂_cons_left_iff.1 h
    cases hnone
    exact ⟨b', hb, rfl⟩
  | cons p ps ih =>
    obtain ⟨q, _, hq, hrest, rfl⟩ := List.forall₂_cons_left_iff.1 h
    obtain ⟨b', hb, rfl⟩ := ih hrest
    cases hq.declared p rfl
    exact ⟨b', hb, rfl⟩

theorem matches_upon (ht : ∀ key, K.known (t key)) {ns rs : List Node}
    (hn : n.childNodes = .ok ns) (other : n.asParameter? = none) (hlabels : n.LabelsKnown K)
    (h : List.Forall₂ (RunsAs K t ρ) ns rs) (mark row : Nat)
    (hsite : K.site n (n.upon mark row (rs.map .node))) (hk : n.Keeps ρ S) :
    (n.code t).Matches K ρ S ((n.upon mark row (rs.map .node)).code t) := by
  cases hasChildren_of_childNodes hn with
  | literal =>
    obtain ⟨⟩ := h
    exact .constant hlabels
  | parameter => cases other
  | static =>
    obtain ⟨⟩ := h
    exact .readStatic hsite (hlabels.2 rfl) hlabels.1
  | member _ e =>
    obtain _ | ⟨he, ⟨⟩⟩ := h
    have hkeeps := hk.each (by simp [kind?]) (by simp [kind?]) [e] rfl
    exact .readMember hsite hlabels.1 (he.code (hkeeps e (by simp)))
  | unary _ op x =>
    obtain _ | ⟨hx, ⟨⟩⟩ := h
    have hkeeps := hk.each (by simp [kind?]) (by simp [kind?]) [x] rfl
    exact .applyUnary hsite (ht _) (hx.code (hkeeps x (by simp)))
  | binary _ op l r =>
    obtain _ | ⟨hl, _ | ⟨hr, ⟨⟩⟩⟩ := h
    have hkeeps := hk.each (by simp [kind?]) (by simp [kind?]) [l, r] rfl
    exact .ofBinary ht op hsite (hl.code (hkeeps l (by simp))) (hr.code (hkeeps r (by simp)))
  | conditional _ c x y =>
    obtain _ | ⟨hc, _ | ⟨hx, _ | ⟨hy, ⟨⟩⟩⟩⟩ := h
    have hkeeps := hk.each (by simp [kind?]) (by simp [kind?]) [c, x, y] rfl
    exact .choose hsite (hc.code (hkeeps c (by simp))) (hx.code (hkeeps x (by simp)))
      (hy.code (hkeeps y (by simp)))
  | call m f row' args type =>
    obtain ⟨f', args', hf, hargs, rfl⟩ := List.forall₂_cons_left_iff.1 h
    have hkeeps := hk.each (by simp [kind?]) (by simp [kind?]) _
      (childNodes_call m f row' args type)
    rw [List.map_cons, upon] at hsite ⊢
    rw [Node.code, Node.code, codes_nodes, codes_nodes]
    refine .call hsite (hf.code (hkeeps f (by simp))) ?_ ?_
    · rw [List.length_map, List.length_map, hargs.length_eq]
    · rw [List.zip_map]
      intro e he
      obtain ⟨⟨a, a'⟩, ha, rfl⟩ := List.mem_map.1 he
      have hmem : a ∈ args := (List.of_mem_zip ha).1
      exact (zip_of_forall₂ hargs _ ha).code (hkeeps a (by simp [hmem]))
  | lambda _ _ ps b =>
    obtain ⟨b', hb, rfl⟩ := of_declarations h
    obtain ⟨S', hscope, hkeeps⟩ := hk.of_lambda
    rw [map_node_lambda, upon, List.dropLast_concat, List.getLastD_concat, Node.code, Node.code,
      filterMap_declarations, filterMap_declarations]
    exact .abstraction hscope (hb.code hkeeps)

/-- A node over children that run as the old ones runs as the old node. -/
theorem upon (ht : ∀ key, K.known (t key)) {ns rs : List Node} (hn : n.childNodes = .ok ns)
    (other : n.asParameter? = none) (hlabels : n.LabelsKnown K)
    (h : List.Forall₂ (RunsAs K t ρ) ns rs) (mark row : Nat)
    (hsite : K.site n (n.upon mark row (rs.map .node))) :
    n.RunsAs K t ρ (n.upon mark row (rs.map .node)) := by
  refine ⟨fun p hp => ?_, fun hk => matches_upon ht hn other hlabels h mark row hsite hk⟩
  subst hp
  cases other

/-- A tree runs as itself. -/
theorem self (ht : ∀ key, K.known (t key)) (h : n.All fun m => m.LabelsKnown K ∧ K.site m m) :
    n.RunsAs K t id n := by
  induction h with
  | @intro n ns children holds _ ih =>
    obtain ⟨hlabels, hsite⟩ := holds
    cases hother : n.asParameter? with
    | some p =>
      cases n with
      | parameter q => exact .parameter hsite
      | _ => cases hother
    | none =>
      obtain ⟨row, hself⟩ := upon_self children
      have heach : List.Forall₂ (RunsAs K t id) ns ns := List.forall₂_same.2 ih
      have hupon := upon ht children hother hlabels heach n.mark row
      rw [hself] at hupon
      exact hupon hsite

end RunsAs

end Node

end PredicateTree
