import PredicateTree.Proofs.Renaming.Closedness

/-!
# Bracketings of predicates

A chain of predicates is composed two by two, in one of many orders (`Bracketing`).  Whatever the
order, the body that comes out joins the bodies of the predicates, each of them renamed once
(`Bracketing.Joined`): that the parts on the right are renamed again and again comes to one
renaming, because renamings compose (`Node.Renamed.comp`).  Each of these renamings gives the
parameters of the first predicate for those of its own one and leaves alone what none of them
declares, so it keeps the scopes of a closed predicate in which no function declares such a
parameter (`Node.Predicate.keeps`).
-/

namespace PredicateTree

/-! ### Renamings after one another -/

namespace Node

variable {ρ σ : Parameter → Parameter} {n r k : Node} {ns rs : List Node} {s : Session}
  {bs ps qs tops : List Parameter} {arity : Nat}

namespace Renamed

/-- A tree that is renamed twice is renamed by both renamings at once. -/
theorem comp (h : n.WellFormed) (hr : n.Renamed ρ r) (hk : r.Renamed σ k) :
    n.Renamed (σ ∘ ρ) k := by
  induction h generalizing r k with
  | @intro n ns children _ _ ih =>
    by_cases hother : n.asParameter? = none
    · obtain ⟨rs, mark, row, hrs, rfl⟩ := hr.exists_of_other hother children
      have hfits := hrs.imp fun _ _ h => h.fits
      obtain ⟨ks, mark', row', hks, rfl⟩ := hk.exists_of_other
        (asParameter?_of_kind (kind_upon n mark row _) hother)
        (childNodes_upon children hfits mark row)
      have hsteps : List.Forall₂ (fun k r => ∀ l, r.Renamed σ l → k.Renamed (σ ∘ ρ) l) ns rs :=
        forall₂_of_zip hrs.length_eq fun e he _ hl =>
          ih e.1 (List.of_mem_zip he).1 (zip_of_forall₂ hrs e he) hl
      have hboth : List.Forall₂ (Renamed (σ ∘ ρ)) ns ks :=
        forall₂_of_both hsteps.flip hks fun _ _ _ _ hstep hl => hstep _ hl
      rw [upon_upon children (.of_fits children hfits)
        (.of_fits children (hboth.imp fun _ _ h => h.fits))]
      exact .upon hother children hboth mark' row'
    · cases hr with
      | upon other => exact absurd other hother
      | parameter p =>
        cases hk with
        | parameter => exact .parameter p
        | upon other => cases other

/-- Without renaming a tree is itself. -/
theorem self (h : n.WellFormed) : n.Renamed id n := by
  induction h with
  | @intro n ns children _ _ ih =>
    by_cases hother : n.asParameter? = none
    · obtain ⟨row, hself⟩ := upon_self children
      have hupon := upon hother children (List.forall₂_same.2 ih) n.mark row
      rwa [hself] at hupon
    · cases n with
      | parameter p => exact .parameter p
      | _ => exact absurd rfl hother

end Renamed

/-! ### Predicates -/

/-- The parameters that a lambda declares. -/
def declared : Node → List Parameter
  | .lambda _ _ vs _ => vs.filterMap (·.parameter?)
  | _ => []

theorem declared_lambda (mark row : Nat) (ps : List Parameter) (b : Value) :
    (Node.lambda mark row (declarations ps) b).declared = ps := filterMap_declarations ps

/-- A closed predicate over distinct parameters, in whose body no function declares one of certain
parameters. -/
inductive Predicate (arity : Nat) (tops : List Parameter) : Node → Prop where
  | intro {mark row : Nat} {qs : List Parameter} {b : Node} (nodup : qs.Nodup)
      (length : qs.length = arity) (among : ∀ q ∈ qs, q ∈ tops)
      (closed : freeParameters (.node (.lambda mark row (declarations qs) (.node b))) = pure [])
      (apart : b.All fun m => ∀ p ∈ m.declared, p ∉ tops) :
      Predicate arity tops (.lambda mark row (declarations qs) (.node b))

theorem Predicate.length_declared (h : n.Predicate arity tops) : n.declared.length = arity := by
  cases h with
  | intro _ length => rw [declared_lambda, length]

/-- If nothing is free in a tree, every parameter in it is bound around it or declared in it. -/
theorem occurs_of_closed (h : n.All fun m => ∀ p ∈ m.declared, p ∉ tops)
    (hfree : Refers (some bs) n []) : n.All (Occurs fun p => p ∈ bs ∨ p ∉ tops) := by
  induction h generalizing bs with
  | @intro n ns children holds below ih =>
    by_cases hl : n.kind? = some .lambda
    · obtain ⟨mark, row, ps, b, rfl, rfl⟩ := lambda_of_childNodes children hl
      rw [declared_lambda] at holds
      refine .intro _ children nofun fun m hm => ?_
      rcases List.mem_append.1 hm with hm | hm
      · obtain ⟨p, hp, rfl⟩ := List.mem_map.1 hm
        refine .intro [] rfl (fun q hq => ?_) (by simp)
        cases hq
        exact .inr (holds p hp)
      · rw [List.mem_singleton.1 hm]
        have hb := ih b (List.mem_append_right _ (List.mem_singleton_self b)) hfree.of_lambda
        refine hb.mono fun k hk p hp => ?_
        rcases hk p hp with hbound | hnot
        · rcases List.mem_append.1 hbound with hp | hp
          · exact .inr (holds p hp)
          · exact .inl hp
        · exact .inr hnot
    · by_cases hother : n.asParameter? = none
      · obtain ⟨pss, hnone, each⟩ := hfree.children hother children
        rw [searched, boundWithin, scopeOf_of_ne hl, Option.map_some, boundBy_of_ne hl,
          List.nil_append] at each
        have hnil := List.flatten_eq_nil_iff.1 hnone.symm
        have hsubtrees : List.Forall₂ (fun _ m => m.All (Occurs fun p => p ∈ bs ∨ p ∉ tops))
            pss ns := forall₂_of_zip each.length_eq.symm fun e he => by
          have hmem := List.of_mem_zip he
          have hfree := zip_of_forall₂ each.flip e he
          rw [hnil e.1 hmem.1] at hfree
          exact ih e.2 hmem.2 hfree
        refine .intro ns children (fun p hp => ?_) (forall_of_forall₂ hsubtrees fun _ _ _ h => h)
        cases hother.symm.trans hp
      · cases n with
        | parameter p =>
          have hbound := hfree.of_parameter
          refine .intro [] rfl (fun q hq => ?_) (by simp)
          cases hq
          by_cases hp : p ∈ bs
          · exact .inl hp
          · rw [occurrence, if_neg hp] at hbound
            cases hbound
        | _ => exact absurd rfl hother

/-- A renaming of the parameters of a closed predicate to other ones keeps its scopes, if it moves
none but those that no function in the body declares. -/
theorem Predicate.keeps (hn : n.Predicate arity tops) (hwf : n.WellFormed) (hps : ps.Nodup)
    (among : ∀ p ∈ ps, p ∈ tops) (moved : n.declared.map ρ = ps)
    (kept : ∀ p, p ∉ tops → ρ p = p) : ∃ S, n.Keeps ρ S := by
  cases hn with
  | @intro mark row qs b nodup _ _ closed apart =>
    rw [declared_lambda] at moved
    obtain ⟨fs, hfs⟩ := Refers.exists_of_wellFormed hwf (some [])
    cases hfs.eq_nil hwf closed
    have hbody := occurs_of_closed apart hfs.of_lambda
    rw [List.append_nil] at hbody
    refine ⟨_, keeps_of_occurs (A := fun p => p ∈ qs ∨ p ∉ tops) ?_ ?_⟩
    · have hto : ∀ p ∈ qs, ρ p ∈ tops := fun p hp =>
        among _ (moved ▸ List.mem_map_of_mem hp)
      have hinj : ∀ p ∈ qs, ∀ q ∈ qs, ρ p = ρ q → p = q := fun p hp q hq heq =>
        List.inj_on_of_nodup_map (moved ▸ hps) hp hq heq
      rintro p q (hp | hp) (hq | hq) heq
      · exact hinj p hp q hq heq
      · rw [kept q hq] at heq
        exact absurd (heq ▸ hto p hp) hq
      · rw [kept p hp] at heq
        exact absurd (heq ▸ hto q hq) hp
      · rwa [kept p hp, kept q hq] at heq
    · refine .intro _ (childNodes_lambda mark row qs b) nofun fun m hm => ?_
      rcases List.mem_append.1 hm with hm | hm
      · obtain ⟨p, hp, rfl⟩ := List.mem_map.1 hm
        refine .intro [] rfl (fun q hq => ?_) (by simp)
        cases hq
        exact .inl hp
      · rwa [List.mem_singleton.1 hm]

end Node

theorem Substitution.get_of_not_mem {ps qs : List Parameter} {p : Parameter} (h : p ∉ qs) :
    Substitution.get (qs.zip ps) p = p := by
  have hnone : (qs.zip ps).lookup p = none := List.lookup_eq_none_iff.2 fun e he =>
    bne_iff_ne.2 fun heq => h (heq ▸ (List.of_mem_zip he).1)
  rw [get, hnone]
  rfl

/-! ### Bracketings -/

/-- An order in which predicates are composed two by two. -/
inductive Bracketing where
  | predicate (f : Node)
  | join (left right : Bracketing)

namespace Bracketing

/-- The predicates, from left to right. -/
def predicates : Bracketing → List Node
  | predicate f => [f]
  | join left right => left.predicates ++ right.predicates

/-- The parameters of the first predicate. -/
def parameters : Bracketing → List Parameter
  | predicate f => f.declared
  | join left _ => left.parameters

/-- Composes predicates in an order. -/
def combined (settling : Bool) : Bracketing → Action Node
  | predicate f => pure f
  | join left right => do
    let f ← left.combined settling
    let g ← right.combined settling
    composition settling (.node f) (.node g)

/-- A body over the parameters `ps` that joins the bodies of predicates, each of them renamed. -/
inductive Joined (settling : Bool) (tops ps : List Parameter) : Bracketing → Node → Prop where
  | predicate {mark row : Nat} {qs : List Parameter} {b body : Node}
      {ρ : Parameter → Parameter} (renamed : b.Renamed ρ body) (moved : qs.map ρ = ps)
      (kept : ∀ p, p ∉ tops → ρ p = p) :
      Joined settling tops ps (.predicate (.lambda mark row (Node.declarations qs) (.node b))) body
  | join {left right : Bracketing} {l r : Node} (hl : Joined settling tops ps left l)
      (hr : Joined settling tops ps right r) (mark : Nat) :
      Joined settling tops ps (.join left right)
        (.binary mark (joinOp settling) (.node l) (.node r) .bool)

variable {settling : Bool} {tops ps : List Parameter} {b : Bracketing} {body body' : Node}
  {arity : Nat} {s : Session}

/-- A body that is renamed joins the bodies of the same predicates. -/
theorem Joined.renamed (h : Joined settling tops ps b body)
    (hwf : ∀ f ∈ b.predicates, f.WellFormed) {σ : Parameter → Parameter}
    (hrenamed : body.Renamed σ body') (kept : ∀ p, p ∉ tops → σ p = p) :
    Joined settling tops (ps.map σ) b body' := by
  induction h generalizing body' with
  | predicate renamed moved kept' =>
    have hb := (hwf _ (List.mem_singleton_self _)).of_lambda
    refine .predicate (renamed.comp hb hrenamed) (by rw [← moved, List.map_map]) fun p hp => ?_
    rw [Function.comp_apply, kept' p hp, kept p hp]
  | @join _ _ l r _ _ mark ihl ihr =>
    have hchildren : (Node.binary mark (joinOp settling) (.node l) (.node r) .bool).childNodes =
      .ok [l, r] := rfl
    obtain ⟨_, mark', row', each, rfl⟩ := hrenamed.exists_of_other rfl hchildren
    obtain _ | ⟨hl, _ | ⟨hr, ⟨⟩⟩⟩ := each
    exact .join (ihl (fun f hf => hwf f (List.mem_append_left _ hf)) hl)
      (ihr (fun f hf => hwf f (List.mem_append_right _ hf)) hr) mark'

theorem Joined.owned (h : Joined settling tops ps b body)
    (howned : ∀ f ∈ b.predicates, f.All (·.isOwned)) : body.All (·.isOwned) := by
  induction h with
  | predicate renamed => exact renamed.owned (howned _ (List.mem_singleton_self _)).of_lambda
  | join _ _ mark ihl ihr =>
    have hl := ihl fun f hf => howned f (List.mem_append_left _ hf)
    have hr := ihr fun f hf => howned f (List.mem_append_right _ hf)
    exact .intro [_, _] rfl rfl (by simp [hl, hr])

/-- Predicates of one arity can be composed in any order, and the body that comes out joins
theirs. -/
theorem combined_run (settling : Bool) (b : Bracketing)
    (h : ∀ f ∈ b.predicates, f.Predicate arity tops ∧ f.All (·.Older s)) (c : Caller) :
    ∃ mark row body t, (b.combined settling).run c s =
        (.done (.lambda mark row (Node.declarations b.parameters) (.node body)), t) ∧
      s.nextMark ≤ t.nextMark ∧ (∀ l r, b = .join l r → s.nextMark ≤ mark) ∧
      (Node.lambda mark row (Node.declarations b.parameters) (.node body)).All (·.Older t) ∧
      (b.parameters.Nodup ∧ b.parameters.length = arity ∧ ∀ p ∈ b.parameters, p ∈ tops) ∧
      Joined settling tops b.parameters b body := by
  induction b generalizing s with
  | predicate f =>
    obtain ⟨hf, hold⟩ := h f (List.mem_singleton_self f)
    cases hf with
    | @intro mark row qs b nodup length among closed apart =>
      rw [parameters, Node.declared_lambda]
      refine ⟨mark, row, b, s, rfl, Nat.le_refl _, nofun, hold, ⟨nodup, length, among⟩, ?_⟩
      exact .predicate (.self hold.of_lambda.wellFormed) (List.map_id qs) fun _ _ => rfl
  | join left right ihl ihr =>
    obtain ⟨mark, row, l, t, hl, hst, -, hlold, ⟨hlnodup, hllen, hltops⟩, hljoined⟩ :=
      ihl fun f hf => h f (List.mem_append_left _ hf)
    obtain ⟨mark', row', r, u, hr, htu, -, hrold, ⟨hrnodup, hrlen, hrtops⟩, hrjoined⟩ :=
      ihr (s := t) fun f hf => by
        obtain ⟨hf, hold⟩ := h f (List.mem_append_right _ hf)
        exact ⟨hf, hold.mono fun _ h => h.mono hst⟩
    have hlen := hllen.trans hrlen.symm
    obtain ⟨new, r', v, huv, hrun, hrenamed, hr'old, hnew⟩ := composition_run
      (f := .lambda mark row (Node.declarations left.parameters) (.node l))
      (g := .lambda mark' row' (Node.declarations right.parameters) (.node r)) settling rfl rfl
      hrnodup hlen hrold.of_lambda c
    have hold : t.nextMark ≤ v.nextMark := by omega
    refine ⟨new + 1, row, .binary new (joinOp settling) (.node l) (.node r') .bool, v, ?_,
      by omega, fun _ _ _ => by omega, ?_, ⟨hlnodup, hllen, hltops⟩, ?_⟩
    · rw [combined, Action.run_bind_done hl, Action.run_bind_done hr, hrun, parameters]
    · exact composed_all new row (joinOp settling) left.parameters
        (hlold.of_lambda.mono fun _ h => h.mono hold) hr'old (fun p => Node.older_parameter p)
        (fun _ => by change new < _; omega) (fun _ => hnew)
    · have hjoined := hrjoined.renamed (fun f hf =>
        (h f (List.mem_append_right _ hf)).2.wellFormed) hrenamed
        fun p hp => Substitution.get_of_not_mem fun hp' => hp (hrtops p hp')
      rw [map_get_zip hrnodup hlen] at hjoined
      exact .join hljoined hjoined new

end Bracketing

end PredicateTree
