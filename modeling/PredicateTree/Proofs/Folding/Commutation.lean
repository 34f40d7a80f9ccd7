import PredicateTree.Proofs.Folding.Confluence
import PredicateTree.Proofs.Folding.Lockstep
import PredicateTree.Proofs.Renaming.Occurrences
import PredicateTree.Proofs.Renaming.Substitution

/-!
# Folding and renaming

A folding pass does not touch parameters.  Whatever it tries to fold is closed (`Node.Ground.closed`),
so it leaves the parameters of a tree as they stand, bound or free (`Node.PassedTo.refersLike`), and
records closed trees only (`Records.closed`).  So it does not matter whether a tree is first folded
and then renamed or the other way round, even if different parameters are renamed to one
(`Machine.foldConstants_commutes`).
-/

namespace PredicateTree

variable {M : Machine} {S : Sameness} {overrides : List (Value × Value)} {foldCalls : Bool}
  {s t u : Session} {n m r q : Node} {ns rs : List Node} {ρ : Parameter → Parameter}

/-! ### What is folded is closed -/

theorem Node.Ground.closed (h : n.Ground foldCalls) : n.Closed := by
  induction h with
  | literal => exact .intro [] rfl ⟨rfl, nofun⟩ (by simp)
  | @member _ e _ _ _ _ ih =>
    exact .intro [e] rfl ⟨rfl, nofun⟩ fun _ hm => List.mem_singleton.1 hm ▸ ih
  | @unary _ _ x _ _ ih =>
    exact .intro [x] rfl ⟨rfl, nofun⟩ fun _ hm => List.mem_singleton.1 hm ▸ ih
  | @binary _ _ l r _ _ _ ihl ihr =>
    exact .intro [l, r] rfl ⟨rfl, nofun⟩ (by simpa using ⟨ihl, ihr⟩)
  | @conditional _ c x y _ _ _ _ ihc ihx ihy =>
    exact .intro [c, x, y] rfl ⟨rfl, nofun⟩ (by simpa using ⟨ihc, ihx, ihy⟩)
  | @call _ _ f args _ _ _ _ ihf ihargs =>
    exact .intro _ (childNodes_call _ f _ args _) ⟨rfl, nofun⟩ (by simpa using ⟨ihf, ihargs⟩)

/-- In a literal stand the parameters of a closed tree: none. -/
theorem Node.Closed.refersLike {mark : Nat} {v : Value} {type : StaticType} (h : n.Closed) :
    n.RefersLike (.literal mark v type) := by
  refine ⟨h.holds.1.symm, fun bound ps hps => ?_⟩
  have hnone : Refers bound (.literal mark v type) ([] : List (List Parameter)).flatten := by
    refine .of_children rfl rfl ?_
    cases bound <;> exact .nil
  rwa [h.refers hps]

/-- What a pass made of a tree refers to the same parameters as the tree. -/
theorem Node.PassedTo.refersLike (hv : OperatorTable.Valid overrides)
    (h : n.PassedTo M S overrides foldCalls s r) : n.RefersLike r := by
  induction h with
  | @intro n r ns rs children length each mark row step ih =>
    have hall : List.Forall₂ RefersLike ns rs :=
      forall₂_of_zip length ih
    have hfits : List.Forall₂ Fits ns rs :=
      forall₂_of_zip length fun e he => (each e he).fits
    have hcurrent : n.RefersLike (n.upon mark row (rs.map .node)) := by
      cases hother : n.asParameter? with
      | some p =>
        cases n with
        | parameter p => exact .refl _
        | _ => cases hother
      | none =>
        exact .of_children (kind_upon n mark row _) hother children
          (childNodes_upon children hfits mark row) hall
    cases step with
    | kept | failed => exact hcurrent
    | folded fit _ present run =>
      obtain ⟨_, _, _, rfl, -⟩ := Machine.literal_of_fold present.wellFormed.1 fit hv run
      exact hcurrent.trans (ground_of_foldable present.wellFormed.1 fit).closed.refersLike

/-! ### What is recorded is closed -/

/-- Every recorded step tells of a closed tree that was replaced, and every node that was left in
place is closed. -/
def Records.closed : Records := fun s steps skipped =>
  (∀ step ∈ steps, ∃ address b, step = .object address ∧
    s.store.attribute? step "before" = some (.node b) ∧ b.Closed) ∧
  ∀ v ∈ skipped, ∃ b, v = .node b ∧ b.Closed

theorem Session.KeepsObjects.attribute? (h : s.KeepsObjects t) {address : Nat} {name : String}
    {v : Value} (hv : s.store.attribute? (.object address) name = some v) :
    t.store.attribute? (.object address) name = some v := by
  cases ho : s.store.objects[address]? with
  | none =>
    have hobject : s.store.object address = {} := by
      rw [Store.object, Array.getD_eq_getD_getElem?, ho]
      rfl
    rw [Store.attribute?, Store.attributes, hobject] at hv
    cases hv
  | some o =>
    have hobject : t.store.object address = s.store.object address := by
      rw [Store.object, Store.object, Array.getD_eq_getD_getElem?, Array.getD_eq_getD_getElem?, ho,
        h address o ho]
    rwa [Store.attribute?, Store.attributes, hobject]

theorem Records.closed_later {steps skipped : List Value} (h : Records.closed s steps skipped)
    (hst : s.KeepsObjects t) : Records.closed t steps skipped := by
  refine ⟨fun step hstep => ?_, h.2⟩
  obtain ⟨address, b, rfl, hb, hclosed⟩ := h.1 step hstep
  exact ⟨address, b, rfl, hst.attribute? hb, hclosed⟩

theorem Records.stand_closed (hkeeps : ∀ {s t}, S.later s t → s.KeepsObjects t) :
    Records.closed.Stand S foldCalls where
  later h hs := Records.closed_later h (hkeeps hs)
  step {s t steps skipped c n v step} hg h hrun := by
    obtain ⟨address, u, hdone, hnoted, hbefore⟩ := Machine.newFoldStep_run (.node n) v c s
    cases hdone.symm.trans hrun
    obtain ⟨hsteps, hskipped⟩ := Records.closed_later h hnoted.keepsObjects
    refine ⟨fun step hstep => ?_, hskipped⟩
    rcases List.mem_cons.1 hstep with rfl | hstep
    · exact ⟨address, n, rfl, hbefore, hg.closed⟩
    · exact hsteps step hstep
  skip hg h := by
    refine ⟨h.1, fun v hv => ?_⟩
    rcases List.mem_cons.1 hv with rfl | hv
    · exact ⟨_, rfl, hg.closed⟩
    · exact h.2 v hv

/-! ### Renamed trees -/

namespace Sameness.Kinship

/-- Parameters correspond to what they are renamed to, and names to themselves. -/
def renamed (S : Sameness) (ρ : Parameter → Parameter) : S.Kinship where
  parameter p q := q = ρ p
  name := (same S).name
  name_later := (same S).name_later

theorem Label.renamed (h : S.Label s t n) (hn : n.childNodes = .ok ns)
    (other : n.asParameter? = none) : (renamed S ρ).Label s t n n := by
  cases Label.of_same h hn with
  | agree h => exact .agree h
  | parameter => cases other

/-- A tree corresponds to its renamed copy. -/
theorem Akin.of_renamed (labels : n.All (S.Label s s)) (h : n.Renamed ρ m) :
    (renamed S ρ).Akin s s n m := by
  induction labels generalizing m with
  | @intro n ns children label below ih =>
    cases h with
    | parameter p => exact .intro (.parameter rfl) trivial trivial rfl rfl rfl (by simp)
    | @upon _ _ rs other children' each mark row =>
      cases children.symm.trans children'
      obtain ⟨row', hself⟩ := Node.upon_self children
      have hlabel := (Label.renamed (ρ := ρ) label children other).upon n.mark row' mark row
        (ns.map .node) (rs.map .node)
      rw [hself] at hlabel
      refine .intro hlabel label (by rwa [label_upon]) children
        (Node.childNodes_upon children (each.imp fun _ _ h => h.fits) mark row) each.length_eq
        fun e he => ?_
      exact ih _ (List.of_mem_zip he).1 (zip_of_forall₂ each _ he)

/-- What corresponds to a tree by a renaming is the same as the renamed copy of the tree. -/
theorem Akin.same_of_renamed (h : (renamed S ρ).Akin s t n q) (hr : n.Renamed ρ m) :
    (same S).Akin t s q m := by
  induction h generalizing m with
  | @intro n q ns qs label here there left right length each ih =>
    cases hr with
    | parameter p =>
      cases label with
      | agree h => cases h
      | parameter hpq =>
        cases hpq
        exact .intro (.parameter rfl) trivial trivial rfl rfl rfl (by simp)
    | @upon _ _ rs other children each' mark row =>
      cases left.symm.trans children
      have hlabel : (same S).Label t s q (n.upon mark row (rs.map .node)) := by
        cases label with
        | parameter => cases other
        | agree h =>
          refine .agree (Node.Agree.upon_right (h.symm (fun h => S.value_symm h) ?_) mark row _)
          rintro a _ ⟨rfl, ha⟩
          exact ⟨rfl, S.value_symm ha⟩
      have hsteps : List.Forall₂ (fun k l => ∀ r, k.Renamed ρ r → (same S).Akin t s l r) ns qs :=
        forall₂_of_zip length fun e he _ hr => ih e he hr
      have hall : List.Forall₂ ((same S).Akin t s) qs rs :=
        forall₂_of_both hsteps each' fun _ _ _ _ hstep hr => hstep _ hr
      exact .intro hlabel there (by rwa [label_upon]) right
        (Node.childNodes_upon children (each'.imp fun _ _ h => h.fits) mark row) hall.length_eq
        (zip_of_forall₂ hall)

end Sameness.Kinship

/-! ### Passes -/

namespace Machine

/-- Passes over a tree and over its renamed copy end the same. -/
theorem foldConstants_renamed (hP : M.Pure S overrides foldCalls)
    (hv : OperatorTable.Valid overrides) (hs : S.session s) (hold : n.All (·.Older s))
    (labels : n.All (S.Label s s)) (hst : S.later s t) (hm : n.Renamed ρ m)
    (hold' : m.All (·.Older t)) : S.Ends s t (fun f => f.isEvaluation = true ∧ false = true)
      (fun u u' a b => (Sameness.Kinship.renamed S ρ).Akin u u' a.1 b.1)
      ((M.foldConstants ⟨false, foldCalls, overrides⟩ (.node n)).run M.caller s)
      ((M.foldConstants ⟨false, foldCalls, overrides⟩ (.node m)).run M.caller t) := by
  let options : FoldOptions := ⟨false, foldCalls, overrides⟩
  have hpure : M.Pure S options.overrides options.foldCalls := hP
  have hreads : (Sameness.Kinship.renamed S ρ).Reads M.host := hP.host.reads
  have hakin := (Sameness.Kinship.Akin.of_renamed labels hm).later (S.later_refl s) hst
  exact foldConstants_ends hpure hreads hv hs (S.session_later hs hst) hakin hold hold'

end Machine

end PredicateTree
