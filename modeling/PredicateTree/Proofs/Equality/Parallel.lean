import PredicateTree.Proofs.Accord.Run
import PredicateTree.Proofs.Equality.Labelling
import PredicateTree.Proofs.Purity.Kinship
import PredicateTree.Proofs.Renaming.Occurrences
import PredicateTree.Proofs.Renaming.Substitution

/-!
# Equal trees are parallel

Trees that structural equality finds equal have one shape, and whatever they hold compares equal
(`Labelling.parallel`).  Where it was enough that two nodes are the same thing, they are taken apart
after all.  What the operations on trees see of parallel trees is the same: they refer to the same
parameters (`Node.Parallel.refersLike`), their renamed copies are equal (`Node.Parallel.renamed`), they
lack owners at the same places (`Node.Parallel.ownerless`), and they correspond wherever equal values
are the same (`Node.Parallel.akin`).
-/

namespace PredicateTree

/-! ### Labels -/

/-- What is the same thing compares equal. -/
theorem Value.same_of_identical {v w : Value} (h : v.identical w = true) : v.same w = pure true := by
  have hsettled : settled? false v w = some (pure true) := by
    unfold settled?
    split
    · rw [(Bool.and_eq_true_iff.1 h).2]
    · rw [(Bool.and_eq_true_iff.1 h).2]
    · exact if_pos h
  rw [same, sameBy.eq_def, hsettled]

namespace Node.Agree

variable {R N R' N' : Value → Value → Prop} {n m : Node}

theorem mono (h : n.Agree R N m) (hR : ∀ {v w}, R v w → R' v w) (hN : ∀ {v w}, N v w → N' v w) :
    n.Agree R' N' m := by
  cases h with
  | literal value => exact .literal (hR value)
  | member name owner => exact .member (hN name) owner
  | _ => constructor

theorem kind_eq (h : n.Agree R N m) : m.kind? = n.kind? := by
  cases h <;> rfl

theorem asParameter?_eq (h : n.Agree R N m) : n.asParameter? = none ∧ m.asParameter? = none := by
  cases h <;> exact ⟨rfl, rfl⟩

end Node.Agree

theorem Node.Equal.mono {R N R' N' : Value → Value → Prop} {n m : Node} (h : n.Equal R N m)
    (hR : ∀ {v w}, R v w → R' v w) (hN : ∀ {v w}, N v w → N' v w) : n.Equal R' N' m := by
  induction h with
  | identical h => exact .identical h
  | agree label left right length _ ih => exact .agree (label.mono hR hN) left right length ih

namespace Labelling

variable {c : Caller} (K : Labelling c) (node : Node → Prop) {n m : Node} {v w : Value} {s : Session}

/-- A node is one of those that there are, and what it holds besides its children is compared where
it holds something. -/
def Keeps (n : Node) : Prop :=
  node n ∧ match n with
  | .literal _ v _ => K.value v
  | .member _ e name owner _ => K.name name ∧ (e = .absent → K.value owner)
  | _ => True

/-- Nodes stand for one another if they are structurally equal whenever they are compared, and values
and names if they are equal. -/
def atoms : Atoms where
  site n m := node n ∧ node m ∧
    ∀ s, K.session s → (structurallyEqual (.node n) (.node m)).Affirms c s
  constant v w := K.value v ∧ K.value w ∧ K.equal v w
  name a b := K.name a ∧ K.name b ∧ K.equalNames a b

variable {K node}

theorem Keeps.holds (h : K.Keeps node n) : K.Holds n := by
  cases n with
  | literal => exact h.2
  | member => exact h.2.1
  | _ => trivial

theorem equal_of_identical (hs : K.session s) (hv : K.value v) (hw : K.value w)
    (h : v.identical w = true) : K.equal v w := by
  refine ((K.same hv hw).affirms_iff hs).1 ⟨s, ?_⟩
  rw [Value.same_of_identical h]
  rfl

section

variable (names : ∀ {v}, K.name v → K.equalNames v v) (hs : K.session s)

include names hs

theorem Keeps.stands (h : K.Keeps node n) : n.Stands (K.atoms node) := by
  obtain ⟨hnode, hheld⟩ := h
  refine ⟨⟨hnode, hnode, fun u _ => ⟨u, ?_⟩⟩, ?_⟩
  · rw [structurallyEqual_of_identical n.identical_self]
    rfl
  · cases n with
    | literal mark v type =>
      exact ⟨hheld, hheld, equal_of_identical hs hheld hheld v.identical_self⟩
    | member mark e name owner type =>
      refine ⟨⟨hheld.1, hheld.1, names hheld.1⟩, fun he => ?_⟩
      have howner := hheld.2 he
      exact ⟨howner, howner, equal_of_identical hs howner howner owner.identical_self⟩
    | _ => trivial

omit names hs in
theorem atoms_agree (hn : K.Keeps node n) (hm : K.Keeps node m)
    (h : n.Agree K.equal K.equalNames m) :
    n.Agree (K.atoms node).constant (K.atoms node).name m := by
  cases h with
  | literal value => exact .literal ⟨hn.2, hm.2, value⟩
  | member name owner => exact .member ⟨hn.2.1, hm.2.1, name⟩ owner
  | _ => constructor

omit names in
theorem atoms_owners (hn : K.Keeps node n) (hm : K.Keeps node m)
    (h : n.Agree K.equal K.equalNames m) : n.OwnersStand (K.atoms node) m := by
  cases h with
  | @member _ _ e e' _ _ o q _ name owner =>
    cases e with
    | absent =>
      cases e' with
      | absent =>
        exact ⟨hn.2.2 rfl, hm.2.2 rfl, equal_of_identical hs (hn.2.2 rfl) (hm.2.2 rfl) owner⟩
      | _ => trivial
    | _ => trivial
  | _ => trivial

/-- Equal trees are parallel, if nodes are told apart by what they are. -/
theorem parallel (node_eq : ∀ {n m}, node n → node m → n.identical m = true → n = m)
    (hn : n.All (K.Keeps node)) (hm : m.All (K.Keeps node)) (h : n.Equal K.equal K.equalNames m) :
    n.Parallel (K.atoms node) m := by
  induction h with
  | identical h =>
    -- Nothing was compared below, but there is only one tree.
    cases node_eq hn.holds.1 hm.holds.1 h
    exact .self (hn.mono fun _ => Keeps.stands names hs)
  | @agree n m ns ms label left right length each ih =>
    have hanswers := K.structurallyEqual_answers (hn.mono fun _ => Keeps.holds)
      (hm.mono fun _ => Keeps.holds)
    have hsite : (K.atoms node).site n m := ⟨hn.holds.1, hm.holds.1, fun u hu =>
      (hanswers.affirms_iff hu).2 (.agree label left right length each)⟩
    refine .agree hsite (atoms_agree hn.holds hm.holds label)
      (atoms_owners hs hn.holds hm.holds label) left right length fun e he => ?_
    have hmem := List.of_mem_zip he
    exact ih e he (hn.of_childNodes left hmem.1) (hm.of_childNodes right hmem.2)

end

end Labelling

/-! ### Parameters -/

namespace Node.Parallel

variable {A : Atoms} {ρ : Parameter → Parameter} {n m n' m' : Node} {ns ms : List Node}

/-- Parallel trees refer to the same parameters. -/
theorem refersLike (h : n.Parallel A m) : n.RefersLike m := by
  induction h with
  | parameter => exact .refl _
  | agree _ label _ left right length _ ih =>
    exact .of_children label.kind_eq label.asParameter?_eq.1 left right (forall₂_of_zip length ih)

/-- Renamed copies of parallel trees are equal. -/
theorem renamed (h : n.Parallel A m) (hn : n.Renamed ρ n') (hm : m.Renamed ρ m') :
    n'.Equal A.constant A.name m' := by
  induction h generalizing n' m' with
  | parameter =>
    cases hn with
    | parameter =>
      cases hm with
      | parameter => exact .refl _
      | upon other => cases other
    | upon other => cases other
  | @agree n m ns ms _ label _ left right length each ih =>
    obtain ⟨hother, hother'⟩ := label.asParameter?_eq
    cases hn with
    | parameter => cases hother
    | @upon _ _ rs _ children hrs mark row =>
      cases hm with
      | parameter => cases hother'
      | @upon _ _ rs' _ children' hrs' mark' row' =>
        cases left.symm.trans children
        cases right.symm.trans children'
        -- The copies are made apart, so those of the children meet in two steps.
        have hcopies : List.Forall₂ (fun k l => ∀ r r', k.Renamed ρ r → l.Renamed ρ r' →
            r.Equal A.constant A.name r') ns ms :=
          forall₂_of_zip length fun e he _ _ => ih e he
        have hhalf : List.Forall₂ (fun l r => ∀ r', l.Renamed ρ r' →
            r.Equal A.constant A.name r') ms rs :=
          forall₂_of_both hcopies hrs fun _ _ _ _ h hr r' => h _ r' hr
        have hall : List.Forall₂ (Node.Equal A.constant A.name) rs rs' :=
          forall₂_of_both hhalf hrs' fun _ _ _ _ h hr => h _ hr
        refine .agree ((label.upon_left mark row _).upon_right mark' row' _)
          (childNodes_upon children (hrs.imp fun _ _ h => h.fits) mark row)
          (childNodes_upon children' (hrs'.imp fun _ _ h => h.fits) mark' row') hall.length_eq
          (zip_of_forall₂ hall)

end Node.Parallel

/-- A renamed tree holds what the tree holds. -/
theorem Node.Renamed.holds {c : Caller} {K : Labelling c} {ρ : Parameter → Parameter} {n n' : Node}
    (h : n.All K.Holds) (hr : n.Renamed ρ n') : n'.All K.Holds := by
  induction h generalizing n' with
  | @intro n ns children holds _ ih =>
    cases hr with
    | parameter p => exact .intro [] rfl trivial (by simp)
    | upon _ children' each mark row =>
      cases children.symm.trans children'
      refine .intro _ (childNodes_upon children (each.imp fun _ _ h => h.fits) mark row) ?_
        (forall_of_forall₂ each fun k hk r hr => ih k hk hr)
      unfold Node.upon
      split <;> exact holds

/-! ### Owners -/

section

variable {R : Node × Value → Node × Value → Prop} {A : Atoms} {n m : Node}

theorem rel_or {o o' p p' : Option (Node × Value)} (h : Option.Rel R o o') (h' : Option.Rel R p p') :
    Option.Rel R (o.or p) (o'.or p') := by
  cases h with
  | some h => exact .some h
  | none => exact h'

theorem ownerlessAmong?_rel {ns ms : List Node}
    (h : List.Forall₂ (fun k l => Option.Rel R k.ownerless? l.ownerless?) ns ms) :
    Option.Rel R (ownerlessAmong? (ns.map .node)) (ownerlessAmong? (ms.map .node)) := by
  induction h with
  | nil => exact .none
  | cons hk _ ih => exact rel_or hk ih

theorem Value.isAbsent_eq {o q : Value} (h : o.identical q = true) : o.isAbsent = q.isAbsent := by
  cases o <;> cases q <;> first | rfl | cases h

/-- Parallel trees lack owners at the same places. -/
theorem Node.Parallel.ownerless (h : n.Parallel A m) :
    Option.Rel (fun e e' => A.site e.1 e'.1 ∧ A.name e.2 e'.2) n.ownerless? m.ownerless? := by
  induction h with
  | parameter => exact .none
  | @agree n m ns ms site label _ left right length _ ih =>
    have hall : List.Forall₂ (fun k l => Option.Rel (fun e e' => A.site e.1 e'.1 ∧ A.name e.2 e'.2)
        k.ownerless? l.ownerless?) ns ms := forall₂_of_zip length ih
    cases label.alongside (P := fun _ _ => False) left right hall with
    | literal => exact .none
    | parameter h => exact h.elim
    | @static _ _ a b o q type hname howner =>
      change Option.Rel _ (if o.isAbsent then some (_, a) else none)
        (if q.isAbsent then some (_, b) else none)
      rw [Value.isAbsent_eq howner]
      split
      · exact .some ⟨site, hname⟩
      · exact .none
    | member _ he => exact he
    | unary hx => exact hx
    | binary hl hr => exact rel_or hl hr
    | conditional hc hx hy => exact rel_or hc (rel_or hx hy)
    | call hf hargs => exact rel_or hf (ownerlessAmong?_rel hargs)
    | lambda hall =>
      have hrel := ownerlessAmong?_rel hall
      rwa [ownerlessAmong?_lambda, ownerlessAmong?_lambda] at hrel

end

/-! ### Trees that correspond -/

/-- Parameters correspond to themselves, and names where they stand for one another. -/
def Sameness.Kinship.ofAtoms (S : Sameness) (A : Atoms) : S.Kinship where
  parameter := Eq
  name _ _ := A.name
  name_later h _ _ := h

/-- Parallel trees correspond, if the values that stand for one another are the same. -/
theorem Node.Parallel.akin {S : Sameness} {A : Atoms} {s s' : Session} {n m : Node}
    (hvalue : ∀ {v w}, A.constant v w → S.value s s' v w) (hn : n.All (S.Label s s))
    (hm : m.All (S.Label s' s')) (h : n.Parallel A m) :
    (Sameness.Kinship.ofAtoms S A).Akin s s' n m := by
  induction h with
  | parameter => exact .intro (.parameter rfl) trivial trivial rfl rfl rfl (by simp)
  | agree _ label _ left right length _ ih =>
    refine .intro (.agree (label.mono hvalue fun h => h)) hn.holds hm.holds left right length
      fun e he => ?_
    have hmem := List.of_mem_zip he
    exact ih e he (hn.of_childNodes left hmem.1) (hm.of_childNodes right hmem.2)

end PredicateTree
