import PredicateTree.Proofs.Equality.Recursion
import PredicateTree.Proofs.Purity.Sameness

/-!
# Trees that correspond

Two trees, each in a session of its own, correspond if they agree in shape, labels and types, the
values that they hold are the same, and their parameters and the names of their members correspond
in a way that is left open (`Sameness.Kinship`).  Trees that are the same but for marks correspond
(`Sameness.Alike.akin`), and so do a tree and its renamed copy.
-/

namespace PredicateTree

namespace Node.Agree

variable {R N : Value → Value → Prop} {n m : Node}

theorem upon_left (h : n.Agree R N m) (mark row : Nat) (vs : List Value) :
    (n.upon mark row vs).Agree R N m := by
  unfold upon
  split <;> cases h <;> constructor <;> assumption

theorem upon_right (h : n.Agree R N m) (mark row : Nat) (vs : List Value) :
    n.Agree R N (m.upon mark row vs) := by
  unfold upon
  split <;> cases h <;> constructor <;> assumption

end Node.Agree

namespace Sameness

/-- How the parameters of two trees correspond, and which names of members are the same, each in a
session of its own. -/
structure Kinship (S : Sameness) where
  parameter : Parameter → Parameter → Prop
  name : Session → Session → Value → Value → Prop
  /-- Names that are the same stay the same. -/
  name_later : ∀ {s s' t t' v w}, name s s' v w → S.later s t → S.later s' t' → name t t' v w

variable {S : Sameness} {K : S.Kinship} {s s' t t' : Session} {n m : Node} {ns ms rs rs' : List Node}

/-! ### Trees and their labels -/

theorem Present.of_labels (h : n.All (S.Label s s)) : S.Present s n := by
  induction h with
  | @intro n ns children label _ ih =>
    obtain ⟨row, hself⟩ := Node.upon_self children
    have hover := Alike.rebuilt children label (List.forall₂_same.2 fun _ _ p hp => ⟨p, hp⟩)
      (List.forall₂_same.2 ih) n.mark row n.mark row
    rwa [hself] at hover

namespace Kinship

/-- Two nodes correspond, but for their children. -/
inductive Label (K : S.Kinship) (s t : Session) : Node → Node → Prop where
  | agree {n m : Node} (h : n.Agree (S.value s t) (K.name s t) m) : Label K s t n m
  | parameter {p q : Parameter} (h : K.parameter p q) : Label K s t (.parameter p) (.parameter q)

/-- Two trees correspond, and what each of them holds is something in its session. -/
inductive Akin (K : S.Kinship) (s t : Session) : Node → Node → Prop where
  | intro {n m : Node} {ns ms : List Node} (label : K.Label s t n m) (here : S.Label s s n)
      (there : S.Label t t m) (left : n.childNodes = .ok ns) (right : m.childNodes = .ok ms)
      (length : ns.length = ms.length) (each : ∀ e ∈ ns.zip ms, Akin K s t e.1 e.2) :
      Akin K s t n m

theorem Label.later (h : K.Label s s' n m) (hs : S.later s t) (hs' : S.later s' t') :
    K.Label t t' n m := by
  cases h with
  | agree h =>
    refine .agree ?_
    cases h with
    | literal value => exact .literal (S.value_later value hs hs')
    | member name owner => exact .member (K.name_later name hs hs') owner
    | _ => constructor
  | parameter h => exact .parameter h

theorem Label.upon (h : K.Label s t n m) (mark row mark' row' : Nat) (vs ws : List Value) :
    K.Label s t (n.upon mark row vs) (m.upon mark' row' ws) := by
  cases h with
  | agree h =>
    exact .agree ((h.upon_left mark row vs).upon_right mark' row' ws)
  | parameter h => exact .parameter h

namespace Akin

theorem later (h : K.Akin s s' n m) (hs : S.later s t) (hs' : S.later s' t') : K.Akin t t' n m := by
  induction h with
  | intro label here there left right length _ ih =>
    exact .intro (label.later hs hs') (here.later hs hs) (there.later hs' hs') left right length ih

theorem children (h : K.Akin s t n m) : ∃ ns ms, n.childNodes = .ok ns ∧ m.childNodes = .ok ms ∧
    List.Forall₂ (K.Akin s t) ns ms := by
  cases h with
  | intro _ _ _ left right length each =>
    exact ⟨_, _, left, right, forall₂_of_zip length each⟩

theorem label (h : K.Akin s t n m) : K.Label s t n m ∧ S.Label s s n ∧ S.Label t t m := by
  cases h with
  | intro label here there => exact ⟨label, here, there⟩

theorem labels (h : K.Akin s t n m) : n.All (S.Label s s) ∧ m.All (S.Label t t) := by
  induction h with
  | @intro n m ns ms label here there left right length each ih =>
    have hall : List.Forall₂ (fun k l => k.All (S.Label s s) ∧ l.All (S.Label t t)) ns ms :=
      forall₂_of_zip length ih
    refine ⟨.intro ns left here ?_, .intro ms right there ?_⟩
    · exact forall_of_forall₂ hall.flip fun _ _ _ h => h.1
    · exact forall_of_forall₂ hall fun _ _ _ h => h.2

/-- What trees that correspond hold is something in their sessions. -/
theorem present (h : K.Akin s t n m) : S.Present s n ∧ S.Present t m :=
  ⟨.of_labels h.labels.1, .of_labels h.labels.2⟩

theorem wellFormed (h : K.Akin s t n m) : n.WellFormed ∧ m.WellFormed :=
  ⟨h.labels.1.wellFormed, h.labels.2.wellFormed⟩

theorem fits (h : K.Akin s t n m) : n.Fits m := by
  rintro p rfl
  cases h.label.1 with
  | agree h => cases h
  | parameter => exact ⟨_, rfl⟩

theorem isLiteral_eq (h : K.Akin s t n m) : m.isLiteral = n.isLiteral := by
  cases h.label.1 with
  | agree h => cases h <;> rfl
  | parameter => rfl

theorem type_eq (h : K.Akin s t n m) (other : n.asParameter? = none) : m.type = n.type := by
  cases h.label.1 with
  | agree h => cases h <;> rfl
  | parameter => cases other

/-- Nodes that correspond do so over children that correspond. -/
theorem rebuilt (label : K.Label s t n m) (here : S.Label s s n) (there : S.Label t t m)
    (hn : n.childNodes = .ok ns) (hm : m.childNodes = .ok ms) (hr : List.Forall₂ Node.Fits ns rs)
    (hr' : List.Forall₂ Node.Fits ms rs') (hall : List.Forall₂ (K.Akin s t) rs rs')
    (mark row mark' row' : Nat) :
    K.Akin s t (n.upon mark row (rs.map .node)) (m.upon mark' row' (rs'.map .node)) := by
  refine .intro (label.upon mark row mark' row' _ _) ?_ ?_ (Node.childNodes_upon hn hr mark row)
    (Node.childNodes_upon hm hr' mark' row') hall.length_eq
    (zip_of_forall₂ hall)
  · rwa [label_upon]
  · rwa [label_upon]

end Akin

/-! ### Kinds -/

theorem Akin.kinds (h : K.Akin s t n m) :
    n.Alongside (S.value s t) (K.name s t) K.parameter (K.Akin s t) m := by
  obtain ⟨ns, ms, hn, hm, hall⟩ := h.children
  cases h.label.1 with
  | parameter hpq => exact .parameter hpq
  | agree hagree => exact hagree.alongside hn hm hall

/-- What corresponds to a call is a call. -/
theorem Akin.of_call {mark row : Nat} {f : Node} {args : List Node} {type : StaticType}
    (h : K.Akin s t (.call mark (.node f) row (args.map .node) type) m) :
    ∃ mark' row' f' args', m = .call mark' (.node f') row' (args'.map .node) type ∧
      K.Akin s t f f' ∧ List.Forall₂ (K.Akin s t) args args' := by
  generalize hvs : args.map Value.node = vs at h
  cases h.kinds with
  | call hf hargs =>
    cases List.map_injective_iff.2 (fun _ _ h => Value.node.inj h) hvs
    exact ⟨_, _, _, _, rfl, hf, hargs⟩

/-! ### Trees that are the same -/

/-- Parameters and names correspond where they are equal. -/
def same (S : Sameness) : S.Kinship where
  parameter := Eq
  name s t v w := v = w ∧ S.value s t v v
  name_later h hs ht := ⟨h.1, S.value_later h.2 hs ht⟩

theorem Label.of_same (h : S.Label s t n) (hn : n.childNodes = .ok ns) :
    (same S).Label s t n n := by
  cases n with
  | literal mark v type => exact .agree (.literal h)
  | parameter p => exact .parameter rfl
  | member mark e name owner type =>
    exact .agree (.member ⟨rfl, h.1⟩ (Value.identical_self owner))
  | unknown => cases hn
  | _ => exact .agree (by constructor)

end Kinship

/-- Trees that are the same correspond. -/
theorem Alike.akin (h : S.Alike s t n m) : (Kinship.same S).Akin s t n m := by
  induction h with
  | literal h =>
    exact .intro (.agree (.literal h)) (S.value_trans h (S.value_symm h))
      (S.value_trans (S.value_symm h) h) rfl rfl rfl (by simp)
  | @upon n ns ms children other label length each mark row ih =>
    have hfits : List.Forall₂ Node.Fits ns ms :=
      forall₂_of_zip length fun e he => (each e he).fits
    obtain ⟨row', hself⟩ := Node.upon_self children
    have hlabel := (Kinship.Label.of_same label children).upon n.mark row' mark row
      (ns.map .node) (ms.map .node)
    rw [hself] at hlabel
    refine .intro hlabel (label.trans label.symm) ?_ children
      (Node.childNodes_upon children hfits mark row) length ih
    rw [label_upon]
    exact label.symm.trans label

end Sameness

end PredicateTree
