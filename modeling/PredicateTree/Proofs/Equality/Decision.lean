import PredicateTree.Proofs.Equality.Labelling

/-!
# What structural equality decides

Where the values that trees hold are compared by an equivalence (`Comparison`), structural equality
decides whether two trees are equal by the recursive definition (`Node.Equal`), and so it is an
equivalence itself (`Comparison.structurallyEqual_equivalence`).
-/

namespace PredicateTree

/-! ### Decisions -/

namespace Action

/-- In every session of a kind a test answers whether something is so, and leaves a session of that
kind. -/
def Decides (x : Action Bool) (session : Session → Prop) (c : Caller) (Q : Prop) : Prop :=
  ∀ s, session s → ∃ answer t, x.run c s = (.done answer, t) ∧ session t ∧ (answer = true ↔ Q)

/-- What always comes to the right answer decides. -/
theorem decides_iff {x : Action Bool} {session : Session → Prop} {c : Caller} {Q : Prop} :
    x.Decides session c Q ↔ x.Answers session c True Q := by
  constructor
  · intro h s hs
    obtain ⟨answer, t, hrun, ht, hanswer⟩ := h s hs
    rw [hrun]
    exact ⟨ht, Iff.trans ⟨Outcome.done.inj, congrArg Outcome.done⟩ hanswer, fun _ => ⟨answer, rfl⟩⟩
  · intro h s hs
    obtain ⟨ht, hanswer, htotal⟩ := h s hs
    obtain ⟨answer, hdone⟩ := htotal trivial
    rw [hdone] at hanswer
    exact ⟨answer, (x.run c s).2, Prod.ext hdone rfl, ht,
      Iff.trans ⟨congrArg Outcome.done, Outcome.done.inj⟩ hanswer⟩

theorem Decides.affirms_iff {x : Action Bool} {session : Session → Prop} {c : Caller} {s : Session}
    {Q : Prop} (h : x.Decides session c Q) (hs : session s) : x.Affirms c s ↔ Q :=
  (decides_iff.1 h).affirms_iff hs

end Action

/-! ### Comparisons -/

/-- Trees hold values that are compared by an equivalence: every comparison of two of them, by
identity or equality or by equality alone, comes to an answer, and marks tell nodes apart. -/
structure Comparison (c : Caller) where
  /-- The sessions in question. -/
  session : Session → Prop
  /-- The values that trees hold. -/
  value : Value → Prop
  /-- The nodes that there are. -/
  node : Node → Prop
  equal : Value → Value → Prop
  refl : ∀ {v}, value v → equal v v
  symm : ∀ {v w}, value v → value w → equal v w → equal w v
  trans : ∀ {v w u}, value v → value w → value u → equal v w → equal w u → equal v u
  same : ∀ {v w}, value v → value w → (v.same w).Decides session c (equal v w)
  equals : ∀ {v w}, value v → value w → (v.equal w).Decides session c (equal v w)
  node_eq : ∀ {n m}, node n → node m → n.identical m = true → n = m

namespace Comparison

/-- A node is one of those that there are and holds a value of the kind that is compared, if any. -/
def Holds {c : Caller} (K : Comparison c) (n : Node) : Prop :=
  K.node n ∧ match n with
  | .literal _ v _ => K.value v
  | .member _ _ name _ _ => K.value name
  | _ => True

variable {c : Caller} (K : Comparison c) {n m k : Node}

/-- What is compared by an equivalence is labels that are compared. -/
def labelling : Labelling c where
  session := K.session
  value := K.value
  name := K.value
  equal := K.equal
  equalNames := K.equal
  total := True
  same hv hw := Action.decides_iff.1 (K.same hv hw)
  equals hv hw := Action.decides_iff.1 (K.equals hv hw)

theorem holds_labelling (h : K.Holds n) : K.labelling.Holds n := by
  cases n with
  | literal | member => exact h.2
  | _ => trivial

/-- Structural equality decides what the recursive definition says. -/
theorem structurallyEqual_decides (hn : n.All K.Holds) (hm : m.All K.Holds) :
    (structurallyEqual (.node n) (.node m)).Decides K.session c (n.Equal K.equal K.equal m) :=
  Action.decides_iff.2 (K.labelling.structurallyEqual_answers
    (hn.mono fun _ => K.holds_labelling) (hm.mono fun _ => K.holds_labelling))

/-! ### An equivalence -/

theorem agree_symm (hn : K.Holds n) (hm : K.Holds m) (h : n.Agree K.equal K.equal m) :
    m.Agree K.equal K.equal n := by
  cases h with
  | literal value => exact .literal (K.symm hn.2 hm.2 value)
  | member name owner => exact .member (K.symm hn.2 hm.2 name) (Value.identical_symm owner)
  | _ => constructor

theorem agree_trans (hn : K.Holds n) (hm : K.Holds m) (hk : K.Holds k)
    (h : n.Agree K.equal K.equal m) (h' : m.Agree K.equal K.equal k) : n.Agree K.equal K.equal k := by
  cases h with
  | literal value =>
    cases h' with
    | literal value' => exact .literal (K.trans hn.2 hm.2 hk.2 value value')
  | member name owner =>
    cases h' with
    | member name' owner' =>
      exact .member (K.trans hn.2 hm.2 hk.2 name name') (Value.identical_trans owner owner')
  | _ =>
    cases h'
    constructor

theorem equal_symm (hn : n.All K.Holds) (hm : m.All K.Holds) (h : n.Equal K.equal K.equal m) :
    m.Equal K.equal K.equal n := by
  induction h with
  | identical h => exact .identical (Node.identical_symm h)
  | @agree n m ns ms label left right length each ih =>
    have heach : ∀ e ∈ ns.zip ms, e.2.Equal K.equal K.equal e.1 := fun e he =>
      ih e he (hn.of_childNodes left (List.of_mem_zip he).1)
        (hm.of_childNodes right (List.of_mem_zip he).2)
    have hall : List.Forall₂ (fun k l => l.Equal K.equal K.equal k) ns ms :=
      forall₂_of_zip length heach
    exact .agree (K.agree_symm hn.holds hm.holds label) right left length.symm
      (zip_of_forall₂ hall.flip)

theorem equal_trans (hn : n.All K.Holds) (hm : m.All K.Holds) (hk : k.All K.Holds)
    (h : n.Equal K.equal K.equal m) (h' : m.Equal K.equal K.equal k) : n.Equal K.equal K.equal k := by
  induction h generalizing k with
  | identical h =>
    cases K.node_eq hn.holds.1 hm.holds.1 h
    exact h'
  | @agree n m ns ms label left right length each ih =>
    cases h' with
    | identical h' =>
      cases K.node_eq hm.holds.1 hk.holds.1 h'
      exact .agree label left right length each
    | @agree _ _ _ ks label' left' right' length' each' =>
      cases right.symm.trans left'
      have hsteps : List.Forall₂ (fun l j => ∀ i, i.All K.Holds → l.Equal K.equal K.equal i →
          j.Equal K.equal K.equal i) ms ns := by
        refine List.Forall₂.flip (forall₂_of_zip length fun e he i hi hli => ?_)
        have hmem := List.of_mem_zip he
        exact ih e he (hn.of_childNodes left hmem.1) (hm.of_childNodes right hmem.2) hi hli
      have hnext : List.Forall₂ (fun l i => i.All K.Holds ∧ l.Equal K.equal K.equal i) ms ks :=
        forall₂_of_zip length' fun e he =>
          ⟨hk.of_childNodes right' (List.of_mem_zip he).2, each' e he⟩
      have hall : List.Forall₂ (Node.Equal K.equal K.equal) ns ks :=
        forall₂_of_both hsteps hnext fun _ _ _ _ hstep hli => hstep _ hli.1 hli.2
      exact .agree (K.agree_trans hn.holds hm.holds hk.holds label label') left right'
        hall.length_eq (zip_of_forall₂ hall)

/-- Structural equality decides the recursive definition of equality, and so it is reflexive,
symmetric and transitive, in whatever sessions the questions are asked. -/
theorem structurallyEqual_equivalence {a b d : Node} (ha : a.All K.Holds) (hb : b.All K.Holds)
    (hd : d.All K.Holds) :
    (structurallyEqual (.node a) (.node b)).Decides K.session c (a.Equal K.equal K.equal b) ∧
      ∀ s t u, K.session s → K.session t → K.session u →
        (structurallyEqual (.node a) (.node a)).Affirms c s ∧
        ((structurallyEqual (.node a) (.node b)).Affirms c s →
          (structurallyEqual (.node b) (.node a)).Affirms c t) ∧
        ((structurallyEqual (.node a) (.node b)).Affirms c s →
          (structurallyEqual (.node b) (.node d)).Affirms c t →
          (structurallyEqual (.node a) (.node d)).Affirms c u) := by
  have hab := K.structurallyEqual_decides ha hb
  have hba := K.structurallyEqual_decides hb ha
  have hbd := K.structurallyEqual_decides hb hd
  have had := K.structurallyEqual_decides ha hd
  refine ⟨hab, fun s t u hs ht hu => ⟨?_, fun h => ?_, fun h h' => ?_⟩⟩
  · exact ((K.structurallyEqual_decides ha ha).affirms_iff hs).2 (.refl a)
  · exact (hba.affirms_iff ht).2 (K.equal_symm ha hb ((hab.affirms_iff hs).1 h))
  · exact (had.affirms_iff hu).2
      (K.equal_trans ha hb hd ((hab.affirms_iff hs).1 h) ((hbd.affirms_iff ht).1 h'))

end Comparison

/-! ### Numbers and texts -/

/-- The integer or the text that a value is. -/
def Value.reading? : Value → Option (Int ⊕ String)
  | .int _ i => some (.inl i)
  | .str _ s => some (.inr s)
  | _ => none

theorem Value.same_of_reading {v w : Value} (hv : v.reading?.isSome) (hw : w.reading?.isSome) :
    ∃ answer, v.same w = pure answer ∧ (answer = true ↔ v.reading? = w.reading?) := by
  cases v with
  | int m i =>
    cases w with
    | int n j => exact ⟨i == j, rfl, by simp [reading?]⟩
    | str => exact ⟨false, rfl, by simp [reading?]⟩
    | _ => cases hw
  | str m s =>
    cases w with
    | int => exact ⟨false, rfl, by simp [reading?]⟩
    | str n t => exact ⟨s == t, rfl, by simp [reading?]⟩
    | _ => cases hw
  | _ => cases hv

theorem Value.equal_of_reading {v : Value} (hv : v.reading?.isSome) (w : Value) :
    v.equal w = v.same w := by
  cases v with
  | int | str => rfl
  | _ => cases hv

/-- Integers and texts are compared by what they are, whatever their marks. -/
def Comparison.plain (c : Caller) (node : Node → Prop)
    (node_eq : ∀ {n m}, node n → node m → n.identical m = true → n = m) : Comparison c where
  session _ := True
  value v := v.reading?.isSome
  node := node
  equal v w := v.reading? = w.reading?
  refl _ := rfl
  symm _ _ h := h.symm
  trans _ _ _ h h' := h.trans h'
  same hv hw := by
    obtain ⟨answer, hsame, hanswer⟩ := Value.same_of_reading hv hw
    rw [hsame]
    exact Action.decides_iff.2 (.pure hanswer)
  equals hv hw := by
    obtain ⟨answer, hsame, hanswer⟩ := Value.same_of_reading hv hw
    rw [Value.equal_of_reading hv, hsame]
    exact Action.decides_iff.2 (.pure hanswer)
  node_eq := node_eq

/-- A reading of the member `age` of a parameter, at a node with a certain mark. -/
def ageRead (mark : Nat) : Node :=
  .member mark (.node (.parameter ⟨1, "x", .object, 0⟩)) (.str mark "age") .absent .object

theorem ageRead_equal (mark mark' : Nat) (R N : Value → Value → Prop)
    (h : N (.str mark "age") (.str mark' "age")) : (ageRead mark).Equal R N (ageRead mark') := by
  refine .agree (.member h rfl) rfl rfl rfl fun e he => ?_
  cases List.mem_singleton.1 he
  exact .refl _

/-- Three readings of one member, each a node of its own: they are equal, and whoever finds two pairs
of them equal finds the third. -/
theorem Comparison.structurallyEqual_equivalence_ages :
    let c : Caller := fun _ _ s => (.exhausted, s)
    (structurallyEqual (.node (ageRead 1)) (.node (ageRead 2))).Affirms c {} ∧
      (structurallyEqual (.node (ageRead 1)) (.node (ageRead 3))).Affirms c {} := by
  intro c
  let x : Parameter := ⟨1, "x", .object, 0⟩
  let node (n : Node) : Prop := n = .parameter x ∨ ∃ mark, n = ageRead mark
  have node_eq {n m : Node} (hn : node n) (hm : node m) (h : n.identical m = true) : n = m := by
    rcases hn with rfl | ⟨i, rfl⟩ <;> rcases hm with rfl | ⟨j, rfl⟩
    · rfl
    · cases h
    · cases h
    · cases beq_iff_eq.1 h
      rfl
  let K := Comparison.plain c node node_eq
  have hx : (Node.parameter x).All K.Holds := .intro [] rfl ⟨.inl rfl, trivial⟩ (by simp)
  have hage (mark : Nat) : (ageRead mark).All K.Holds := by
    refine .intro [.parameter x] rfl ⟨.inr ⟨mark, rfl⟩, rfl⟩ fun m hm => ?_
    cases List.mem_singleton.1 hm
    exact hx
  have hequal (i j : Nat) : (ageRead i).Equal K.equal K.equal (ageRead j) := ageRead_equal i j _ _ rfl
  obtain ⟨hdecides, hall⟩ := K.structurallyEqual_equivalence (hage 1) (hage 2) (hage 3)
  obtain ⟨-, -, htrans⟩ := hall {} {} {} trivial trivial trivial
  have hfirst : (structurallyEqual (.node (ageRead 1)) (.node (ageRead 2))).Affirms c {} :=
    (hdecides.affirms_iff trivial).2 (hequal 1 2)
  have hsecond := K.structurallyEqual_decides (hage 2) (hage 3)
  exact ⟨hfirst, htrans hfirst ((hsecond.affirms_iff trivial).2 (hequal 2 3))⟩

end PredicateTree
