import PredicateTree.Proofs.Evaluation.Calls
import PredicateTree.Proofs.Likeness.Plain
import PredicateTree.Proofs.Renaming.Tree

/-!
# Substituting parameters

`replaceParameters` gives the renamed tree (`replaceParameters_run`).  If no two parameters that
stand in the tree are renamed to one, the renamed tree evaluates like the tree in an environment
that gives the renamed parameters like values (`replaceParameters_preserves`).
-/

namespace PredicateTree

/-! ### Substitutions -/

namespace Substitution

/-- The pairs of parameters among the entries of a dictionary. -/
def ofParameters (entries : List (Value × Value)) : Substitution :=
  entries.filterMap fun e => e.1.parameter?.bind fun p => e.2.parameter?.map (p, ·)

/-- The entries of a dictionary whose values are parameters always describe a substitution. -/
theorem ofEntries_eq {entries : List (Value × Value)}
    (h : ∀ e ∈ entries, e.2.parameter?.isSome) :
    ofEntries entries = pure (ofParameters entries) := by
  induction entries with
  | nil => rfl
  | cons e rest ih =>
    obtain ⟨old, new⟩ := e
    obtain ⟨q, hq⟩ := Option.isSome_iff_exists.1 (h _ List.mem_cons_self)
    have hrest := ih fun e he => h e (List.mem_cons_of_mem _ he)
    rw [ofParameters] at hrest
    simp only at hq
    rw [ofEntries, hq, ofParameters, List.filterMap_cons]
    simp only [hrest, pure_bind, hq]
    cases old.parameter? <;> rfl

end Substitution

/-! ### Renaming -/

/-- Computations that end with a value. -/
def Judgement.succeeding (c : Caller) : Judgement Action where
  holds x s post := ∃ a t, x.run c s = (.done a, t) ∧ post a t
  pure h := ⟨_, _, rfl, h⟩
  bind := by
    rintro α β x k s post ⟨a, t, hx, b, u, hk, hpost⟩
    exact ⟨b, u, (Action.run_bind_done hx).trans hk, hpost⟩
  mono := by
    rintro α x s post post' ⟨a, t, hx, hpost⟩ imp
    exact ⟨a, t, hx, imp a t hpost⟩

variable {n : Node}

theorem renameStep_run (σ : Substitution) {ns rs : List Node} (hn : n.childNodes = .ok ns)
    {s : Session} (hold : n.Older s)
    (hrs : List.Forall₂ (fun k r => k.Renamed σ.get r ∧ k.Replaced s r) ns rs) (c : Caller) :
    ∃ n' t, (renameStep σ n rs).run c s = (.done n', t) ∧ s.Noted t ∧ n.Renamed σ.get n' ∧
      n.Replaced t n' := by
  cases hother : n.asParameter? with
  | some p =>
    cases n with
    | parameter q =>
      refine ⟨_, s, rfl, .refl, .parameter q, ?_, fun hid => ?_, fun _ _ => ⟨σ.get q, rfl⟩⟩
      · exact .intro [] rfl (Node.older_parameter _) (by simp)
      · rw [← beq_iff_eq.1 hid]
    | _ => cases hother
  | none =>
    have hstep : renameStep σ n rs = n.withChildren (rs.map .node) := by
      cases n with
      | parameter => cases hother
      | _ => rfl
    obtain ⟨mark, row, used, hrun, hreplaced⟩ :=
      Node.withChildren_replaced hn hold (hrs.imp fun _ _ h => h.2) c
    rw [hstep, hrun]
    exact ⟨_, _, rfl, .mark .refl used, .upon hother hn (hrs.imp fun _ _ h => h.1) mark row,
      hreplaced⟩

/-- Replacing parameters always succeeds, and gives the renamed tree. -/
theorem replaceParameters_run (σ : Substitution) {s : Session} (h : n.All (·.Older s))
    (c : Caller) : ∃ n' t, (replaceParameters σ (.node n)).run c s = (.done n', t) ∧ s.Noted t ∧
      n.Renamed σ.get n' ∧ n'.All (·.Older t) := by
  obtain ⟨n', t, hrun, ht, hn, hreplaced⟩ := (Judgement.succeeding c).foldTree Session.Noted
    (fun t k r => k.Renamed σ.get r ∧ k.Replaced t r) (fun _ => .refl)
    (fun h h' => h.trans h') (fun hs h => ⟨h.1, h.2.mono hs.nextMark_le⟩) s (P := (·.Older s))
    (fun hn hall hs hrs => renameStep_run σ hn (hall.holds.mono hs.nextMark_le) hrs c) h .refl
  exact ⟨n', t, hrun, ht, hn, hreplaced.older⟩

/-! ### Evaluation -/

/-- Two runs differ by a renaming of parameters.  Nodes of the code that is renamed are reported
renamed, those of code from elsewhere as they are. -/
structure Correspondence.Renames (K : Correspondence) (ρ : Parameter → Parameter)
    (own foreign : Node → Prop) : Prop where
  site : ∀ n n', K.site n n' ↔ own n ∧ n.Renamed ρ n' ∨ foreign n ∧ n' = n
  not_settled : ∀ c w, ¬ K.settled c w
  not_cut : ¬ K.cut

/-- The renaming of trees that hold plain values, in runs that keep the right functions of some
lambdas. -/
def Correspondence.ofRenaming (ρ : Parameter → Parameter) (own foreign kept : Node → Prop) :
    Correspondence where
  site n n' := own n ∧ n.Renamed ρ n' ∨ foreign n ∧ n' = n
  known v := v.isPlain = true
  settled _ _ := False
  later s t := ∀ n, kept n → s.Compiles n → t.Compiles n
  cut := False
  order := ⟨fun h _ _ hs => h.compiles hs, fun h h' n hn hs => h' n hn (h n hn hs)⟩

theorem Correspondence.renames_ofRenaming (ρ : Parameter → Parameter)
    (own foreign kept : Node → Prop) :
    (ofRenaming ρ own foreign kept).Renames ρ own foreign :=
  ⟨fun _ _ => Iff.rfl, fun _ _ h => h, fun h => h⟩

/-- Where no code is replaced, like functions are called alike. -/
theorem Host.Respects.callers_of_renames {K : Correspondence} {L : Likeness K} {host : Host}
    (hH : host.Respects L) {ρ : Parameter → Parameter} {own foreign : Node → Prop}
    (hK : K.Renames ρ own foreign) (depth : Nat) :
    L.Callers (Machine.callWithin host depth) (Machine.callWithin host depth) :=
  hH.callers (fun _ _ _ _ _ _ _ hw => absurd hw (hK.not_settled _ _)) depth

/-- Replacing parameters by parameters succeeds and preserves what a tree evaluates to, if it is
injective on the parameters of the tree. -/
theorem replaceParameters_preserves {K : Correspondence} {L : Likeness K} {M : Machine}
    (entries overrides : List (Value × Value)) {own foreign : Node → Prop} {s : Session}
    {references free : List Parameter} (hentries : ∀ e ∈ entries, e.2.parameter?.isSome)
    (howned : n.All (·.isOwned)) (hold : n.All (·.Older s)) (hlabels : n.All (·.LabelsKnown K))
    (hown : n.All own)
    (hreferences : parameterReferences (.node n) = pure references)
    (hfree : freeParameters (.node n) = pure free)
    (hinj : ∀ p ∈ references, ∀ q ∈ references, (Substitution.ofParameters entries).get p =
      (Substitution.ofParameters entries).get q → p = q)
    (hv : OperatorTable.Valid overrides)
    (ht : ∀ key, K.known (OperatorTable.standard.overridden overrides key))
    (hK : K.Renames (Substitution.ofParameters entries).get own foreign) (hH : M.host.Respects L)
    (c : Caller) :
    ∃ n' t, (Substitution.ofEntries entries >>= fun σ => replaceParameters σ (.node n)).run c s =
        (.done n', t) ∧ n.Renamed (Substitution.ofParameters entries).get n' ∧
      L.Callers M.caller M.caller ∧
      ∀ (u u' : Session) (bindings bindings' : List (Value × Value)), L.session u u' →
        Environment.Alike (L.value u u') (Substitution.ofParameters entries).get (· ∈ free)
          (Machine.environmentOf bindings) (Machine.environmentOf bindings') →
        L.Ends u u' L.value ((M.evaluate (.node n) bindings overrides).run M.caller u)
          ((M.evaluate (.node n') bindings' overrides).run M.caller u') := by
  obtain ⟨n', t, hrun, -, hn', -⟩ :=
    replaceParameters_run (Substitution.ofParameters entries) hold c
  have hC : L.Callers M.caller M.caller := hH.callers_of_renames hK M.depth
  rw [Substitution.ofEntries_eq hentries, pure_bind]
  refine ⟨n', t, hrun, hn', hC, fun u u' bindings bindings' hu henv => ?_⟩
  have hkeeps := Node.keeps_of_references howned.wellFormed hreferences hfree hinj
  have hruns := hn'.runsAs (fun n n' hn h => (hK.site n n').2 (.inl ⟨hn, h⟩)) ht
    (hlabels.and hown)
  rw [Machine.evaluate_owned howned hv, Machine.evaluate_owned (hn'.owned howned) hv]
  refine (hruns.code hkeeps).run_alike hH hC (fun _ hw => ?_) hu henv
  exact absurd hw (hK.not_settled _ _)

/-- A function that adds a free parameter to its own, called, with the two parameters exchanged. -/
theorem replaceParameters_preserves_exchanged :
    let x : Parameter := ⟨1, "x", .object, 0⟩
    let y : Parameter := ⟨2, "y", .object, 0⟩
    let sum : Node := .binary 4 .add (.node (.parameter x)) (.node (.parameter y)) .object
    let n : Node := .call 1 (.node (.lambda 2 3 (Node.declarations [x]) (.node sum))) 5
      [.node (.literal 6 (.ofInt 2) .int)] .object
    let entries := [(Value.node (.parameter x), Value.node (.parameter y)),
      (.node (.parameter y), .node (.parameter x))]
    let M : Machine := ⟨Host.plain, 9⟩
    ∃ n' t, (Substitution.ofEntries entries >>= fun σ => replaceParameters σ (.node n)).run M.caller
        { nextMark := 7 } = (.done n', t) ∧
      ∃ v w u u', (M.evaluate (.node n) [(.node (.parameter y), .ofInt 5)] []).run M.caller {} =
          (.done v, u) ∧
        (M.evaluate (.node n') [(.node (.parameter x), .ofInt 5)] []).run M.caller {} =
          (.done w, u') ∧ v.ownInteger? = some 7 ∧ w.ownInteger? = some 7 := by
  intro x y sum n entries M
  let K := Correspondence.ofRenaming (Substitution.ofParameters entries).get (fun _ => True)
    (fun _ => False) fun _ => False
  let L := Likeness.plain K fun _ h => h
  let P (m : Node) : Prop := m.isOwned = true ∧ m.Older { nextMark := 7 } ∧ m.LabelsKnown K
  have hparameter (p : Parameter) : (Node.parameter p).All P :=
    .intro [] rfl ⟨rfl, Node.older_parameter p, trivial⟩ (by simp)
  have hsum : sum.All P :=
    .intro [.parameter x, .parameter y] rfl ⟨rfl, fun _ => by decide, trivial⟩
      (by simp [hparameter])
  have hlambda : (Node.lambda 2 3 (Node.declarations [x]) (.node sum)).All P :=
    .intro [.parameter x, sum] rfl ⟨rfl, fun _ => by decide, trivial⟩ (by simp [hparameter, hsum])
  have htwo : (Node.literal 6 (.ofInt 2) .int).All P :=
    .intro [] rfl ⟨rfl, fun _ => by decide, rfl⟩ (by simp)
  have hall : n.All P :=
    .intro [_, _] rfl ⟨rfl, fun _ => by decide, trivial⟩ (by simp [hlambda, htwo])
  obtain ⟨references, hreferences, -⟩ := Node.parameterReferences_eq hall.wellFormed
  obtain ⟨free, -, hfree⟩ := Node.freeParameters_eq hall.wellFormed
  have hx : (Substitution.ofParameters entries).get x = y := rfl
  have hy : (Substitution.ofParameters entries).get y = x := rfl
  have hother (p : Parameter) (hpx : p ≠ x) (hpy : p ≠ y) :
      (Substitution.ofParameters entries).get p = p := by
    change ([(x, y), (y, x)].lookup p).getD p = p
    rw [List.lookup_cons, List.lookup_cons, beq_eq_false_iff_ne.2 hpx, beq_eq_false_iff_ne.2 hpy]
    rfl
  have htwice (p : Parameter) : (Substitution.ofParameters entries).get
      ((Substitution.ofParameters entries).get p) = p := by
    by_cases hpx : p = x
    · rw [hpx, hx, hy]
    · by_cases hpy : p = y
      · rw [hpy, hy, hx]
      · rw [hother p hpx hpy, hother p hpx hpy]
  obtain ⟨n', t, hrun, -, -, hends⟩ := replaceParameters_preserves (K := K) (L := L) (M := M)
    entries [] (by simp [entries, Value.parameter?, Node.asParameter?])
    (hall.mono fun _ h => h.1) (hall.mono fun _ h => h.2.1) (hall.mono fun _ h => h.2.2)
    hall.wellFormed hreferences hfree (fun p _ q _ h => by rw [← htwice p, h, htwice q])
    (by simp [OperatorTable.Valid]) (fun _ => rfl) (Correspondence.renames_ofRenaming _ _ _ _)
    (Host.plain_respects K (fun _ h => h) fun _ _ _ hn => hn.elim) M.caller
  refine ⟨n', t, hrun, ?_⟩
  have henv : Environment.Alike (L.value {} {}) (Substitution.ofParameters entries).get
      (· ∈ distinct free)
      (Machine.environmentOf [(.node (.parameter y), .ofInt 5)])
      (Machine.environmentOf [(.node (.parameter x), .ofInt 5)]) := by
    intro p _
    change Option.Rel _ ([(y, Value.ofInt 5)].lookup p) ([(x, Value.ofInt 5)].lookup _)
    rw [List.lookup_cons, List.lookup_cons]
    by_cases hpy : p = y
    · rw [hpy, hy, beq_self_eq_true, beq_self_eq_true]
      exact .some (.same rfl)
    · have hne : (Substitution.ofParameters entries).get p ≠ x := by
        intro h
        rw [← htwice p, h, hx] at hpy
        exact hpy rfl
      rw [beq_eq_false_iff_ne.2 hpy, beq_eq_false_iff_ne.2 hne]
      exact .none
  have hrun7 : ∃ u, (M.evaluate (.node n) [(.node (.parameter y), .ofInt 5)] []).run M.caller {} =
      (.done (.ofInt 7), u) := by
    rw [Machine.evaluate_owned (hall.mono fun _ h => h.1) (by simp [OperatorTable.Valid])]
    exact ⟨_, rfl⟩
  obtain ⟨u, hrun7⟩ := hrun7
  have hsame := hends {} {} _ _ .nil henv
  rw [hrun7] at hsame
  generalize (M.evaluate (.node n') [(.node (.parameter x), .ofInt 5)] []).run M.caller {} = o
    at hsame ⊢
  cases hsame with
  | done _ _ _ hvalue => exact ⟨_, _, _, _, hrun7, rfl, rfl, hvalue.ownInteger?_eq.symm⟩

end PredicateTree
