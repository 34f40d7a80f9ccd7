import PredicateTree.Proofs.Equality.Replacement
import PredicateTree.Proofs.Renaming.Bracketing

/-!
# Renaming position by position

Replacing parameters renames what stands at each position, all at once, and keeps everything else
(`replaceParameters_pointwise`).  It makes a new node only where a parameter below is replaced by
another one; elsewhere the tree is shared with the input (`replaceParameters_shares`).  Both follow
from what one step does to a node over children that are renamed already (`renameStep_copied`).
-/

namespace PredicateTree

theorem forall_mem_flatten_iff {α β : Type} {P : α → Prop} {A : β → Prop} {as : List α}
    {bss : List (List β)} (h : List.Forall₂ (fun a bs => P a ↔ ∀ b ∈ bs, A b) as bss) :
    (∀ a ∈ as, P a) ↔ ∀ b ∈ bss.flatten, A b := by
  induction h with
  | nil => simp
  | cons hhead _ ih =>
    rw [List.forall_mem_cons, hhead, ih, List.flatten_cons, List.forall_mem_append]

/-! ### Occurrences -/

namespace Node

variable {ρ σ : Parameter → Parameter} {n r q : Node} {ns rs : List Node} {ps : List Parameter}
  {A : Parameter → Prop}

/-- In a tree that is no parameter stands what stands in its children. -/
theorem all_occurs_iff (other : n.asParameter? = none) (hn : n.childNodes = .ok ns) :
    n.All (Occurs A) ↔ ∀ k ∈ ns, k.All (Occurs A) := by
  refine ⟨fun h k hk => h.of_childNodes hn hk, fun h => .intro ns hn ?_ h⟩
  intro p hp
  cases other.symm.trans hp

/-- What stands in a tree is what it lists. -/
theorem Refers.all_iff (h : n.WellFormed) (hps : Refers none n ps) :
    n.All (Occurs A) ↔ ∀ p ∈ ps, A p := by
  induction h generalizing ps with
  | @intro n ns children _ _ ih =>
    by_cases hother : n.asParameter? = none
    · obtain ⟨pss, rfl, each⟩ := hps.children hother children
      rw [all_occurs_iff hother children]
      refine forall_mem_flatten_iff (forall₂_of_zip each.length_eq fun e he => ?_)
      exact ih e.1 (List.of_mem_zip he).1 (zip_of_forall₂ each e he)
    · cases n with
      | parameter p =>
        rw [hps.of_parameter]
        refine ⟨fun h q hq => ?_, fun h => .intro [] rfl ?_ (by simp)⟩
        · rw [List.mem_singleton.1 hq]
          exact h.holds p rfl
        · rintro _ ⟨⟩
          exact h p (List.mem_singleton_self p)
      | _ => exact absurd rfl hother

/-- A renamed tree lists the renamed parameters. -/
theorem Refers.renamed (h : n.WellFormed) (hr : n.Renamed ρ r) (hps : Refers none n ps) :
    Refers none r (ps.map ρ) := by
  induction h generalizing r ps with
  | @intro n ns children _ _ ih =>
    by_cases hother : n.asParameter? = none
    · obtain ⟨pss, rfl, each⟩ := hps.children hother children
      obtain ⟨rs, mark, row, hrs, rfl⟩ := hr.exists_of_other hother children
      have hboth : List.Forall₂ (fun r ps => Refers none r (ps.map ρ)) rs pss :=
        forall₂_of_both hrs each fun k hk _ _ hkr hkps => ih k hk hkr hkps
      rw [List.map_flatten]
      exact .of_children (asParameter?_of_kind (kind_upon n mark row _) hother)
        (childNodes_upon children (hrs.imp fun _ _ h => h.fits) mark row)
        (List.forall₂_map_right_iff.2 hboth)
    · cases hr with
      | upon other => exact absurd other hother
      | parameter p =>
        rw [hps.of_parameter]
        exact .parameter none (ρ p)

theorem Renamed.congr (hr : n.Renamed ρ r) (h : n.All (Occurs fun p => ρ p = σ p)) :
    n.Renamed σ r := by
  induction h generalizing r with
  | @intro n ns children holds _ ih =>
    by_cases hother : n.asParameter? = none
    · obtain ⟨rs, mark, row, hrs, rfl⟩ := hr.exists_of_other hother children
      refine .upon hother children (forall₂_of_zip hrs.length_eq fun e he => ?_) mark row
      exact ih e.1 (List.of_mem_zip he).1 (zip_of_forall₂ hrs e he)
    · cases hr with
      | upon other => exact absurd other hother
      | parameter p =>
        rw [holds p rfl]
        exact .parameter p

/-- Two copies of a tree under one renaming are equal. -/
theorem Renamed.structurallyEqual (h : n.All Named) (hr : n.Renamed ρ r) (hq : n.Renamed ρ q) :
    structurallyEqual (.node r) (.node q) = pure true := by
  induction h generalizing r q with
  | @intro n ns children holds _ ih =>
    by_cases hother : n.asParameter? = none
    · obtain ⟨rs, mark, row, hrs, rfl⟩ := hr.exists_of_other hother children
      obtain ⟨qs, mark', row', hqs, rfl⟩ := hq.exists_of_other hother children
      have hchildren : List.Forall₂
          (fun k l => PredicateTree.structurallyEqual (.node k) (.node l) = pure true) rs qs :=
        forall₂_of_both hrs hqs fun k hk _ _ hkr hkq => ih k hk hkr hkq
      exact structurallyEqual_of_label (holds.of_label (label_upon n mark row _))
        (by rw [label_upon, label_upon])
        (childNodes_upon children (hrs.imp fun _ _ h => h.fits) mark row)
        (childNodes_upon children (hqs.imp fun _ _ h => h.fits) mark' row') hchildren
    · cases hr with
      | upon other => exact absurd other hother
      | parameter p =>
        cases hq with
        | upon other => exact absurd other hother
        | parameter => exact structurallyEqual_of_identical (identical_self _)

/-- A node as a renaming leaves it: its label is renamed, and the node is new unless no parameter
in the tree below is replaced by another one. -/
structure Copied (ρ : Parameter → Parameter) (n r : Node) : Prop where
  label : r.label = n.label.renamed ρ
  shared : n.identical r = true ↔ n.All (Occurs fun p => ρ p = p)
  same : n.identical r = true → r = n

theorem Copied.parameter (p : Parameter) : (Node.parameter p).Copied ρ (.parameter (ρ p)) := by
  have hid : (Node.parameter p).identical (.parameter (ρ p)) = true ↔ p = ρ p := beq_iff_eq
  refine ⟨rfl, hid.trans ⟨fun h => .intro [] rfl ?_ (by simp), fun h => ?_⟩, fun h => ?_⟩
  · rintro _ ⟨⟩
    exact h.symm
  · exact (h.holds p rfl).symm
  · rw [← hid.1 h]

/-- A node whose children are left as they are is left as it is. -/
theorem Copied.self (other : n.asParameter? = none) (hn : n.childNodes = .ok ns)
    (hns : List.Forall₂ (Copied ρ) ns ns) : n.Copied ρ n := by
  refine ⟨(label_renamed_of_other ρ other).symm, ⟨fun _ => ?_, fun _ => n.identical_self⟩,
    fun _ => rfl⟩
  refine (all_occurs_iff other hn).2 fun k hk => ?_
  exact (List.forall₂_same.1 hns k hk).shared.1 k.identical_self

/-- A node that is made anew is told apart from the node it replaces, one of whose children is told
apart from what replaces that. -/
theorem Copied.rebuilt {s : Session} (other : n.asParameter? = none) (hn : n.childNodes = .ok ns)
    (hold : n.Older s) (hfits : List.Forall₂ Fits ns rs) (hrs : List.Forall₂ (Copied ρ) ns rs)
    (hid : ¬ allIdentical ns (rs.map .node) = true) (row : Nat) :
    n.Copied ρ (n.upon s.nextMark row (rs.map .node)) := by
  have hne : ns ≠ [] := by
    rintro rfl
    exact hid rfl
  have hapart := not_identical_upon hn hold (.of_fits hn hfits) hne row
  refine ⟨?_, ⟨fun h => absurd h hapart, fun h => absurd ?_ hid⟩, fun h => absurd h hapart⟩
  · rw [label_upon, label_renamed_of_other ρ other]
  · have hall := (all_occurs_iff other hn).1 h
    refine (allIdentical_iff hrs.length_eq).2 (forall₂_of_zip hrs.length_eq fun e he => ?_)
    exact (zip_of_forall₂ hrs e he).shared.2 (hall e.1 (List.of_mem_zip he).1)

end Node

/-! ### Renaming -/

variable {n r : Node} {ns rs : List Node} {s t : Session} {c : Caller}

/-- What a step makes of a node over renamed children is the renamed tree, and new only where it has
to be. -/
theorem renameStep_copied {σ : Substitution} (hn : n.childNodes = .ok ns) (hold : n.Older s)
    (hrs : List.Forall₂ (fun k r => k.Beside (Node.Copied σ.get) r ∧ k.Fits r) ns rs)
    (hrun : (renameStep σ n rs).run c s = (.done r, t)) : n.Beside (Node.Copied σ.get) r := by
  have hbeside : List.Forall₂ (Node.Beside (Node.Copied σ.get)) ns rs := hrs.imp fun _ _ h => h.1
  have hcopied : List.Forall₂ (Node.Copied σ.get) ns rs := hbeside.imp fun _ _ h => h.here
  have hfits : List.Forall₂ Node.Fits ns rs := hrs.imp fun _ _ h => h.2
  by_cases hother : n.asParameter? = none
  · have hstep : renameStep σ n rs = n.withChildren (rs.map .node) := by
      cases n with
      | parameter => cases hother
      | _ => rfl
    rw [hstep, Node.withChildren_eq hn (.of_fits hn hfits)] at hrun
    by_cases hid : Node.allIdentical ns (rs.map .node) = true
    · rw [if_pos hid] at hrun
      cases hrun
      have hsame : rs = ns := Node.eq_of_allIdentical (hcopied.imp fun _ _ h => h.same) hid
      subst hsame
      exact .of_children (.self hother hn hcopied) hn hn hbeside
    · rw [if_neg hid] at hrun
      have hne : ns ≠ [] := by
        rintro rfl
        exact hid rfl
      obtain ⟨used, -, hrebuilt⟩ := Node.rebuilt_run hn (.of_fits hn hfits) hne c s
      cases hrebuilt.symm.trans hrun
      exact .of_children (.rebuilt hother hn hold hfits hcopied hid _) hn
        (Node.childNodes_upon hn hfits _ _) hbeside
  · cases n with
    | parameter p =>
      cases hrun
      exact .of_children (.parameter p) rfl rfl .nil
    | _ => exact absurd rfl hother

/-- Replacing parameters gives the renamed tree, which is new only where it has to be. -/
theorem replaceParameters_copied (σ : Substitution) (h : n.All (·.Older s)) (c : Caller) :
    ∃ r t, (replaceParameters σ (.node n)).run c s = (.done r, t) ∧ n.Renamed σ.get r ∧
      n.Beside (Node.Copied σ.get) r ∧ r.All (·.Older t) := by
  obtain ⟨r, t, hrun, -, hrenamed, hbeside, hreplaced⟩ := (Judgement.succeeding c).foldTree
    Session.Noted
    (fun t k r => k.Renamed σ.get r ∧ k.Beside (Node.Copied σ.get) r ∧ k.Replaced t r)
    (fun _ => .refl) (fun h h' => h.trans h')
    (fun hs h => ⟨h.1, h.2.1, h.2.2.mono hs.nextMark_le⟩) s (P := (·.Older s))
    (fun {n ns rs u} hn hall hs hrs => by
      have hold := hall.holds.mono hs.nextMark_le
      obtain ⟨r, t, hrun, hut, hrenamed, hreplaced⟩ :=
        renameStep_run σ hn hold (hrs.imp fun _ _ h => ⟨h.1, h.2.2⟩) c
      have hbeside := renameStep_copied hn hold (hrs.imp fun _ _ h => ⟨h.2.1, h.2.2.fits⟩) hrun
      exact ⟨r, t, hrun, hut, hrenamed, hbeside, hreplaced⟩) h .refl
  exact ⟨r, t, hrun, hrenamed, hbeside, hreplaced.older⟩

/-! ### Position by position -/

namespace Substitution

/-- A parameter is replaced by one of the values of a dictionary, or it is no key and stays. -/
theorem get_ofParameters {entries : List (Value × Value)}
    (h : ∀ e ∈ entries, e.2.parameter?.isSome) (p : Parameter) :
    (∃ e ∈ entries, e.2.parameter? = some ((ofParameters entries).get p)) ∨
      (∀ e ∈ entries, e.1.parameter? ≠ some p) ∧ (ofParameters entries).get p = p := by
  induction entries with
  | nil => exact .inr ⟨by simp, rfl⟩
  | cons e rest ih =>
    obtain ⟨q, hq⟩ := Option.isSome_iff_exists.1 (h e List.mem_cons_self)
    have hrest := ih fun e he => h e (List.mem_cons_of_mem _ he)
    by_cases hkey : e.1.parameter? = some p
    · refine .inl ⟨e, List.mem_cons_self, ?_⟩
      simp [get, ofParameters, hkey, hq]
    · have hget : (ofParameters (e :: rest)).get p = (ofParameters rest).get p := by
        cases hold : e.1.parameter? with
        | none => simp [get, ofParameters, hold]
        | some k =>
          have hne : (p == k) = false := by
            refine beq_eq_false_iff_ne.2 fun hpk => hkey ?_
            rw [hold, hpk]
          simp [get, ofParameters, hold, hq, List.lookup_cons, hne]
      rw [hget]
      rcases hrest with ⟨e', he', hvalue⟩ | ⟨hkeys, hsame⟩
      · exact .inl ⟨e', List.mem_cons_of_mem _ he', hvalue⟩
      · exact .inr ⟨List.forall_mem_cons.2 ⟨hkey, hkeys⟩, hsame⟩

end Substitution

/-- Replacing parameters by parameters renames all of them at once: each position keeps its label,
with its parameter renamed, and the parameters that stand in the tree are renamed in their order.
To replace once more is to replace once by both, in a tree whose names of members equal
themselves. -/
theorem replaceParameters_pointwise (entries : List (Value × Value))
    (hentries : ∀ e ∈ entries, e.2.parameter?.isSome) (hold : n.All (·.Older s)) (c : Caller) :
    ∃ references r t, parameterReferences (.node n) = pure references ∧
      (Substitution.ofEntries entries >>= fun σ => replaceParameters σ (.node n)).run c s =
        (.done r, t) ∧
      (∀ path, (r.at? path).map (·.label) =
        (n.at? path).map (·.label.renamed (Substitution.ofParameters entries).get)) ∧
      parameterReferences (.node r) =
        pure (references.map (Substitution.ofParameters entries).get) ∧
      (∀ p ∈ references.map (Substitution.ofParameters entries).get,
        (∃ e ∈ entries, e.1.parameter? = some p) → ∃ e ∈ entries, e.2.parameter? = some p) ∧
      ∀ (next both : List (Value × Value)) (u v : Session), n.All (·.Named) →
        (∀ e ∈ next, e.2.parameter?.isSome) → (∀ e ∈ both, e.2.parameter?.isSome) →
        t.nextMark ≤ u.nextMark → s.nextMark ≤ v.nextMark →
        (∀ p ∈ references, (Substitution.ofParameters both).get p =
          (Substitution.ofParameters next).get ((Substitution.ofParameters entries).get p)) →
        ∃ q u' q' v',
          (Substitution.ofEntries next >>= fun σ => replaceParameters σ (.node r)).run c u =
            (.done q, u') ∧
          (Substitution.ofEntries both >>= fun σ => replaceParameters σ (.node n)).run c v =
            (.done q', v') ∧
          structurallyEqual (.node q) (.node q') = pure true := by
  have hwf := hold.wellFormed
  obtain ⟨references, hrefers⟩ := Node.Refers.exists_of_wellFormed hwf none
  obtain ⟨r, t, hrun, hrenamed, hbeside, holder⟩ :=
    replaceParameters_copied (Substitution.ofParameters entries) hold c
  refine ⟨references, r, t, hrefers.parameterReferences_eq hwf, ?_, fun path => ?_,
    (hrefers.renamed hwf hrenamed).parameterReferences_eq holder.wellFormed, ?_, ?_⟩
  · rw [Substitution.ofEntries_eq hentries, pure_bind]
    exact hrun
  · have hposition := hbeside.at? path
    generalize n.at? path = k, r.at? path = l at hposition
    cases hposition with
    | none => rfl
    | some h => exact congrArg some h.here.label
  · rintro _ hp ⟨e, he, hkey⟩
    obtain ⟨p, -, rfl⟩ := List.mem_map.1 hp
    rcases Substitution.get_ofParameters hentries p with hvalue | ⟨hkeys, hsame⟩
    · exact hvalue
    · rw [hsame] at hkey
      exact absurd hkey (hkeys e he)
  · intro next both u v hnamed hnext hboth htu hsv hcompose
    obtain ⟨q, u', hq, hrq, -⟩ := replaceParameters_copied (Substitution.ofParameters next)
      (holder.mono fun _ h => h.mono htu) c
    obtain ⟨q', v', hq', hnq', -⟩ := replaceParameters_copied (Substitution.ofParameters both)
      (hold.mono fun _ h => h.mono hsv) c
    refine ⟨q, u', q', v', ?_, ?_, ?_⟩
    · rw [Substitution.ofEntries_eq hnext, pure_bind]
      exact hq
    · rw [Substitution.ofEntries_eq hboth, pure_bind]
      exact hq'
    · have hagree := (Node.Refers.all_iff hwf hrefers).2 hcompose
      exact (hrenamed.comp hwf hrq).structurallyEqual hnamed (hnq'.congr hagree)

/-- A function that adds a free parameter to its own, called, with the two parameters exchanged, and
then with one of them put for both. -/
theorem replaceParameters_pointwise_exchanged :
    let x : Parameter := ⟨1, "x", .object, 0⟩
    let y : Parameter := ⟨2, "y", .object, 0⟩
    let sum : Node := .binary 4 .add (.node (.parameter x)) (.node (.parameter y)) .object
    let n : Node := .call 1 (.node (.lambda 2 3 (Node.declarations [x]) (.node sum))) 5
      [.node (.literal 6 (.ofInt 2) .int)] .object
    let entries := [(Value.node (.parameter x), Value.node (.parameter y)),
      (.node (.parameter y), .node (.parameter x))]
    let next := [(Value.node (.parameter y), Value.node (.parameter x))]
    let M : Machine := ⟨Host.plain, 9⟩
    ∃ r t, (Substitution.ofEntries entries >>= fun σ => replaceParameters σ (.node n)).run M.caller
        { nextMark := 7 } = (.done r, t) ∧
      (r.at? [0, 1, 1]).map (·.label) = some (.parameter x) ∧
      parameterReferences (.node r) = pure [y, y, x] ∧
      ∃ q u q' v,
        (Substitution.ofEntries next >>= fun σ => replaceParameters σ (.node r)).run M.caller t =
          (.done q, u) ∧
        (Substitution.ofEntries next >>= fun σ => replaceParameters σ (.node n)).run M.caller
          { nextMark := 7 } = (.done q', v) ∧
        structurallyEqual (.node q) (.node q') = pure true := by
  intro x y sum n entries next M
  let P (m : Node) : Prop := m.Older { nextMark := 7 } ∧ m.Named
  have hparameter (p : Parameter) : (Node.parameter p).All P :=
    .intro [] rfl ⟨Node.older_parameter p, by simp [Node.Named, Node.label]⟩ (by simp)
  have hsum : sum.All P :=
    .intro [.parameter x, .parameter y] rfl
      ⟨fun _ => by decide, by simp [Node.Named, Node.label, sum]⟩ (by simp [hparameter])
  have hlambda : (Node.lambda 2 3 (Node.declarations [x]) (.node sum)).All P :=
    .intro [.parameter x, sum] rfl ⟨fun _ => by decide, by simp [Node.Named, Node.label]⟩
      (by simp [hparameter, hsum])
  have htwo : (Node.literal 6 (.ofInt 2) .int).All P :=
    .intro [] rfl ⟨fun _ => by decide, by simp [Node.Named, Node.label]⟩ (by simp)
  have hall : n.All P :=
    .intro [_, _] rfl ⟨fun _ => by decide, by simp [Node.Named, Node.label, n]⟩
      (by simp [hlambda, htwo])
  have hrefers : Node.Refers none n [[[x], [[x], [y]].flatten].flatten, [].flatten].flatten := by
    have hbody : List.Forall₂ (Node.Refers none) [.parameter x, .parameter y] [[x], [y]] :=
      .cons (.parameter none x) (.cons (.parameter none y) .nil)
    refine .of_children rfl rfl (.cons (.of_children rfl rfl ?_) ?_)
    · exact .cons (.parameter none x) (.cons (.of_children rfl rfl hbody) .nil)
    · exact .cons (.of_children rfl rfl .nil) .nil
  obtain ⟨references, r, t, hreferences, hrun, hlabels, hrenamed, -, hboth⟩ :=
    replaceParameters_pointwise entries (by simp [entries, Value.parameter?, Node.asParameter?])
      (hall.mono fun _ h => h.1) M.caller
  have hlisted : references = [x, x, y] :=
    Action.pure_injective (hreferences.symm.trans (hrefers.parameterReferences_eq hall.wellFormed))
  subst hlisted
  refine ⟨r, t, hrun, hlabels _, hrenamed,
    hboth next next t _ (hall.mono fun _ h => h.2) ?_ ?_ (Nat.le_refl _) (Nat.le_refl _) ?_⟩
  · simp [next, Value.parameter?, Node.asParameter?]
  · simp [next, Value.parameter?, Node.asParameter?]
  · decide

/-- Replacing parameters by parameters makes a new node just where a parameter that stands below is
replaced by another one; every other node of the result is the node of the tree. -/
theorem replaceParameters_shares (entries : List (Value × Value))
    (hentries : ∀ e ∈ entries, e.2.parameter?.isSome) (hold : n.All (·.Older s)) (c : Caller) :
    ∃ r t, (Substitution.ofEntries entries >>= fun σ => replaceParameters σ (.node n)).run c s =
        (.done r, t) ∧
      (∀ path k, n.at? path = some k → ∃ k' references, r.at? path = some k' ∧
        parameterReferences (.node k) = pure references ∧
        (k.identical k' = true ↔
          ∀ p ∈ references, (Substitution.ofParameters entries).get p = p) ∧
        (k.identical k' = true → k' = k)) ∧
      ∃ references, parameterReferences (.node n) = pure references ∧
        (n.identical r = true ↔
          ∀ p ∈ references, (Substitution.ofParameters entries).get p = p) := by
  obtain ⟨r, t, hrun, -, hbeside, -⟩ :=
    replaceParameters_copied (Substitution.ofParameters entries) hold c
  have hposition : ∀ path k, n.at? path = some k → ∃ k' references, r.at? path = some k' ∧
      parameterReferences (.node k) = pure references ∧
      (k.identical k' = true ↔
        ∀ p ∈ references, (Substitution.ofParameters entries).get p = p) ∧
      (k.identical k' = true → k' = k) := by
    intro path k hk
    have hpath := hbeside.at? path
    rw [hk] at hpath
    generalize r.at? path = l at hpath
    obtain @⟨_, k', hkk'⟩ := hpath
    obtain ⟨references, hrefers⟩ := Node.Refers.exists_of_wellFormed hkk'.wellFormed none
    exact ⟨k', references, rfl, hrefers.parameterReferences_eq hkk'.wellFormed,
      hkk'.here.shared.trans (hrefers.all_iff hkk'.wellFormed), hkk'.here.same⟩
  refine ⟨r, t, ?_, hposition, ?_⟩
  · rw [Substitution.ofEntries_eq hentries, pure_bind]
    exact hrun
  · obtain ⟨_, references, ⟨⟩, hreferences, hshared, -⟩ := hposition [] n rfl
    exact ⟨references, hreferences, hshared⟩

/-- A tree in which one half, where one node stands twice, holds a parameter that is replaced by
itself, and the other half one that is replaced by another. -/
theorem replaceParameters_shares_half :
    let x : Parameter := ⟨1, "x", .bool, 0⟩
    let y : Parameter := ⟨2, "y", .bool, 0⟩
    let z : Parameter := ⟨3, "z", .bool, 0⟩
    let not : Node := .unary 4 .not (.node (.parameter z)) .bool
    let twice : Node := .binary 5 .and (.node not) (.node not) .bool
    let n : Node := .binary 6 .or (.node twice) (.node (.parameter x)) .bool
    let entries := [(Value.node (.parameter x), Value.node (.parameter y)),
      (.node (.parameter z), .node (.parameter z))]
    let M : Machine := ⟨Host.plain, 9⟩
    ∃ r t, (Substitution.ofEntries entries >>= fun σ => replaceParameters σ (.node n)).run M.caller
        { nextMark := 7 } = (.done r, t) ∧
      r.at? [0] = some twice ∧ r.at? [0, 0] = some not ∧ r.at? [0, 1] = some not ∧
      n.identical r = false := by
  intro x y z not twice n entries M
  let P (m : Node) : Prop := m.Older { nextMark := 7 }
  have hparameter (p : Parameter) : (Node.parameter p).All P :=
    .intro [] rfl (Node.older_parameter p) (by simp)
  have hnot : not.All P := .intro [.parameter z] rfl (fun _ => by decide) (by simp [hparameter])
  have htwice : twice.All P := .intro [not, not] rfl (fun _ => by decide) (by simp [hnot])
  have hall : n.All P :=
    .intro [twice, .parameter x] rfl (fun _ => by decide) (by simp [htwice, hparameter])
  obtain ⟨r, t, hrun, hshares, references, hreferences, hroot⟩ := replaceParameters_shares entries
    (by simp [entries, Value.parameter?, Node.asParameter?]) hall M.caller
  have hrefersNot : Node.Refers none not [[z]].flatten :=
    .of_children rfl rfl (.cons (.parameter none z) .nil)
  have hrefersTwice : Node.Refers none twice [[[z]].flatten, [[z]].flatten].flatten :=
    .of_children rfl rfl (.cons hrefersNot (.cons hrefersNot .nil))
  have hrefers : Node.Refers none n
      [[[[z]].flatten, [[z]].flatten].flatten, [x]].flatten :=
    .of_children rfl rfl (.cons hrefersTwice (.cons (.parameter none x) .nil))
  have hkept (path : List Nat) {k : Node} {ps : List Parameter} (hk : n.at? path = some k)
      (hall : k.All P) (hps : Node.Refers none k ps) (hz : ∀ p ∈ ps, p = z) :
      r.at? path = some k := by
    obtain ⟨k', qs, hk', hqs, hshared, hsame⟩ := hshares path k hk
    cases Action.pure_injective (hqs.symm.trans (hps.parameterReferences_eq hall.wellFormed))
    rw [hk', hsame (hshared.2 fun p hp => by rw [hz p hp]; rfl)]
  have hlisted :=
    Action.pure_injective (hreferences.symm.trans (hrefers.parameterReferences_eq hall.wellFormed))
  refine ⟨r, t, hrun, hkept [0] rfl htwice hrefersTwice (by simp),
    hkept [0, 0] rfl hnot hrefersNot (by simp),
    hkept [0, 1] rfl hnot hrefersNot (by simp), Bool.eq_false_iff.2 fun hid => ?_⟩
  have hx := hroot.1 hid x (by simp [hlisted])
  exact absurd hx (by decide)

end PredicateTree
