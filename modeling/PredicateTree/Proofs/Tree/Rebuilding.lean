import PredicateTree.Proofs.Tree.Recursion

/-!
# Rebuilding nodes

Where the children of a node are replaced, the node itself comes back if every new child is told to
be the old one, and otherwise a node of the same kind and label with fresh marks
(`Node.withChildren_cases`).  A new child is recognised as the old one by its mark.  Where marks tell
the truth, the result is the old node over the new children either way (`Node.withChildren_run`).
-/

namespace PredicateTree

/-- The session in which so many more marks are taken. -/
def Session.marked (s : Session) (used : Nat) : Session := { s with nextMark := s.nextMark + used }

namespace Node

/-- A node of the same kind and label with other marks, over other children. -/
def upon (n : Node) (mark row : Nat) (vs : List Value) : Node :=
  match n, vs with
  | .member _ _ name owner type, [e] => .member mark e name owner type
  | .unary _ op _ type, [x] => .unary mark op x type
  | .binary _ op _ _ type, [l, r] => .binary mark op l r type
  | .conditional _ _ _ _ type, [c, x, y] => .conditional mark c x y type
  | .call _ _ _ _ type, f :: args => .call mark f row args type
  | .lambda .., vs => .lambda mark row vs.dropLast (vs.getLastD .absent)
  | n, _ => n

/-- Whether a node may stand in the place of a child: a parameter has to stand in the place of a
parameter. -/
def Fits (old new : Node) : Prop := ∀ p, old = .parameter p → ∃ q, new = .parameter q

variable {n : Node} {ns rs : List Node} {c : Caller} {s : Session}

theorem fits_upon (n : Node) (mark row : Nat) (vs : List Value) : n.Fits (n.upon mark row vs) := by
  rintro p rfl
  exact ⟨p, rfl⟩

/-- Nodes that a node takes for its children: as many as it has, and parameters where a lambda
declares them. -/
structure Takes (n : Node) (ns rs : List Node) : Prop where
  length : ns.length = rs.length
  declared : n.kind? = some .lambda → ∀ r ∈ rs.dropLast, ∃ q, r = .parameter q

/-! ### The shape of new children -/

theorem fits_append {ps : List Parameter} {b : Node}
    (h : List.Forall₂ Fits (ps.map .parameter ++ [b]) rs) :
    ∃ (qs : List Parameter) (r : Node), rs = qs.map .parameter ++ [r] := by
  induction ps generalizing rs with
  | nil =>
    obtain ⟨r, _, _, hnone, rfl⟩ := List.forall₂_cons_left_iff.1 h
    cases hnone
    exact ⟨[], r, rfl⟩
  | cons p ps ih =>
    obtain ⟨r, _, hr, hrest, rfl⟩ := List.forall₂_cons_left_iff.1 h
    obtain ⟨q, rfl⟩ := hr p rfl
    obtain ⟨qs, r, rfl⟩ := ih hrest
    exact ⟨q :: qs, r, rfl⟩

/-- What fits in the place of each child is taken for the children. -/
theorem Takes.of_fits (hn : n.childNodes = .ok ns) (hr : List.Forall₂ Fits ns rs) :
    n.Takes ns rs := by
  refine ⟨hr.length_eq, fun hl => ?_⟩
  obtain ⟨mark, row, ps, b, rfl, rfl⟩ := lambda_of_childNodes hn hl
  obtain ⟨qs, r, rfl⟩ := fits_append hr
  rw [List.dropLast_concat]
  intro k hk
  obtain ⟨q, -, rfl⟩ := List.mem_map.1 hk
  exact ⟨q, rfl⟩

theorem exists_parameters (h : ∀ r ∈ rs, ∃ q, r = .parameter q) :
    ∃ qs : List Parameter, rs = qs.map .parameter := by
  induction rs with
  | nil => exact ⟨[], rfl⟩
  | cons r rs ih =>
    obtain ⟨q, rfl⟩ := h r List.mem_cons_self
    obtain ⟨qs, rfl⟩ := ih fun k hk => h k (List.mem_cons_of_mem _ hk)
    exact ⟨q :: qs, rfl⟩

/-- A lambda takes parameters and a body. -/
theorem Takes.of_lambda {mark row : Nat} {ps : List Value} {b : Value} {k : Node}
    (h : (Node.lambda mark row ps b).Takes (ns ++ [k]) rs) :
    ∃ (qs : List Parameter) (r : Node), rs = qs.map .parameter ++ [r] := by
  have hne : rs ≠ [] := by
    rintro rfl
    simpa using h.length
  obtain ⟨qs, hqs⟩ := exists_parameters (h.declared rfl)
  exact ⟨qs, rs.getLast hne, by rw [← hqs, List.dropLast_append_getLast hne]⟩

theorem eq_of_allIdentical (h : List.Forall₂ (fun k r => k.identical r = true → r = k) ns rs)
    (hid : allIdentical ns (rs.map .node) = true) : rs = ns := by
  induction h with
  | nil => rfl
  | @cons k r ns rs hr _ ih =>
    obtain ⟨hk, hrest⟩ := Bool.and_eq_true_iff.1 hid
    rw [hr hk, ih hrest]

theorem allIdentical_iff (hlen : ns.length = rs.length) :
    allIdentical ns (rs.map .node) = true ↔
      List.Forall₂ (fun k r => k.identical r = true) ns rs := by
  induction ns generalizing rs with
  | nil =>
    cases rs with
    | nil => exact ⟨fun _ => .nil, fun _ => rfl⟩
    | cons => cases hlen
  | cons n ns ih =>
    cases rs with
    | nil => cases hlen
    | cons r rs =>
      rw [List.forall₂_cons, ← ih (Nat.succ.inj hlen)]
      exact Bool.and_eq_true_iff

theorem requireDeclarations_declarations (ps : List Parameter) :
    requireDeclarations (declarations ps) = pure () := by
  induction ps with
  | nil => rfl
  | cons p ps ih => exact ih

theorem map_node_lambda (ps : List Parameter) (b : Node) :
    ((ps.map Node.parameter ++ [b]).map Value.node) = declarations ps ++ [.node b] := by
  rw [List.map_append, List.map_map]
  rfl

/-! ### Rebuilding -/

/-- A node over its own children is the node. -/
theorem upon_self (hn : n.childNodes = .ok ns) : ∃ row, n.upon n.mark row (ns.map .node) = n := by
  cases hasChildren_of_childNodes hn with
  | call mark f row args type => exact ⟨row, rfl⟩
  | lambda mark row ps b =>
    refine ⟨row, ?_⟩
    rw [map_node_lambda, upon, List.dropLast_concat, List.getLastD_concat]
    rfl
  | _ => exact ⟨0, rfl⟩

/-- A node over the children that it takes is of its kind, and has them. -/
theorem hasChildren_upon (hn : n.childNodes = .ok ns) (hr : n.Takes ns rs) (mark row : Nat) :
    (n.upon mark row (rs.map .node)).HasChildren rs := by
  have hlength := hr.length.symm
  cases hasChildren_of_childNodes hn with
  | literal | parameter | static =>
    cases List.eq_nil_of_length_eq_zero hlength
    constructor
  | member | unary =>
    obtain ⟨x, rfl⟩ := List.length_eq_one_iff.1 hlength
    constructor
  | binary =>
    obtain ⟨l, r, rfl⟩ := List.length_eq_two.1 hlength
    constructor
  | conditional =>
    obtain ⟨c, x, y, rfl⟩ := List.length_eq_three.1 hlength
    constructor
  | call =>
    obtain ⟨f, args, rfl⟩ := List.exists_cons_of_length_eq_add_one hlength
    constructor
  | lambda =>
    obtain ⟨qs, r, rfl⟩ := hr.of_lambda
    rw [map_node_lambda, upon, List.dropLast_concat, List.getLastD_concat]
    constructor

/-- A node over new children has these for its children. -/
theorem childNodes_upon (hn : n.childNodes = .ok ns) (hr : List.Forall₂ Fits ns rs)
    (mark row : Nat) : (n.upon mark row (rs.map .node)).childNodes = .ok rs :=
  (hasChildren_upon hn (.of_fits hn hr) mark row).childNodes

/-- A node that has children gets a mark of its own over new ones. -/
theorem mark_upon (hn : n.childNodes = .ok ns) (hr : n.Takes ns rs) (hne : ns ≠ [])
    (mark row : Nat) : (n.upon mark row (rs.map .node)).mark = mark := by
  have hlength := hr.length.symm
  cases hasChildren_of_childNodes hn with
  | literal | parameter | static => exact absurd rfl hne
  | member | unary =>
    obtain ⟨x, rfl⟩ := List.length_eq_one_iff.1 hlength
    rfl
  | binary =>
    obtain ⟨l, r, rfl⟩ := List.length_eq_two.1 hlength
    rfl
  | conditional =>
    obtain ⟨c, x, y, rfl⟩ := List.length_eq_three.1 hlength
    rfl
  | call =>
    obtain ⟨f, args, rfl⟩ := List.exists_cons_of_length_eq_add_one hlength
    rfl
  | lambda => rfl

/-- Of children that were put in the place of others and replaced again, nothing is left. -/
theorem upon_upon {ks : List Node} (hn : n.childNodes = .ok ns) (hr : n.Takes ns rs)
    (hk : n.Takes ns ks) (mark row mark' row' : Nat) :
    (n.upon mark row (rs.map .node)).upon mark' row' (ks.map .node) =
      n.upon mark' row' (ks.map .node) := by
  have hlength := hr.length.symm
  have hlength' := hk.length.symm
  cases hasChildren_of_childNodes hn with
  | literal | parameter | static =>
    cases List.eq_nil_of_length_eq_zero hlength
    cases List.eq_nil_of_length_eq_zero hlength'
    rfl
  | member | unary =>
    obtain ⟨x, rfl⟩ := List.length_eq_one_iff.1 hlength
    obtain ⟨y, rfl⟩ := List.length_eq_one_iff.1 hlength'
    rfl
  | binary =>
    obtain ⟨l, r, rfl⟩ := List.length_eq_two.1 hlength
    obtain ⟨l', r', rfl⟩ := List.length_eq_two.1 hlength'
    rfl
  | conditional =>
    obtain ⟨c, x, y, rfl⟩ := List.length_eq_three.1 hlength
    obtain ⟨c', x', y', rfl⟩ := List.length_eq_three.1 hlength'
    rfl
  | call =>
    obtain ⟨f, args, rfl⟩ := List.exists_cons_of_length_eq_add_one hlength
    obtain ⟨f', args', rfl⟩ := List.exists_cons_of_length_eq_add_one hlength'
    rfl
  | lambda => rfl

/-- A node that has children is rebuilt over others with fresh marks. -/
theorem rebuilt_run (hn : n.childNodes = .ok ns) (hr : n.Takes ns rs) (hne : ns ≠ [])
    (c : Caller) (s : Session) :
    ∃ used, 0 < used ∧ (n.rebuilt (rs.map .node)).run c s =
      (.done (n.upon s.nextMark (s.nextMark + 1) (rs.map .node)), s.marked used) := by
  have hlength := hr.length.symm
  cases hasChildren_of_childNodes hn with
  | literal | parameter | static => exact absurd rfl hne
  | member | unary =>
    obtain ⟨x, rfl⟩ := List.length_eq_one_iff.1 hlength
    exact ⟨1, Nat.one_pos, rfl⟩
  | binary =>
    obtain ⟨l, r, rfl⟩ := List.length_eq_two.1 hlength
    exact ⟨1, Nat.one_pos, rfl⟩
  | conditional =>
    obtain ⟨c, x, y, rfl⟩ := List.length_eq_three.1 hlength
    exact ⟨1, Nat.one_pos, rfl⟩
  | call =>
    obtain ⟨f, args, rfl⟩ := List.exists_cons_of_length_eq_add_one hlength
    exact ⟨2, Nat.two_pos, rfl⟩
  | lambda =>
    obtain ⟨qs, r, rfl⟩ := hr.of_lambda
    refine ⟨2, Nat.two_pos, ?_⟩
    rw [map_node_lambda, rebuilt, upon, List.dropLast_concat]
    simp only [requireDeclarations_declarations, pure_bind]
    rfl

/-- A node is rebuilt unless every new child is told to be the old one. -/
theorem withChildren_eq (hn : n.childNodes = .ok ns) (hr : n.Takes ns rs) :
    n.withChildren (rs.map .node) =
      if allIdentical ns (rs.map .node) then pure n else n.rebuilt (rs.map .node) := by
  have hlen : (rs.map Value.node).length = ns.length := by
    rw [List.length_map, hr.length]
  have hchildren : n.children = pure ns := by
    rw [children, hn, Stray.orRaise]
  rw [withChildren, hchildren, pure_bind, if_neg (by simpa using hlen)]

theorem identical_self (n : Node) : n.identical n = true := by
  cases n <;> simp [identical]

/-- A node takes its own children. -/
theorem Takes.self (hn : n.childNodes = .ok ns) : n.Takes ns ns :=
  .of_fits hn (List.forall₂_same.2 fun _ _ p hp => ⟨p, hp⟩)

/-- Over its own children a node comes back as it is. -/
theorem withChildren_self (hn : n.childNodes = .ok ns) :
    n.withChildren (ns.map .node) = pure n := by
  rw [withChildren_eq hn (.self hn), if_pos]
  exact (allIdentical_iff rfl).2 (List.forall₂_same.2 fun k _ => k.identical_self)

/-- Over new children a node comes back as it is, or rebuilt with fresh marks. -/
theorem withChildren_cases (hn : n.childNodes = .ok ns) (hr : n.Takes ns rs) (c : Caller)
    (s : Session) :
    allIdentical ns (rs.map .node) = true ∧
        (n.withChildren (rs.map .node)).run c s = (.done n, s) ∨
      ∃ used, 0 < used ∧ (n.withChildren (rs.map .node)).run c s =
        (.done (n.upon s.nextMark (s.nextMark + 1) (rs.map .node)), s.marked used) := by
  rw [withChildren_eq hn hr]
  by_cases hid : allIdentical ns (rs.map .node) = true
  · rw [if_pos hid]
    exact .inl ⟨hid, rfl⟩
  · rw [if_neg hid]
    have hne : ns ≠ [] := by
      rintro rfl
      exact hid rfl
    exact .inr (rebuilt_run hn hr hne c s)

/-- Where no new child is mistaken for the old one, a node over new children has these. -/
theorem withChildren_run (hn : n.childNodes = .ok ns) (hr : n.Takes ns rs)
    (hid : List.Forall₂ (fun k r => k.identical r = true → r = k) ns rs) (c : Caller)
    (s : Session) :
    ∃ mark row used, (n.withChildren (rs.map .node)).run c s =
        (.done (n.upon mark row (rs.map .node)), s.marked used) ∧
      (n.upon mark row (rs.map .node) = n ∨ mark = s.nextMark ∧ 0 < used) := by
  rcases withChildren_cases hn hr c s with ⟨hall, hrun⟩ | ⟨used, hused, hrun⟩
  · rw [eq_of_allIdentical hid hall] at hrun ⊢
    obtain ⟨row, hrow⟩ := upon_self hn
    exact ⟨n.mark, row, 0, by rw [hrow]; exact hrun, .inl hrow⟩
  · exact ⟨_, _, used, hrun, .inr ⟨rfl, hused⟩⟩

/-! ### Older nodes -/

/-- A node that is no parameter was made before a session. -/
def Older (s : Session) (n : Node) : Prop := n.asParameter? = none → n.mark < s.nextMark

theorem older_parameter (p : Parameter) : (Node.parameter p).Older s := by
  intro h
  cases h

theorem mark_of_identical {m : Node} (h : n.identical m = true) (other : n.asParameter? = none) :
    n.mark = m.mark := by
  unfold identical at h
  split at h
  case h_1 => cases other
  case h_10 => cases h
  all_goals exact beq_iff_eq.1 h

theorem upon_eq_or_mark (n : Node) (mark row : Nat) (vs : List Value) :
    n.upon mark row vs = n ∨ (n.upon mark row vs).mark = mark := by
  unfold upon
  split
  case h_7 => exact .inl rfl
  all_goals exact .inr rfl

/-- A node that is made in a session is told apart from older ones. -/
theorem eq_of_identical_upon (hn : n.Older s) (other : n.asParameter? = none) {row : Nat}
    {vs : List Value} (h : n.identical (n.upon s.nextMark row vs) = true) :
    n.upon s.nextMark row vs = n := by
  rcases upon_eq_or_mark n s.nextMark row vs with hsame | hmark
  · exact hsame
  · have hlt := hn other
    have heq := mark_of_identical h other
    omega

/-- A node that has children is told apart from what it is rebuilt to. -/
theorem not_identical_upon (hn : n.childNodes = .ok ns) (hold : n.Older s)
    (hr : n.Takes ns rs) (hne : ns ≠ []) (row : Nat) :
    ¬ n.identical (n.upon s.nextMark row (rs.map .node)) = true := by
  intro hid
  have other : n.asParameter? = none := by
    cases n with
    | parameter =>
      cases hn
      exact absurd rfl hne
    | _ => rfl
  have hmark := mark_of_identical hid other
  rw [mark_upon hn hr hne] at hmark
  exact Nat.ne_of_lt (hold other) hmark

/-- A node over new children is told to be the old one if each of them is. -/
theorem identical_withChildren_iff (hn : n.childNodes = .ok ns) (hold : n.Older s)
    (hr : n.Takes ns rs) {m : Node} {t : Session}
    (hrun : (n.withChildren (rs.map .node)).run c s = (.done m, t)) :
    n.identical m = true ↔ List.Forall₂ (fun k r => k.identical r = true) ns rs := by
  rw [← allIdentical_iff hr.length]
  rw [withChildren_eq hn hr] at hrun
  by_cases hid : allIdentical ns (rs.map .node) = true
  · rw [if_pos hid] at hrun
    cases hrun
    exact iff_of_true n.identical_self hid
  · rw [if_neg hid] at hrun
    have hne : ns ≠ [] := by
      rintro rfl
      exact hid rfl
    obtain ⟨used, -, hrebuilt⟩ := rebuilt_run hn hr hne c s
    cases hrebuilt.symm.trans hrun
    exact iff_of_false (not_identical_upon hn hold hr hne _) hid

/-- What a node was rebuilt to stands for the node only if it is the node. -/
theorem eq_of_identical_rebuilt (hn : n.Older s) {mark row used : Nat} {vs : List Value}
    (hmark : n.upon mark row vs = n ∨ mark = s.nextMark ∧ 0 < used)
    (h : n.identical (n.upon mark row vs) = true) : n.upon mark row vs = n := by
  cases hother : n.asParameter? with
  | some p =>
    cases n with
    | parameter => rfl
    | _ => cases hother
  | none =>
    rcases hmark with hsame | ⟨rfl, -⟩
    · exact hsame
    · exact eq_of_identical_upon hn hother h

/-- What a node was rebuilt to is older than what is made next. -/
theorem Older.rebuilt (hn : n.Older s) {mark row used : Nat} {vs : List Value}
    (hmark : n.upon mark row vs = n ∨ mark = s.nextMark ∧ 0 < used) :
    (n.upon mark row vs).Older (s.marked used) := by
  have hsame : n.Older (s.marked used) := fun other =>
    Nat.lt_of_lt_of_le (hn other) (Nat.le_add_right _ _)
  rcases hmark with heq | ⟨rfl, hused⟩
  · rwa [heq]
  · rcases upon_eq_or_mark n s.nextMark row vs with heq | heq
    · rwa [heq]
    · intro _
      rw [heq]
      exact Nat.lt_add_of_pos_right hused

theorem Older.mono {t : Session} (h : n.Older s) (hst : s.nextMark ≤ t.nextMark) : n.Older t :=
  fun other => Nat.lt_of_lt_of_le (h other) hst

/-- What stands for a node by a session: a tree that was made before, that is told to be the node only
if it is the node, and that is a parameter where the node is one. -/
structure Replaced (s : Session) (n r : Node) : Prop where
  older : r.All (·.Older s)
  told : n.identical r = true → r = n
  fits : n.Fits r

theorem Replaced.mono {r : Node} {t : Session} (h : n.Replaced s r)
    (hst : s.nextMark ≤ t.nextMark) : n.Replaced t r :=
  ⟨h.older.mono fun _ h => h.mono hst, h.told, h.fits⟩

/-- A node over what stands for its children stands for the node. -/
theorem withChildren_replaced (hn : n.childNodes = .ok ns) (hold : n.Older s)
    (hrs : List.Forall₂ (Replaced s) ns rs) (c : Caller) :
    ∃ mark row used, (n.withChildren (rs.map .node)).run c s =
        (.done (n.upon mark row (rs.map .node)), s.marked used) ∧
      n.Replaced (s.marked used) (n.upon mark row (rs.map .node)) := by
  have hfits : List.Forall₂ Fits ns rs := hrs.imp fun _ _ h => h.fits
  obtain ⟨mark, row, used, hrun, hmark⟩ :=
    withChildren_run hn (.of_fits hn hfits) (hrs.imp fun _ _ h => h.told) c s
  refine ⟨mark, row, used, hrun, .intro rs (childNodes_upon hn hfits mark row)
    (hold.rebuilt hmark) ?_, eq_of_identical_rebuilt hold hmark, fits_upon n mark row _⟩
  exact forall_of_forall₂ hrs fun _ _ _ hr =>
    hr.older.mono fun _ h => h.mono (Nat.le_add_right _ _)

theorem childNodes_of_isLiteral (h : n.isLiteral = true) : n.childNodes = .ok [] := by
  cases n with
  | literal => rfl
  | _ => cases h

theorem isLiteral_of_identical {m : Node} (h : n.identical m = true) (hm : m.isLiteral = true) :
    n.isLiteral = true := by
  cases m with
  | literal =>
    cases n with
    | literal => rfl
    | _ => cases h
  | _ => cases hm

end Node

end PredicateTree
