import PredicateTree.Builder
import PredicateTree.Proofs.Equality.Replacement
import PredicateTree.Proofs.Evaluation.Refinement

/-!
# Dotted paths

The builder cuts a dotted path at its dots and makes a chain of members of the names, one link a
name (`path_run`, `Node.Links`).  To cut is a homomorphism from paths that are joined by a dot to
lists that are appended (`pathSegments_append`), so two paths one after the other give the tree of
the joined path.

A chain reads its names one after the other, each from what the last one gave (`Host.readInTurn`),
and its expression only once, before them.  For the values of this library `ReadsPath` says what
comes of that: dictionaries are read by key and everything else by attribute, up to the first read
that fails, which is reported at its link (`Machine.paths_read`).
-/

namespace PredicateTree

/-! ### Cutting a path -/

/-- The names of a dotted path: what stands between its dots. -/
def pathSegments (dotted : String) : List String :=
  (dotted.toList.splitOn '.').map String.ofList

theorem pathNames_eq (cs : List Char) : Builder.pathNames cs = cs.splitOn '.' := by
  induction cs with
  | nil => rfl
  | cons c cs ih =>
    rw [Builder.pathNames, List.splitOn_cons_eq_if_modifyHead, ih]
    by_cases hc : c = '.'
    · rw [if_pos hc, if_pos (beq_iff_eq.2 hc)]
    · rw [if_neg hc, if_neg (by simpa using hc)]
      cases hcut : cs.splitOn '.' with
      | nil => exact absurd hcut (List.splitOn_ne_nil '.' cs)
      | cons name names => rfl

/-- The names of two paths that are joined by a dot are those of the one and those of the other. -/
theorem pathSegments_append (p q : String) :
    pathSegments (p ++ "." ++ q) = pathSegments p ++ pathSegments q := by
  have hdotted : (p ++ "." ++ q).toList = p.toList ++ '.' :: q.toList := by simp
  rw [pathSegments, hdotted, List.splitOn_append_cons_self, List.map_append]
  rfl

/-- A value is the text `s`. -/
def Value.Spells (v : Value) (s : String) : Prop := ∃ mark, v = .str mark s

theorem Value.Spells.equal {v w : Value} {s : String} (hv : v.Spells s) (hw : w.Spells s) :
    v.equal w = pure true := by
  obtain ⟨mark, rfl⟩ := hv
  obtain ⟨mark', rfl⟩ := hw
  change (Value.str mark s).same (.str mark' s) = pure true
  rw [same, sameBy.eq_def]
  simp [settled?]

theorem textPiece_run (text : String) (c : Caller) (s : Session) :
    ∃ v t, (Action.textPiece text).run c s = (.done v, t) ∧ v.Spells text := by
  unfold Action.textPiece Action.newText
  split
  · exact ⟨_, s, rfl, 0, rfl⟩
  · split
    · exact ⟨_, s, rfl, 0, rfl⟩
    · exact ⟨_, s.marked 1, rfl, s.nextMark, rfl⟩

theorem textPieces_run (names : List (List Char)) (c : Caller) (s : Session) :
    ∃ vs t, (names.mapM fun name => Action.textPiece (String.ofList name)).run c s = (.done vs, t) ∧
      List.Forall₂ Value.Spells vs (names.map String.ofList) := by
  induction names generalizing s with
  | nil => exact ⟨[], s, rfl, .nil⟩
  | cons name names ih =>
    obtain ⟨v, t, hrun, hv⟩ := textPiece_run (String.ofList name) c s
    obtain ⟨vs, u, hrest, hvs⟩ := ih t
    refine ⟨v :: vs, u, ?_, .cons hv hvs⟩
    rw [List.mapM_cons, Action.run_bind_done hrun, Action.run_bind_done hrest]
    rfl

/-- The names of a path as texts spell its segments. -/
theorem pathTexts_run (mark : Nat) (dotted : String) (c : Caller) (s : Session) :
    ∃ vs t, (Builder.pathTexts mark dotted).run c s = (.done vs, t) ∧
      List.Forall₂ Value.Spells vs (pathSegments dotted) := by
  unfold Builder.pathTexts
  split
  · rename_i name hname
    rw [pathNames_eq] at hname
    have hwhole : name = dotted.toList := by
      have hjoined : ['.'].intercalate (dotted.toList.splitOn '.') = dotted.toList :=
        List.intercalate_splitOn '.'
      rwa [hname, List.intercalate_singleton] at hjoined
    refine ⟨_, s, rfl, ?_⟩
    rw [pathSegments, hname, hwhole, List.map_singleton, String.ofList_toList]
    exact .cons ⟨mark, rfl⟩ .nil
  · rw [pathNames_eq]
    exact textPieces_run _ c s

/-! ### Chains of members -/

/-- A chain of members of untyped names over an expression, listed with the names, first to last. -/
inductive Node.Links : Node → List (Node × Value) → Node → Prop where
  | nil (e : Node) : Links e [] e
  | cons {mark : Nat} {e j n : Node} {name : Value} {links : List (Node × Value)}
      (link : j = .member mark (.node e) name .absent .object) (rest : Links j links n) :
      Links e ((j, name) :: links) n

variable {e n m : Node} {links more : List (Node × Value)} {c : Caller} {s t : Session}

/-- A chain over a chain is a chain. -/
theorem Node.Links.trans (h : e.Links links n) (h' : n.Links more m) :
    e.Links (links ++ more) m := by
  induction h with
  | nil => exact h'
  | cons link _ ih => exact .cons link (ih h')

theorem chain_run (e : Node) (names : List Value) (c : Caller) (s : Session) :
    ∃ n t links, (Builder.chain e none names).run c s = (.done n, t) ∧ e.Links links n ∧
      links.map (·.2) = names := by
  induction names generalizing e s with
  | nil => exact ⟨e, s, [], rfl, .nil e, rfl⟩
  | cons name names ih =>
    let j : Node := .member s.nextMark (.node e) name .absent .object
    have hlink : (Builder.member (.node e) name none .absent).run c s = (.done j, s.marked 1) := rfl
    cases names with
    | nil => exact ⟨j, _, [(j, name)], hlink, .cons rfl (.nil j), rfl⟩
    | cons next names =>
      obtain ⟨n, t, links, hrun, hlinks, hnames⟩ := ih j (s.marked 1)
      refine ⟨n, t, (j, name) :: links, ?_, .cons rfl hlinks, by rw [List.map_cons, hnames]⟩
      rw [Builder.chain, Action.run_bind_done hlink, hrun]
      nofun

/-- The builder makes a chain of the names of a path. -/
theorem path_run (e : Node) (mark : Nat) (dotted : String) (c : Caller) (s : Session) :
    ∃ n t links, (Builder.path (.node e) mark dotted none).run c s = (.done n, t) ∧
      e.Links links n ∧ List.Forall₂ Value.Spells (links.map (·.2)) (pathSegments dotted) := by
  obtain ⟨names, t, htexts, hspell⟩ := pathTexts_run mark dotted c s
  obtain ⟨n, u, links, hrun, hlinks, rfl⟩ := chain_run e names c t
  refine ⟨n, u, links, ?_, hlinks, hspell⟩
  rw [Builder.path, Action.run_bind_done htexts]
  exact hrun

/-! ### Equality of chains -/

theorem structurallyEqual_member {mark mark' : Nat} {e e' : Node} {name name' : Value}
    {type : StaticType} (hname : name.equal name' = pure true)
    (he : structurallyEqual (.node e) (.node e') = pure true) :
    structurallyEqual (.node (.member mark (.node e) name .absent type))
      (.node (.member mark' (.node e') name' .absent type)) = pure true := by
  by_cases hid : (Node.member mark (.node e) name .absent type).identical
      (.member mark' (.node e') name' .absent type) = true
  · exact structurallyEqual_of_identical hid
  · rw [structurallyEqual_node hid (Node.childNodes_member ..) (Node.childNodes_member ..),
      Node.sameLabel, if_pos rfl, hname, pure_bind, if_pos rfl]
    exact allHold_of_forall fun _ hk => by cases List.mem_singleton.1 hk; exact he

/-- Chains of the same names over equal expressions are equal. -/
theorem Node.Links.structurallyEqual {e' n' : Node} {links' : List (Node × Value)}
    {texts : List String} (h : e.Links links n) (h' : e'.Links links' n')
    (hspell : List.Forall₂ Value.Spells (links.map (·.2)) texts)
    (hspell' : List.Forall₂ Value.Spells (links'.map (·.2)) texts)
    (he : structurallyEqual (.node e) (.node e') = pure true) :
    structurallyEqual (.node n) (.node n') = pure true := by
  induction h generalizing e' links' texts with
  | nil =>
    cases hspell
    cases h' with
    | nil => exact he
    | cons => cases hspell'
  | cons link _ ih =>
    obtain ⟨text, texts, hname, hrest, rfl⟩ := List.forall₂_cons_left_iff.1 hspell
    cases h' with
    | nil => cases hspell'
    | cons link' rest' =>
      obtain ⟨hname', hrest'⟩ := List.forall₂_cons.1 hspell'
      subst link link'
      exact ih rest' hrest hrest' (structurallyEqual_member (hname.equal hname') he)

/-! ### Reading a chain -/

/-- Reads names one after the other, each at its link and from the value that the last one gave. -/
def Host.readInTurn (host : Host) : List (Node × Value) → Value → Action Value
  | [], v => pure v
  | (site, name) :: rest, v => do
    let w ← readingAt host site name v
    host.readInTurn rest w

theorem wellFormed_member (he : e.WellFormed) (mark : Nat) (name owner : Value)
    (type : StaticType) : (Node.member mark (.node e) name owner type).WellFormed :=
  .intro [e] (Node.childNodes_member ..) trivial fun m hm => by rwa [List.mem_singleton.1 hm]

theorem compileTree_member (he : e.WellFormed) (t : OperatorTable) (mark : Nat) (name : Value) :
    let j : Node := .member mark (.node e) name .absent .object
    compileTree t (.node j) = (do
      let code ← compileTree t (.node e)
      return .readMember j code name) := by
  intro j
  rw [compileTree, foldTree_node (wellFormed_member he mark name .absent .object)
    (Node.childNodes_member ..)]
  simp only [List.mapM_cons, List.mapM_nil, bind_assoc, pure_bind]
  rfl

/-- A chain evaluates its expression, and then it reads its names in turn. -/
theorem Node.Links.evaluate {M : Machine} (h : e.Links links n) (he : e.WellFormed)
    (bindings overrides : List (Value × Value)) :
    M.evaluate (.node n) bindings overrides = (do
      let v ← M.evaluate (.node e) bindings overrides
      M.host.readInTurn links v) := by
  induction h with
  | nil => exact (bind_pure _).symm
  | @cons mark e j n name links link _ ih =>
    subst link
    rw [ih (wellFormed_member he mark name .absent .object), Machine.evaluate, Machine.evaluate]
    simp only [compileTree_member he, bind_assoc, pure_bind, Code.run, Host.readInTurn]

/-- A member of a value is read: under a key from a dictionary, and as an attribute from any other
value. -/
inductive Value.Reads (v name : Value) (c : Caller) (s : Session) :
    Outcome Value × Session → Prop where
  | key {entries : List (Value × Value)} {o : Outcome Value × Session}
      (dictionary : v.entries? = some entries) (read : (v.item name).run c s = o) :
      Reads v name c s o
  | named {o : Outcome Value × Session} (other : v.entries? = none)
      (read : (v.attributeNamed name).run c s = o) : Reads v name c s o

theorem member_iff {name v : Value} {o : Outcome Value × Session} :
    (v.member name).run c s = o ↔ v.Reads name c s o := by
  rw [Value.member]
  cases hv : v.entries? with
  | none =>
    refine ⟨fun h => .named hv h, fun h => ?_⟩
    cases h with
    | key dictionary => cases hv.symm.trans dictionary
    | named _ read => exact read
  | some entries =>
    refine ⟨fun h => .key hv h, fun h => ?_⟩
    cases h with
    | key _ read => exact read
    | named other => cases hv.symm.trans other

/-- What comes of reading the names of a chain one after the other, each from what the last one
gave: the value at the end, or a fault of evaluation at the link of the first name whose read fails,
which holds the text of that link. -/
inductive ReadsPath (c : Caller) :
    List (Node × Value) → Value → Session → Outcome Value × Session → Prop where
  | arrived (v : Value) (s : Session) : ReadsPath c [] v s (.done v, s)
  | next {site : Node} {name v w : Value} {rest : List (Node × Value)} {s t : Session}
      {o : Outcome Value × Session} (read : v.Reads name c s (.done w, t))
      (onward : ReadsPath c rest w t o) : ReadsPath c ((site, name) :: rest) v s o
  | failed {site : Node} {mark : Nat} {text shown : String} {v : Value}
      {rest : List (Node × Value)} {f : Fault} {s t u : Session}
      (read : v.Reads (.str mark text) c s (.raised f, t))
      (described : (Value.node site).shown.run c t = (.done shown, u)) :
      ReadsPath c ((site, .str mark text) :: rest) v s
        (.raised (.failedAt site shown (.reading text) f), u)
  | undescribed {site : Node} {name v : Value} {rest : List (Node × Value)} {f : Fault}
      {s t u : Session} {p : Outcome String} {o : Outcome Value}
      (read : v.Reads name c s (.raised f, t))
      (described : (Value.node site).shown.run c t = (p, u)) (stops : p.Stops o) :
      ReadsPath c ((site, name) :: rest) v s (o, u)
  | exhausted {site : Node} {name v : Value} {rest : List (Node × Value)} {s t : Session}
      (read : v.Reads name c s (.exhausted, t)) :
      ReadsPath c ((site, name) :: rest) v s (.exhausted, t)

theorem spell_text (mark : Nat) (text : String) (c : Caller) (s : Session) :
    (Host.standard.spell (.str mark text)).run c s = (.done text, s) := rfl

/-- What a read at a link gives was read by the rules. -/
theorem reads_of_done {site : Node} {name v w : Value}
    (h : Host.standard.ReadsAt c site name v s (.done w, t)) : v.Reads name c s (.done w, t) := by
  cases h with
  | done run => exact member_iff.1 run
  | reported _ _ report =>
    cases report with
    | undescribed _ stops => cases stops
  | unspelled _ _ stops => cases stops

/-- A chain ends where a read at a link does not give a value. -/
theorem ReadsPath.of_stopped {site : Node} {mark : Nat} {text : String} {v : Value}
    {p q : Outcome Value} (h : Host.standard.ReadsAt c site (.str mark text) v s (p, t))
    (hstops : p.Stops q) : ReadsPath c ((site, .str mark text) :: links) v s (q, t) := by
  cases h with
  | done => cases hstops
  | reported run spelled report =>
    cases (spell_text mark text c _).symm.trans spelled
    cases report with
    | described described =>
      cases hstops
      exact .failed (member_iff.1 run) described
    | undescribed described stops =>
      -- both say in the same way how the text of the node stops
      cases stops with
      | raised f =>
        cases hstops
        exact .undescribed (member_iff.1 run) described (.raised f)
      | exhausted =>
        cases hstops
        exact .undescribed (member_iff.1 run) described .exhausted
  | unspelled _ spelled stops =>
    cases (spell_text mark text c _).symm.trans spelled
    cases stops
  | exhausted run =>
    cases hstops
    exact .exhausted (member_iff.1 run)

/-- With the values of this library, names are read in turn by the rules. -/
theorem readInTurn_iff {texts : List String} {v : Value} {o : Outcome Value × Session}
    (hspell : List.Forall₂ Value.Spells (links.map (·.2)) texts) :
    (Host.standard.readInTurn links v).run c s = o ↔ ReadsPath c links v s o := by
  induction links generalizing texts v s with
  | nil =>
    constructor
    · rintro rfl
      exact .arrived v s
    · rintro ⟨⟩
      rfl
  | cons link links ih =>
    obtain ⟨site, name⟩ := link
    obtain ⟨text, texts, ⟨mark, rfl⟩, hrest, rfl⟩ := List.forall₂_cons_left_iff.1 hspell
    rw [Host.readInTurn, Action.run_bind_iff]
    simp only [readingAt_iff, ih hrest]
    constructor
    · rintro (⟨w, t, hread, honward⟩ | ⟨p, u, q, hread, hstops, rfl⟩)
      · exact .next (reads_of_done hread) honward
      · exact .of_stopped hread hstops
    · intro h
      cases h with
      | next read onward => exact .inl ⟨_, _, .done (member_iff.2 read), onward⟩
      | failed read described =>
        exact .inr ⟨_, _, _, .reported (member_iff.2 read) (spell_text ..) (.described described),
          .raised _, rfl⟩
      | undescribed read described stops =>
        cases stops with
        | raised f =>
          exact .inr ⟨_, _, _, .reported (member_iff.2 read) (spell_text ..)
            (.undescribed described (.raised f)), .raised f, rfl⟩
        | exhausted =>
          exact .inr ⟨_, _, _, .reported (member_iff.2 read) (spell_text ..)
            (.undescribed described .exhausted), .exhausted, rfl⟩
      | exhausted read => exact .inr ⟨_, _, _, .exhausted (member_iff.2 read), .exhausted, rfl⟩

/-- The first read that fails is reported at its link. -/
theorem ReadsPath.fails {before after : List (Node × Value)} {site : Node} {mark : Nat}
    {text shown : String} {v x : Value} {f : Fault} {t u w : Session}
    (h : ReadsPath c before v s (.done x, t)) (read : x.Reads (.str mark text) c t (.raised f, u))
    (described : (Value.node site).shown.run c u = (.done shown, w)) :
    ReadsPath c (before ++ (site, .str mark text) :: after) v s
      (.raised (.failedAt site shown (.reading text) f), w) := by
  generalize ho : (Outcome.done x, t) = o at h
  induction h with
  | arrived =>
    cases ho
    exact .failed read described
  | next first _ ih => exact .next first (ih ho)
  | failed | exhausted => cases ho
  | undescribed _ _ stops =>
    cases ho
    cases stops

namespace Machine

/-- Dotted paths compose: a path over a node that was made by a path gives the tree that the two
paths give when they are joined by a dot.  And they are read from left to right: the node at the end
of a path evaluates the expression once, and then it reads the names of the path in turn by the
rules.  Where the text of a node can be made, the first read that fails ends in a fault of
evaluation at the link of that name. -/
theorem paths_read {e : Node} (he : e.WellFormed) (depth : Nat) (c : Caller) :
    let M : Machine := ⟨Host.standard, depth⟩
    (∀ p q mark mark' mark'' s s', ∃ n n' m t t' u,
      (Builder.path (.node e) mark p none).run c s = (.done n, t) ∧
      (Builder.path (.node n) mark' q none).run c t = (.done n', t') ∧
      (Builder.path (.node e) mark'' (p ++ "." ++ q) none).run c s' = (.done m, u) ∧
      structurallyEqual (.node n') (.node m) = pure true) ∧
    ∀ dotted mark s, ∃ n t links, (Builder.path (.node e) mark dotted none).run c s = (.done n, t) ∧
      e.Links links n ∧ List.Forall₂ Value.Spells (links.map (·.2)) (pathSegments dotted) ∧
      ∀ bindings overrides u,
        (∀ o, (M.evaluate (.node n) bindings overrides).run M.caller u = o ↔
          (∃ v w, (M.evaluate (.node e) bindings overrides).run M.caller u = (.done v, w) ∧
            ReadsPath M.caller links v w o) ∨
          ∃ x w y, (M.evaluate (.node e) bindings overrides).run M.caller u = (x, w) ∧ x.Stops y ∧
            o = (y, w)) ∧
        ∀ before site name after, links = before ++ (site, name) :: after →
          ∀ v w x t f t' shown t'',
            (M.evaluate (.node e) bindings overrides).run M.caller u = (.done v, w) →
            ReadsPath M.caller before v w (.done x, t) →
            x.Reads name M.caller t (.raised f, t') →
            (Value.node site).shown.run M.caller t' = (.done shown, t'') →
            ∃ g, (M.evaluate (.node n) bindings overrides).run M.caller u = (.raised g, t'') ∧
              g.errorClass = .evaluation ∧ g.subject = some (.node site) := by
  intro M
  refine ⟨fun p q mark mark' mark'' s s' => ?_, fun dotted mark s => ?_⟩
  · obtain ⟨n, t, links, hrun, hlinks, hspell⟩ := path_run e mark p c s
    obtain ⟨n', t', links', hrun', hlinks', hspell'⟩ := path_run n mark' q c t
    obtain ⟨m, u, joined, hjoined, hm, hall⟩ := path_run e mark'' (p ++ "." ++ q) c s'
    refine ⟨n, n', m, t, t', u, hrun, hrun', hjoined, ?_⟩
    rw [pathSegments_append] at hall
    have hboth : List.Forall₂ Value.Spells ((links ++ links').map (·.2))
        (pathSegments p ++ pathSegments q) := by
      rw [List.map_append]
      exact List.rel_append hspell hspell'
    exact (hlinks.trans hlinks').structurallyEqual hm hboth hall
      (structurallyEqual_of_identical e.identical_self)
  · obtain ⟨n, t, links, hrun, hlinks, hspell⟩ := path_run e mark dotted c s
    refine ⟨n, t, links, hrun, hlinks, hspell, fun bindings overrides u => ?_⟩
    have hreads (o : Outcome Value × Session) :
        (M.evaluate (.node n) bindings overrides).run M.caller u = o ↔
          (∃ v w, (M.evaluate (.node e) bindings overrides).run M.caller u = (.done v, w) ∧
            ReadsPath M.caller links v w o) ∨
          ∃ x w y, (M.evaluate (.node e) bindings overrides).run M.caller u = (x, w) ∧ x.Stops y ∧
            o = (y, w) := by
      rw [hlinks.evaluate he, Action.run_bind_iff]
      simp only [M, readInTurn_iff hspell]
    refine ⟨hreads, ?_⟩
    rintro before site name after rfl v w x t f t' shown t'' hvalue hbefore hread hshown
    have htexts : ∀ a ∈ (before ++ (site, name) :: after).map (·.2), ∃ text, a.Spells text :=
      forall_of_forall₂ hspell.flip fun text _ _ h => ⟨text, h⟩
    obtain ⟨text, k, rfl⟩ := htexts name (by simp)
    exact ⟨_, (hreads _).2 (.inl ⟨v, w, hvalue, hbefore.fails hread hshown⟩), rfl, rfl⟩

/-- A path of two names over a parameter, read from a dictionary in a dictionary: the builder gets
it at once or name by name. -/
theorem paths_read_nested :
    let p : Parameter := ⟨1, "p", .object, 0⟩
    let inner : Value := .dict 2 [(.ofText "b", .ofInt 5)]
    let bindings : List (Value × Value) := [(.node (.parameter p), .dict 3 [(.ofText "a", inner)])]
    ∃ n n' m t t' u, (Builder.path (.node (.parameter p)) 0 "a" none).run standard.caller {} =
        (.done n, t) ∧
      (Builder.path (.node n) 0 "b" none).run standard.caller t = (.done n', t') ∧
      (Builder.path (.node (.parameter p)) 0 "a.b" none).run standard.caller {} = (.done m, u) ∧
      structurallyEqual (.node n') (.node m) = pure true ∧
      (standard.evaluate (.node m) bindings []).run standard.caller u = (.done (.ofInt 5), u) := by
  intro p inner bindings
  have he : (Node.parameter p).WellFormed := .intro [] rfl trivial (by simp)
  obtain ⟨hcompose, hread⟩ := paths_read he 1000 standard.caller
  obtain ⟨n, n', m, t, t', u, hn, hn', hm, hequal⟩ := hcompose "a" "b" 0 0 0 {} {}
  obtain ⟨m', u', links, hrun, -, hspell, hvalue⟩ := hread "a.b" 0 {}
  cases hm.symm.trans hrun
  refine ⟨n, n', m, t, t', u, hn, hn', hm, hequal, ((hvalue bindings [] u).1 _).2 (.inl ?_)⟩
  have hsegments : pathSegments "a.b" = ["a", "b"] := by decide
  rw [hsegments] at hspell
  obtain ⟨⟨first, name⟩, rest, rfl⟩ : ∃ e rest, links = e :: rest := by
    cases links with
    | nil => cases hspell
    | cons e rest => exact ⟨e, rest, rfl⟩
  obtain ⟨⟨k, rfl⟩, hrest⟩ := List.forall₂_cons.1 hspell
  obtain ⟨⟨last, name'⟩, none, rfl⟩ : ∃ e rest', rest = e :: rest' := by
    cases rest with
    | nil => cases hrest
    | cons e rest => exact ⟨e, rest, rfl⟩
  obtain ⟨⟨k', rfl⟩, hnone⟩ := List.forall₂_cons.1 hrest
  cases List.map_eq_nil_iff.1 (List.forall₂_nil_right_iff.1 hnone)
  have hvalid : OperatorTable.Valid [] := by simp [OperatorTable.Valid]
  have hp : (Node.parameter p).All (·.isOwned) := .intro [] rfl rfl (by simp)
  refine ⟨.dict 3 [(.ofText "a", inner)], u, ?_, .next (w := inner) (t := u) (.key rfl ?_)
    (.next (w := .ofInt 5) (t := u) (.key rfl ?_) (.arrived _ _))⟩
  · rw [evaluate_owned hp hvalid]
    rfl
  · rfl
  · rfl

end Machine

end PredicateTree
