import PredicateTree.Proofs.Tree.Recursion
import PredicateTree.Evaluation.Run

/-!
# What trees compile to

Compilation is a function of the tree and the table: a well-formed tree compiles to its code
(`Node.code`), unless one of its static members has no owner, and then the first of these is refused
(`compileTree_node`).  Valid overrides always resolve to a table (`OperatorTable.resolve_eq`), so
evaluation is that code run in the environment of the bindings (`Machine.evaluate_node`).  Of
invalid ones the first key that cannot be overridden is refused (`OperatorTable.resolve_misused`).
-/

namespace PredicateTree

/-! ### Tables -/

namespace OperatorTable

/-- The key that a value names, if it is an operator that can be overridden. -/
def key? : Value → Option OperatorKey
  | .binaryOp op => if op.isShortCircuit then none else some (.binary op)
  | .unaryOp op => some (.unary op)
  | _ => none

/-- Overrides are valid if they override operators that can be overridden. -/
def Valid (overrides : List (Value × Value)) : Prop := ∀ e ∈ overrides, (key? e.1).isSome

/-- The table that valid overrides make of another. -/
def overridden (t : OperatorTable) : List (Value × Value) → OperatorTable
  | [] => t
  | (k, f) :: rest => overridden (((key? k).map (t.override · f)).getD t) rest

theorem keyOf_eq {v : Value} {key : OperatorKey} (h : key? v = some key) : keyOf v = pure key := by
  cases v with
  | binaryOp op =>
    rw [key?] at h
    split at h
    · cases h
    · rename_i hop
      cases h
      rw [keyOf, if_neg hop]
  | unaryOp op =>
    cases h
    rfl
  | _ => cases h

theorem overrideAll_eq {overrides : List (Value × Value)} (h : Valid overrides)
    (t : OperatorTable) : t.overrideAll overrides = pure (t.overridden overrides) := by
  induction overrides generalizing t with
  | nil => rfl
  | cons e rest ih =>
    obtain ⟨k, f⟩ := e
    obtain ⟨key, hkey⟩ := Option.isSome_iff_exists.1 (h (k, f) List.mem_cons_self)
    rw [overrideAll, keyOf_eq hkey, pure_bind, overridden, hkey]
    exact ih (fun e he => h e (List.mem_cons_of_mem _ he)) _

theorem resolve_eq {overrides : List (Value × Value)} (h : Valid overrides) :
    resolve overrides = pure (standard.overridden overrides) := overrideAll_eq h standard

/-! ### Keys that are refused -/

variable {overrides : List (Value × Value)} {v key : Value} {c : Caller} {s s' : Session}

/-- What is wrong with a value that is no key. -/
def complaint : Value → Action Failure
  | .binaryOp op => pure (.fixedOperator op.symbol)
  | v => do return .notAnOperator (← v.shown)

/-- Fails with what is wrong with a value. -/
def refuse {α : Type} (v : Value) : Action α := do Action.fail (← complaint v)

/-- The first key of overrides that cannot be overridden. -/
def misused? (overrides : List (Value × Value)) : Option Value :=
  (overrides.map (·.1)).find? fun key => (key? key).isNone

theorem complaint_errorClass {f : Failure} (h : (complaint v).run c s = (.done f, s')) :
    f.errorClass = .value := by
  cases v with
  | binaryOp op =>
    cases h
    rfl
  | _ =>
    obtain ⟨_, _, -, h⟩ := Action.exists_of_run_bind_done h
    cases h
    rfl

theorem refuse_bind {α β : Type} (v : Value) (k : α → Action β) : refuse v >>= k = refuse v := by
  rw [refuse, bind_assoc]
  rfl

theorem refuse_run {α : Type} {f : Failure} (h : (complaint v).run c s = (.done f, s')) :
    (refuse v : Action α).run c s = (.raised (.failure f), s') := Action.run_bind_done h

theorem keyOf_of_none (h : key? v = none) : keyOf v = refuse v := by
  cases v with
  | binaryOp op =>
    have hop : op.isShortCircuit = true := by
      by_contra hop
      rw [key?, if_neg hop] at h
      cases h
    rw [keyOf, if_pos hop]
    rfl
  | unaryOp op => cases h
  | _ => simp only [keyOf, refuse, complaint, bind_assoc, pure_bind]

theorem exists_misused (h : ¬ Valid overrides) : ∃ key, misused? overrides = some key := by
  cases hm : misused? overrides with
  | some key => exact ⟨key, rfl⟩
  | none =>
    refine absurd (fun e he => ?_) h
    have hkey := List.find?_eq_none.1 hm e.1 (List.mem_map_of_mem he)
    exact Option.isSome_iff_ne_none.2 (by simpa using hkey)

/-- Invalid overrides are refused at the first key that cannot be overridden, whatever table they
are to change. -/
theorem overrideAll_misused (h : misused? overrides = some key) (t : OperatorTable) :
    t.overrideAll overrides = refuse key := by
  induction overrides generalizing t with
  | nil => cases h
  | cons e rest ih =>
    obtain ⟨k, f⟩ := e
    rw [misused?, List.map_cons, List.find?_cons] at h
    rw [overrideAll]
    cases hk : key? k with
    | none =>
      rw [hk] at h
      cases h
      rw [keyOf_of_none hk, refuse_bind]
    | some operator =>
      rw [hk] at h
      rw [keyOf_eq hk, pure_bind]
      exact ih h _

theorem resolve_misused (h : misused? overrides = some key) : resolve overrides = refuse key :=
  overrideAll_misused h standard

/-- Overrides that resolve to a table are valid. -/
theorem valid_of_run {t u : OperatorTable}
    (h : (t.overrideAll overrides).run c s = (.done u, s')) : Valid overrides := by
  by_contra hv
  obtain ⟨key, hkey⟩ := exists_misused hv
  rw [overrideAll_misused hkey] at h
  obtain ⟨_, _, -, hfail⟩ := Action.exists_of_run_bind_done h
  cases hfail

end OperatorTable

/-! ### Code -/

variable (t : OperatorTable)

mutual

/-- The code of a well-formed tree. -/
def Node.code : Node → Code
  | .literal _ v _ => .constant v
  | .parameter p => .variable p
  | .member mark e name owner type =>
    if e.isAbsent then .readStatic (.member mark e name owner type) owner name
    else .readMember (.member mark e name owner type) e.code name
  | .unary mark op x type => .applyUnary (.unary mark op x type) (t (.unary op)) x.code
  | .binary mark op l r type => .ofBinary t (.binary mark op l r type) op l.code r.code
  | .conditional mark c x y type => .choose (.conditional mark c x y type) c.code x.code y.code
  | .call mark f row args type => .call (.call mark f row args type) f.code (codes args)
  | .lambda _ _ ps b => .abstraction (ps.filterMap (·.parameter?)) b.code
  | .unknown .. => default

/-- The code of the tree that a value is. -/
def Value.code : Value → Code
  | .node n => n.code
  | _ => default

/-- The code of several trees. -/
def codes : List Value → List Code
  | [] => []
  | v :: vs => v.code :: codes vs

end

/-- Whether a node, if it is a static member, has an owner. -/
def Node.isOwned : Node → Bool
  | .member _ .absent _ .absent _ => false
  | _ => true

mutual

/-- The static member without an owner that a well-formed tree has first, from its leaves up, and
its name. -/
def Node.ownerless? : Node → Option (Node × Value)
  | .literal .. | .parameter _ | .unknown .. => none
  | .member mark e name owner type =>
    if e.isAbsent then if owner.isAbsent then some (.member mark e name owner type, name) else none
    else e.ownerless?
  | .unary _ _ x _ => x.ownerless?
  | .binary _ _ l r _ => l.ownerless?.or r.ownerless?
  | .conditional _ c x y _ => c.ownerless?.or (x.ownerless?.or y.ownerless?)
  | .call _ f _ args _ => f.ownerless?.or (ownerlessAmong? args)
  | .lambda _ _ _ b => b.ownerless?

/-- The static member without an owner that the tree which a value is has first. -/
def Value.ownerless? : Value → Option (Node × Value)
  | .node n => n.ownerless?
  | _ => none

/-- The static member without an owner that several trees have first. -/
def ownerlessAmong? : List Value → Option (Node × Value)
  | [] => none
  | v :: vs => v.ownerless?.or (ownerlessAmong? vs)

end

/-- Goes on unless there is a static member without an owner, which is refused. -/
def refusing {α : Type} (ownerless? : Option (Node × Value)) (x : Action α) : Action α :=
  match ownerless? with
  | none => x
  | some (site, name) => do Action.raise (.malformed (.noOwner (← name.formatted)) (.node site))

variable {t} {n : Node}

theorem codes_nodes (ns : List Node) : codes t (ns.map .node) = ns.map (·.code t) := by
  induction ns with
  | nil => rfl
  | cons n ns ih => rw [List.map_cons, codes, ih, List.map_cons, Value.code]

theorem filterMap_declarations (ps : List Parameter) :
    (Node.declarations ps).filterMap (·.parameter?) = ps := by
  rw [Node.declarations, List.filterMap_map]
  exact List.filterMap_some

theorem refusing_bind {α β : Type} (o : Option (Node × Value)) (x : Action α)
    (k : α → Action β) : refusing o x >>= k = refusing o (x >>= k) := by
  cases o with
  | none => rfl
  | some e =>
    rw [refusing, refusing, bind_assoc]
    rfl

theorem refusing_refusing {α : Type} (o p : Option (Node × Value)) (x : Action α) :
    refusing o (refusing p x) = refusing (o.or p) x := by
  cases o <;> rfl

theorem mapM_refusing {g : Node → Action Code} {ns : List Node}
    (h : ∀ n ∈ ns, g n = refusing n.ownerless? (pure (n.code t))) :
    ns.mapM g = refusing (ownerlessAmong? (ns.map .node)) (pure (ns.map (·.code t))) := by
  induction ns with
  | nil => rfl
  | cons n ns ih =>
    rw [List.mapM_cons, h n List.mem_cons_self, ih fun k hk => h k (List.mem_cons_of_mem n hk)]
    rw [refusing_bind, pure_bind, refusing_bind, pure_bind, refusing_refusing]
    rfl

theorem ownerlessAmong?_eq_none {vs : List Value} (h : ∀ v ∈ vs, v.ownerless? = none) :
    ownerlessAmong? vs = none := by
  induction vs with
  | nil => rfl
  | cons v vs ih =>
    rw [ownerlessAmong?, h v List.mem_cons_self, Option.none_or]
    exact ih fun w hw => h w (List.mem_cons_of_mem v hw)

theorem ownerlessAmong?_lambda (ps : List Parameter) (b : Node) :
    ownerlessAmong? ((ps.map Node.parameter ++ [b]).map .node) = b.ownerless? := by
  induction ps with
  | nil => exact Option.or_none
  | cons p ps ih => exact ih

theorem ownerless?_of_owned (h : n.All (·.isOwned)) : n.ownerless? = none := by
  induction h using Node.All.induction with
  | literal | parameter => rfl
  | static mark name owner type _ howned =>
    cases owner with
    | absent => cases howned
    | _ => rfl
  | member mark e name owner type _ _ _ ih => exact ih
  | unary mark op x type _ _ _ ih => exact ih
  | binary mark op l r type _ _ _ _ ihl ihr =>
    rw [Node.ownerless?, Value.ownerless?, Value.ownerless?, ihl, ihr, Option.none_or]
  | conditional mark c x y type _ _ _ _ _ ihc ihx ihy =>
    rw [Node.ownerless?, Value.ownerless?, Value.ownerless?, Value.ownerless?, ihc, ihx, ihy,
      Option.none_or, Option.none_or]
  | call mark f row args type _ _ _ _ ihf ihargs =>
    rw [Node.ownerless?, Value.ownerless?, ihf, Option.none_or]
    refine ownerlessAmong?_eq_none fun v hv => ?_
    obtain ⟨a, ha, rfl⟩ := List.mem_map.1 hv
    exact ihargs a ha
  | lambda mark row ps b _ _ _ _ ih => exact ih

/-! ### Compiling -/

theorem foldTree_ofNode (h : n.WellFormed) (ns : List Node) (hn : n.childNodes = .ok ns)
    (ih : ∀ k ∈ ns, foldTree (Code.ofNode t) (.node k) = refusing k.ownerless? (pure (k.code t))) :
    foldTree (Code.ofNode t) (.node n) =
      refusing (ownerlessAmong? (ns.map .node)) (Code.ofNode t n (ns.map (·.code t))) := by
  rw [foldTree_node h hn, mapM_refusing ih, refusing_bind, pure_bind]

/-- A well-formed tree compiles to its code, unless it has a static member without an owner. -/
theorem compileTree_node (h : n.WellFormed) :
    compileTree t (.node n) = refusing n.ownerless? (pure (n.code t)) := by
  rw [compileTree]
  induction h using Node.All.induction with
  | literal mark v type h => exact foldTree_ofNode h [] rfl (by simp)
  | parameter p h => exact foldTree_ofNode h [] rfl (by simp)
  | static mark name owner type h =>
    rw [foldTree_ofNode h [] rfl (by simp)]
    cases owner <;> rfl
  | member mark e name owner type h _ _ ih =>
    rw [foldTree_ofNode h [e] rfl (by simpa using ih)]
    simp only [List.map_cons, List.map_nil, ownerlessAmong?, Option.or_none]
    rfl
  | unary mark op x type h _ _ ih =>
    rw [foldTree_ofNode h [x] rfl (by simpa using ih)]
    simp only [List.map_cons, List.map_nil, ownerlessAmong?, Option.or_none]
    rfl
  | binary mark op l r type h _ _ _ ihl ihr =>
    rw [foldTree_ofNode h [l, r] rfl (by simpa using ⟨ihl, ihr⟩)]
    simp only [List.map_cons, List.map_nil, ownerlessAmong?, Option.or_none]
    rfl
  | conditional mark c x y type h _ _ _ _ ihc ihx ihy =>
    rw [foldTree_ofNode h [c, x, y] rfl (by simpa using ⟨ihc, ihx, ihy⟩)]
    simp only [List.map_cons, List.map_nil, ownerlessAmong?, Option.or_none]
    rfl
  | call mark f row args type h _ _ _ ihf ihargs =>
    rw [foldTree_ofNode h _ (Node.childNodes_call mark f row args type)
      (by simpa using ⟨ihf, ihargs⟩)]
    rw [Node.code, codes_nodes]
    rfl
  | lambda mark row ps b h _ _ _ ih =>
    have hps (p : Parameter) : foldTree (Code.ofNode t) (.node (.parameter p)) =
        refusing (Node.parameter p).ownerless? (pure ((Node.parameter p).code t)) :=
      foldTree_ofNode (.intro [] rfl trivial (by simp)) [] rfl (by simp)
    rw [foldTree_ofNode h _ (Node.childNodes_lambda mark row ps b) (by
      intro k hk
      rcases List.mem_append.1 hk with hk | hk
      · obtain ⟨p, _, rfl⟩ := List.mem_map.1 hk
        exact hps p
      · rw [List.mem_singleton.1 hk]
        exact ih)]
    rw [ownerlessAmong?_lambda, Node.code, filterMap_declarations, Code.ofNode,
      filterMap_declarations]
    rw [List.map_append, List.map_singleton, List.getLastD_concat]
    rfl

namespace Machine

variable {M : Machine} {overrides : List (Value × Value)}

/-- With valid overrides a well-formed tree is evaluated by running its code. -/
theorem evaluate_node (h : n.WellFormed) (hv : OperatorTable.Valid overrides)
    (bindings : List (Value × Value)) :
    M.evaluate (.node n) bindings overrides = refusing n.ownerless?
      ((n.code (OperatorTable.standard.overridden overrides)).run M.host
        (environmentOf bindings)) := by
  rw [evaluate, OperatorTable.resolve_eq hv, pure_bind, compileTree_node h, refusing_bind,
    pure_bind]

theorem evaluate_owned (h : n.All (·.isOwned)) (hv : OperatorTable.Valid overrides)
    (bindings : List (Value × Value)) :
    M.evaluate (.node n) bindings overrides =
      (n.code (OperatorTable.standard.overridden overrides)).run M.host
        (environmentOf bindings) := by
  rw [evaluate_node h.wellFormed hv, ownerless?_of_owned h, refusing]

/-- With invalid overrides nothing is evaluated: the first key that cannot be overridden is
refused. -/
theorem evaluate_misused {key : Value} (h : OperatorTable.misused? overrides = some key)
    (v : Value) (bindings : List (Value × Value)) :
    M.evaluate v bindings overrides = OperatorTable.refuse key := by
  rw [evaluate, OperatorTable.resolve_misused h, OperatorTable.refuse_bind]

/-- A lambda compiles to a function over nothing, unless it has a static member without an
owner. -/
theorem compileLambda_node {mark row : Nat} {parameters : List Value} {body : Value}
    (h : (Node.lambda mark row parameters body).WellFormed)
    (hv : OperatorTable.Valid overrides) :
    M.compileLambda overrides (.node (.lambda mark row parameters body)) =
      refusing (Node.lambda mark row parameters body).ownerless? (do
        Action.note (.compiled parameters.length)
        ((Node.lambda mark row parameters body).code
          (OperatorTable.standard.overridden overrides)).run M.host []) := by
  have hr : requireLambda "compile_lambda expects" (.node (.lambda mark row parameters body)) =
    pure (row, parameters, body) := rfl
  rw [compileLambda, codeOf, hr, pure_bind, OperatorTable.resolve_eq hv]
  simp only [pure_bind]
  rw [compileLogged, compileTree_node h, refusing_bind, refusing_bind]
  simp only [pure_bind, bind_assoc]

end Machine

end PredicateTree
