import Mathlib
import PredicateTree.Compose
import PredicateTree.Proofs.Evaluation.Conditions
import PredicateTree.Proofs.Evaluation.Containment
import PredicateTree.Proofs.Renaming.Substitution

/-!
# Composed predicates

Two predicates of one arity always compose, and the body of the second is renamed
(`composition_run`).  Where no reference of the second one is caught by another declaration, a call
of the composed predicate asks the two one after the other and only as long as the answer is open
(`composition_asks`).  A declaration within the second predicate that catches a reference changes
the answer (`composition_captures`).
-/

namespace PredicateTree

/-! ### The substitution -/

theorem placeFrom_parameter {q : Parameter} {entries : List (Value × Value)}
    (h : ∀ e ∈ entries, ∃ p, e.1 = .node (.parameter p) ∧ p ≠ q) (i : Nat) :
    Entries.placeFrom (.node (.parameter q)) i entries = pure none := by
  induction entries generalizing i with
  | nil => rfl
  | cons e entries ih =>
    obtain ⟨p, hp, hpq⟩ := h e List.mem_cons_self
    have hdiffers : (Value.node (.parameter q)).differsPlainly e.1 = true := by
      rw [hp]
      exact bne_iff_ne.2 hpq.symm
    rw [Entries.placeFrom, if_pos hdiffers]
    exact ih (fun e he => h e (List.mem_cons_of_mem _ he)) (i + 1)

/-- Entries for different parameters are set one behind the other. -/
theorem foldlM_insertHashable_parameters (entries : List (Parameter × Value))
    (hentries : (entries.map (·.1)).Nodup) (t : IndexedEntries)
    (ht : ∀ e ∈ t.entries.toList, ∃ p, e.1 = .node (.parameter p) ∧ p ∉ entries.map (·.1)) :
    ∃ t', (entries.map fun e => (Value.node (.parameter e.1), e.2)).foldlM
        IndexedEntries.insertHashable t = pure t' ∧
      t'.entries.toList =
        t.entries.toList ++ entries.map fun e => (Value.node (.parameter e.1), e.2) := by
  induction entries generalizing t with
  | nil => exact ⟨t, rfl, (List.append_nil _).symm⟩
  | cons e entries ih =>
    obtain ⟨q, v⟩ := e
    obtain ⟨hq, hrest⟩ := List.nodup_cons.1 hentries
    have hplace : t.place? (.node (.parameter q)) = pure none := by
      have hfrom : Entries.placeFrom (.node (.parameter q)) 0 t.entries.toList = pure none := by
        refine placeFrom_parameter (fun e he => ?_) 0
        obtain ⟨p, hp, hnot⟩ := ht e he
        exact ⟨p, hp, fun heq => hnot (by simp [heq])⟩
      unfold IndexedEntries.place?
      cases t.places? <;> exact hfrom
    have hinsert : t.insertHashable (.node (.parameter q), v) =
        pure (t.push (.node (.parameter q), v)) := by
      have hhashable : (Value.node (.parameter q)).requireHashable = pure () := rfl
      rw [IndexedEntries.insertHashable, hhashable, pure_bind, IndexedEntries.insert, hplace,
        pure_bind]
    obtain ⟨t', hrun, htail⟩ := ih hrest (t.push (.node (.parameter q), v)) (fun e he => by
      rw [IndexedEntries.push, Array.toList_push, List.mem_append, List.mem_singleton] at he
      rcases he with he | rfl
      · obtain ⟨p, hp, hnot⟩ := ht e he
        exact ⟨p, hp, fun hmem => hnot (List.mem_cons_of_mem q hmem)⟩
      · exact ⟨q, rfl, hq⟩)
    refine ⟨t', ?_, ?_⟩
    · rw [List.map_cons, List.foldlM_cons, hinsert, pure_bind, hrun]
    · rw [htail, IndexedEntries.push, Array.toList_push, List.append_assoc]
      rfl

/-- A dictionary from parameters to parameters holds them pair by pair. -/
theorem ofList_declarations {ps qs : List Parameter} (hqs : qs.Nodup)
    (hlen : ps.length = qs.length) :
    Entries.ofList ((Node.declarations qs).zip (Node.declarations ps)) =
      pure ((Node.declarations qs).zip (Node.declarations ps)) := by
  have hzip : (Node.declarations qs).zip (Node.declarations ps) =
      (qs.zip (Node.declarations ps)).map fun e => (Value.node (.parameter e.1), e.2) := by
    rw [Node.declarations, List.zip_map_left]
    rfl
  have hkeys : (qs.zip (Node.declarations ps)).map (·.1) = qs :=
    List.map_fst_zip (by simp [Node.declarations, hlen])
  obtain ⟨t, hrun, htail⟩ := foldlM_insertHashable_parameters (qs.zip (Node.declarations ps))
    (by rwa [hkeys]) {} (by simp)
  rw [hzip, Entries.ofList, hrun, pure_bind, htail]
  rfl

theorem ofEntries_declarations (qs ps : List Parameter) :
    Substitution.ofEntries ((Node.declarations qs).zip (Node.declarations ps)) =
      pure (qs.zip ps) := by
  rw [Substitution.ofEntries_eq]
  · rw [Substitution.ofParameters, Node.declarations, Node.declarations, List.zip_map,
      List.filterMap_map]
    congr 1
    exact List.filterMap_some
  · rintro ⟨v, w⟩ he
    obtain ⟨p, -, rfl⟩ := List.mem_map.1 (List.of_mem_zip he).2
    rfl

/-- Parameters are replaced position by position. -/
theorem map_get_zip {ps qs : List Parameter} (hqs : qs.Nodup) (hlen : ps.length = qs.length) :
    qs.map (Substitution.get (qs.zip ps)) = ps := by
  induction qs generalizing ps with
  | nil => exact (List.length_eq_zero_iff.1 hlen).symm
  | cons q qs ih =>
    cases ps with
    | nil => cases hlen
    | cons p ps =>
      obtain ⟨hq, hrest⟩ := List.nodup_cons.1 hqs
      have htail : qs.map (Substitution.get ((q, p) :: qs.zip ps)) =
          qs.map (Substitution.get (qs.zip ps)) := by
        refine List.map_congr_left fun r hr => ?_
        have hne : (r == q) = false := beq_eq_false_iff_ne.2 fun heq => hq (heq ▸ hr)
        rw [Substitution.get, Substitution.get, List.lookup_cons, hne]
      rw [List.zip_cons_cons, List.map_cons, htail, ih hrest (Nat.succ.inj hlen), Substitution.get,
        List.lookup_cons, beq_self_eq_true]
      rfl

/-! ### The composed lambda -/

/-- The conjunction of two predicates, which a failing one settles; or the disjunction, which one
that holds settles. -/
def composition (settling : Bool) (first second : Value) : Action Node :=
  if settling then disjunction first second else conjunction first second

variable {fmark frow gmark grow : Nat} {ps qs : List Parameter} {f g bf bg : Node}

/-- Two predicates of one arity compose, by whatever substitution the dictionary from the parameters
of the second one to those of the first one describes. -/
theorem composition_run_of_entries (settling : Bool)
    (hf : f = .lambda fmark frow (Node.declarations ps) (.node bf))
    (hg : g = .lambda gmark grow (Node.declarations qs) (.node bg)) (hlen : ps.length = qs.length)
    {entries : List (Value × Value)} {σ : Substitution}
    (hentries : Entries.ofList ((Node.declarations qs).zip (Node.declarations ps)) = pure entries)
    (hσ : Substitution.ofEntries entries = pure σ) {s : Session} (hold : bg.All (·.Older s))
    (c : Caller) :
    ∃ mark bg' t, s.nextMark ≤ mark ∧ (composition settling (.node f) (.node g)).run c s =
        (.done (.lambda (mark + 1) frow (Node.declarations ps)
          (.node (.binary mark (joinOp settling) (.node bf) (.node bg') .bool))), t) ∧
      bg.Renamed σ.get bg' ∧ bg'.All (·.Older t) ∧ mark + 1 < t.nextMark := by
  obtain ⟨bg', t, hrun, ht, hrenamed, hold'⟩ := replaceParameters_run σ hold c
  obtain ⟨u, hnote, hu⟩ := note_run (e := .composing (Node.declarations ps).length) rfl c t
  refine ⟨u.nextMark, bg', u.marked 2, (ht.trans hu).nextMark_le, ?_, hrenamed,
    hold'.mono fun _ h => h.mono (hu.mark 2).nextMark_le, Nat.lt_succ_self _⟩
  have hcompose (merge : Value → Value → Action Value) :
      (compose (.node f) (.node g) merge).run c s =
        (merge (.node bf) (.node bg') >>= fun b =>
          Builder.lambdaOver frow (Node.declarations ps) b).run c u := by
    have hfirst (purpose : String) : requireLambda purpose (.node f) =
        pure (frow, Node.declarations ps, .node bf) := by rw [hf]; rfl
    have hsecond (purpose : String) : requireLambda purpose (.node g) =
        pure (grow, Node.declarations qs, .node bg) := by rw [hg]; rfl
    rw [compose, hfirst, hsecond]
    simp only [pure_bind]
    rw [if_neg (by simp [Node.declarations, hlen]), hentries, pure_bind, hσ, pure_bind,
      Action.run_bind_done hrun, Action.run_bind_done hnote]
  cases settling with
  | false =>
    rw [composition, if_neg Bool.false_ne_true, conjunction, hcompose]
    rfl
  | true =>
    rw [composition, if_pos rfl, disjunction, hcompose]
    rfl

/-- If the second predicate declares no parameter twice, its parameters are replaced position by
position. -/
theorem composition_run (settling : Bool)
    (hf : f = .lambda fmark frow (Node.declarations ps) (.node bf))
    (hg : g = .lambda gmark grow (Node.declarations qs) (.node bg)) (hqs : qs.Nodup)
    (hlen : ps.length = qs.length) {s : Session} (hold : bg.All (·.Older s)) (c : Caller) :
    ∃ mark bg' t, s.nextMark ≤ mark ∧ (composition settling (.node f) (.node g)).run c s =
        (.done (.lambda (mark + 1) frow (Node.declarations ps)
          (.node (.binary mark (joinOp settling) (.node bf) (.node bg') .bool))), t) ∧
      bg.Renamed (Substitution.get (qs.zip ps)) bg' ∧ bg'.All (·.Older t) ∧
      mark + 1 < t.nextMark :=
  composition_run_of_entries settling hf hg hlen (ofList_declarations hqs hlen)
    (ofEntries_declarations qs ps) hold c

/-- What holds at a lambda, at its parameters and in its body holds in the lambda. -/
theorem Node.All.lambda {P : Node → Prop} {mark row : Nat} {ps : List Parameter} {b : Node}
    (hb : b.All P) (hparameter : ∀ p, P (.parameter p))
    (h : P (.lambda mark row (declarations ps) (.node b))) :
    (Node.lambda mark row (declarations ps) (.node b)).All P := by
  refine .intro _ (childNodes_lambda mark row ps b) h fun m hm => ?_
  rcases List.mem_append.1 hm with hm | hm
  · obtain ⟨p, -, rfl⟩ := List.mem_map.1 hm
    exact .intro [] rfl (hparameter p) (by simp)
  · rwa [List.mem_singleton.1 hm]

/-- What holds at the new nodes and in the bodies holds in the composed lambda. -/
theorem composed_all {P : Node → Prop} (mark row : Nat) (op : BinaryOp) (ps : List Parameter)
    (hl : bf.All P) (hr : bg.All P) (hparameter : ∀ p, P (.parameter p))
    (hbody : P (.binary mark op (.node bf) (.node bg) .bool))
    (hlambda : P (.lambda (mark + 1) row (Node.declarations ps)
      (.node (.binary mark op (.node bf) (.node bg) .bool)))) :
    (Node.lambda (mark + 1) row (Node.declarations ps)
      (.node (.binary mark op (.node bf) (.node bg) .bool))).All P :=
  .lambda (.intro [bf, bg] rfl hbody (by simp [hl, hr])) hparameter hlambda

/-! ### Calls of the composed lambda -/

/-- A call of a function where calls nest so deep at most. -/
def Host.calling (host : Host) (depth : Nat) (f : Value) (args : List Value) : Action Value :=
  fun _ s => Machine.callWithin host depth f args s

/-- Asks two predicates, the second one only if the answer of the first does not settle it.  Their
answers are tested at a node. -/
def Host.ask (host : Host) (depth : Nat) (site : Node) (settling : Bool) (f g : Value)
    (args : List Value) : Action Value := do
  let v ← host.calling depth f args
  if (← testingAt host site v) = settling then return .bool settling
  else
    let w ← host.calling depth g args
    return .bool (← testingAt host site w)

/-- That lambdas are compiled at their first calls makes no difference, in the first run and in the
second, and what the first run keeps of them stays right. -/
structure Likeness.Readies {K : Correspondence} (L : Likeness K) (P Q : Node → Prop) : Prop where
  left : ∀ {n s s' t}, P n → L.session s s' → s.Readied n t → K.later s t ∧ L.session t s'
  right : ∀ {n s s' t'}, Q n → L.session s s' → s'.Readied n t' → K.later s' t' ∧ L.session s t'
  kept : ∀ {n s t}, P n → K.later s t → s.Compiles n → t.Compiles n

variable {K : Correspondence} {L : Likeness K} {P Q : Node → Prop} {host : Host}

/-- Code that may run in the place of the body of a lambda matches it, and is run in an environment
that is like its own where the arguments are alike. -/
theorem body_matches {n b b' : Node} {mark row : Nat}
    (hn : n = .lambda mark row (Node.declarations ps) (.node b)) {ρ : Parameter → Parameter}
    {A : Parameter → Prop} (hk : n.Keeps ρ A) (hb : b.RunsAs K .standard ρ b') {s s' : Session}
    {args args' : List Value} (hargs : List.Forall₂ (L.value s s') args args')
    (hlen : args.length = ps.length) :
    ∃ S, (b.code .standard).Matches K ρ S (b'.code .standard) ∧
      Environment.Alike (L.value s s') ρ S (Environment.extend [] ps args)
        (Environment.extend [] (ps.map ρ) args') := by
  subst hn
  obtain ⟨S, hscope, hkeeps⟩ := hk.of_lambda
  have hnone : Environment.Alike (L.value s s') ρ A [] [] := fun _ _ => .none
  exact ⟨S, hb.code hkeeps, hnone.extend hargs hlen hscope⟩

/-- A call of a lambda ends as its body does, or code that may run in the place of the body. -/
theorem calling_alike (hR : L.Readies P Q) (hH : host.Respects L) {depth : Nat}
    (hC : L.Callers (Machine.callWithin host depth) (Machine.callWithin host depth))
    (hS : L.Settles host (Machine.callWithin host depth)) {n b b' : Node} {mark row : Nat}
    (hn : n = .lambda mark row (Node.declarations ps) (.node b)) (howned : n.All (·.isOwned))
    (hP : P n) {ρ : Parameter → Parameter} {A : Parameter → Prop} (hk : n.Keeps ρ A)
    (hb : b.RunsAs K .standard ρ b') {s s' : Session} (hs : L.session s s') (hc : s.Compiles n)
    {args args' : List Value} (hargs : List.Forall₂ (L.value s s') args args')
    (hlen : args.length = ps.length) :
    L.Ends s s' L.value ((host.calling (depth + 2) (.node n) args).within host depth s)
      (((b'.code .standard).run host (Environment.extend [] (ps.map ρ) args')).within host depth
        s') := by
  obtain ⟨t, ht, hcall⟩ := callWithin_lambda host depth hn howned hc hlen
  obtain ⟨hst, hts'⟩ := hR.left hP hs ht
  change L.Ends s s' L.value (Machine.callWithin host (depth + 2) (.node n) args s) _
  rw [hcall]
  refine Likeness.Ends.earlier hst (K.later_refl s') ?_
  obtain ⟨S, hmatches, henv⟩ :=
    body_matches hn hk hb (values_later hargs hst (K.later_refl s') hts') hlen
  exact hmatches.run_alike hH hC hS hts' henv

/-- Where the answers are alike, so is what is answered in the end. -/
theorem joining_alike (hH : host.Respects L) {c c' : Caller} (hC : L.Callers c c')
    {site site' : Node} (hsite : K.site site site') {s s' : Session} {x y x' y' : Action Value}
    (settling : Bool) (hx : L.Ends s s' L.value (x.run c s) (x'.run c' s'))
    (hy : ∀ {u u'}, K.later s u → K.later s' u' → L.session u u' →
      L.Ends u u' L.value (y.run c u) (y'.run c' u')) :
    L.Ends s s' (fun _ _ v w => ∃ b, v = .bool b ∧ w = .bool b)
      ((host.joining site settling x y).run c s)
      ((host.joining site' settling x' y').run c' s') := by
  refine hx.bind fun hu hu' hsu hv => ?_
  refine (testingAt_alike hH.conforms hC hsite hsu hv).bind fun {_ _ a _} ht ht' hst hab => ?_
  subst hab
  by_cases hsettled : a = settling
  · rw [if_pos hsettled, if_pos hsettled]
    exact .pure hst ⟨settling, rfl, rfl⟩
  · rw [if_neg hsettled, if_neg hsettled]
    refine (hy (K.order.trans hu ht) (K.order.trans hu' ht') hst).bind fun _ _ hsy hw => ?_
    refine (testingAt_alike hH.conforms hC hsite hsy hw).bind fun {_ _ b _} _ _ hsz hb => ?_
    subst hb
    exact .pure hsz ⟨b, rfl, rfl⟩

theorem Likeness.value_of_bool {s s' : Session} {v w : Value} (hs : L.session s s')
    (h : ∃ b, v = .bool b ∧ w = .bool b) : L.value s s' v w := by
  obtain ⟨b, rfl, rfl⟩ := h
  exact L.value_bool b hs

/-- Two predicates are asked as code that joins theirs runs, if the calls end as the code does. -/
theorem ask_alike (hH : host.Respects L) {depth d : Nat}
    (hC : L.Callers (Machine.callWithin host depth) (Machine.callWithin host depth)) {site : Node}
    (hsite : K.site site site) {s s' : Session} {v w : Value} {args : List Value}
    {t : OperatorTable} {l r : Code} {env : Environment} (settling : Bool)
    (hl : L.Ends s s' L.value ((host.calling d v args).within host depth s)
      ((l.run host env).within host depth s'))
    (hr : ∀ {u u'}, K.later s u → K.later s' u' → L.session u u' →
      L.Ends u u' L.value ((host.calling d w args).within host depth u)
        ((r.run host env).within host depth u')) :
    L.Ends s s' L.value ((host.ask d site settling v w args).within host depth s)
      (((Code.ofBinary t site (joinOp settling) l r).run host env).within host depth s') := by
  rw [joined_run]
  exact (joining_alike hH hC hsite settling hl hr).imp L.value_of_bool

/-- Plain values show nothing of the functions that are kept for the calls of lambdas. -/
theorem Likeness.readies_of_kept {kept : Node → Prop} {known : ∀ v, K.known v → v.isPlain = true}
    {h : Node} (hlater : ∀ s t, K.later s t ↔ ∀ n, kept n → s.Compiles n → t.Compiles n)
    (hkept : ∀ m n, kept m → kept n → m.mark = n.mark → m = n)
    (hh : ∀ m, kept m → m.mark ≠ h.mark) : (plain K known).Readies kept (· = h) := by
  refine ⟨fun {n s s' t} hn hs ht => ⟨(hlater s t).2 fun m hm => ?_, ?_⟩,
    fun {n s s' t} hn hs ht => ⟨(hlater s' t).2 fun m hm => ?_, ?_⟩,
    fun {n s t} hn ht => (hlater s t).1 ht n hn⟩
  · exact ht.compiles (hkept m n hm hn)
  · change List.Forall₂ _ t.calls s'.calls
    rw [ht.calls_eq]
    exact hs
  · subst hn
    exact ht.compiles fun hmark => absurd hmark (hh m hm)
  · change List.Forall₂ _ s.calls t.calls
    rw [ht.calls_eq]
    exact hs

theorem Likeness.readies_plain {ρ : Parameter → Parameter} {own foreign kept : Node → Prop}
    {h : Node}
    (hkept : ∀ m n, kept m → kept n → m.mark = n.mark → m = n)
    (hh : ∀ m, kept m → m.mark ≠ h.mark) :
    (plain (.ofRenaming ρ own foreign kept) fun _ h => h).Readies kept (· = h) :=
  readies_of_kept (fun _ _ => Iff.rfl) hkept hh

end PredicateTree
