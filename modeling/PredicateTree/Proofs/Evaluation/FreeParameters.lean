import PredicateTree.Proofs.Evaluation.Calls
import PredicateTree.Proofs.Evaluation.Containment
import PredicateTree.Proofs.Evaluation.Sealing
import PredicateTree.Proofs.Renaming.Substitution

/-!
# Free parameters are all that evaluation reads

`freeParameters` finds by looking at a tree which values evaluation asks its environment for.  In
two environments that agree on these a tree evaluates alike; a parameter that is missed is one of
them and has no value; and a closed lambda never misses a parameter when it is called
(`Machine.freeParameters_sound`).

Evaluation may be refused before anything runs, because of the overrides or because a static member
has no owner.  Then it does not look at the environment at all (`Machine.evaluate_refused`).
-/

namespace PredicateTree

variable {n : Node} {overrides : List (Value × Value)}

/-! ### Refusals -/

/-- A tree is run: the overrides are valid, and no static member lacks an owner. -/
def Node.Accepted (n : Node) (overrides : List (Value × Value)) : Prop :=
  OperatorTable.Valid overrides ∧ n.ownerless? = none

/-- The texts of a refusal, of a key or of a name, are made without missing a parameter. -/
structure Node.RefusedPlainly (n : Node) (overrides : List (Value × Value)) : Prop where
  keys : ∀ e ∈ overrides, OperatorTable.key? e.1 = none → ∀ c,
    e.1.shown.RaisesOnly c (·.errorClass ≠ .unboundParameter)
  names : ∀ site name, n.ownerless? = some (site, name) → ∀ c,
    name.formatted.RaisesOnly c (·.errorClass ≠ .unboundParameter)

namespace Node.RefusedPlainly

variable {α : Type} {c : Caller} {s t : Session} {f : Fault}

/-- What fails for a parameter after overrides are resolved does so with the table of valid ones. -/
theorem of_resolve (h : n.RefusedPlainly overrides) {k : OperatorTable → Action α}
    (hrun : (OperatorTable.resolve overrides >>= k).run c s = (.raised f, t))
    (hf : f.errorClass = .unboundParameter) : OperatorTable.Valid overrides :=
  OperatorTable.valid_of_raised (P := fun f => f.errorClass ≠ .unboundParameter)
    Fault.errorClass_failure_ne (fun e he hk => h.keys e he hk c) hrun (not_not_intro hf)

/-- What fails for a parameter is not refused for want of an owner. -/
theorem of_refusing (h : n.RefusedPlainly overrides) {x : Action α}
    (hrun : (refusing n.ownerless? x).run c s = (.raised f, t))
    (hf : f.errorClass = .unboundParameter) :
    n.ownerless? = none ∧ x.run c s = (.raised f, t) := by
  cases ho : n.ownerless? with
  | none =>
    rw [ho] at hrun
    exact ⟨rfl, hrun⟩
  | some e =>
    obtain ⟨site, name⟩ := e
    rw [ho] at hrun
    have hspared : Action.RaisesOnly c (fun f => f.errorClass ≠ .unboundParameter)
        (refusing (some (site, name)) x) :=
      (h.names site name ho c).bind fun _ => Action.raisesOnly_raise fun hclass => nomatch hclass
    exact absurd hf (hspared _ _ _ hrun)

end Node.RefusedPlainly

/-- An evaluation that is refused does not look at the bindings. -/
theorem Machine.evaluate_refused {M : Machine} (h : n.WellFormed)
    (hrefused : ¬ n.Accepted overrides) (bindings bindings' : List (Value × Value)) :
    M.evaluate (.node n) bindings overrides = M.evaluate (.node n) bindings' overrides := by
  by_cases hv : OperatorTable.Valid overrides
  · rw [evaluate_node h hv, evaluate_node h hv]
    cases ho : n.ownerless? with
    | none => exact absurd ⟨hv, ho⟩ hrefused
    | some e => rfl
  · obtain ⟨key, hkey⟩ := OperatorTable.exists_misused hv
    rw [evaluate_misused hkey, evaluate_misused hkey]

/-! ### Runs -/

section

variable {K : Correspondence} {P : Parameter → Prop} {Z : Sealing K P} {M : Machine} {c : Caller}
  {s : Session} {t : OperatorTable} {S : Parameter → Prop}

/-- A tree misses only what is free in it and has no value. -/
theorem Machine.evaluate_misses (hH : M.host.Seals Z) (h : n.WellFormed)
    (hplain : n.RefusedPlainly overrides)
    (hcode : (n.code (OperatorTable.standard.overridden overrides)).Matches K id S
      (n.code (OperatorTable.standard.overridden overrides))) {bindings : List (Value × Value)}
    (henv : Environment.Provides Z.value P S (environmentOf bindings)) (hs : Z.session s)
    {f : Fault} {u : Session}
    (hrun : (M.evaluate (.node n) bindings overrides).run M.caller s = (.raised f, u)) :
    f.MissesOnly P := by
  intro hf
  have hv : OperatorTable.Valid overrides := hplain.of_resolve hrun hf
  rw [evaluate_node h hv] at hrun
  obtain ⟨-, hrun⟩ := hplain.of_refusing hrun hf
  exact (hcode.run_sealed hH (hH.caller M.depth) hs henv).misses hrun hf

theorem note_sealed (hs : Z.session s) {e : LogEntry} {text : String} (he : e.text = pure text) :
    Z.Ends (fun _ => True) ((Action.note e).run c s) := by
  obtain ⟨u, hrun, hu⟩ := note_run he c s
  rw [hrun]
  exact .done (Z.noted hs hu) trivial

variable {mark row : Nat} {ps : List Value} {b : Value}

theorem Machine.compileLambda_resolve :
    M.compileLambda overrides (.node (.lambda mark row ps b)) =
      OperatorTable.resolve overrides >>= fun t =>
        compileLogged t ps (.node (.lambda mark row ps b)) >>= fun code => code.run M.host [] := by
  have hr : requireLambda "compile_lambda expects" (.node (.lambda mark row ps b)) =
    pure (row, ps, b) := rfl
  rw [compileLambda, codeOf, hr, pure_bind, bind_assoc]

/-- A closed lambda that is compiled and called misses no parameter. -/
theorem Machine.compileLambda_misses {Z : Sealing K fun _ => False} (hH : M.host.Seals Z)
    (h : (Node.lambda mark row ps b).WellFormed)
    (hplain : (Node.lambda mark row ps b).RefusedPlainly overrides)
    (hcode : ((Node.lambda mark row ps b).code
      (OperatorTable.standard.overridden overrides)).Matches K id (fun _ => False)
        ((Node.lambda mark row ps b).code (OperatorTable.standard.overridden overrides)))
    (hs : Z.session s) {args : List Value} (hargs : ∀ a ∈ args, Z.value a) {f : Fault}
    {u : Session} (hrun : (M.compileLambda overrides (.node (.lambda mark row ps b)) >>= fun g =>
      Action.call g args).run M.caller s = (.raised f, u)) :
    f.errorClass ≠ .unboundParameter := by
  intro hf
  have hv : OperatorTable.Valid overrides := by
    rw [compileLambda_resolve, bind_assoc] at hrun
    exact hplain.of_resolve hrun hf
  rw [compileLambda_node h hv, refusing_bind] at hrun
  obtain ⟨-, hrun⟩ := hplain.of_refusing hrun hf
  have hends : Z.Ends Z.value ((do
      Action.note (.compiled ps.length)
      ((Node.lambda mark row ps b).code
        (OperatorTable.standard.overridden overrides)).run M.host [] : Action Value).run
      M.caller s) := (note_sealed hs rfl).bind fun ht _ =>
    hcode.run_sealed hH (hH.caller M.depth) ht ⟨fun p _ hp => hp.elim, fun p hp => hp.elim⟩
  obtain ⟨p, hp, -⟩ := (hends.bind fun ht hg => hH.caller M.depth ht hg hargs).misses hrun hf
  exact hp

/-- A closed lambda that is called itself misses no parameter. -/
theorem Machine.call_misses {Z : Sealing K fun _ => False} (hH : M.host.Seals Z)
    (h : (Node.lambda mark row ps b).WellFormed)
    (hplain : (Node.lambda mark row ps b).RefusedPlainly overrides)
    (hcode : ((Node.lambda mark row ps b).code .standard).Matches K id (fun _ => False)
      ((Node.lambda mark row ps b).code .standard))
    (hs : Z.session s) (hkept : s.Compiles (.lambda mark row ps b)) {args : List Value}
    (hargs : ∀ a ∈ args, Z.value a) {f : Fault} {u : Session}
    (hrun : M.caller (.node (.lambda mark row ps b)) args s = (.raised f, u)) :
    f.errorClass ≠ .unboundParameter := by
  intro hf
  have hnothing : Environment.Provides Z.value (fun _ => False) (fun _ => False) [] :=
    ⟨fun p _ hp => hp.elim, fun p hp => hp.elim⟩
  rw [caller] at hrun
  generalize M.depth = depth at hrun
  cases depth with
  | zero => cases hrun
  | succ depth =>
    have hcall {t : Session} {g : Value} (ht : Z.session t) (hg : Z.value g) :=
      hH.caller depth ht hg hargs
    change (M.host.compiled mark ps (.node (.lambda mark row ps b)) >>= fun g =>
      Action.call g args).run (callWithin M.host depth) s = _ at hrun
    have hstore : Action.store.run (callWithin M.host depth) s = (.done s.store, s) := rfl
    rw [Host.compiled, bind_assoc, Action.run_bind_done hstore] at hrun
    cases hfound : s.store.compiled? mark with
    | some g =>
      obtain ⟨m, rfl⟩ := hkept g hfound
      simp only [hfound] at hrun
      obtain ⟨p, hp, -⟩ := (hcall hs (Z.closure hcode hnothing)).misses hrun hf
      exact hp
    | none =>
      simp only [hfound] at hrun
      rw [compileLogged, compileTree_node h, refusing_bind, refusing_bind, refusing_bind] at hrun
      obtain ⟨-, hrun⟩ := hplain.of_refusing hrun hf
      simp only [pure_bind, bind_assoc] at hrun
      have hends := (note_sealed hs rfl (c := callWithin M.host depth)
        (e := .compiled ps.length)).bind fun ht _ =>
          (hcode.run_sealed hH (hH.caller depth) ht hnothing).bind fun {t g} hu hg =>
            Sealing.Ends.bind (x := Action.updateStore (·.withCompiled mark g)) (Q := fun _ => True)
              (k := fun _ => Action.call g args) (.done (Z.compiled hu hg mark) trivial)
              fun hx _ => hcall hx hg
      obtain ⟨p, hp, -⟩ := hends.misses hrun hf
      exact hp

end

/-- The parameters that evaluation may miss: free ones without a value. -/
def Machine.Missing (free : List Parameter) (bindings : List (Value × Value)) (p : Parameter) :
    Prop := p ∈ free ∧ (environmentOf bindings).get? p = none

/-- `freeParameters` is sound for evaluation.  In environments that agree on the free parameters a
tree evaluates alike, and a refusal does not look at them; an evaluation that fails for want of a
parameter does so for a free one that has no value; and a closed lambda, compiled or not, never
fails for want of a parameter when it is called. -/
theorem Machine.freeParameters_sound {K : Correspondence} {L : Likeness K} {M : Machine}
    {foreign : Node → Prop} {free : List Parameter}
    (h : n.All fun m => m.LabelsKnown K ∧ foreign m) (hfree : freeParameters (.node n) = pure free)
    (hstandard : ∀ key, K.known (OperatorTable.standard key))
    (ht : ∀ key, K.known (OperatorTable.standard.overridden overrides key))
    (hplain : n.RefusedPlainly overrides) (hK : K.Renames id (fun _ => False) foreign)
    (hH : M.host.Conforms L) (Z : ∀ P, Sealing K P) (hZ : ∀ P, M.host.Seals (Z P)) :
    (∀ (s s' : Session) (bindings bindings' : List (Value × Value)), L.session s s' →
      Environment.Alike (L.value s s') id (· ∈ free) (environmentOf bindings)
        (environmentOf bindings') →
      (n.Accepted overrides → L.Ends s s' L.value
        ((M.evaluate (.node n) bindings overrides).run M.caller s)
        ((M.evaluate (.node n) bindings' overrides).run M.caller s')) ∧
      (¬ n.Accepted overrides →
        M.evaluate (.node n) bindings overrides = M.evaluate (.node n) bindings' overrides)) ∧
    (∀ (s t : Session) (bindings : List (Value × Value)) (f : Fault),
      (Z (Missing free bindings)).session s →
      (∀ p ∈ free, ∀ v, (environmentOf bindings).get? p = some v →
        (Z (Missing free bindings)).value v) →
      (M.evaluate (.node n) bindings overrides).run M.caller s = (.raised f, t) →
      f.errorClass = .unboundParameter →
      ∃ p, Missing free bindings p ∧ f.subject = some (.node (.parameter p))) ∧
    (free = [] → n.kind? = some .lambda → ∀ (s t : Session) (args : List Value) (f : Fault),
      (Z fun _ => False).session s → (∀ a ∈ args, (Z fun _ => False).value a) →
      (M.compileLambda overrides (.node n) >>= fun g => Action.call g args).run M.caller s =
          (.raised f, t) ∨
        s.Compiles n ∧ M.caller (.node n) args s = (.raised f, t) →
      f.errorClass ≠ .unboundParameter) := by
  have hsites : n.All fun m => m.LabelsKnown K ∧ K.site m m :=
    h.mono fun m hm => ⟨hm.1, (hK.site m m).2 (.inr ⟨hm.2, rfl⟩)⟩
  have hkeeps : n.Keeps id (· ∈ free) :=
    (Node.keeps_id_of_wellFormed h.wellFormed).of_freeParameters h.wellFormed hfree
  have hcode {t : OperatorTable} (ht : ∀ key, K.known (t key)) :
      (n.code t).Matches K id (· ∈ free) (n.code t) := (Node.RunsAs.self ht hsites).code hkeeps
  refine ⟨fun s s' bindings bindings' hs henv => ⟨fun haccepted => ?_, fun hrefused => ?_⟩,
    fun s t bindings f hs hvalues hrun hf => ?_, fun hclosed hl s t args f hs hargs => ?_⟩
  · have hS : ∀ depth, L.Settles M.host (callWithin M.host depth) :=
      fun _ _ _ _ _ _ _ hw => absurd hw (hK.not_settled _ _)
    rw [evaluate_node h.wellFormed haccepted.1, evaluate_node h.wellFormed haccepted.1,
      haccepted.2]
    exact (hcode ht).run_conforming hH (hH.callers hS M.depth) (hS M.depth) hs henv
  · exact evaluate_refused h.wellFormed hrefused bindings bindings'
  · exact evaluate_misses (hZ _) h.wellFormed hplain (hcode ht)
      ⟨fun p v hp hv => hvalues p hp v hv, fun p hp hv => ⟨hp, hv⟩⟩ hs hrun hf
  · subst hclosed
    have hnone {t : OperatorTable} (ht : ∀ key, K.known (t key)) :
        (n.code t).Matches K id (fun _ => False) (n.code t) :=
      (Node.RunsAs.self ht hsites).code (hkeeps.mono fun _ hp => absurd hp List.not_mem_nil)
    cases n with
    | lambda mark row ps b =>
      rintro (hrun | ⟨hkept, hrun⟩)
      · exact compileLambda_misses (hZ _) h.wellFormed hplain (hnone ht) hs hargs hrun
      · exact call_misses (hZ _) h.wellFormed hplain (hnone hstandard) hs hkept hargs hrun
    | _ => cases hl

/-- A call of a function with a parameter that is bound in the function and free in the argument;
and a closed function. -/
theorem Machine.freeParameters_sound_shadowed :
    let x : Parameter := ⟨1, "x", .object, 0⟩
    let y : Parameter := ⟨2, "y", .object, 0⟩
    let z : Parameter := ⟨3, "z", .object, 0⟩
    let sum (p q : Parameter) : Node :=
      .binary 4 .add (.node (.parameter p)) (.node (.parameter q)) .object
    let n : Node := .call 1 (.node (.lambda 2 3 (Node.declarations [x]) (.node (sum x y)))) 5
      [.node (.parameter x)] .object
    let doubling : Node := .lambda 6 7 (Node.declarations [x]) (.node (sum x x))
    let M : Machine := ⟨Host.plain, 9⟩
    let binding (p : Parameter) (i : Int) : Value × Value := (.node (.parameter p), .ofInt i)
    (∃ v w u u', (M.evaluate (.node n) [binding x 2, binding y 5] []).run M.caller {} =
        (.done v, u) ∧
      (M.evaluate (.node n) [binding z 1, binding y 5, binding x 2] []).run M.caller {} =
        (.done w, u') ∧ v.ownInteger? = some 7 ∧ w.ownInteger? = some 7) ∧
    (∃ f u, (M.evaluate (.node n) [binding y 5] []).run M.caller {} = (.raised f, u) ∧
      f.errorClass = .unboundParameter ∧
      ∃ p ∈ [y, x], p ≠ y ∧ f.subject = some (.node (.parameter p))) ∧
    ∃ f u, M.caller (.node doubling) [.absent] {} = (.raised f, u) ∧
      f.errorClass ≠ .unboundParameter := by
  intro x y z sum n doubling M binding
  let K := Correspondence.ofRenaming id (fun _ => False) (fun _ => True) fun _ => False
  let L := Likeness.plain K fun _ h => h
  let P (m : Node) : Prop := m.isOwned = true ∧ m.LabelsKnown K ∧ True
  have hparameter (p : Parameter) : (Node.parameter p).All P :=
    .intro [] rfl ⟨rfl, trivial, trivial⟩ (by simp)
  have hsum (p q : Parameter) : (sum p q).All P :=
    .intro [_, _] rfl ⟨rfl, trivial, trivial⟩ (by simp [hparameter])
  have hlambda (mark row : Nat) (q : Parameter) :
      (Node.lambda mark row (Node.declarations [x]) (.node (sum x q))).All P :=
    .intro [_, _] rfl ⟨rfl, trivial, trivial⟩ (by simp [hparameter, hsum])
  have hn : n.All P := .intro [_, _] rfl ⟨rfl, trivial, trivial⟩ (by simp [hparameter, hlambda])
  have howned : doubling.All (·.isOwned) := (hlambda 6 7 x).mono fun _ h => h.1
  have hplain (m : Node) (hm : m.ownerless? = none) : m.RefusedPlainly [] :=
    ⟨by simp, fun site name h => by cases hm.symm.trans h⟩
  have hknown : ∀ key, K.known (OperatorTable.standard.overridden [] key) := fun _ => rfl
  have hH : M.host.Conforms L :=
    (Host.plain_respects K (fun _ h => h) fun _ _ _ hn => hn.elim).conforms
  have hZ (P : Parameter → Prop) := Host.plain_seals K (fun _ h => h) P
  have hfree : freeParameters (.node n) = pure [y, x] := by
    obtain ⟨fs, hfs, hfree⟩ := Node.freeParameters_eq hn.wellFormed
    have hloop : freeLoop [(n, [])] [] = .ok [y, x] := by cbv
    cases hloop.symm.trans hfs
    exact hfree
  have hclosed : freeParameters (.node doubling) = pure [] :=
    Node.freeParameters_of_closed (hlambda 6 7 x).wellFormed (by cbv)
  obtain ⟨hagree, hmisses, -⟩ := freeParameters_sound (K := K) (L := L) (M := M)
    (hn.mono fun _ h => h.2) hfree (fun _ => rfl) hknown (hplain n rfl)
    (Correspondence.renames_ofRenaming _ _ _ _) hH _ hZ
  obtain ⟨-, -, hcalls⟩ := freeParameters_sound (K := K) (L := L) (M := M)
    ((hlambda 6 7 x).mono fun _ h => h.2) hclosed (fun _ => rfl) hknown (hplain doubling rfl)
    (Correspondence.renames_ofRenaming _ _ _ _) hH _ hZ
  have haccepted : n.Accepted [] := ⟨by simp [OperatorTable.Valid], rfl⟩
  refine ⟨?_, ?_, ?_⟩
  · have henv : Environment.Alike (L.value {} {}) id (· ∈ [y, x])
        (environmentOf [binding x 2, binding y 5])
        (environmentOf [binding z 1, binding y 5, binding x 2]) := by
      intro p hp
      rcases List.mem_cons.1 hp with rfl | hp
      · exact .some (.same rfl)
      · cases List.mem_singleton.1 hp
        exact .some (.same rfl)
    have hrun : ∃ u, (M.evaluate (.node n) [binding x 2, binding y 5] []).run M.caller {} =
        (.done (.ofInt 7), u) := by
      rw [evaluate_node hn.wellFormed haccepted.1]
      exact ⟨_, rfl⟩
    obtain ⟨u, hrun⟩ := hrun
    have hends := (hagree {} {} _ _ .nil henv).1 haccepted
    rw [hrun] at hends ⊢
    generalize (M.evaluate (.node n) [binding z 1, binding y 5, binding x 2] []).run M.caller {} =
      o at hends ⊢
    cases hends with
    | done _ _ _ hvalue => exact ⟨_, _, _, _, rfl, rfl, rfl, hvalue.ownInteger?_eq.symm⟩
  · have hrun : ∃ u, (M.evaluate (.node n) [binding y 5] []).run M.caller {} =
        (.raised (.unbound (.node (.parameter x)) "x"), u) := by
      rw [evaluate_node hn.wellFormed haccepted.1]
      exact ⟨_, rfl⟩
    obtain ⟨u, hrun⟩ := hrun
    have hbound : ∀ p ∈ [y, x], ∀ v, (environmentOf [binding y 5]).get? p = some v →
        Value.PlainlySealed K (Missing [y, x] [binding y 5]) v := by
      intro p _ v hv
      change [(y, Value.ofInt 5)].lookup p = some v at hv
      rw [List.lookup_cons] at hv
      split at hv
      · cases hv
        exact .plain rfl
      · cases hv
    obtain ⟨p, ⟨hp, hvalue⟩, hsubject⟩ := hmisses {} u [binding y 5] _ trivial hbound hrun rfl
    refine ⟨_, u, hrun, rfl, p, hp, ?_, hsubject⟩
    rintro rfl
    cases hvalue
  · have hnothing : ({} : Session).Compiles doubling := by
      intro f hf
      cases hf
    have hrun : ∃ f u, M.caller (.node doubling) [.absent] {} = (.raised f, u) := by
      obtain ⟨t, -, hcall⟩ := @callWithin_lambda doubling {} 6 7 [x] (sum x x) Host.plain 7
        [.absent] rfl howned hnothing rfl
      exact ⟨_, _, hcall.trans rfl⟩
    obtain ⟨f, u, hrun⟩ := hrun
    refine ⟨f, u, hrun, hcalls rfl rfl {} u [.absent] f trivial ?_ (.inr ⟨hnothing, hrun⟩)⟩
    intro a ha
    cases List.mem_singleton.1 ha
    exact .plain rfl

end PredicateTree
