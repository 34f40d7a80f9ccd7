import PredicateTree.Proofs.Typing.Data

/-!
# Comparing data

To compare data is steady: no class is asked, and nothing is changed.
-/

namespace PredicateTree

variable {A : Nat → Prop} {inside : CompareInside}

/-- Comparison of lists of data is steady. -/
def CompareInside.SteadyOn (inside : CompareInside) (A : Nat → Prop) : Prop :=
  ∀ turned x y, A x → A y → (inside turned x y).Steady A fun _ => True

theorem findEntry_steady {p : Value → Action Bool} {entries : List (Value × Value)}
    (hp : ∀ e ∈ entries, (p e.1).Steady A fun _ => True) :
    (findEntry p entries).Steady A fun o => ∀ w ∈ o, ∃ e ∈ entries, w = e.2 := by
  induction entries with
  | nil => exact .pure nofun
  | cons e entries ih =>
    refine (hp e List.mem_cons_self).bind fun b _ => ?_
    cases b with
    | true => exact .pure fun w hw => ⟨e, List.mem_cons_self, (Option.some.inj hw).symm⟩
    | false =>
      refine (ih fun e he => hp e (List.mem_cons_of_mem _ he)).mono fun o ho w hw => ?_
      obtain ⟨e, he, hwe⟩ := ho w hw
      exact ⟨e, List.mem_cons_of_mem _ he, hwe⟩

theorem findEntryFrom_steady {p : Value → Action Bool} {guess : Option (Value × Value)}
    {entries : List (Value × Value)} (hguess : ∀ e ∈ guess, e ∈ entries)
    (hp : ∀ e ∈ entries, (p e.1).Steady A fun _ => True) :
    (findEntryFrom p guess entries).Steady A fun o => ∀ w ∈ o, ∃ e ∈ entries, w = e.2 := by
  unfold findEntryFrom
  cases guess with
  | none => exact findEntry_steady hp
  | some e =>
    have he := hguess e rfl
    refine (hp e he).bind fun b _ => ?_
    cases b with
    | true => exact .pure fun w hw => ⟨e, he, (Option.some.inj hw).symm⟩
    | false => exact findEntry_steady hp

theorem allHold_steady {α : Type} {p : α → Action Bool} {as : List α}
    (hp : ∀ a ∈ as, (p a).Steady A fun _ => True) :
    (allHold p as).Steady A fun _ => True := by
  induction as with
  | nil => exact .pure trivial
  | cons a as ih =>
    refine (hp a List.mem_cons_self).bind fun b _ => ?_
    cases b with
    | true => exact ih fun a ha => hp a (List.mem_cons_of_mem _ ha)
    | false => exact .pure trivial

theorem allSame_steady {turned : Bool} {xs ys : List Value}
    (h : ∀ x ∈ xs, ∀ y ∈ ys, (x.sameBy inside turned y).Steady A fun _ => True) :
    (allSame inside turned xs ys).Steady A fun _ => True := by
  induction xs generalizing ys with
  | nil => exact .pure trivial
  | cons x xs ih =>
    cases ys with
    | nil => exact .pure trivial
    | cons y ys =>
      refine (h x List.mem_cons_self y List.mem_cons_self).bind fun b _ => ?_
      cases b with
      | true =>
        exact ih fun x hx y hy => h x (List.mem_cons_of_mem _ hx) y (List.mem_cons_of_mem _ hy)
      | false => exact .pure trivial

theorem entriesSame_steady {entries xs ahead : List (Value × Value)}
    (hahead : ∀ e ∈ ahead, e ∈ entries)
    (hkeys : ∀ e ∈ xs, ∀ f ∈ entries, (e.1.sameBy inside true f.1).Steady A fun _ => True)
    (hvalues : ∀ e ∈ xs, ∀ f ∈ entries, (e.2.sameBy inside false f.2).Steady A fun _ => True) :
    (entriesSame inside entries xs ahead).Steady A fun _ => True := by
  induction xs generalizing ahead with
  | nil => exact .pure trivial
  | cons e xs ih =>
    obtain ⟨k, v⟩ := e
    have hguess : ∀ e ∈ ahead.head?, e ∈ entries := fun e he => hahead e (List.mem_of_head? he)
    refine (findEntryFrom_steady hguess (hkeys _ List.mem_cons_self)).bind fun o ho => ?_
    cases o with
    | none => exact .pure trivial
    | some w =>
      obtain ⟨f, hf, rfl⟩ := ho w rfl
      refine (hvalues _ List.mem_cons_self f hf).bind fun b _ => ?_
      cases b with
      | true =>
        exact ih (fun e he => hahead e (List.mem_of_mem_tail he))
          (fun e he => hkeys e (List.mem_cons_of_mem _ he))
          fun e he => hvalues e (List.mem_cons_of_mem _ he)
      | false => exact .pure trivial

theorem entryHolds_steady {key value : Value} {entries : List (Value × Value)}
    (hkeys : ∀ e ∈ entries, (e.1.sameBy inside false key).Steady A fun _ => True)
    (hvalues : ∀ e ∈ entries, (e.2.sameBy inside true value).Steady A fun _ => True) :
    (entryHolds inside key value entries).Steady A fun _ => True := by
  induction entries with
  | nil => exact .pure trivial
  | cons e entries ih =>
    obtain ⟨k, v⟩ := e
    refine (hkeys _ List.mem_cons_self).bind fun b _ => ?_
    cases b with
    | true => exact hvalues _ List.mem_cons_self
    | false =>
      exact ih (fun e he => hkeys e (List.mem_cons_of_mem _ he))
        fun e he => hvalues e (List.mem_cons_of_mem _ he)

namespace Value.Data

variable {a b : Value}

/-- What needs no look at what data hold is settled without asking anyone. -/
theorem settled?_steady (ha : a.Data A) (hb : b.Data A) (turned : Bool) {answer : Action Bool}
    (h : settled? turned a b = some answer) : answer.Steady A fun _ => True := by
  have hparameter {v : Value} (hv : v.Data A) : v.parameter? = none := by cases hv <;> rfl
  unfold settled? at h
  split at h
  · cases h
    exact .pure trivial
  · cases h
    exact .pure trivial
  · have hleft : (if turned then (b, a) else (a, b)).1.parameter? = none := by
      cases turned
      · exact hparameter ha
      · exact hparameter hb
    simp only [hleft, ha.isObject_eq, hb.isObject_eq] at h
    split at h
    · cases h
      exact .pure trivial
    · cases h

/-- To compare data is steady. -/
theorem sameBy_steady (hin : inside.SteadyOn A) (ha : a.Data A) (hb : b.Data A) (turned : Bool) :
    (a.sameBy inside turned b).Steady A fun _ => True := by
  induction ha generalizing b turned with
  | absent | bool | int | float | str =>
    unfold Value.sameBy
    split
    · rename_i h
      exact settled?_steady (by constructor) hb turned h
    · cases hb <;> exact .pure trivial
  | list h =>
    unfold Value.sameBy
    split
    · exact settled?_steady (.list h) hb turned ‹_›
    · cases hb with
      | list h' => exact hin turned _ _ h h'
      | _ => exact .pure trivial
  | tuple h ih =>
    unfold Value.sameBy
    split
    · exact settled?_steady (.tuple h) hb turned ‹_›
    · cases hb with
      | tuple h' => exact allSame_steady fun x hx y hy => ih x hx (h' y hy) turned
      | _ => exact .pure trivial
  | dict keys values ihk ihv =>
    unfold Value.sameBy
    split
    · exact settled?_steady (.dict keys values) hb turned ‹_›
    · cases hb with
      | dict keys' values' =>
        simp only
        split
        · cases turned with
          | true =>
            exact allHold_steady fun f hf => entryHolds_steady
              (fun e he => ihk e he (keys' f hf) false) fun e he => ihv e he (values' f hf) true
          | false =>
            exact entriesSame_steady (fun _ he => he) (fun e he f hf => ihk e he (keys' f hf) true)
              fun e he f hf => ihv e he (values' f hf) false
        · exact .pure trivial
      | _ => exact .pure trivial

end Value.Data

theorem sameWithin_steady (fuel : Nat) : (sameWithin fuel).SteadyOn A := by
  induction fuel with
  | zero => exact fun _ _ _ _ _ => .fail _
  | succ fuel ih =>
    intro turned x y hx hy
    refine (Action.Steady.items hx).bind fun xs hxs => ?_
    refine (Action.Steady.items hy).bind fun ys hys => ?_
    split
    · exact allSame_steady fun v hv w hw => (hxs v hv).sameBy_steady ih (hys w hw) turned
    · exact .pure trivial

namespace Value.Data

variable {a b : Value}

theorem same_steady (ha : a.Data A) (hb : b.Data A) :
    (a.same b).Steady A fun _ => True :=
  ha.sameBy_steady (sameWithin_steady _) hb false

theorem equal_steady (ha : a.Data A) (hb : b.Data A) :
    (a.equal b).Steady A fun _ => True := by
  unfold Value.equal Value.equalGiven
  split
  · exact .pure trivial
  · exact ha.same_steady hb

/-! ### Order -/

/-- Where neither side has an answer, there is none. -/
theorem firstAnswer_steady {x y : Action (Option Value)} (hx : x.Steady A (· = none))
    (hy : y.Steady A (· = none)) (v w : Value) :
    (firstAnswer x y v w).Steady A (· = none) := by
  refine Action.Steady.store.bind fun s _ => ?_
  dsimp only
  split
  · refine hy.bind fun o ho => ?_
    subst ho
    exact hx
  · refine hx.bind fun o ho => ?_
    subst ho
    exact hy

/-- Data that have no order are refused. -/
theorem unordered_steady (ha : a.Data A) (hb : b.Data A) (r : OrderRelation)
    (Q : Value → Prop) : (unordered r a b).Steady A Q := by
  have hask (v w : Value) (hv : v.Data A) (name : String) :
      (v.askSpecial name [w]).Steady A (· = none) := .askSpecial hv.isObject_eq name [w]
  have hanswer : (firstAnswer (a.asDict.askSpecial r.specialName [b])
      (b.askSpecial r.converse.specialName [a.asDict]) a b).Steady A (· = none) := by
    rw [ha.asDict_eq]
    exact firstAnswer_steady (hask a b ha _) (hask b a hb _) a b
  refine hanswer.bind fun o ho => ?_
  subst ho
  refine (Action.Steady.typeOf a).bind fun t _ => ?_
  exact (Action.Steady.typeOf b).bind fun u _ => .fail _

/-- The answer to a comparison of data by order is a truth value. -/
theorem numeralsOrdered_steady (ha : a.Data A) (hb : b.Data A) (r : OrderRelation) :
    (numeralsOrdered r a b).Steady A fun v => ∃ x, v = .bool x := by
  unfold numeralsOrdered
  split
  · exact .pure ⟨_, rfl⟩
  · exact ha.unordered_steady hb r _

/-- A truth value. -/
def IsTruth (v : Value) : Prop := ∃ b, v = .bool b

theorem listOrdered_steady {inside : OrderInside} {r : OrderRelation} {xs ys : List Value}
    (hxs : ∀ x ∈ xs, x.Data A) (hys : ∀ y ∈ ys, y.Data A)
    (h : ∀ x ∈ xs, ∀ y ∈ ys, (x.orderedBy inside r y).Steady A IsTruth) :
    (listOrdered inside r xs ys).Steady A IsTruth := by
  induction xs generalizing ys with
  | nil => exact .pure ⟨_, rfl⟩
  | cons x xs ih =>
    cases ys with
    | nil => exact .pure ⟨_, rfl⟩
    | cons y ys =>
      have hx := hxs x List.mem_cons_self
      have hy := hys y List.mem_cons_self
      refine (hx.same_steady hy).bind fun b _ => ?_
      cases b with
      | true =>
        exact ih (fun x hx => hxs x (List.mem_cons_of_mem _ hx))
          (fun y hy => hys y (List.mem_cons_of_mem _ hy))
          fun x hx y hy => h x (List.mem_cons_of_mem _ hx) y (List.mem_cons_of_mem _ hy)
      | false => exact h x List.mem_cons_self y List.mem_cons_self

theorem orderedBy_steady {inside : OrderInside} {r : OrderRelation}
    (hin : ∀ x y, A x → A y → (inside x y).Steady A IsTruth) (ha : a.Data A) (hb : b.Data A) :
    (a.orderedBy inside r b).Steady A IsTruth := by
  have hb' := hb
  induction ha generalizing b with
  | absent => exact numeralsOrdered_steady .absent hb r
  | bool x => exact numeralsOrdered_steady (.bool x) hb r
  | float m x => exact numeralsOrdered_steady (.float m x) hb r
  | dict keys values => exact numeralsOrdered_steady (.dict keys values) hb r
  | int m i =>
    cases hb with
    | int => exact .pure ⟨_, rfl⟩
    | _ => exact numeralsOrdered_steady (.int m i) hb' r
  | str m s =>
    cases hb with
    | str => exact .pure ⟨_, rfl⟩
    | _ => exact unordered_steady (.str m s) hb' r _
  | list h =>
    cases hb with
    | list h' => exact hin _ _ h h'
    | _ => exact unordered_steady (.list h) hb' r _
  | tuple h ih =>
    cases hb with
    | tuple h' => exact listOrdered_steady h h' fun x hx y hy => ih x hx (h' y hy) (h' y hy)
    | _ => exact unordered_steady (.tuple h) hb' r _

end Value.Data

theorem orderedWithin_steady (r : OrderRelation) (fuel : Nat) {x y : Nat} (hx : A x) (hy : A y) :
    (orderedWithin r fuel x y).Steady A Value.Data.IsTruth := by
  induction fuel generalizing x y with
  | zero => exact .fail _
  | succ fuel ih =>
    refine (Action.Steady.items hx).bind fun xs hxs => ?_
    refine (Action.Steady.items hy).bind fun ys hys => ?_
    exact Value.Data.listOrdered_steady hxs hys fun v hv w hw =>
      (hxs v hv).orderedBy_steady (fun _ _ => ih) (hys w hw)

/-- Data are compared by order to a truth value. -/
theorem Value.Data.ordered_steady {a b : Value} (ha : a.Data A) (hb : b.Data A)
    (r : OrderRelation) : (a.ordered r b).Steady A IsTruth :=
  ha.orderedBy_steady (fun _ _ => orderedWithin_steady r _) hb

/-! ### Containers -/

namespace Value.Data

variable {a b : Value}

theorem memberOf_steady (ha : a.Data A) {vs : List Value} (hvs : ∀ v ∈ vs, v.Data A) :
    (a.memberOf vs).Steady A fun _ => True := by
  induction vs with
  | nil => exact .pure trivial
  | cons v vs ih =>
    refine ((hvs v List.mem_cons_self).same_steady ha).bind fun b _ => ?_
    cases b with
    | true => exact .pure trivial
    | false => exact ih fun w hw => hvs w (List.mem_cons_of_mem _ hw)

theorem givesAfter_steady (ha : a.Data A) {address : Nat} (h : A address) (rounds given : Nat) :
    ((Supply.listed address).givesAfter a rounds given).Steady A fun _ => True := by
  induction rounds generalizing given with
  | zero => exact .exhausted
  | succ rounds ih =>
    have hafter : ((Supply.listed address).after given).Steady A fun vs => ∀ v ∈ vs, v.Data A := by
      refine Action.Steady.storeItems.bind fun s hs => .pure fun v hv => ?_
      exact hs address h v (List.mem_of_mem_drop hv)
    refine hafter.bind fun vs hvs => ?_
    cases vs with
    | nil => exact .pure trivial
    | cons v vs =>
      refine (ha.memberOf_steady hvs).bind fun b _ => ?_
      cases b with
      | true => exact .pure trivial
      | false => exact ih _

theorem requireHashable_steady (ha : a.Data A) : a.requireHashable.Steady A fun _ => True := by
  induction ha with
  | list | dict => exact .fail _
  | @tuple mark items h ih =>
    change (allHashable items).Steady A fun _ => True
    clear h
    induction items with
    | nil => exact .pure trivial
    | cons v vs ihvs =>
      refine (ih v List.mem_cons_self).bind fun _ _ => ?_
      exact ihvs fun w hw => ih w (List.mem_cons_of_mem _ hw)
  | _ => exact .pure trivial

theorem keyIs_steady (ha : a.Data A) (hb : b.Data A) : (keyIs a b).Steady A fun _ => True := by
  refine Action.Steady.store.bind fun s _ => ?_
  split
  · exact hb.same_steady ha
  · exact .pure trivial

/-- What is found under a key is a value of the entries. -/
theorem find?_steady (ha : a.Data A) {entries : List (Value × Value)}
    (hkeys : ∀ e ∈ entries, e.1.Data A) :
    (Entries.find? a entries).Steady A fun o => ∀ w ∈ o, ∃ e ∈ entries, w = e.2 := by
  rw [Entries.find?_eq]
  exact findEntry_steady fun e he => ha.keyIs_steady (hkeys e he)

/-- What is no container is not looked into. -/
theorem containsAsked_steady (hb : b.Data A) (hcontents : b.contents? = pure none) (a : Value) :
    (b.containsAsked a).Steady A fun _ => True := by
  have hsupply : b.supply.Steady A fun _ => False := by
    change (Value.supplyWithin (999 + 1) b).Steady A _
    refine Action.Steady.store.bind fun s _ => ?_
    have htypeOf : s.typeOf b ≠ .foldTrace := by cases hb <;> exact nofun
    simp only [Value.special?_eq_none hb.isObject_eq, if_neg htypeOf, hcontents, pure_bind]
    exact .fail _
  refine Action.Steady.store.bind fun s _ => ?_
  simp only [Value.special?_eq_none hb.isObject_eq]
  have hsupplyOr (lack : Failure) : (b.supplyOr lack).Steady A fun _ => False := by
    refine hsupply.handle fun f => ?_
    split
    · exact .fail _
    · exact .raise _
  exact (hsupplyOr _).bind fun _ h => h.elim

/-- To look for data in data is steady. -/
theorem isIn_steady (ha : a.Data A) (hb : b.Data A) : (a.isIn b).Steady A fun _ => True := by
  have hb' := hb
  cases hb with
  | str m s =>
    cases ha with
    | str => exact .pure trivial
    | _ => exact (Action.Steady.typeOf _).bind fun _ _ => .fail _
  | list h => exact ha.givesAfter_steady h _ _
  | tuple h => exact ha.memberOf_steady h
  | dict keys values =>
    refine ha.requireHashable_steady.bind fun _ _ => ?_
    exact (ha.find?_steady keys).bind fun _ _ => .pure trivial
  | absent | bool | int | float => exact containsAsked_steady hb' rfl a

/-! ### Entries -/

/-- Keys and values are data. -/
def Entries (A : Nat → Prop) (entries : List (Value × Value)) : Prop :=
  ∀ e ∈ entries, e.1.Data A ∧ e.2.Data A

theorem placeFrom_steady (ha : a.Data A) {entries : List (Value × Value)} (h : Entries A entries)
    (i : Nat) : (PredicateTree.Entries.placeFrom a i entries).Steady A fun _ => True := by
  induction entries generalizing i with
  | nil => exact .pure trivial
  | cons e entries ih =>
    rw [PredicateTree.Entries.placeFrom_cons]
    refine (ha.keyIs_steady (h e List.mem_cons_self).1).bind fun b _ => ?_
    cases b with
    | true => exact .pure trivial
    | false => exact ih (fun e he => h e (List.mem_cons_of_mem _ he)) (i + 1)

theorem insert_steady {entries : Array (Value × Value)} (h : Entries A entries.toList)
    (ha : a.Data A) (hb : b.Data A) :
    (PredicateTree.Entries.insert entries a b).Steady A fun es => Entries A es.toList := by
  refine (ha.placeFrom_steady h 0).bind fun place _ => ?_
  cases place with
  | none =>
    refine .pure fun e he => ?_
    rw [Array.toList_push] at he
    rcases List.mem_append.1 he with he | he
    · exact h e he
    · cases List.mem_singleton.1 he
      exact ⟨ha, hb⟩
  | some i =>
    refine .pure fun e he => ?_
    obtain ⟨j, hj, rfl⟩ := List.getElem_of_mem he
    have hold (k : Nat) (hk : k < entries.size) : entries[k].1.Data A ∧ entries[k].2.Data A :=
      h _ (Array.getElem_mem_toList hk)
    simp only [PredicateTree.Entries.setAt, Array.getElem_toList, Array.getElem_modify] at hj ⊢
    simp only [Array.length_toList, Array.size_modify] at hj
    split
    · exact ⟨(hold j hj).1, hb⟩
    · exact hold j hj

theorem merge_steady {d e : List (Value × Value)} (hd : Entries A d) (he : Entries A e) :
    (PredicateTree.Entries.merge d e).Steady A (Entries A) := by
  have hupdate (es : Array (Value × Value)) (hes : Entries A es.toList) :
      (PredicateTree.Entries.update es e).Steady A fun es => Entries A es.toList := by
    rw [PredicateTree.Entries.update_eq]
    induction e generalizing es with
    | nil => exact .pure hes
    | cons f e ih =>
      rw [List.foldlM_cons]
      have hf := he f List.mem_cons_self
      refine (insert_steady hes hf.1 hf.2).bind fun es' hes' => ?_
      exact ih (fun g hg => he g (List.mem_cons_of_mem _ hg)) es' hes'
  exact (hupdate d.toArray hd).bind fun es hes => .pure hes

end Value.Data

end PredicateTree
