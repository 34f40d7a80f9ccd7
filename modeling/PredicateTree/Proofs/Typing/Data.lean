import PredicateTree.Proofs.Evaluation.Bookkeeping
import PredicateTree.Value.Operation

/-!
# Data

Data are the values that no class has a say in: the absent value, truth values, numbers, texts, and
lists, tuples and dictionaries of data.  A list stands in the store, so which values are data
depends on a set `A` of addresses at which the store holds lists of data (`Session.Holds`).

An action is steady if, begun in such a session, it ends in such a session, and with a good result
(`Action.Steady`).  Some operators make new lists; they yield data for a larger set of addresses
(`Action.Yields`).
-/

namespace PredicateTree

/-- Data, where lists of data stand at the addresses in `A`. -/
inductive Value.Data (A : Nat → Prop) : Value → Prop where
  | absent : Data A .absent
  | bool (b : Bool) : Data A (.bool b)
  | int (mark : Nat) (i : Int) : Data A (.int mark i)
  | float (mark : Nat) (x : Float) : Data A (.float mark x)
  | str (mark : Nat) (s : String) : Data A (.str mark s)
  | list {address : Nat} (h : A address) : Data A (.list address)
  | tuple {mark : Nat} {items : List Value} (h : ∀ v ∈ items, Data A v) :
      Data A (.tuple mark items)
  | dict {mark : Nat} {entries : List (Value × Value)} (keys : ∀ e ∈ entries, Data A e.1)
      (values : ∀ e ∈ entries, Data A e.2) : Data A (.dict mark entries)

/-- At the addresses in `A` a session holds lists of data. -/
def Session.Holds (s : Session) (A : Nat → Prop) : Prop :=
  ∀ a, A a → a < s.store.lists.size ∧ ∀ v ∈ s.store.items a, v.Data A

variable {A B : Nat → Prop} {α β : Type}

theorem Value.Data.mono (hAB : ∀ a, A a → B a) {v : Value} (h : v.Data A) : v.Data B := by
  induction h with
  | absent => exact .absent
  | bool b => exact .bool b
  | int mark i => exact .int mark i
  | float mark x => exact .float mark x
  | str mark s => exact .str mark s
  | list h => exact .list (hAB _ h)
  | tuple _ ih => exact .tuple ih
  | dict _ _ ihk ihv => exact .dict ihk ihv

theorem Value.Data.isObject_eq {v : Value} (h : v.Data A) : v.isObject = false := by
  cases h <;> rfl

theorem Value.Data.asDict_eq {v : Value} (h : v.Data A) : v.asDict = v := by
  cases h <;> rfl

theorem Session.Holds.of_lists {s t : Session} (h : s.Holds A)
    (hlists : t.store.lists = s.store.lists) : t.Holds A := by
  intro a ha
  have hitems : t.store.items a = s.store.items a := by
    simp only [Store.items, Store.list, hlists]
  rw [hlists, hitems]
  exact h a ha

theorem Value.special?_eq_none {v : Value} (h : v.isObject = false) {s : Store} {name : String} :
    v.special? s name = none := by
  cases v with
  | object => cases h
  | _ => rfl

/-- A session with one more list of data. -/
theorem Session.Holds.withList {s : Session} (h : s.Holds A) {r : Rope Value}
    (hr : ∀ v ∈ r.toList, v.Data A) :
    ({ s with store := s.store.withList r } : Session).Holds
      fun a => A a ∨ a = s.store.lists.size := by
  have hmono : ∀ a, A a → A a ∨ a = s.store.lists.size := fun a => .inl
  have hget (a : Nat) : (s.store.withList r).list a =
      if a = s.store.lists.size then r else s.store.list a := by
    simp only [Store.list, Store.withList, Array.getD_eq_getD_getElem?, Array.getElem?_push]
    split <;> rfl
  have hsize : (s.store.withList r).lists.size = s.store.lists.size + 1 := Array.size_push ..
  intro a ha
  change a < (s.store.withList r).lists.size ∧ ∀ v ∈ ((s.store.withList r).list a).toList, _
  rw [hsize, hget]
  rcases ha with ha | rfl
  · obtain ⟨hlt, hitems⟩ := h a ha
    rw [if_neg (by omega)]
    exact ⟨by omega, fun v hv => (hitems v hv).mono hmono⟩
  · rw [if_pos rfl]
    exact ⟨by omega, fun v hv => (hr v hv).mono hmono⟩

/-! ### Steady actions -/

/-- An action that leaves the lists of data as they are, and whose result, if it has one, is good. -/
def Action.Steady (A : Nat → Prop) (Q : α → Prop) (x : Action α) : Prop :=
  ∀ ⦃c s o t⦄, s.Holds A → x.run c s = (o, t) → t.Holds A ∧ ∀ a, o = .done a → Q a

/-- An action that ends with a result ends with a good one; lists of data may have been added. -/
def Action.Yields (c : Caller) (A : Nat → Prop) (Q : (Nat → Prop) → α → Prop) (x : Action α) :
    Prop :=
  ∀ ⦃s a t⦄, s.Holds A → x.run c s = (.done a, t) → ∃ B, (∀ i, A i → B i) ∧ t.Holds B ∧ Q B a

namespace Action.Steady

variable {Q R : α → Prop} {P : β → Prop}

theorem pure {a : α} (h : Q a) : Steady A Q (Pure.pure a) := by
  intro c s o t hs hrun
  cases hrun
  exact ⟨hs, fun _ hb => Outcome.done.inj hb ▸ h⟩

theorem raise (f : Fault) : Steady A Q (Action.raise f) := by
  intro c s o t hs hrun
  cases hrun
  exact ⟨hs, nofun⟩

theorem fail (f : Failure) : Steady A Q (Action.fail f) := raise (.failure f)

theorem exhausted : Steady A Q Action.exhausted := by
  intro c s o t hs hrun
  cases hrun
  exact ⟨hs, nofun⟩

theorem bind {x : Action α} {k : α → Action β} (hx : Steady A Q x)
    (hk : ∀ a, Q a → Steady A P (k a)) : Steady A P (x >>= k) := by
  intro c s o t hs hrun
  rcases hxrun : x.run c s with ⟨a | f | _, u⟩
  · rw [run_bind_done hxrun] at hrun
    obtain ⟨hu, ha⟩ := hx hs hxrun
    exact hk a (ha a rfl) hu hrun
  · rw [run_bind_raised hxrun] at hrun
    cases hrun
    exact ⟨(hx hs hxrun).1, nofun⟩
  · rw [run_bind_exhausted hxrun] at hrun
    cases hrun
    exact ⟨(hx hs hxrun).1, nofun⟩

theorem handle {x : Action α} {h : Fault → Action α} (hx : Steady A Q x)
    (hh : ∀ f, Steady A Q (h f)) : Steady A Q (x.handle h) := by
  intro c s o t hs hrun
  rcases hxrun : x.run c s with ⟨a | f | _, u⟩
  · rw [run_handle_done hxrun] at hrun
    cases hrun
    exact hx hs hxrun
  · rw [run_handle_raised hxrun] at hrun
    exact hh f (hx hs hxrun).1 hrun
  · rw [run_handle_exhausted hxrun] at hrun
    cases hrun
    exact hx hs hxrun

theorem mono {x : Action α} (hx : Steady A Q x) (imp : ∀ a, Q a → R a) : Steady A R x := by
  intro c s o t hs hrun
  obtain ⟨ht, ha⟩ := hx hs hrun
  exact ⟨ht, fun a h => imp a (ha a h)⟩

/-- An action that does not change the lists, with whatever result. -/
theorem of_lists {x : Action α} (h : ∀ c s, (x.run c s).2.store.lists = s.store.lists) :
    Steady A (fun _ => True) x := by
  intro c s o t hs hrun
  have hlists := h c s
  rw [hrun] at hlists
  exact ⟨hs.of_lists hlists, fun _ _ => trivial⟩

theorem store : Steady A (fun _ => True) Action.store := of_lists fun _ _ => rfl

theorem typeOf (v : Value) : Steady A (fun _ => True) (Action.typeOf v) := of_lists fun _ _ => rfl

theorem freshMark : Steady A (fun _ => True) Action.freshMark := of_lists fun _ _ => rfl

theorem ofExcept {e : Except Fault α} (h : ∀ a, e = .ok a → Q a) : Steady A Q (Action.ofExcept e) := by
  cases e with
  | ok a => exact .pure (h a rfl)
  | error f => exact .raise f

theorem ofQuery (q : Query α) : Steady A (fun _ => True) (Action.ofQuery q) := by
  refine of_lists fun c s => ?_
  rw [run, Action.ofQuery]
  split <;> rfl

/-- In the store, the items of lists of data are data. -/
theorem storeItems :
    Steady A (fun s : Store => ∀ a, A a → ∀ v ∈ s.items a, v.Data A) Action.store := by
  intro c s o t hs hrun
  cases hrun
  exact ⟨hs, fun u hu => Outcome.done.inj hu ▸ fun a ha => (hs a ha).2⟩

/-- The items of a list of data are data. -/
theorem items {a : Nat} (ha : A a) :
    Steady A (fun vs => ∀ v ∈ vs, v.Data A) (Action.ofQuery (Query.items a)) := by
  intro c s o t hs hrun
  cases hrun
  exact ⟨hs, fun vs hvs => Outcome.done.inj hvs ▸ (hs a ha).2⟩

/-- No class is asked about what is no object. -/
theorem askSpecial {v : Value} (h : v.isObject = false) (name : String) (args : List Value) :
    Steady A (· = none) (v.askSpecial name args) := by
  refine store.bind fun s _ => ?_
  rw [Value.special?_eq_none h]
  exact .pure rfl

theorem newInt (i : Int) : Steady A (fun v => ∃ m, v = .int m i) (Action.newInt i) := by
  unfold Action.newInt
  split
  · exact .pure ⟨0, rfl⟩
  · exact freshMark.bind fun m _ => .pure ⟨m, rfl⟩

theorem newFloat (x : Float) : Steady A (fun v => ∃ m, v = .float m x) (Action.newFloat x) :=
  freshMark.bind fun m _ => .pure ⟨m, rfl⟩

theorem newText (s : String) : Steady A (fun v => ∃ m, v = .str m s) (Action.newText s) := by
  unfold Action.newText
  split
  · exact .pure ⟨0, rfl⟩
  · exact freshMark.bind fun m _ => .pure ⟨m, rfl⟩

theorem textPiece (s : String) : Steady A (fun v => ∃ m, v = .str m s) (Action.textPiece s) := by
  unfold Action.textPiece
  split
  · exact .pure ⟨0, rfl⟩
  · exact newText s

theorem newTuple (vs : List Value) : Steady A (fun v => ∃ m, v = .tuple m vs) (Action.newTuple vs) :=
  freshMark.bind fun m _ => .pure ⟨m, rfl⟩

theorem newDict (es : List (Value × Value)) :
    Steady A (fun v => ∃ m, v = .dict m es) (Action.newDict es) :=
  freshMark.bind fun m _ => .pure ⟨m, rfl⟩

theorem yields {c : Caller} {Q : (Nat → Prop) → α → Prop} {x : Action α}
    (hx : Steady A (Q A) x) : x.Yields c A Q := by
  intro s a t hs hrun
  obtain ⟨ht, ha⟩ := hx hs hrun
  exact ⟨A, fun _ h => h, ht, ha a rfl⟩

end Action.Steady

namespace Action.Yields

variable {Q R : (Nat → Prop) → α → Prop} {P : (Nat → Prop) → β → Prop} {c : Caller}

theorem bind {x : Action α} {k : α → Action β} (hx : Yields c A Q x)
    (hk : ∀ B, (∀ i, A i → B i) → ∀ a, Q B a → Yields c B P (k a)) : Yields c A P (x >>= k) := by
  intro s b t hs hrun
  obtain ⟨a, u, hxrun, hkrun⟩ := exists_of_run_bind_done hrun
  obtain ⟨B, hB, hu, ha⟩ := hx hs hxrun
  obtain ⟨C, hC, ht, hb⟩ := hk B hB a ha hu hkrun
  exact ⟨C, fun i hi => hC i (hB i hi), ht, hb⟩

theorem mono {x : Action α} (hx : Yields c A Q x)
    (imp : ∀ B, (∀ i, A i → B i) → ∀ a, Q B a → R B a) : Yields c A R x := by
  intro s a t hs hrun
  obtain ⟨B, hB, ht, ha⟩ := hx hs hrun
  exact ⟨B, hB, ht, imp B hB a ha⟩

/-- After a steady action. -/
theorem after {S : α → Prop} {x : Action α} {k : α → Action β} (hx : Steady A S x)
    (hk : ∀ a, S a → Yields c A P (k a)) : Yields c A P (x >>= k) := by
  intro s b t hs hrun
  obtain ⟨a, u, hxrun, hkrun⟩ := exists_of_run_bind_done hrun
  obtain ⟨hu, ha⟩ := hx hs hxrun
  exact hk a (ha a rfl) hu hkrun

/-- A new list of data. -/
theorem newRope {r : Rope Value} (hr : ∀ v ∈ r.toList, v.Data A) :
    Yields c A (fun B v => ∃ a, v = .list a ∧ B a) (Action.newRope r) := by
  intro s v t hs hrun
  cases hrun
  exact ⟨_, fun _ => .inl, hs.withList hr, _, rfl, .inr rfl⟩

end Action.Yields

end PredicateTree
