import PredicateTree.Value.Equality
import Std.Data.TreeMap

/-!
# Entries of dictionaries

The entries of a dictionary stand in the order of their insertion.  A repeated key keeps its first
place and takes the last value (`Entries.insert`).

A key is compared with another only where the two may have one hash (`Store.alike`): an object has a
hash of its own, unless its class gives it one.

Where many entries are set (`Entries.update`) an index says where the keys stand, as long as all of
them are plain: integers, truth values and texts.  The index changes nothing but the time:
`Entries.update_eq` says that the entries are set one by one.
-/

namespace PredicateTree

/-! ### Keys -/

/-- The hash of an integer. -/
def integerHash (i : Int) : Int :=
  let h := i.tmod 0x1FFFFFFFFFFFFFFF
  if h = -1 then -2 else h

/-- The hash of a value, as far as it can be the hash of an object too. -/
def Store.hash? (s : Store) : Value → Option Int
  | .object address => (s.object address).hash?
  | .bool b => some (if b then 1 else 0)
  | .int _ i => some (integerHash i)
  | .float _ x =>
    if x.isNaN || x.isInf || x.floor != x then none else some (integerHash (Number.truncate x))
  | _ => none

mutual

/-- Whether two keys may have one hash. -/
def Store.alike (s : Store) : Value → Value → Bool
  | .object address, b =>
    (Value.object address).identical b || match s.hash? (.object address), s.hash? b with
      | some x, some y => x == y
      | _, _ => false
  | .tuple _ items, b =>
    match b with
    | .tuple _ others => s.allAlike items others
    | b => !b.isObject
  | a, b =>
    !b.isObject || match s.hash? a, s.hash? b with
      | some x, some y => x == y
      | _, _ => false
termination_by structural a => a

/-- Whether two lists of keys may have one hash each by each. -/
def Store.allAlike (s : Store) : List Value → List Value → Bool
  | [], ys => ys.isEmpty
  | x :: xs, ys =>
    match ys with
    | [] => false
    | y :: ys => s.alike x y && s.allAlike xs ys
termination_by structural xs => xs

end

/-- Takes the hash that the class of an object gives it, if it gives one. -/
def Value.requireObjectHash (address : Nat) : Action Unit := do
  let v := Value.object address
  let t ← Action.typeOf v
  match v.special? (← Action.store) "__hash__" with
  | some .absent => Action.fail (.unhashable t)
  | some f =>
    match (← Action.call f []).numeral? with
    | some (.int i) =>
      let h := if Number.fitsWord i ∧ i ≠ -1 then i else integerHash i
      Action.updateStore (·.withChangedObject address fun o => { o with hash? := some h })
    | _ => Action.fail .hashNotInt
  | none => if t = .eqAmbiguous then Action.fail (.unhashable t)

mutual

/-- Succeeds on the values that can be keys. -/
def Value.requireHashable : Value → Action Unit
  | .tuple _ items => allHashable items
  | .list .. => Action.fail (.unhashable .list)
  | .dict .. => Action.fail (.unhashable .dict)
  | .mapping .. => Action.fail (.unhashable .mapping)
  | .object address => Value.requireObjectHash address
  | .node n =>
    match n with
    | .parameter _ => pure ()
    | n => Action.fail (.unhashable n.classType)
  | _ => pure ()
termination_by structural v => v

/-- Succeeds on lists of values that can be keys. -/
def allHashable : List Value → Action Unit
  | [] => pure ()
  | v :: vs => do
    v.requireHashable
    allHashable vs
termination_by structural vs => vs

end

/-- Whether a key of a dictionary is the one that is looked for. -/
def keyIs (key k : Value) : Action Bool := do
  if (← Action.store).alike k key then k.same key else return false

/-- Whether two keys are integers, texts or parameters that differ: no class has a say in that. -/
def Value.differsPlainly : Value → Value → Bool
  | .int _ i, .int _ j => i != j
  | .str _ s, .str _ t => s != t
  | .node m, .node n =>
    match m, n with
    | .parameter p, .parameter q => p != q
    | _, _ => false
  | _, _ => false

/-- A key that differs plainly from the one that is looked for is passed over. -/
theorem keyIs_of_differsPlainly {key k : Value} (h : key.differsPlainly k = true) :
    keyIs key k = pure false := by
  funext c s
  show ((if s.store.alike k key then k.same key else pure false : Action Bool).run c s) = _
  unfold Value.differsPlainly at h
  split at h
  case h_3 =>
    split at h
    case h_1 p q =>
      have hqp : (q == p) = false := beq_eq_false_iff_ne.2 (Ne.symm (bne_iff_ne.1 h))
      simp [Store.alike, Value.isObject, Value.same, Value.sameBy, Value.settled?,
        Value.identical, Node.identical, Value.parameter?, Node.asParameter?, hqp]
      rfl
    case h_2 => simp at h
  case h_4 => simp at h
  all_goals
    have h' := beq_eq_false_iff_ne.2 (Ne.symm (bne_iff_ne.1 h))
    simp [Store.alike, Value.isObject, Value.same, Value.sameBy, Value.settled?, h']
    rfl

namespace Entries

/-- The value of a key. -/
def find? (key : Value) : List (Value × Value) → Action (Option Value)
  | [] => pure none
  | (k, v) :: rest =>
    if key.differsPlainly k then find? key rest
    else do if ← keyIs key k then return some v else find? key rest

/-- The first key that is the one looked for has the value. -/
theorem find?_eq (key : Value) (entries : List (Value × Value)) :
    find? key entries = findEntry (keyIs key) entries := by
  induction entries with
  | nil => rfl
  | cons e entries ih =>
    rw [find?, findEntry, ih]
    split
    next h => rw [keyIs_of_differsPlainly h]; rfl
    next => rfl

/-- The place of a key among entries, the first of which stands at the place `i`. -/
def placeFrom (key : Value) (i : Nat) : List (Value × Value) → Action (Option Nat)
  | [] => pure none
  | (k, _) :: rest =>
    if key.differsPlainly k then placeFrom key (i + 1) rest
    else do if ← keyIs key k then return some i else placeFrom key (i + 1) rest

/-- Every key is asked whether it is the one looked for, until one is. -/
theorem placeFrom_cons (key : Value) (i : Nat) (e : Value × Value)
    (entries : List (Value × Value)) :
    placeFrom key i (e :: entries) =
      (do if ← keyIs key e.1 then return some i else placeFrom key (i + 1) entries) := by
  rw [placeFrom]
  split
  next h => rw [keyIs_of_differsPlainly h]; rfl
  next => rfl

/-- The place of a key among entries. -/
def place? (key : Value) (entries : Array (Value × Value)) : Action (Option Nat) :=
  placeFrom key 0 entries.toList

/-- The entries with another value at a place. -/
def setAt (entries : Array (Value × Value)) (i : Nat) (value : Value) : Array (Value × Value) :=
  entries.modify i fun e => (e.1, value)

/-- Sets the value of a key.  A key that is there keeps its place. -/
def insert (entries : Array (Value × Value)) (key value : Value) :
    Action (Array (Value × Value)) := do
  match ← place? key entries with
  | some i => return setAt entries i value
  | none => return entries.push (key, value)

/-- The keys of entries. -/
def keys (entries : Array (Value × Value)) : List Value := entries.toList.map (·.1)

theorem keys_push (entries : Array (Value × Value)) (e : Value × Value) :
    keys (entries.push e) = keys entries ++ [e.1] := by
  simp [keys]

theorem keys_setAt (entries : Array (Value × Value)) (i : Nat) (value : Value) :
    keys (setAt entries i value) = keys entries := by
  apply List.ext_getElem?
  intro j
  simp only [keys, setAt, List.getElem?_map, Array.getElem?_toList, Array.getElem?_modify]
  split
  · cases entries[j]? <;> rfl
  · rfl

end Entries

/-! ### An index of plain keys -/

/-- What a plain key is compared by: its number, or its characters. -/
inductive PlainKey where
  | number (i : Int)
  | text (s : String)
deriving DecidableEq

/-- What a value is compared by as a key, if it is a plain one. -/
def Value.plainKey? : Value → Option PlainKey
  | .bool b => some (.number (if b then 1 else 0))
  | .int _ i => some (.number i)
  | .str _ s => some (.text s)
  | _ => none

theorem beq_eq_decide_eq {α : Type} [BEq α] [LawfulBEq α] [DecidableEq α] (a b : α) :
    (a == b) = decide (a = b) :=
  Bool.eq_iff_iff.2 (by simp)

/-- Two plain keys are equal where they are compared by the same. -/
theorem Value.run_same_of_plainKey? {v w : Value} {k l : PlainKey} (hv : v.plainKey? = some k)
    (hw : w.plainKey? = some l) (c : Caller) (s : Session) :
    (v.same w).run c s = (.done (decide (k = l)), s) := by
  unfold Value.same Value.sameBy
  cases v <;> simp only [Value.plainKey?, Option.some.injEq, reduceCtorEq] at hv <;> subst hv <;>
    cases w <;> simp only [Value.plainKey?, Option.some.injEq, reduceCtorEq] at hw <;> subst hw
  case bool.bool b c => cases b <;> cases c <;> rfl
  all_goals
    simp [Value.settled?, Value.identical, Value.parameter?, Value.isObject, Value.numeral?,
      Numeral.equal_int, beq_eq_decide_eq]

/-- A plain key is compared with every other. -/
theorem Store.alike_of_plainKey? {v w : Value} {k l : PlainKey} (hv : v.plainKey? = some k)
    (hw : w.plainKey? = some l) (s : Store) : s.alike v w = true := by
  cases v <;> simp only [Value.plainKey?, reduceCtorEq] at hv <;>
    cases w <;> simp only [Value.plainKey?, reduceCtorEq] at hw <;>
      simp [Store.alike, Value.isObject]

/-- A plain key is the one that is looked for where both are compared by the same. -/
theorem run_keyIs_of_plainKey? {key k : Value} {p q : PlainKey} (hkey : key.plainKey? = some p)
    (hk : k.plainKey? = some q) (c : Caller) (s : Session) :
    (keyIs key k).run c s = (.done (k.plainKey? == some p), s) := by
  show ((if s.store.alike k key then k.same key else pure false : Action Bool).run c s) = _
  rw [if_pos (Store.alike_of_plainKey? hk hkey s.store), Value.run_same_of_plainKey? hk hkey, hk]
  simp [beq_eq_decide_eq]

/-- Places of plain keys among entries. -/
structure KeyPlaces where
  numbers : Std.TreeMap Int Nat := {}
  texts : Std.TreeMap String Nat := {}

namespace KeyPlaces

/-- The place of a key. -/
def find? (places : KeyPlaces) : PlainKey → Option Nat
  | .number i => places.numbers[i]?
  | .text s => places.texts[s]?

/-- The places with that of one more key; a key that is there keeps its place. -/
def insertIfNew (places : KeyPlaces) (k : PlainKey) (place : Nat) : KeyPlaces :=
  match k with
  | .number i => { places with numbers := places.numbers.insertIfNew i place }
  | .text s => { places with texts := places.texts.insertIfNew s place }

theorem find?_empty (k : PlainKey) : ({} : KeyPlaces).find? k = none := by
  cases k <;> simp [find?]

theorem find?_insertIfNew (places : KeyPlaces) (k l : PlainKey) (place : Nat) :
    (places.insertIfNew k place).find? l =
      (places.find? l).or (if k = l then some place else none) := by
  cases k <;> cases l <;>
    simp only [find?, insertIfNew, Std.TreeMap.getElem?_insertIfNew, PlainKey.number.injEq,
      PlainKey.text.injEq, reduceCtorEq, if_false, Option.or_none]
  all_goals grind

end KeyPlaces

/-- Entries with the places of their keys, as long as all of them are plain. -/
structure IndexedEntries where
  entries : Array (Value × Value) := #[]
  places? : Option KeyPlaces := some {}

namespace IndexedEntries

/-- One more entry, behind the others. -/
def push : IndexedEntries → (e : Value × Value) → IndexedEntries
  | ⟨entries, places?⟩, e =>
    let places? := do return (← places?).insertIfNew (← e.1.plainKey?) entries.size
    ⟨entries.push e, places?⟩

/-- Entries with an index. -/
def ofArray (entries : Array (Value × Value)) : IndexedEntries := entries.foldl push {}

/-- The place of a key. -/
def place? (t : IndexedEntries) (key : Value) : Action (Option Nat) :=
  match t.places?, key.plainKey? with
  | some places, some k => pure (places.find? k)
  | _, _ => Entries.place? key t.entries

/-- Sets the value of a key.  A key that is there keeps its place. -/
def insert (t : IndexedEntries) (key value : Value) : Action IndexedEntries := do
  match ← t.place? key with
  | some i => return { t with entries := Entries.setAt t.entries i value }
  | none => return t.push (key, value)

/-- Sets the value of a key, which must be hashable. -/
def insertHashable (t : IndexedEntries) (e : Value × Value) : Action IndexedEntries := do
  e.1.requireHashable
  t.insert e.1 e.2

/-- The first place of a plain key among several keys. -/
def firstPlace (k : PlainKey) (keys : List Value) : Option Nat :=
  keys.findIdx? (·.plainKey? == some k)

/-- Whether the index of entries gives every key its place; all keys are plain then. -/
def Faithful (t : IndexedEntries) : Prop :=
  ∀ places, t.places? = some places →
    (∀ k ∈ Entries.keys t.entries, k.plainKey?.isSome) ∧
      ∀ k, places.find? k = firstPlace k (Entries.keys t.entries)

end IndexedEntries

namespace Entries

/-- Among plain keys a plain key is found without any trace. -/
theorem run_placeFrom_of_plain {key : Value} {k : PlainKey} (hkey : key.plainKey? = some k)
    {entries : List (Value × Value)} (h : ∀ e ∈ entries, e.1.plainKey?.isSome) (i : Nat)
    (c : Caller) (s : Session) :
    (placeFrom key i entries).run c s =
      (.done ((IndexedEntries.firstPlace k (entries.map (·.1))).map (· + i)), s) := by
  induction entries generalizing i with
  | nil => rfl
  | cons e entries ih =>
    obtain ⟨q, hq⟩ := Option.isSome_iff_exists.1 (h e (List.mem_cons_self ..))
    have tail := ih (fun e he => h e (List.mem_cons_of_mem _ he)) (i + 1)
    rw [placeFrom_cons, Action.run_bind_done (run_keyIs_of_plainKey? hkey hq c s)]
    simp only [IndexedEntries.firstPlace, List.map_cons, List.findIdx?_cons] at tail ⊢
    cases hb : (e.1.plainKey? == some k) with
    | true => simp
    | false =>
      simp only [Bool.false_eq_true, if_false, tail, Option.map_map]
      congr 3
      funext place
      simp only [Function.comp_apply]
      omega

end Entries

namespace IndexedEntries

theorem faithful_empty : ({} : IndexedEntries).Faithful := by
  intro places h
  cases h
  exact ⟨by simp [Entries.keys], fun k => by simp [KeyPlaces.find?_empty, firstPlace, Entries.keys]⟩

theorem Faithful.push {t : IndexedEntries} (h : t.Faithful) (e : Value × Value) :
    (t.push e).Faithful := by
  intro places hp
  simp only [IndexedEntries.push, Option.bind_eq_bind, Option.bind_eq_some_iff, Option.pure_def,
    Option.some.injEq] at hp
  obtain ⟨old, hold, l, hl, rfl⟩ := hp
  obtain ⟨hplain, hfind⟩ := h old hold
  simp only [IndexedEntries.push, Entries.keys_push]
  constructor
  · intro k hk
    rcases List.mem_append.1 hk with hk | hk
    · exact hplain k hk
    · rw [List.mem_singleton.1 hk, hl]
      rfl
  · intro k
    rw [KeyPlaces.find?_insertIfNew, hfind]
    simp only [firstPlace, List.findIdx?_append, List.findIdx?_cons, List.findIdx?_nil, hl]
    by_cases hk : l = k <;> simp [hk, Entries.keys]

theorem Faithful.place? {t : IndexedEntries} (h : t.Faithful) (key : Value) :
    t.place? key = Entries.place? key t.entries := by
  unfold IndexedEntries.place?
  split
  · rename_i places k hp hk
    obtain ⟨hplain, hfind⟩ := h places hp
    funext c s
    have hplain' : ∀ e ∈ t.entries.toList, e.1.plainKey?.isSome := fun e he =>
      hplain e.1 (List.mem_map_of_mem he)
    have := Entries.run_placeFrom_of_plain hk hplain' 0 c s
    simp only [Nat.add_zero, Option.map_id'] at this
    rw [hfind k]
    exact this.symm
  · rfl

theorem Faithful.setAt {t : IndexedEntries} (h : t.Faithful) (i : Nat) (value : Value) :
    Faithful { t with entries := Entries.setAt t.entries i value } := by
  intro places hp
  rw [Entries.keys_setAt]
  exact h places hp

theorem faithful_of_places?_eq_none {t : IndexedEntries} (h : t.places? = none) : t.Faithful := by
  intro places hp
  rw [h] at hp
  cases hp

theorem faithful_foldl_push {t : IndexedEntries} (h : t.Faithful) (more : List (Value × Value)) :
    (more.foldl push t).Faithful ∧
      (more.foldl push t).entries.toList = t.entries.toList ++ more := by
  induction more generalizing t with
  | nil => simp [h]
  | cons e more ih => simpa [IndexedEntries.push] using ih (h.push e)

theorem faithful_ofArray (entries : Array (Value × Value)) :
    (ofArray entries).Faithful ∧ (ofArray entries).entries = entries := by
  have h := faithful_foldl_push faithful_empty entries.toList
  rw [Array.foldl_toList] at h
  exact ⟨h.1, Array.toList_inj.1 h.2⟩

theorem entries_foldlM_insert {t : IndexedEntries} (h : t.Faithful)
    (more : List (Value × Value)) :
    (·.entries) <$> more.foldlM (fun t e => t.insert e.1 e.2) t =
      more.foldlM (fun es e => Entries.insert es e.1 e.2) t.entries := by
  induction more generalizing t with
  | nil => rfl
  | cons e more ih =>
    rw [List.foldlM_cons, List.foldlM_cons, insert, Entries.insert, h.place?]
    simp only [bind_assoc, map_bind]
    congr 1
    funext place?
    cases place? with
    | some i =>
      rw [pure_bind]
      exact ih (h.setAt i e.2)
    | none =>
      rw [pure_bind]
      exact ih (h.push (e.1, e.2))

end IndexedEntries

namespace Entries

/-- Sets the values of several keys, from first to last.  The keys are indexed where there are many
of them. -/
def update (entries : Array (Value × Value)) (more : List (Value × Value)) :
    Action (Array (Value × Value)) := do
  let start := if more.length < 8 then ⟨entries, none⟩ else IndexedEntries.ofArray entries
  let t ← more.foldlM (fun t e => t.insert e.1 e.2) start
  return t.entries

/-- Several keys are set one by one. -/
theorem update_eq (entries : Array (Value × Value)) (more : List (Value × Value)) :
    update entries more = more.foldlM (fun es e => insert es e.1 e.2) entries := by
  rw [update]
  split
  · exact IndexedEntries.entries_foldlM_insert
      (IndexedEntries.faithful_of_places?_eq_none rfl) more
  · obtain ⟨h, hentries⟩ := IndexedEntries.faithful_ofArray entries
    have := IndexedEntries.entries_foldlM_insert h more
    rw [hentries] at this
    exact this

/-- The dictionary of a list of entries, from first to last.  The keys must be hashable. -/
def ofList (entries : List (Value × Value)) : Action (List (Value × Value)) := do
  let t ← entries.foldlM IndexedEntries.insertHashable {}
  return t.entries.toList

/-- One dictionary updated by another. -/
def merge (d e : List (Value × Value)) : Action (List (Value × Value)) := do
  return (← update d.toArray e).toList

end Entries

end PredicateTree
