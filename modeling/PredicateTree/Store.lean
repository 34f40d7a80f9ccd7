import PredicateTree.Fault
import PredicateTree.Rope
import Std.Data.TreeMap

/-!
# Stores

A `Store` keeps what can change: the items of lists, the types and the attributes of objects, and
the attributes that were set on things which are no objects.  Values refer to it by addresses, so a
change shows in every occurrence at once, and things may hold one another.

A `Query` is a question about values.  It reads a store, changes nothing, and may fail.
-/

namespace PredicateTree

/-- Attributes with their names, in the order in which they came. -/
abbrev Attributes := List (String × Value)

/-- What an object is and holds; to read one of `broken` fails. -/
structure StoredObject where
  type : StaticType := .object
  attributes : Attributes := []
  broken : List (String × ErrorClass) := []
  /-- The hash that its class gave it when it was last asked for one. -/
  hash? : Option Int := none

/-- What callers gave where names and types are asked for. -/
structure Givens where
  /-- The names of parameters that are no texts, by the serial numbers of the parameters. -/
  names : Std.TreeMap Nat Value := {}
  /-- What nodes carry in the place of a type and is none. -/
  labels : Array Value := #[]
  /-- What the types extend that were made while running, by their serial numbers, in the order in
  which attributes are looked for. -/
  extended : Array (List StaticType) := #[]

/-- What can change.  The place in an array is the address. -/
structure Store where
  lists : Array (Rope Value) := #[]
  objects : Array StoredObject := #[]
  /-- The attributes that were set on things which are no objects, such as classes and functions, by
  the marks that they have as functions. -/
  others : Std.TreeMap Nat (List (Value × Attributes)) := {}
  /-- The functions of the lambdas that were called themselves, by the marks of the lambdas. -/
  compiled : Std.TreeMap Nat Value := {}
  givens : Givens := {}

/-- The mark that tells a function apart; other things have none. -/
def Value.functionMark : Value → Nat
  | .tracer mark .. | .raiser mark .. | .closure mark .. => mark
  | _ => 0

namespace Store

/-- A list. -/
def list (s : Store) (address : Nat) : Rope Value := s.lists.getD address (.items #[])

/-- The items of a list. -/
def items (s : Store) (address : Nat) : List Value := (s.list address).toList

/-- What an object holds. -/
def object (s : Store) (address : Nat) : StoredObject := s.objects.getD address {}

/-- The attributes that a value has of its own, not by nature. -/
def attributes (s : Store) (v : Value) : Attributes :=
  match v with
  | .object address => (s.object address).attributes
  | v => (((s.others.getD v.functionMark []).find? (·.1.identical v)).map (·.2)).getD []

/-- An attribute that a value has of its own, not by nature. -/
def attribute? (s : Store) (v : Value) (name : String) : Option Value :=
  (s.attributes v).lookup name

/-- The store with a new list. -/
def withList : Store → Rope Value → Store
  | ⟨lists, objects, others, compiled, givens⟩, r =>
    ⟨lists.push r, objects, others, compiled, givens⟩

/-- The store with a new object. -/
def withObject : Store → StoredObject → Store
  | ⟨lists, objects, others, compiled, givens⟩, o =>
    ⟨lists, objects.push o, others, compiled, givens⟩

/-- The store in which an object is changed. -/
def withChangedObject : Store → (address : Nat) → (StoredObject → StoredObject) → Store
  | ⟨lists, objects, others, compiled, givens⟩, address, change =>
    ⟨lists, objects.modify address change, others, compiled, givens⟩

/-- The store in which a value has other attributes. -/
def withAttributes (s : Store) (v : Value) (attributes : Attributes) : Store :=
  match v with
  | .object address => s.withChangedObject address fun o => { o with attributes := attributes }
  | v =>
    let mark := v.functionMark
    let rest := (s.others.getD mark []).filter fun e => !e.1.identical v
    { s with others := s.others.insert mark ((v, attributes) :: rest) }

/-- The store in which a list has one more item, at its end. -/
def withItem : Store → (address : Nat) → Value → Store
  | ⟨lists, objects, others, compiled, givens⟩, address, v =>
    ⟨lists.modify address (·.push v), objects, others, compiled, givens⟩

/-- The function that a lambda was compiled to when it was first called itself. -/
def compiled? (s : Store) (mark : Nat) : Option Value := s.compiled[mark]?

/-- The store that knows the function of a lambda; the first one stays. -/
def withCompiled (s : Store) (mark : Nat) (f : Value) : Store :=
  { s with compiled := s.compiled.insertIfNew mark f }

theorem items_withItem {s : Store} {address : Nat} (h : address < s.lists.size) (v : Value) :
    (s.withItem address v).items address = s.items address ++ [v] := by
  simp [items, list, withItem, Array.getD, Array.getElem_modify, h]

theorem items_withItem_of_ne {s : Store} {address other : Nat} (h : other ≠ address) (v : Value) :
    (s.withItem other v).items address = s.items address := by
  simp [items, list, withItem, Array.getD_eq_getD_getElem?, Array.getElem?_modify, h]

theorem object_withAttributes {s : Store} {address : Nat} (h : address < s.objects.size)
    (attributes : Attributes) :
    ((s.withAttributes (.object address) attributes).object address).attributes = attributes := by
  simp [object, withAttributes, withChangedObject, Array.getD, Array.getElem_modify, h]

/-! ### Types -/

/-- The type of a value. -/
def typeOf (s : Store) : Value → StaticType
  | .object address => (s.object address).type
  | v => v.fixedType

/-- A type and all that it extends, in the order in which attributes are looked for. -/
def lineage (s : Store) (t : StaticType) : List StaticType :=
  match t with
  | .made serial _ => t :: s.givens.extended.getD serial []
  | .object => [t]
  | .bool => [t, .int, .object]
  | .abstractClass | .enumeration => [t, .metatype, .object]
  | t => [t, .object]

/-- An attribute that a caller gave to a type, or to one that it extends. -/
def typeAttribute? (s : Store) (t : StaticType) (name : String) : Option Value :=
  match t with
  | .made .. => (s.lineage t).findSome? fun u => s.attribute? (.type u) name
  | t => s.attribute? (.type t) name

/-- The store with a new type, which extends others. -/
def withType (s : Store) (extended : List StaticType) : Store :=
  { s with givens := { s.givens with extended := s.givens.extended.push extended } }

/-- The place at which a store keeps a label that stands for a type, if it does. -/
def label? (s : Store) (v : Value) : Option Nat :=
  s.givens.labels.findIdx? (·.identical v)

/-- The store that keeps one more label that stands for a type. -/
def withLabel (s : Store) (v : Value) : Store :=
  { s with givens := { s.givens with labels := s.givens.labels.push v } }

/-- A type as a value. -/
def typeValue (s : Store) : StaticType → Value
  | .labelled place => s.givens.labels.getD place .absent
  | t => .type t

/-! ### Names -/

/-- The name of a parameter as a value. -/
def parameterName (s : Store) (p : Parameter) : Value :=
  (s.givens.names[p.uid]?).getD (.str p.nameMark p.name)

/-- The store in which a parameter has a name that is no text. -/
def withParameterName (s : Store) (uid : Nat) (name : Value) : Store :=
  { s with givens := { s.givens with names := s.givens.names.insert uid name } }

/-- An attribute of a value that is a text. -/
def textAttribute? (s : Store) (v : Value) (name : String) : Option String :=
  match s.attribute? v name with
  | some (.str _ t) => some t
  | _ => none

/-- The names that types go by: those they were given, or those of their definition. -/
def typeNames (s : Store) : TypeNaming := fun t =>
  let names := t.names
  match s.attributes (.type t) with
  | [] => names
  | given =>
    let text? (name : String) : Option String := s.textAttribute? (.type t) name
    let home? := if (given.lookup "__module__").isSome then text? "__module__" else names.home?
    ⟨(text? "__name__").getD names.name, (text? "__qualname__").getD names.qualifiedName, home?⟩

end Store

/-- A question about values in a store, which may fail. -/
abbrev Query := ReaderT Store (Except Fault)

namespace Query

variable {α : Type}

/-- Fails with a failure of an operation on values. -/
def fail (f : Failure) : Query α := throw (.failure f)

/-- The items of a list. -/
def items (address : Nat) : Query (List Value) := fun s => .ok (s.items address)

/-- The length of a list. -/
def listLength (address : Nat) : Query Nat := fun s => .ok (s.list address).size

/-- What an object holds. -/
def object (address : Nat) : Query StoredObject := fun s => .ok (s.object address)

/-- The names that types go by. -/
def typeNames : Query TypeNaming := fun s => .ok s.typeNames

/-- How deep things that hold one another are followed. -/
def nesting : Nat := 1000

@[simp] theorem run_fail (f : Failure) (s : Store) :
    (fail f : Query α).run s = .error (.failure f) := rfl

end Query

end PredicateTree
