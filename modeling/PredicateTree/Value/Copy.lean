import PredicateTree.Value.Container
import Std.Data.TreeMap

/-!
# Copies of values

Which copies of a value are the value itself (`Value.copyIsSame`, `Value.deepCopyIsSame`).  What can
change is copied to a new thing, and what cannot change need not be copied.  An object may decide
for itself: a function of its class says what its copy is, and an attribute of its own says what its
deep copy is.
-/

namespace PredicateTree

/-- What tells a thing apart that a deep copy copies: its address among lists or among objects, or
else its mark. -/
def Value.copyKey : Value → Nat
  | .list address => 3 * address
  | .object address => 3 * address + 1
  | .tuple mark _ | .dict mark _ => 3 * mark + 2
  | _ => 2

/-- The state of a deep copy: the keys of the things of which a copy has been made, or is being
made. -/
abbrev Copying := StateT (Std.TreeMap Nat Unit) Action

/-- Whether a copy of a thing has been made, or is being made. -/
def isCopied (v : Value) : Copying Bool := return (← get).contains v.copyKey

/-- Copies a thing that is not the same as its copy, unless that has been done. -/
def copyOnce (v : Value) (copy : Copying Unit) : Copying Unit := do
  if ← isCopied v then return ()
  else
    modify (·.insert v.copyKey ())
    copy

mutual

/-- Whether a deep copy of a value is the value itself.  A copy of what can change is another thing,
and so is that of a tuple which holds such a thing.  What stands in the store is copied by
`inside`. -/
def Value.deepCopyBy (inside : Value → Copying Bool) : Value → Copying Bool
  | .list address => inside (.list address)
  | .object address => inside (.object address)
  | .tuple mark items => do
    if ← isCopied (.tuple mark items) then return false
    else if ← allDeepCopiesBy inside items then return true
    else
      copyOnce (.tuple mark items) (return ())
      return false
  | .dict mark entries => do
    copyOnce (.dict mark entries) (copyEntries inside entries)
    return false
  | .bound _ receiver _ => do
    let _ ← receiver.deepCopyBy inside
    return false
  | .union .. => return false
  | .mapping .. => Action.fail (.notCopied .mapping)
  | .mathematics => Action.fail (.notCopied .module)
  | _ => return true
termination_by structural v => v

/-- Whether the deep copies of several values are the values themselves. -/
def allDeepCopiesBy (inside : Value → Copying Bool) : List Value → Copying Bool
  | [] => return true
  | v :: vs => do
    let same ← v.deepCopyBy inside
    return same && (← allDeepCopiesBy inside vs)
termination_by structural vs => vs

/-- Copies the entries of a dictionary. -/
def copyEntries (inside : Value → Copying Bool) : List (Value × Value) → Copying Unit
  | [] => return ()
  | (k, v) :: rest => do
    let _ ← v.deepCopyBy inside
    let _ ← k.deepCopyBy inside
    copyEntries inside rest
termination_by structural es => es

end

/-- Copies the attributes of an object. -/
def copyAttributes (inside : Value → Copying Bool) : Attributes → Copying Unit
  | [] => return ()
  | (_, v) :: rest => do
    let _ ← v.deepCopyBy inside
    copyAttributes inside rest

/-- Copies the items of a list but the first ones.  What is called for an item may add others, so
the list is looked at again until nothing new has come. -/
def copyItems (inside : Value → Copying Bool) (address : Nat) :
    (rounds done : Nat) → Copying Unit
  | 0, _ => (Action.exhausted : Action Unit)
  | rounds + 1, done => do
    match ((← Action.store).items address).drop done with
    | [] => return ()
    | items =>
      let _ ← allDeepCopiesBy inside items
      copyItems inside address rounds (done + items.length)

/-- Gives the copy of an object its attributes, in the way that its class has for it. -/
def setState (o : StoredObject) : Action Unit := do
  if !o.attributes.isEmpty then
    let s ← Action.store
    let knows (name : String) : Bool := (s.typeAttribute? o.type name).isSome
    if ["__setstate__", "__getattr__", "__getattribute__"].any knows then
      let copy ← Action.newObject o.type []
      match ← copy.readAttribute? "__setstate__" with
      | some _ =>
        let state ← Action.newDict (o.attributes.map fun (name, v) => (.ofText name, v))
        let _ ← Action.call (← copy.readAttribute "__setstate__") [state]
      | none => return ()

/-- Whether the deep copy of an object is the object itself: what the object answers that has an
answer, to a dictionary of the copies so far, and a new object in place of any other. -/
def copyObject (inside : Value → Copying Bool) (address : Nat) : Copying Bool := do
  let v := Value.object address
  match (← v.readAttribute? "__deepcopy__").getD .absent with
  | .absent =>
    let o := (← Action.store).object address
    if o.type = .module then Action.fail (.notCopied o.type)
    else
      copyOnce v (copyAttributes inside o.attributes)
      setState o
      return false
  | f =>
    let copy ← Action.call f [← Action.newDict []]
    if copy.identical v then return true
    else
      copyOnce v (return ())
      return false

/-- Whether the deep copy of what stands in the store is the thing itself; so many things are
followed into one another. -/
def deepCopyWithin : Nat → Value → Copying Bool
  | 0, _ => (Action.fail (.nestedTooDeep "while calling a Python object") : Action Bool)
  | fuel + 1, v => do
    if ← isCopied v then return false
    else
      match v with
      | .object address => copyObject (deepCopyWithin fuel) address
      | .list address =>
        copyOnce (.list address) (copyItems (deepCopyWithin fuel) address Action.rounds 0)
        return false
      | _ => return true

namespace Value

/-- Whether a deep copy of a value is the value itself. -/
def deepCopyIsSame (v : Value) : Action Bool :=
  (v.deepCopyBy (deepCopyWithin Query.nesting)).run' {}

/-- Whether a shallow copy of a value is the value itself.  A bound function is copied by its name,
under which it must be found on its object. -/
def copyIsSame (v : Value) : Action Bool := do
  let s ← Action.store
  match v with
  | .mapping .. | .mathematics => Action.fail (.notCopied v.fixedType)
  | .list _ | .dict .. | .union .. => return false
  | .object address =>
    let o := s.object address
    match (s.typeAttribute? o.type "__copy__").getD .absent with
    | .absent =>
      if o.type = .module then Action.fail (.notCopied o.type)
      else
        setState o
        return false
    | f => return (← Action.call f [v]).identical v
  | .bound _ receiver f =>
    return (← receiver.attributeNamed (← f.readAttribute "__name__")).identical v
  | _ => return true

end Value

end PredicateTree
