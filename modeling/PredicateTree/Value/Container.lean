import PredicateTree.Value.Entries
import PredicateTree.Value.Order
import PredicateTree.Text.Search

/-!
# Containers

Membership (`Value.isIn`), what a value holds at an index or under a key (`Value.item`), and members
by name (`Value.member`).
-/

namespace PredicateTree

/-- Whether one of a list of values is the same as a value or equal to it. -/
def Value.memberOf (v : Value) : List Value → Action Bool
  | [] => pure false
  | w :: ws => do if ← w.same v then return true else v.memberOf ws

namespace Supply

/-- Whether a supply, after so many items, gives a value that is the same as a value or equal to
it. -/
def givesAfter (supply : Supply) (v : Value) : (rounds given : Nat) → Action Bool
  | 0, _ => Action.exhausted
  | rounds + 1, given => do
    match ← supply.after given with
    | [] => return false
    | items =>
      if ← v.memberOf items then return true
      else supply.givesAfter v rounds (given + items.length)

/-- Whether a supply gives a value that is the same as a value or equal to it. -/
def gives (supply : Supply) (v : Value) : Action Bool := supply.givesAfter v Action.rounds 0

end Supply

namespace Value

/-- Whether an object, or what else gives items, contains a value. -/
def containsAsked (container item : Value) : Action Bool := do
  let s ← Action.store
  let t := s.typeOf container
  match container.special? s "__contains__" with
  | some .absent => Action.fail (.refusesMembers t)
  | some f => (← Action.call f [item]).truth
  | none => (← container.supplyOr (.notContainer t)).gives item

/-- Whether a value is in a container. -/
def isIn (item container : Value) : Action Bool := do
  match container with
  | .str _ s =>
    match item with
    | .str _ t => return Text.occursIn t s
    | _ => Action.fail (.textMembership (← Action.typeOf item))
  | .list address => (Supply.listed address).gives item
  | .tuple _ items => item.memberOf items
  | .dict _ entries | .mapping _ entries =>
    item.requireHashable
    return (← Entries.find? item entries).isSome
  | .type t =>
    match enumerationMembers? t with
    | none => Action.fail (.notContainer container.fixedType)
    | some members =>
      if item.enumerationMember?.isSome then return members.any item.identical
      else Action.fail (.notAnEnumerationMember (← Action.typeOf item))
  | container => container.containsAsked item

/-! ### Items -/

/-- The entries of a dictionary, read-only or not. -/
def entries? : Value → Option (List (Value × Value))
  | .dict _ entries | .mapping _ entries => some entries
  | _ => none

/-- The place that an index means, where negative indices count from the end. -/
def placeOf (sequence : StaticType) (length : Nat) (i : Int) : Except Fault Nat :=
  if !Number.fitsWord i then .error (.failure .indexTooLarge)
  else
    let j := if i < 0 then i + length else i
    if 0 ≤ j ∧ j < length then .ok j.toNat else .error (.failure (.indexOutOfRange sequence))

/-- The item of a text, a list or a tuple at a place.  A character is a text that was cut out. -/
def itemAt (v : Value) (place : Nat) : Action Value := do
  match v with
  | .str _ text => Action.textPiece (((Text.charAt? text place).map String.singleton).getD "")
  | .list address => return (((← Action.store).list address).get? place).getD .absent
  | .tuple _ items => return items.getD place .absent
  | _ => return .absent

/-- The item of a type: the member of an enumeration with a label, or what a class of a caller
answers. -/
def typeItem (t : StaticType) (key : Value) : Action Value := do
  if (enumerationMembers? t).isSome then
    key.requireHashable
    let member? := match key with
      | .str _ label => enumerationMember t label
      | _ => none
    match member? with
    | some w => return w
    | none => Action.fail (.missingKey (← key.shown))
  else
    match (← Action.store).typeAttribute? t "__class_getitem__" with
    | some f => Action.call f [key]
    | none => Action.fail (if t = .callable then .callableForm else .typeNotSubscriptable t)

/-- The item of a value at an index, under a key, or, in an enumeration, with a label. -/
def item (v key : Value) : Action Value := do
  match v with
  | .str .. | .list _ | .tuple .. =>
    match ← key.index? with
    | some i =>
      let place ← placeOf v.fixedType ((← v.fixedLength?).getD 0) i
      v.itemAt place
    | none => Action.fail (.notAnItemIndex v.fixedType (← Action.typeOf key))
  | .dict _ entries | .mapping _ entries =>
    key.requireHashable
    match ← Entries.find? key entries with
    | some w => return w
    | none => Action.fail (.missingKey (← key.shown))
  | .type t => typeItem t key
  | .union .. => Action.fail (.notGeneric (← v.shown))
  | v =>
    match ← v.askSpecial "__getitem__" [key] with
    | some w => return w
    | none => Action.fail (.notSubscriptable (← Action.typeOf v))

/-- The attribute of a value under a name, which must be a text. -/
def attributeNamed (v name : Value) : Action Value := do
  match name with
  | .str _ name => v.readAttribute name
  | name => Action.fail (.attributeNameNotText (← Action.typeOf name))

/-- The member of a value under a name: the item of a dictionary, and the attribute of any other
value. -/
def member (v name : Value) : Action Value :=
  if v.entries?.isSome then v.item name else v.attributeNamed name

end Value

end PredicateTree
