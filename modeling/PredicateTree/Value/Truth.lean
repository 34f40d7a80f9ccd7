import PredicateTree.Value.Contents
import PredicateTree.Value.Number
import PredicateTree.Number.Bitwise

/-!
# Truth and length of values

The length of a value that has items (`Value.length`), the truth of any value (`Value.truth`), and
all items of a value at once (`Value.gathered`).  The class of an object may say what they are.
-/

namespace PredicateTree

namespace Value

/-- The length that a value gave for its own. -/
def lengthGiven (v : Value) : Action Nat := do
  let i ← v.index
  if i < 0 then Action.fail .negativeLength
  else if Number.fitsWord i then return i.toNat
  else Action.fail .countTooLarge

/-- The length of a value that is no object, if it has one. -/
def fixedLength? (v : Value) : Action (Option Nat) := do
  match v with
  | .str _ s => return some s.length
  | .list address => return some (← Query.listLength address)
  | .tuple _ items => return some items.length
  | .dict _ entries | .mapping _ entries => return some entries.length
  | .type t => return (enumerationMembers? t).map (·.length)
  | _ => return none

/-- The length of a value that has one; a trace has that of its steps.  So many traces are opened. -/
def lengthWithin : Nat → Value → Action Nat
  | 0, _ => Action.fail (.nestedTooDeep "while calling a Python object")
  | fuel + 1, v => do
    match ← v.askSpecial "__len__" [] with
    | some w => w.lengthGiven
    | none =>
      let t ← Action.typeOf v
      if t = .foldTrace then lengthWithin fuel (← v.readAttribute "steps")
      else
        match ← v.fixedLength? with
        | some n => return n
        | none => Action.fail (.notSized t)

/-- The length of a value that has one. -/
def length (v : Value) : Action Nat := lengthWithin Query.nesting v

/-- Whether a value has a length. -/
def isSized (v : Value) : Action Bool := do
  let s ← Action.store
  if (v.special? s "__len__").isSome || s.typeOf v = .foldTrace then return true
  else return (← v.fixedLength?).isSome

/-- The truth of an object: what its class says of it, or whether it is empty, if it has a length. -/
def objectTruth (v : Value) : Action Bool := do
  match ← v.askSpecial "__bool__" [], ← Action.typeOf v with
  | some (.bool b), _ => return b
  | some w, _ => Action.fail (.truthNotBool (← Action.typeOf w))
  | none, .ambiguous => Action.fail .ambiguousTruth
  | none, _ =>
    if ← v.isSized then return (← v.length) != 0 else return true

/-- The truth value of a value. -/
def truth (v : Value) : Action Bool := do
  match v with
  | .absent => return false
  | .bool b => return b
  | .int _ i => return i != 0
  | .float _ x => return x != 0.0
  | .str _ s => return !s.isEmpty
  | .list address => return (← Query.listLength address) != 0
  | .tuple _ items => return !items.isEmpty
  | .dict _ entries | .mapping _ entries => return !entries.isEmpty
  | .object address => objectTruth (.object address)
  | _ => return true

/-! ### Gathering items

Where all items of an object are gathered, the object is asked first how many they may be.  The
answer decides nothing, unless it is no number of items. -/

/-- What an action finds: nothing where it fails by the type of something. -/
def unlessMistyped {α : Type} (x : Action (Option α)) : Action (Option α) :=
  Action.handle x fun fault =>
    if fault.errorClass.isSubclass .type then pure none else Action.raise fault

/-- The length of a value that has one. -/
def sizedLength? (v : Value) : Action (Option Nat) := do
  if ← v.isSized then unlessMistyped do return some (← v.length) else return none

/-- Asks an object how many items it has. -/
def askSize (v : Value) : Action Unit := do
  match ← v.sizedLength? with
  | some n => requireRoom n
  | none =>
    match ← unlessMistyped (v.askSpecial "__length_hint__" []) with
    | none => return ()
    | some w =>
      match w.ownInteger? with
      | none => Action.fail (.hintNotInt (← Action.typeOf w))
      | some i =>
        if !Number.fitsWord i then Action.fail .limitTooLarge
        else if i < 0 then Action.fail .negativeHint
        else requireRoom i.toNat

/-- All items of a value, which is asked for their number. -/
def gathered (v : Value) : Action (List Value) := do
  let supply ← v.supply
  match v with
  | .object _ => v.askSize
  | _ => pure ()
  supply.all

end Value

/-- All items of a supply.  Where they come one by one, it is asked for their number. -/
def Supply.gathered (supply : Supply) : Action (List Value) := do
  match supply with
  | .asked iterator _ => iterator.askSize
  | .indexed object _ => let _ ← object.sizedLength?
  | _ => pure ()
  supply.all

end PredicateTree
