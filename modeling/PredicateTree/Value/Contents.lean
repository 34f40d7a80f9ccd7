import PredicateTree.Value.Attribute

/-!
# Contents of values

How the items of a value are gone over (`Value.supply`), and all of them in their order
(`Value.items`).  Texts and containers have items, and a trace of folding has those of its steps,
for which a caller may have put any value, another trace too.  An object has items if its class says
how they are gone over.
-/

namespace PredicateTree

/-- What gives items, one after the other. -/
inductive Supply where
  /-- The items are there. -/
  | ready (items : List Value)
  /-- The items are those of a list, which may grow meanwhile. -/
  | listed (address : Nat)
  /-- A function of an iterator gives the next item whenever it is called. -/
  | asked (iterator next : Value)
  /-- A function of an object gives the item at an index. -/
  | indexed (object item : Value)

/-- Goes over values: `step` makes a new state of the number of values before, of the state and of
the value. -/
def foldItems {σ : Type} (step : Nat → σ → Value → Action σ) (given : Nat) (state : σ) :
    List Value → Action σ
  | [] => pure state
  | v :: vs => do foldItems step (given + 1) (← step given state v) vs

namespace Supply

/-- What a supply has ready after so many items: nothing at its end. -/
def after (supply : Supply) (given : Nat) : Action (List Value) :=
  match supply with
  | .ready items => pure (items.drop given)
  | .listed address => return ((← Action.store).items address).drop given
  | .asked _ next => do return [← Action.call next []]
  | .indexed _ item =>
    Action.handle (do return [← Action.call item [← Action.newInt given]]) fun fault =>
      if fault.errorClass.isSubclass .index then pure [] else Action.raise fault

/-- Goes over the items of a supply that come after so many others. -/
def foldAfter {σ : Type} (step : Nat → σ → Value → Action σ) (supply : Supply) :
    (rounds given : Nat) → σ → Action σ
  | 0, _, _ => Action.exhausted
  | rounds + 1, given, state => do
    match ← supply.after given with
    | [] => return state
    | items =>
      let state ← foldItems step given state items
      supply.foldAfter step rounds (given + items.length) state

/-- Goes over the items of a supply: `step` makes a new state of the number of items before, of the
state and of the item. -/
def fold {σ : Type} (step : Nat → σ → Value → Action σ) (state : σ) (supply : Supply) :
    Action σ :=
  supply.foldAfter step Action.rounds 0 state

/-- What an action makes of the items of a supply, one after the other. -/
def map {α : Type} (f : Value → Action α) (supply : Supply) : Action (List α) := do
  return (← supply.fold (fun _ made v => do return (← f v) :: made) []).reverse

/-- All items of a supply. -/
def all : Supply → Action (List Value)
  | .ready items => pure items
  | supply => supply.map pure

end Supply

namespace Value

/-- What gives the items of a container that is no object; those of a dictionary are its keys, and
those of an enumeration its members.  The characters of a text are texts that were cut out of it. -/
def contents? (v : Value) : Action (Option Supply) := do
  match v with
  | .str _ s => return some (.ready (← s.toList.mapM fun c => Action.textPiece (String.singleton c)))
  | .list address => return some (.listed address)
  | .tuple _ items => return some (.ready items)
  | .dict _ entries | .mapping _ entries => return some (.ready (entries.map (·.1)))
  | .type t => return (enumerationMembers? t).map .ready
  | _ => return none

/-- What goes over the items of an object, given what its class answered to that question. -/
def supplyGiven (given : Value) : Action Supply := do
  match given.special? (← Action.store) "__next__" with
  | some f => return .asked given f
  | none => Action.fail (.notAnIterator (← Action.typeOf given))

/-- What goes over the items of a value; those of a trace are its steps.  So many traces are
opened. -/
def supplyWithin : Nat → Value → Action Supply
  | 0, _ => Action.fail (.nestedTooDeep "while calling a Python object")
  | fuel + 1, v => do
    let s ← Action.store
    let t := s.typeOf v
    match v.special? s "__iter__" with
    | some .absent => Action.fail (.notIterable t)
    | some f => supplyGiven (← Action.call f [])
    | none =>
      if t = .foldTrace then supplyWithin fuel (← v.readAttribute "steps")
      else
        match ← v.contents?, v.special? s "__getitem__" with
        | some supply, _ => return supply
        | none, some f => return .indexed v f
        | none, none => Action.fail (.notIterable t)

/-- What goes over the items of a value. -/
def supply (v : Value) : Action Supply := supplyWithin Query.nesting v

/-- What goes over the items of a value, or another failure where it has none. -/
def supplyOr (v : Value) (lack : Failure) : Action Supply :=
  Action.handle v.supply fun fault =>
    if fault.errorClass.isSubclass .type then Action.fail lack else Action.raise fault

/-- The items of a value in their order. -/
def items (v : Value) : Action (List Value) := do (← v.supply).all

end Value

end PredicateTree
