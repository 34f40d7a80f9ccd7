import PredicateTree.Value.Operation
import PredicateTree.Value.TextCall
import PredicateTree.Folding.Trace
import PredicateTree.Sorting.Precedence

/-!
# Calls of types

A type that is called converts its argument, or makes a new value (`StaticType.call`).  An
enumeration finds one of its members, and a type of nodes makes a node.
-/

namespace PredicateTree

namespace StaticType

/-- Fails with too many arguments unless there is at most one. -/
def atMostOne (t : StaticType) (args : List Value) : Except Fault Unit :=
  if args.length ≤ 1 then .ok ()
  else .error (.failure (.arguments (.expectedAtMost t.name 1 args.length)))

/-- Reads an integer of a base from a text; of base zero, one that may name its base. -/
def intOfText (base : Int) (s : String) : Except Fault Int :=
  match Number.readInt base.toNat s with
  | .ok i => .ok i
  | .error .notAnInteger => .error (.failure (.notAnInt base (Text.quoted s)))
  | .error (.tooLong n) => .error (.failure (.tooManyDigits (some n)))

/-- Converts to an integer; an integer is one already. -/
def toInt (args : List Value) : Action Value := do
  match args with
  | [] => return .ofInt 0
  | [.int mark i] => return .int mark i
  | [.str _ s] => Action.newInt (← intOfText 10 s)
  | [v] =>
    match v.numeral? with
    | some (.int i) => return .ofInt i
    | some (.float x) =>
      if x.isNaN then Action.fail .notANumberToInt
      else if x.isInf then Action.fail .infinityToInt
      else Action.newInt (Number.truncate x)
    | none =>
      match ← v.integer? with
      | some i => Action.newInt i
      | none => Action.fail (.notAnIntArgument (← Action.typeOf v))
  | [v, base] =>
    let b ← base.index
    if b ≠ 0 ∧ (b < 2 ∨ 36 < b) then Action.fail .baseOutOfRange
    else match v with
      | .str _ s => Action.newInt (← intOfText b s)
      | _ => Action.fail .baseOfNonText
  | _ => Action.fail (.arguments (.atMost "int" 2 args.length))

/-- Reads a floating-point number from a text. -/
def floatOfText (s : String) : Except Fault Float :=
  match Number.readFloat s with
  | some (.number x) => .ok x
  | some .notANumber => .ok Numeral.nan
  | none => .error (.failure (.notAFloat (Text.quoted s)))

/-- Converts to a floating-point number; one that is a floating-point number is so already. -/
def toFloat (args : List Value) : Action Value := do
  atMostOne .float args
  match args with
  | [] => Action.newFloat 0.0
  | .str _ s :: _ => Action.newFloat (← floatOfText s)
  | .float mark x :: _ => return .float mark x
  | v :: _ =>
    match v.numeral? with
    | some n => computed (n.toFloat.map .float)
    | none =>
      match ← v.real? with
      | some x => Action.newFloat x
      | none => Action.fail (.notAFloatArgument (← Action.typeOf v))

/-- Checks an argument that names an encoding, or what to do about errors. -/
def requireName (argument : String) (v : Value) : Action Unit := do
  match v with
  | .str _ s => if s.contains '\x00' then Action.fail .embeddedNull
  | v => Action.fail (.argumentNamed "str" argument "str" (← Action.typeOf v))

/-- Converts to text; a text is one already.  Nothing can be decoded: there are no values that hold
bytes. -/
def toText (args : List Value) : Action Value := do
  match args with
  | [] => return .ofText ""
  | [v] => v.plainText
  | v :: encoding :: rest =>
    match rest with
    | _ :: _ :: _ => Action.fail (.arguments (.atMost "str" 3 args.length))
    | rest =>
      requireName "encoding" encoding
      rest.forM (requireName "errors")
      Action.fail (.textDecoding (← Action.typeOf v))

/-- The items of a value that has some, or of none. -/
def optionalItems (args : List Value) : Action (List Value) :=
  match args with
  | [] => pure []
  | v :: _ => v.gathered

/-- Converts to a tuple; a tuple is one already. -/
def toTuple (args : List Value) : Action Value := do
  match args with
  | .tuple mark items :: _ => return .tuple mark items
  | args => Action.newTuple (← optionalItems args)

/-- The key and the value of a pair, the `i`-th of several. -/
def pairOf (i : Nat) (v : Value) : Action (Value × Value) := do
  match ← (← v.supplyOr (.pairExpected i)).gathered with
  | [k, w] => return (k, w)
  | items => Action.fail (.pairLength i items.length)

/-- The entries of several items, each of which gives its entry. -/
def entriesOf (entry : Nat → Value → Action (Value × Value)) (supply : Supply) :
    Action (List (Value × Value)) := do
  let t ← supply.fold (fun i t v => do t.insertHashable (← entry i v)) ({} : IndexedEntries)
  return t.entries.toList

/-- The items of what an object gives as its keys; that it has none is told of the object. -/
def keysGiven (v given : Value) : Action (List Value) := do
  let lack := Failure.keysNotIterable (← Action.typeOf v) (← Action.typeOf given)
  (← given.supplyOr lack).gathered

/-- The entries of a dictionary that is made of a dictionary, of a value that has a method for its
keys, or of pairs. -/
def dictEntries (v : Value) : Action (List (Value × Value)) := do
  match v, v.entries? with
  | _, some entries => return entries
  | .type .dict, _ => Action.fail (.unboundMethod "dict.keys")
  | .type .mapping, _ => Action.fail (.unboundMethod "mappingproxy.keys")
  | v, none =>
    match ← v.readAttribute? "keys" with
    | some _ =>
      let keys ← keysGiven v (← Action.call (← v.readAttribute "keys") [])
      entriesOf (fun _ k => do return (k, ← v.item k)) (.ready keys)
    | none => entriesOf pairOf (← v.supply)

/-- A new dictionary of at most one value. -/
def toDict (args : List Value) : Action Value := do
  atMostOne .dict args
  match args with
  | [] => Action.newDict []
  | v :: _ => Action.newDict (← dictEntries v)

/-- A read-only view of a container. -/
def toMapping (args : List Value) : Action Value := do
  match args with
  | [.dict _ entries] => return .mapping (← Action.freshMark) entries
  | [.mapping _ entries] => return .mapping (← Action.freshMark) entries
  | [v] => Action.fail (.notAMapping (← Action.typeOf v))
  | [] => Action.fail (.arguments (.missingAt "mappingproxy" "mapping" 1))
  | _ => Action.fail (.arguments (.atMost "mappingproxy" 1 args.length))

/-- The member of an enumeration that a value names. -/
def toMember (t : StaticType) (args : List Value) : Action Value := do
  let member (v : Value) : Action Value := do
    match t with
    | .binaryOp => return .binaryOp (← Builder.binaryOp v)
    | .unaryOp => return .unaryOp (← Builder.unaryOp v)
    | _ => return .nodeKind (← Builder.nodeKind v)
  match args with
  | [] => Action.fail (.arguments (.missing "EnumType.__call__" ["value"]))
  | [v] => member v
  | [v, .absent] => member v
  | [v, _] => Action.fail (.enumerationExtended (← v.shown) t)
  | _ => Action.fail (.arguments (.tooManyBetween "EnumType.__call__" 2 3 (args.length + 1)))

/-- Fails with a wrong number of arguments unless all required ones are there, and at most as many
optional ones.  The new value itself counts as the first argument. -/
def initialises (t : StaticType) (required : List String) (optional : Nat) (args : List Value) :
    Except Fault Unit :=
  checkArguments (t.name ++ ".__init__") ("self" :: required) optional (args.length + 1)

/-- The static type that an optional argument gives. -/
def typeArgument? (args : List Value) (i : Nat) : Action (Option StaticType) := do
  match args[i]? with
  | some v => return some (← Builder.typeFrom v)
  | none => return none

/-- The static type that an optional argument gives, unless it is absent. -/
def presentType? (args : List Value) (i : Nat) : Action (Option StaticType) :=
  if (args.getD i .absent).isAbsent then pure none else typeArgument? args i

/-- The mark and the items of the tuple that holds the items of a value; a tuple is kept. -/
def toRow (args : List Value) : Action (Nat × List Value) := do
  match args with
  | .tuple mark items :: _ => return (mark, items)
  | args =>
    let items ← optionalItems args
    return (← Action.freshMark, items)

/-- A new node of a kind. -/
def toNode (k : NodeKind) (args : List Value) : Action Node := do
  let given (i : Nat) : Value := args.getD i .absent
  let check (required : List String) (optional : Nat) : Except Fault Unit :=
    initialises (.node k) required optional args
  match k with
  | .literal =>
    check ["value"] 1
    Builder.literal (given 0) (← presentType? args 1)
  | .parameter =>
    check ["name"] 1
    return .parameter (← Builder.parameter (given 0) (← typeArgument? args 1))
  | .member =>
    check ["expression", "member"] 2
    Builder.member (given 0) (given 1) (← typeArgument? args 2) (given 3)
  | .unary =>
    check ["op", "operand"] 1
    Builder.unary (← Builder.unaryOp (given 0)) (given 1) (← presentType? args 2)
  | .binary =>
    check ["op", "left", "right"] 1
    Builder.binary (← Builder.binaryOp (given 0)) (given 1) (given 2) (← presentType? args 3)
  | .conditional =>
    check ["test", "if_true", "if_false"] 1
    Builder.conditional (given 0) (given 1) (given 2) (← presentType? args 3)
  | .call =>
    check ["function"] 2
    let (row, items) ← toRow (args.drop 1)
    Builder.callOn (given 0) row items (← typeArgument? args 2)
  | .lambda =>
    check ["parameters", "body"] 0
    let (row, items) ← toRow args
    Builder.lambdaOver row items (given 1)

/-- A value that must be a text, as the argument at a position. -/
def requireText (function : String) (position : Nat) (v : Value) : Action String := do
  match v with
  | .str _ s => return s
  | v => Action.fail (.argumentAt function position "str" (← Action.typeOf v))

/-- The entries of a dictionary that have a text for a key, as attributes. -/
def attributesOf (entries : List (Value × Value)) : Attributes :=
  entries.filterMap fun (k, v) =>
    match k with
    | .str _ s => some (s, v)
    | _ => none

/-- Fails for a name that no type can have. -/
def requireTypeName (name : String) : Except Fault Unit :=
  if name.contains '\x00' then .error (.failure .typeNameWithNull) else .ok ()

/-- The type of a caller that goes by a name. -/
def ofCaller (name : String) : Except Fault StaticType := do
  let type := custom name
  requireTypeName type.name
  return type

/-- Whether no type can extend a type. -/
def isFinal : StaticType → Bool
  | .absent | .bool | .mapping | .function | .builtin | .method | .union => true
  | _ => false

/-- The types among values.  All of them must be types. -/
def allTypes : List Value → Action (List StaticType)
  | [] => return []
  | .type t :: vs => do return t :: (← allTypes vs)
  | _ :: _ => Action.fail .basesOfTwoKinds

/-- The built-in type that decides how the objects of a type keep what they hold, if one does. -/
def keeping? (s : Store) (t : StaticType) : Option StaticType :=
  (s.lineage t).findSome? fun u =>
    match u with
    | .int | .float | .str | .list | .tuple | .dict | .module | .metatype | .node _ => some u
    | _ => none

/-- Fails for types that no type can extend, or not together.  `kept` is the type that decides for
those before. -/
def requireBases (kept : Option StaticType) : List StaticType → Action Unit
  | [] => return
  | t :: ts => do
    if t.isFinal then Action.fail (.notABase t)
    else
      match kept, keeping? (← Action.store) t with
      | some u, some v => if u = v then requireBases kept ts else Action.fail .basesKeptApart
      | u, v => requireBases (u.or v) ts

/-- What a type extends that extends several types: those themselves, and what these extend. -/
def extendedBy (bases : List StaticType) : Action (List StaticType) := do
  match bases.find? fun t => bases.count t > 1 with
  | some t => Action.fail (.baseTwice t)
  | none =>
    match Precedence.merge (bases.map (← Action.store).lineage ++ [bases]) with
    | .ok extended => return extended
    | .error waiting => Action.fail (.basesWithoutOrder waiting)

/-- The attributes of a new type.  Where its objects have an equality of their own and no hash, no
hash is inherited; a function that answers for items of the type itself is bound to the type. -/
def classAttributes (type : Value) (attributes : Attributes) : Attributes :=
  let bound := attributes.map fun (name, v) =>
    if name = "__class_getitem__" ∧ v.bindsToObjects then (name, .bound 0 type v) else (name, v)
  if (bound.lookup "__eq__").isSome && (bound.lookup "__hash__").isNone then
    bound ++ [("__hash__", .absent)]
  else bound

/-- Enumerations are made by definition only: a dictionary says nothing of the order in which its
members were defined. -/
def toEnumeration (args : List Value) : Action Value := do
  checkArguments "EnumType.__new__" ["metacls", "cls", "bases", "classdict"] 0 (args.length + 1)
  match args.getD 2 .absent with
  | .dict .. => Action.fail (.missingAttribute (.instanceOf .dict) "_member_names")
  | v => Action.fail (v.lacks (← Action.store) "setdefault")

/-- A new type with a name and attributes, which extends others: a plain one, which extends what
every object is, if there are none.  An enumeration is extended by enumerations only. -/
def newType (name bases attributes : Value) : Action Value := do
  let function := "type.__new__"
  let text ← requireText function 1 name
  match bases, attributes with
  | .tuple _ items, .dict _ entries =>
    let types ← allTypes items
    if types.any (·.kindOf = .enumeration) then
      if types.any (·.kindOf = .abstractClass) then Action.fail .basesOfTwoKinds
      else toEnumeration [name, bases, attributes]
    else
      requireBases none types
      requireTypeName text
      let attributes := attributesOf entries
      match attributes.lookup "__qualname__" with
      | none | some (.str ..) =>
        let extended ← extendedBy (if types.isEmpty then [.object] else types)
        let type := Value.type (.made (← Action.store).givens.extended.size text)
        Action.updateStore fun s =>
          (s.withType extended).withAttributes type (classAttributes type attributes)
        return type
      | some w => Action.fail (.qualifiedNameNotText (← Action.typeOf w))
  | .tuple .., v => Action.fail (.argumentAt function 3 "dict" (← Action.typeOf v))
  | v, _ => Action.fail (.argumentAt function 2 "tuple" (← Action.typeOf v))

/-- A new abstract type of a caller. -/
def toAbstractClass (args : List Value) : Action Value := do
  checkArguments "ABCMeta.__new__" ["mcls", "name", "bases", "namespace"] 0 (args.length + 1)
  newType (args.getD 0 .absent) (args.getD 1 .absent) (args.getD 2 .absent)

/-- Functions are made by definition only: no value is the code of one. -/
def toFunction (args : List Value) : Action Value :=
  match args with
  | [] => Action.fail (.arguments (.missingAt "function" "code" 1))
  | [_] => Action.fail (.arguments (.missingAt "function" "globals" 2))
  | code :: _ => do
    if args.length ≤ 5 then
      Action.fail (.argumentNamed "function" "code" "code" (← Action.typeOf code))
    else Action.fail (.arguments (.atMost "function" 5 args.length))

/-- A function bound to an object. -/
def toBound (args : List Value) : Action Value := do
  match args with
  | [f, v] =>
    if !f.isCallable (← Action.store) then Action.fail .boundNotCallable
    else if v.isAbsent then Action.fail .boundToNothing
    else return .bound (← Action.freshMark) v f
  | _ => Action.fail (.arguments (.expectedExactly "method" 2 args.length))

/-- A new module, which holds nothing but its name. -/
def toModule (args : List Value) : Action Value := do
  match args with
  | [] => Action.fail (.arguments (.missingAt "module" "name" 1))
  | [.str mark s] | [.str mark s, _] =>
    Action.newObject .module [("__name__", .str mark s), ("__doc__", args.getD 1 .absent)]
  | [v] | [v, _] => Action.fail (.argumentNamed "module" "name" "str" (← Action.typeOf v))
  | _ => Action.fail (.arguments (.atMost "module" 2 args.length))

/-- A new object of a type of a caller.  The type may say how its objects are made and prepared. -/
def toObject (t : StaticType) (args : List Value) : Action Value := do
  let s ← Action.store
  let prepares := (s.typeAttribute? t "__init__").isSome
  let made ← match s.typeAttribute? t "__new__" with
    | some f => Action.call f (.type t :: args)
    | none =>
      if args.isEmpty || prepares then Action.newObject t []
      else Action.fail (.arguments (.takesNone t))
  let s ← Action.store
  if made.isObject && s.extends (s.typeOf made) t then
    match ← made.askSpecial "__init__" args with
    | none | some .absent => return made
    | some w => Action.fail (.initGave (← Action.typeOf w))
  else return made

/-- Calls a type: converts an argument to it, or makes a new value. -/
def call (t : StaticType) (args : List Value) : Action Value := do
  let noArguments (made : Action Value) : Action Value :=
    if args.isEmpty then made else Action.fail (.arguments (.takesNone t))
  match t with
  | .int => toInt args
  | .float => toFloat args
  | .str => toText args
  | .bool =>
    atMostOne .bool args
    match args with
    | [] => return .bool false
    | v :: _ => return .bool (← v.truth)
  | .list =>
    atMostOne .list args
    Action.newList (← optionalItems args)
  | .tuple =>
    atMostOne .tuple args
    toTuple args
  | .dict => toDict args
  | .mapping => toMapping args
  | .absent => noArguments (pure .absent)
  | .object | .custom _ | .made .. | .ambiguous | .eqAmbiguous => toObject t args
  | .unknownNode => noArguments do return .node (.unknown (← Action.freshMark) "weird")
  | .callable => noArguments (Action.fail (.abstractType t))
  | .binaryOp | .unaryOp | .nodeKind => toMember t args
  | .node k => return .node (← toNode k args)
  | .foldStep =>
    initialises t ["before", "after"] 0 args
    newFoldStep (args.headD .absent) (args.getLastD .absent)
  | .foldTrace =>
    initialises t [] 0 args
    ({} : FoldTrace).toValue
  | .metatype =>
    match args with
    | [v] => return .type (← Action.typeOf v)
    | [name, bases, attributes] => newType name bases attributes
    | _ => Action.fail .typeArguments
  | .abstractClass => toAbstractClass args
  | .enumeration => toEnumeration args
  | .function => toFunction args
  | .method => toBound args
  | .module => toModule args
  | .builtin | .union | .labelled _ => Action.fail (.notCreated t)

end StaticType

end PredicateTree
