import PredicateTree.Value.TypeCall

/-!
# Functions

Calls of named functions, and of all other functions that run no code (`Value.callFunction`).
-/

namespace PredicateTree

namespace NamedFunction

/-- Fails with a wrong number of arguments unless there are as many as the named parameters. -/
def expects (f : NamedFunction) (names : List String) (args : List Value) : Action Unit := do
  checkArguments ((Value.named f).calledName (← Action.store)) names 0 args.length

/-- The one argument of a function. -/
def only (name : String) (args : List Value) : Except Fault Value :=
  match args with
  | [v] => .ok v
  | _ => .error (.failure (.arguments (.exactlyOne name args.length)))

/-- The better one of the best value so far, if there is one, and another value. -/
def better (r : OrderRelation) (best? : Option Value) (v : Value) : Action (Option Value) := do
  match best? with
  | none => return some v
  | some best => if ← v.isOrdered r best then return some v else return some best

/-- The greatest or the least of several arguments, or of the items of one: the first of which no
other is better. -/
def extremumOf (f : NamedFunction) (r : OrderRelation) (args : List Value) : Action Value := do
  let candidates ← match args with
    | [] => Action.fail (.arguments (.expectedAtLeast f.name 1 0))
    | [v] => v.supply
    | _ => pure (.ready args)
  match ← candidates.fold (fun _ => better r) none with
  | some best => return best
  | none => Action.fail (.emptyArgument f.name)

/-- The total with which a sum begins: a number of its own, or the start itself where that is no
number, or an integer of many digits. -/
def totalFrom (start : Value) : Action Value :=
  match start with
  | .int _ i => if Number.fitsWord i then Action.newInt i else pure start
  | .float _ x => Action.newFloat x
  | start => pure start

/-- The sum of the items of a value, and of a start. -/
def sumOf (args : List Value) : Action Value := do
  let (v, start) ← match args with
    | [v] => pure (v, Value.ofInt 0)
    | [v, start] => pure (v, start)
    | [] => Action.fail (.arguments (.atLeast "sum" true 1 0))
    | _ => Action.fail (.arguments (.atMost "sum" 2 args.length))
  let supply ← v.supply
  match start with
  | .str .. => Action.fail .sumOfText
  | start => supply.fold (fun _ => BinaryOp.sum) (← totalFrom start)

/-- What the class of an object answers under a special name, or else what `otherwise` says. -/
def askedOr (v : Value) (name : String) (otherwise : Action Value) : Action Value := do
  match ← v.askSpecial name [] with
  | some answer => return answer
  | none => otherwise

/-- A number rounded down to an integer; an integer is one already. -/
def floorOf (v : Value) : Action Value :=
  match v, v.ownInteger? with
  | .int mark i, _ => pure (.int mark i)
  | _, some i => pure (.ofInt i)
  | v, none => askedOr v "__floor__" do
    let x ← v.toReal
    if x.isNaN then Action.fail .notANumberToInt
    else if x.isInf then Action.fail .infinityToInt
    else Action.newInt (Number.floor x)

/-- The magnitude of a number; a natural number is its own. -/
def magnitudeOf (v : Value) : Action Value :=
  match v, v.numeral? with
  | .int mark i, some n => if 0 ≤ i then pure (.int mark i) else Value.ofNumeral n.magnitude
  | _, some n => Value.ofNumeral n.magnitude
  | v, none => askedOr v "__abs__" do
    Action.fail (.unsupportedOperand "abs()" (← Action.typeOf v))

/-- The square root of a number that is not negative. -/
def squareRootOf (v : Value) : Action Value := do
  let x ← v.toReal
  if x < 0.0 then Action.fail .mathDomain else Action.newFloat x.sqrt

/-- The size from which on a divisor is looked for among long integers. -/
def longInteger : Nat := 0x1000000000000000

/-- The greatest integer that divides two others.  A natural number of many digits that divides the
other is given as it is; of two equal ones it is the second. -/
def divisorOfTwo (v w : Value) (i j : Int) : Action Value :=
  let (greater, lesser, m, n) := if i.natAbs < j.natAbs then (w, v, j, i) else (v, w, i, j)
  if n = 0 ∧ 0 ≤ m ∧ longInteger ≤ m.natAbs then pure greater
  else if n ≠ 0 ∧ m.tmod n = 0 ∧ 0 ≤ n ∧ longInteger ≤ n.natAbs then pure lesser
  else Action.newInt (m.natAbs.gcd n.natAbs)

/-- The greatest integer that divides `d` and several others. -/
def commonDivisor (d : Value) : List Value → Action Value
  | [] => pure d
  | v :: vs => do
    let i ← v.index
    match d.ownInteger? with
    | some 1 => commonDivisor d vs
    | some j => commonDivisor (← divisorOfTwo d (.ofIndex v i) j i) vs
    | none => commonDivisor d vs

/-- The greatest integer that divides several others.  That of one integer is its magnitude. -/
def greatestDivisorOf (args : List Value) : Action Value := do
  match args with
  | [] => return .ofInt 0
  | [v] => magnitudeOf (.ofIndex v (← v.index))
  | v :: vs => commonDivisor (.ofIndex v (← v.index)) vs

/-- Calls a named function. -/
def call (f : NamedFunction) (args : List Value) : Action Value := do
  match f with
  | .length => Action.newInt (← (← only f.name args).length)
  | .abs => magnitudeOf (← only f.name args)
  | .max => extremumOf f .greater args
  | .min => extremumOf f .less args
  | .sum => sumOf args
  | .sorted =>
    match args with
    | [v] => Action.newList (← sortValues (← v.gathered))
    | _ => Action.fail (.arguments (.expectedExactly f.name 1 args.length))
  | .shown => (← only f.name args).shownText
  | .floor => floorOf (← only "math.floor" args)
  | .squareRoot => squareRootOf (← only "math.sqrt" args)
  | .greatestCommonDivisor => greatestDivisorOf args
  | .yes => return .bool true
  | .no => return .bool false
  | .countArguments => Action.newInt args.length
  | .constSeven =>
    f.expects [] args
    return .ofInt 7
  | .addOne =>
    f.expects ["a"] args
    BinaryOp.sum (args.headD .absent) (.ofInt 1)
  | .identity | .nestedIdentity =>
    f.expects ["a"] args
    return args.headD .absent
  | .pair =>
    f.expects ["a", "b"] args
    Action.newTuple args
  | .equalIgnoringCase =>
    f.expects ["a", "b"] args
    let a ← (args.headD .absent).plain
    let b ← (args.getLastD .absent).plain
    return .bool (Text.lower a == Text.lower b)
  | .reversedSubtract =>
    f.expects ["a", "b"] args
    BinaryOp.applyTo .subtract (args.getLastD .absent) (args.headD .absent)
  | .second =>
    f.expects ["a", "b"] args
    return args.getLastD .absent

/-- Why a function takes no argument under a name; `called` is how it names itself. -/
def refusesNamed (called name : String) (f : NamedFunction) : Failure :=
  match f with
  | .max | .min => .arguments (.expectedAtLeast f.name 1 0)
  | .sum => .arguments (.atLeast f.name true 1 0)
  | .sorted => .arguments (.expectedExactly f.name 1 0)
  | .length | .abs | .shown => .namedArgument f.name
  | .floor | .squareRoot | .greatestCommonDivisor => .namedArgument ("math." ++ f.name)
  | _ => .unexpectedArgument called name

end NamedFunction

/-- Why a method of a text takes no argument under a name. -/
def TextMethod.refusesNamed (name : String) (m : TextMethod) : Failure :=
  match m with
  | .startsWith | .endsWith | .find | .count | .index => .namedArgument m.name
  | .split => .invalidArgument m.name name
  | _ => .namedArgument ("str." ++ m.name)

/-- Why a type takes no argument under a name. -/
def StaticType.refusesNamed (name : String) (t : StaticType) : Failure :=
  match t with
  | .int | .str => .invalidArgument t.name name
  | .float | .bool | .list | .tuple | .dict | .method => .namedArgument t.name
  | .absent | .object | .callable | .custom _ | .made .. | .ambiguous | .eqAmbiguous
  | .unknownNode => .arguments (.takesNone t)
  | .metatype => .typeArguments
  | .abstractClass => .arguments (.missing "ABCMeta.__new__" ["name", "bases", "namespace"])
  | .enumeration => .arguments (.missing "EnumType.__new__" ["cls", "bases", "classdict"])
  | .module => .arguments (.missingAt t.name "name" 1)
  | .function => .arguments (.missingAt t.name "code" 1)
  | .mapping => .arguments (.missingAt t.name "mapping" 1)
  | .builtin | .union | .labelled _ => .notCreated t
  | .binaryOp | .unaryOp | .nodeKind => .unexpectedArgument "EnumType.__call__" name
  | .node _ | .foldStep | .foldTrace => .unexpectedArgument (t.name ++ ".__init__") name

namespace Value

/-- Calls a value that calls no other function. -/
def callFunction (f : Value) (args : List Value) : Action Value :=
  match f with
  | .named f => f.call args
  | .operator key => key.call args
  | .method _ mark receiver m => TextCall.call mark receiver m args
  | .tracer mark nameMark name => do
    Action.recordCall ⟨.tracer mark nameMark name, args⟩
    return args.getLastD .absent
  | .raiser _ error message => Action.raise (.ofError error message)
  | f => do Action.fail (.notCallable (← Action.typeOf f))

/-- Why a value cannot be called with an argument under a name that it does not know. -/
def refusesNamed (s : Store) (name : String) : Value → Failure
  | .named f => f.refusesNamed ((Value.named f).calledName s) name
  | .operator key =>
    if key = .binary .contains then .unexpectedArgument key.functionName name
    else .namedArgument ("_operator." ++ key.functionName)
  | .type t => t.refusesNamed name
  | .method _ _ _ m => m.refusesNamed name
  | .node (.lambda ..) => .unexpectedArgument "Lambda.__call__" name
  | .bound _ _ f => f.refusesNamed s name
  | f =>
    if f.fixedType = .function then .unexpectedArgument (f.calledName s) name
    else .notCallable (s.typeOf f)

end Value

end PredicateTree
