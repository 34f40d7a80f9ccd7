import PredicateTree.Store

/-!
# Names of functions and members

The names under which functions, methods, types and enumeration members are shown.  Things have
names by nature (`Value.qualifiedName?`); a caller may give other names to its functions and types
(`Value.qualifiedNameIn`).
-/

namespace PredicateTree

namespace NamedFunction

/-- The name of a function, with the names it is nested in. -/
def name : NamedFunction → String
  | .length => "len"
  | .abs => "abs"
  | .max => "max"
  | .min => "min"
  | .sum => "sum"
  | .sorted => "sorted"
  | .shown => "repr"
  | .addOne => "add1"
  | .identity => "ident"
  | .pair => "pair"
  | .constSeven => "const7"
  | .equalIgnoringCase => "eq_ci"
  | .reversedSubtract => "rsub"
  | .second => "second"
  | .yes => "yes"
  | .no => "no"
  | .countArguments => "nargs"
  | .nestedIdentity => "Outer.inner"
  | .floor => "floor"
  | .squareRoot => "sqrt"
  | .greatestCommonDivisor => "gcd"

/-- The functions that go by a name of their own, outside of any module. -/
def all : List NamedFunction :=
  [.length, .abs, .max, .min, .sum, .sorted, .shown, .addOne, .identity, .pair, .constSeven,
   .equalIgnoringCase, .reversedSubtract, .second, .yes, .no, .countArguments, .nestedIdentity]

/-- The function with a name, if there is one. -/
def ofName? (s : String) : Option NamedFunction := all.find? (·.name == s)

end NamedFunction

namespace TextMethod

/-- The name of a method. -/
def name : TextMethod → String
  | .upper => "upper"
  | .lower => "lower"
  | .startsWith => "startswith"
  | .endsWith => "endswith"
  | .count => "count"
  | .find => "find"
  | .index => "index"
  | .split => "split"
  | .strip => "strip"
  | .replace => "replace"
  | .allDigits => "isdigit"

/-- All methods. -/
def all : List TextMethod :=
  [.upper, .lower, .startsWith, .endsWith, .count, .find, .index, .split, .strip, .replace,
   .allDigits]

/-- The method with a name, if there is one. -/
def ofName? (s : String) : Option TextMethod := all.find? (·.name == s)

end TextMethod

namespace ObjectMethod

/-- The type of the objects that a method belongs to. -/
def owner : ObjectMethod → StaticType
  | .addStep | .format | .summary | .traceToDict => .foldTrace
  | .stepToDict => .foldStep
  | .compile => .node .lambda

/-- The name of a method. -/
def name : ObjectMethod → String
  | .addStep => "add_step"
  | .format => "format"
  | .summary => "summary"
  | .traceToDict | .stepToDict => "to_dict"
  | .compile => "compile"

/-- The name of a method together with that of the type it belongs to. -/
def qualifiedName (m : ObjectMethod) : String := m.owner.name ++ "." ++ m.name

/-- All methods. -/
def all : List ObjectMethod := [.addStep, .format, .summary, .traceToDict, .stepToDict, .compile]

end ObjectMethod

/-- The method that the objects of a type have under a name. -/
def StaticType.method? (t : StaticType) (name : String) : Option ObjectMethod :=
  ObjectMethod.all.find? fun m => m.owner = t ∧ m.name = name

namespace OperatorKey

/-- The name of the function that an operator means unless it is overridden. -/
def functionName : OperatorKey → String
  | .binary op =>
    match op with
    | .add => "add"
    | .subtract => "sub"
    | .multiply => "mul"
    | .divide => "truediv"
    | .floorDivide => "floordiv"
    | .modulo => "mod"
    | .power => "pow"
    | .equal => "eq"
    | .notEqual => "ne"
    | .less => "lt"
    | .lessEqual => "le"
    | .greater => "gt"
    | .greaterEqual => "ge"
    | .contains => "_contains"
    | .and => "and_"
    | .or => "or_"
    | .xor => "xor"
    | .andAlso => "and_also"
    | .orElse => "or_else"
  | .unary op =>
    match op with
    | .not => "not_"
    | .negate => "neg"
    | .invert => "invert"

end OperatorKey

namespace Value

/-- The nested name of the functions that lambdas compile to. -/
def compiledName : String :=
  "_combiner.<locals>.combine.<locals>.make_function.<locals>.invoke"

/-- The qualified name that a value which can be called has by nature. -/
def qualifiedName? : Value → Option String
  | .type t => some t.qualifiedName
  | .named f => some f.name
  | .operator key => some key.functionName
  | .method _ _ _ m => some ("str." ++ m.name)
  | .objectMethod m => some m.qualifiedName
  | .bound _ _ f => f.qualifiedName?
  | .tracer _ _ name => some name
  | .raiser _ error _ => some ("raise_" ++ error.name)
  | .closure .. => some compiledName
  | _ => none

/-- The short name that a value has by nature. -/
def shortName? : Value → Option String
  | .type t => some t.name
  | .mathematics => some "math"
  | .named f => some f.name
  | .operator key => some key.functionName
  | .method _ _ _ m => some m.name
  | .objectMethod m => some m.name
  | .bound _ _ f => f.shortName?
  | .tracer _ _ name => some name
  | .raiser _ error _ => some ("raise_" ++ error.name)
  | .closure .. => some "invoke"
  | _ => none

/-- The qualified name of a value that can be called and has one. -/
def qualifiedNameIn (s : Store) : Value → Option String
  | .type t => some (s.typeNames t).qualifiedName
  | .bound _ _ f => f.qualifiedNameIn s
  | v => v.qualifiedName?.map fun name => (s.textAttribute? v "__qualname__").getD name

/-- The short name of a value that has one. -/
def shortNameIn (s : Store) : Value → Option String
  | .type t => some (s.typeNames t).name
  | .bound _ _ f => f.shortNameIn s
  | v => v.shortName?.map fun name => (s.textAttribute? v "__name__").getD name

/-- The name that a function gives itself where it refuses its arguments. -/
def calledName (s : Store) (v : Value) : String := (v.qualifiedNameIn s).getD ""

/-- Whether a value is a type. -/
def isType : Value → Bool
  | .type _ => true
  | _ => false

/-- Whether a value can be called: a function, a type, a lambda, or an object whose class says what a
call of it does. -/
def isCallable (s : Store) (v : Value) : Bool :=
  match v with
  | .type _ | .node (.lambda ..) => true
  | .object address => (s.typeAttribute? (s.object address).type "__call__").isSome
  | v =>
    match v.fixedType with
    | .function | .builtin | .method => true
    | _ => false

/-- Whether a value is a function that an object of a class takes as its own: read from the object
it is bound to it. -/
def bindsToObjects (v : Value) : Bool := v.fixedType == .function

/-- The members of a type that is an enumeration, in order. -/
def enumerationMembers? : StaticType → Option (List Value)
  | .binaryOp => some (BinaryOp.all.map .binaryOp)
  | .unaryOp => some (UnaryOp.all.map .unaryOp)
  | .nodeKind => some (NodeKind.all.map .nodeKind)
  | _ => none

/-- A member of an enumeration with its qualified label and its symbol. -/
def enumerationMember? : Value → Option (String × String)
  | .binaryOp op => some ("BinaryOp." ++ op.label, op.symbol)
  | .unaryOp op => some ("UnaryOp." ++ op.label, op.symbol)
  | .nodeKind k => some ("NodeKind." ++ k.label, k.symbol)
  | _ => none

/-- The member of an enumeration with a label. -/
def enumerationMember (t : StaticType) (label : String) : Option Value :=
  (enumerationMembers? t).bind fun members =>
    members.find? fun v => v.enumerationMember?.any (·.1 == t.name ++ "." ++ label)

end Value

end PredicateTree
