import PredicateTree.Value.Naming
import PredicateTree.Session

/-!
# Attributes of values

A value has attributes of its own, those that its sort has by nature, and those of its class; a
function among the last is bound to the value (`Value.findAttribute?`).  Reading an attribute makes
some things anew, so that each of them is told apart from what was read before
(`Value.readAttribute`).

What a class says under a special name tells how its objects behave where they are called, compared,
computed with and so on (`Value.special?`).
-/

namespace PredicateTree

namespace Node

/-- The fields of a node, where the node itself is a value. -/
def field? (s : Store) (n : Node) (name : String) : Option Value :=
  let own : List (String × Value) := match n with
    | .literal _ v _ => [("value", v)]
    | .parameter p => [("name", s.parameterName p), ("uid", .ofInt p.uid)]
    | .member _ e m o _ => [("expression", e), ("member", m), ("owner", o)]
    | .unary _ op x _ => [("op", .unaryOp op), ("operand", x)]
    | .binary _ op l r _ => [("op", .binaryOp op), ("left", l), ("right", r)]
    | .conditional _ c x y _ => [("test", c), ("if_true", x), ("if_false", y)]
    | .call _ f row args _ => [("function", f), ("arguments", .tuple row args)]
    | .lambda mark row ps b =>
      [("parameters", .tuple row ps), ("body", b), ("arity", .ofInt ps.length),
        ("_compiled", (s.compiled? mark).getD .absent)]
    | .unknown .. => []
  (("kind", n.kindValue) :: ("type_", s.typeValue n.type) :: own).lookup name

end Node

namespace Value

/-- The constants and functions of the module of mathematics. -/
def mathematicsMember? (name : String) : Option Value :=
  [("pi", Value.float 0 3.141592653589793), ("tau", .float 0 6.283185307179586),
   ("inf", .float 0 (Number.infinity false)), ("floor", .named .floor),
   ("sqrt", .named .squareRoot), ("gcd", .named .greatestCommonDivisor)].lookup name

/-- The properties of an operator. -/
def operatorProperty? (op : BinaryOp) (name : String) : Option Bool :=
  [("is_short_circuit", op.isShortCircuit), ("is_comparison", op.isComparison),
    ("is_arithmetic", op.isArithmetic)].lookup name

/-- An attribute that every member of an enumeration has: its symbol, its label, and the members. -/
def memberAttribute? (v : Value) (symbol label name : String) : Option Value :=
  if name = "value" then some (.ofText symbol)
  else if name = "name" then some (.ofText label)
  else enumerationMember v.fixedType name

/-- An attribute that integers have by nature. -/
def integerAttribute? (v : Value) (name : String) : Option Value :=
  if name = "real" ∨ name = "numerator" then
    match v with
    | .bool b => some (.ofInt (if b then 1 else 0))
    | v => some v
  else if name = "imag" then some (.ofInt 0)
  else if name = "denominator" then some (.ofInt 1)
  else none

/-- An attribute that a type has by nature: a method of its objects, the kind of its nodes, or a
member of the enumeration that it is. -/
def typeAttribute? (t : StaticType) (name : String) : Option Value :=
  match t.method? name, t with
  | some m, _ => some (.objectMethod m)
  | none, .node k => if name = "kind" then some (.nodeKind k) else none
  | none, .unknownNode => if name = "kind" then some (.ofText "weird") else none
  | none, t => enumerationMember t name

/-- An attribute that values of a sort have by nature. -/
def naturalAttribute? (s : Store) (v : Value) (name : String) : Option Value :=
  match v with
  | .bool _ | .int .. => v.integerAttribute? name
  | .float .. =>
    if name = "real" then some v
    else if name = "imag" then some (.float 0 0.0)
    else none
  | .str mark text => (TextMethod.ofName? name).map (.method 0 mark text)
  | .binaryOp op =>
    match operatorProperty? op name with
    | some b => some (.bool b)
    | none => memberAttribute? v op.symbol op.label name
  | .unaryOp op => memberAttribute? v op.symbol op.label name
  | .nodeKind k => memberAttribute? v k.symbol k.label name
  | .node n => n.field? s name
  | .mathematics =>
    match mathematicsMember? name with
    | some w => some w
    | none => if name = "__name__" then some (.ofText "math") else none
  | v =>
    if name = "__name__" then (v.shortNameIn s).map .ofText
    else if name = "__qualname__" then (v.qualifiedNameIn s).map .ofText
    else match v with
    | .type t => typeAttribute? t name
    | _ => none

/-- A failure for the lack of an attribute.  A bound function lacks what the function lacks. -/
def lacks (s : Store) (v : Value) (name : String) : Failure :=
  match v with
  | .type t =>
    if (enumerationMembers? t).isSome then .missingMember name
    else .missingAttribute (.typeItself t) name
  | .mathematics => .missingAttribute (.module "math") name
  | .bound _ _ f => .missingAttribute (.instanceOf f.fixedType) name
  | v =>
    match s.typeOf v with
    | .module => .missingAttribute (.module ((s.textAttribute? v "__name__").getD "")) name
    | t => .missingAttribute (.instanceOf t) name

/-- An attribute of a value itself.  A type has those of the types that it extends. -/
def ownAttribute? (s : Store) (v : Value) (name : String) : Option Value :=
  match v with
  | .bound _ _ f => (v.naturalAttribute? s name).or (s.attribute? f name)
  | .type t => (s.typeAttribute? t name).or (v.naturalAttribute? s name)
  | v => (s.attribute? v name).or (v.naturalAttribute? s name)

/-- A function of a class as it is read from an object: bound to it. -/
def boundTo (v f : Value) : Value := if f.bindsToObjects then .bound 0 v f else f

/-- An attribute of the class of a value, as it is read from the value.  The names of a class are
its own. -/
def classAttribute? (s : Store) (v : Value) (name : String) : Option Value :=
  if name = "__name__" ∨ name = "__qualname__" then none
  else
    let t := s.typeOf v
    ((s.typeAttribute? t name).or ((t.method? name).map .objectMethod)).map v.boundTo

/-- An attribute of a value: its own, or one of its class.  The class of an object cannot be hidden
by what the object holds. -/
def findAttribute? (s : Store) (v : Value) (name : String) : Option Value :=
  match v with
  | .object _ =>
    if name = "__class__" then some (.type (s.typeOf v))
    else (v.ownAttribute? s name).or (v.classAttribute? s name)
  | v =>
    let found := (v.ownAttribute? s name).or (v.classAttribute? s name)
    if name = "__class__" then found.or (some (.type v.fixedType)) else found

/-- What the class of an object says under a special name. -/
def special? (s : Store) (v : Value) (name : String) : Option Value :=
  match v with
  | .object address => (s.typeAttribute? (s.object address).type name).map v.boundTo
  | _ => none

/-- The answer of a value to a special name, if its class says something under it. -/
def askSpecial (v : Value) (name : String) (args : List Value) : Action (Option Value) := do
  match v.special? (← Action.store) name with
  | some f => return some (← Action.call f args)
  | none => return none

/-- The error that reading an attribute ends with, if that was decided for it. -/
def brokenAttribute? (s : Store) (v : Value) (name : String) : Option ErrorClass :=
  match v with
  | .object address => (s.object address).broken.lookup name
  | _ => none

/-- Whether a value makes its names anew whenever they are read. -/
def makesNames : Value → Bool
  | .type t => t.isBuiltIn
  | .bound _ _ f => f.makesNames
  | v => v.fixedType == .builtin

/-- What an attribute that was found is when it is read.  A bound function and a method of a text
are new things, and so are a part of a number that was not there before, and a name that its owner
does not keep. -/
def readFound (v found : Value) (name : String) : Action Value := do
  match v, found with
  | _, .bound 0 receiver f => return .bound (← Action.freshMark) receiver f
  | _, .method 0 k text m => return .method (← Action.freshMark) k text m
  | .float .., .float 0 x => if name = "imag" then Action.newFloat x else return .float 0 x
  | v, .str 0 s => if v.makesNames then Action.textPiece s else return .str 0 s
  | _, w => return w

/-- Fails for the lack of an attribute, unless the class of the value answers in its place.  An
attribute that is broken fails in its own way. -/
def answerMissing (v : Value) (name : String) (lack : Fault) : Action Value := do
  match ← v.askSpecial "__getattr__" [.ofText name] with
  | some w => return w
  | none =>
    match v.brokenAttribute? (← Action.store) name with
    | some error => Action.raise (.ofError error (name ++ " is unavailable"))
    | none => Action.raise lack

/-- Reads an attribute of a value.  The class of an object may answer for all of its attributes, or
for those that it lacks. -/
def readAttribute (v : Value) (name : String) : Action Value := do
  let s ← Action.store
  match v.special? s "__getattribute__" with
  | some f =>
    Action.handle (Action.call f [.ofText name]) fun fault =>
      if fault.errorClass.isSubclass .attribute then v.answerMissing name fault
      else Action.raise fault
  | none =>
    match v.findAttribute? s name with
    | some w => v.readFound w name
    | none => v.answerMissing name (.failure (v.lacks s name))

/-- Reads an attribute of a value, if it has it. -/
def readAttribute? (v : Value) (name : String) : Action (Option Value) :=
  Action.handle (do return some (← v.readAttribute name)) fun fault =>
    if fault.errorClass.isSubclass .attribute then pure none else Action.raise fault

end Value

end PredicateTree
