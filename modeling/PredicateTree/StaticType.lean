import PredicateTree.Operator
import PredicateTree.Text.Fitting

/-!
# Static types

The types that nodes carry and values have.  Types are compared by identity, so a type is named by
a constructor, by its qualified name where a caller introduces it (`StaticType.custom`), or by a
serial number where it was made while running (`StaticType.made`).
-/

namespace PredicateTree

/-- A type of values.  `object` is the type of which nothing is known. -/
inductive StaticType where
  | absent
  | bool
  | int
  | float
  | str
  | list
  | tuple
  | dict
  | mapping
  | object
  | callable
  | metatype
  | module
  | function
  | builtin
  /-- The type of functions that are bound to an object. -/
  | method
  /-- The type of choices between types. -/
  | union
  | binaryOp
  | unaryOp
  | nodeKind
  | enumeration
  | abstractClass
  | node (kind : NodeKind)
  | unknownNode
  | ambiguous
  | eqAmbiguous
  | foldTrace
  | foldStep
  /-- A type of a caller, known by its name. -/
  | custom (qualifiedName : String)
  /-- A type that was made while running; others may have its name. -/
  | made (serial : Nat) (name : String)
  /-- A label that a caller gave in the place of a type; where it is kept tells which one. -/
  | labelled (place : Nat)
deriving DecidableEq, Repr

/-- The names of a type: a short one, one together with the names it is nested in, and that of the
module in which it is defined, unless it is built in. -/
structure TypeNames where
  name : String
  qualifiedName : String
  home? : Option String

/-- The class name of the nodes of a kind. -/
def NodeKind.className : NodeKind → String
  | .literal => "Literal"
  | .parameter => "Parameter"
  | .member => "MemberAccess"
  | .unary => "Unary"
  | .binary => "Binary"
  | .conditional => "Conditional"
  | .call => "Call"
  | .lambda => "Lambda"

namespace StaticType

/-- The last part of a dotted name. -/
def lastPart (qualified : String) : String := (qualified.splitOn ".").getLastD qualified

/-- The short name of a type. -/
def name : StaticType → String
  | .absent => "NoneType"
  | .bool => "bool"
  | .int => "int"
  | .float => "float"
  | .str => "str"
  | .list => "list"
  | .tuple => "tuple"
  | .dict => "dict"
  | .mapping => "mappingproxy"
  | .object => "object"
  | .callable => "Callable"
  | .metatype => "type"
  | .module => "module"
  | .function => "function"
  | .builtin => "builtin_function_or_method"
  | .method => "method"
  | .union => "UnionType"
  | .binaryOp => "BinaryOp"
  | .unaryOp => "UnaryOp"
  | .nodeKind => "NodeKind"
  | .enumeration => "EnumType"
  | .abstractClass => "ABCMeta"
  | .node k => k.className
  | .unknownNode => "Weird"
  | .ambiguous => "Ambiguous"
  | .eqAmbiguous => "EqAmbiguous"
  | .foldTrace => "FoldTrace"
  | .foldStep => "FoldStep"
  | .custom q => lastPart q
  | .made _ n => n
  | .labelled _ => ""

/-- The name of a type together with the names it is nested in. -/
def qualifiedName : StaticType → String
  | .custom q => q
  | t => t.name

/-- The module in which a type is defined, unless it is built in. -/
def home? : StaticType → Option String
  | .callable => some "collections.abc"
  | .abstractClass => some "abc"
  | .enumeration => some "enum"
  | .union => some "types"
  | .binaryOp | .unaryOp | .nodeKind | .node _ => some "rebind.nodes"
  | .foldTrace | .foldStep => some "rebind.folding"
  | .unknownNode | .ambiguous | .eqAmbiguous | .custom _ | .made .. => some "__main__"
  | _ => none

/-- Whether a type is built in, so that it cannot be given attributes. -/
def isBuiltIn (t : StaticType) : Bool := t = .union || t.home?.isNone

/-- The names of a type by its definition. -/
def names (t : StaticType) : TypeNames := ⟨t.name, t.qualifiedName, t.home?⟩

/-- The name of a type together with the module in which it is defined. -/
def fullName (naming : StaticType → TypeNames) (t : StaticType) : String :=
  match (naming t).home? with
  | some home => home ++ "." ++ (naming t).qualifiedName
  | none => (naming t).name

/-- The text of a type where it is shown as a value. -/
def shown (naming : StaticType → TypeNames) : StaticType → String
  | .binaryOp => "<enum 'BinaryOp'>"
  | .unaryOp => "<enum 'UnaryOp'>"
  | .nodeKind => "<enum 'NodeKind'>"
  | t => "<class '" ++ t.fullName naming ++ "'>"

/-- The name of a type in a report. -/
def reportedName (naming : StaticType → TypeNames) (t : StaticType) : String :=
  if t = .union then t.fullName naming else (naming t).name

/-- The name of a type in a report, which has room for `limit` bytes of it. -/
def reported (naming : StaticType → TypeNames) (limit : Nat) (t : StaticType) : String :=
  Text.cutToBytes limit (t.reportedName naming)

/-- The type of a type. -/
def kindOf : StaticType → StaticType
  | .callable => .abstractClass
  | .binaryOp | .unaryOp | .nodeKind => .enumeration
  | _ => .metatype

/-- Arithmetic on truth values gives integers. -/
def numeric : StaticType → StaticType
  | .bool => .int
  | t => t

/-- The two types that division accepts. -/
def isNumber : StaticType → Bool
  | .int | .float => true
  | _ => false

end StaticType

/-- The names that types go by.  A caller may give other names to types of its own than their
definition does. -/
abbrev TypeNaming := StaticType → TypeNames

/-- The static type that a binary node gets from its operator and the types of its operands.
Comparisons and short-circuit operators give truth values; division of numbers gives a float; a
power may be of any type; every other operator keeps the common type of its operands, after
arithmetic has read truth values as integers. -/
def BinaryOp.resultType (op : BinaryOp) (left right : StaticType) : StaticType :=
  if op.isComparison || op.isShortCircuit then .bool
  else if op == .divide then
    if left.numeric.isNumber && right.numeric.isNumber then .float else .object
  else if op == .power then .object
  else
    let (left, right) := if op.isArithmetic then (left.numeric, right.numeric) else (left, right)
    if left = right then left else .object

/-- The static type that a unary node gets from its operator and the type of its operand. -/
def UnaryOp.resultType (op : UnaryOp) (operand : StaticType) : StaticType :=
  if op = .not then .bool else operand.numeric

end PredicateTree
