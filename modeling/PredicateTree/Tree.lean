import PredicateTree.StaticType
import PredicateTree.ErrorClass

/-!
# Values, trees and code

A tree is data: its literals hold values, and a value may be a tree.  So values (`Value`), nodes
(`Node`) and the code that trees compile to (`Code`) are one mutual family.

The children of a node are values.  Most are nodes; a child that is missing or is no node makes
the tree malformed, which the traversals report.

Identity is explicit (`Value.identical`).  Every node except a parameter carries a mark that no
other node carries, and so do tuples, dictionaries and functions; a parameter is told apart by its
serial number `uid`.  Two occurrences with one mark are one and the same thing.  Numbers and texts
may carry a mark too; those without one (mark zero) are told apart by what they are.

Lists and objects can change, and may hold themselves.  So a value only refers to them, by an
address, and a store keeps what they hold, and of which type an object is (`PredicateTree.Store`).
-/

namespace PredicateTree

/-- A formal parameter of a lambda, and every reference to it. -/
structure Parameter where
  uid : Nat
  /-- The name, which is empty where a value that is no text was given for one. -/
  name : String
  type : StaticType
  /-- The mark of the name. -/
  nameMark : Nat := 0
deriving DecidableEq, Repr

/-- The functions that trees may call by name: general ones and small samples. -/
inductive NamedFunction where
  | length
  | abs
  | max
  | min
  | sum
  | sorted
  | shown
  | addOne
  | identity
  | pair
  | constSeven
  | equalIgnoringCase
  | reversedSubtract
  | second
  | yes
  | no
  | countArguments
  | nestedIdentity
  | floor
  | squareRoot
  | greatestCommonDivisor
deriving DecidableEq, Repr

/-- The methods of text. -/
inductive TextMethod where
  | upper
  | lower
  | startsWith
  | endsWith
  | count
  | find
  | index
  | split
  | strip
  | replace
  | allDigits
deriving DecidableEq, Repr

/-- The methods of the objects of this library: of traces of folding, of their steps, and of
lambdas. -/
inductive ObjectMethod where
  | addStep
  | format
  | summary
  | traceToDict
  | stepToDict
  | compile
deriving DecidableEq, Repr

mutual

/-- The values that trees compute with. -/
inductive Value where
  /-- The absent value. -/
  | absent
  | bool (b : Bool)
  | int (mark : Nat) (i : Int)
  /-- A floating-point number, an infinity, or a result that is no number.  The last equals nothing,
  but it is the same thing as itself. -/
  | float (mark : Nat) (x : Float)
  | str (mark : Nat) (s : String)
  | list (address : Nat)
  | tuple (mark : Nat) (items : List Value)
  /-- A dictionary; the keys are pairwise different and keep the order of their insertion. -/
  | dict (mark : Nat) (entries : List (Value × Value))
  /-- A dictionary that is only read. -/
  | mapping (mark : Nat) (entries : List (Value × Value))
  | type (t : StaticType)
  /-- A choice between several types. -/
  | union (mark : Nat) (members : List StaticType)
  /-- The module of mathematical constants and functions. -/
  | mathematics
  | named (f : NamedFunction)
  /-- The meaning of an operator, as a function. -/
  | operator (key : OperatorKey)
  /-- A method of a text that awaits its arguments, with the mark of the text. -/
  | method (mark receiverMark : Nat) (receiver : String) (m : TextMethod)
  /-- A method as a function, which takes the object as its first argument. -/
  | objectMethod (m : ObjectMethod)
  /-- A function that records its calls and returns its last argument. -/
  | tracer (mark nameMark : Nat) (name : String)
  /-- A function that always fails. -/
  | raiser (mark : Nat) (error : ErrorClass) (message : String)
  /-- A function of a class that was read from an object of the class, which it takes as its first
  argument. -/
  | bound (mark : Nat) (receiver function : Value)
  | object (address : Nat)
  | binaryOp (op : BinaryOp)
  | unaryOp (op : UnaryOp)
  | nodeKind (kind : NodeKind)
  | node (n : Node)
  /-- A compiled function with the environment of its evaluation. -/
  | closure (mark : Nat) (parameters : List Parameter) (body : Code)
      (environment : List (Parameter × Value))

/-- The nodes of a tree. -/
inductive Node where
  | literal (mark : Nat) (value : Value) (type : StaticType)
  | parameter (p : Parameter)
  /-- The member `name` of the value of `expression`.  Where `expression` is absent the member is
  static and is read from `owner`. -/
  | member (mark : Nat) (expression name owner : Value) (type : StaticType)
  | unary (mark : Nat) (op : UnaryOp) (operand : Value) (type : StaticType)
  | binary (mark : Nat) (op : BinaryOp) (left right : Value) (type : StaticType)
  | conditional (mark : Nat) (test ifTrue ifFalse : Value) (type : StaticType)
  /-- A call; `row` is the mark of the tuple of its arguments. -/
  | call (mark : Nat) (function : Value) (row : Nat) (arguments : List Value) (type : StaticType)
  /-- A function; `row` is the mark of the tuple of its parameters. -/
  | lambda (mark row : Nat) (parameters : List Value) (body : Value)
  /-- A node of a kind outside the vocabulary. -/
  | unknown (mark : Nat) (kind : String)

/-- Code that a tree compiles to.  An instruction that may fail keeps the node it came from
(`site`), against which the failure is reported; an operator is resolved to its function. -/
inductive Code where
  | constant (value : Value)
  | variable (p : Parameter)
  | readMember (site : Node) (target : Code) (name : Value)
  | readStatic (site : Node) (owner name : Value)
  | applyUnary (site : Node) (function : Value) (operand : Code)
  | applyBinary (site : Node) (function : Value) (left right : Code)
  | both (site : Node) (left right : Code)
  | either (site : Node) (left right : Code)
  | choose (site : Node) (test ifTrue ifFalse : Code)
  | call (site : Node) (function : Code) (arguments : List Code)
  | abstraction (parameters : List Parameter) (body : Code)

end

/-- The values of the parameters in scope, innermost first. -/
abbrev Environment := List (Parameter × Value)

instance : Inhabited Value := ⟨.absent⟩
instance : Inhabited Node := ⟨.unknown 0 ""⟩
instance : Inhabited Code := ⟨.constant .absent⟩

namespace Value

/-- An integer that is told apart by its value alone. -/
def ofInt (i : Int) : Value := .int 0 i

/-- A text that is told apart by its characters alone. -/
def ofText (s : String) : Value := .str 0 s

end Value

namespace Environment

/-- The value of a parameter: that of its innermost binding. -/
def get? (env : Environment) (p : Parameter) : Option Value := env.lookup p

/-- The environment of a function body.  Where a parameter is declared twice its last argument
counts. -/
def extend (env : Environment) (ps : List Parameter) (args : List Value) : Environment :=
  (ps.zip args).reverse ++ env

end Environment

namespace Node

/-- The kind of a node, if it is one of the vocabulary. -/
def kind? : Node → Option NodeKind
  | .literal .. => some .literal
  | .parameter _ => some .parameter
  | .member .. => some .member
  | .unary .. => some .unary
  | .binary .. => some .binary
  | .conditional .. => some .conditional
  | .call .. => some .call
  | .lambda .. => some .lambda
  | .unknown .. => none

/-- The kind of a node, as a value. -/
def kindValue : Node → Value
  | .unknown _ k => .ofText k
  | n => (n.kind?.map Value.nodeKind).getD .absent

/-- The written name of the kind of a node. -/
def kindSymbol : Node → String
  | .unknown _ k => k
  | n => (n.kind?.map NodeKind.symbol).getD ""

/-- The static type of a node. -/
def type : Node → StaticType
  | .literal _ _ t | .member _ _ _ _ t | .unary _ _ _ t | .binary _ _ _ _ t
  | .conditional _ _ _ _ t | .call _ _ _ _ t => t
  | .parameter p => p.type
  | .lambda .. => .callable
  | .unknown .. => .object

/-- The type of a node where the node itself is a value. -/
def classType (n : Node) : StaticType := (n.kind?.map StaticType.node).getD .unknownNode

/-- The class name of a node. -/
def className (n : Node) : String := n.classType.name

/-- The mark of a node, or the serial number of a parameter. -/
def mark : Node → Nat
  | .literal m .. | .member m .. | .unary m .. | .binary m .. | .conditional m .. | .call m ..
  | .lambda m .. | .unknown m _ => m
  | .parameter p => p.uid

/-- Whether two occurrences are one and the same node. -/
def identical : Node → Node → Bool
  | .parameter p, .parameter q => p == q
  | .literal m .., .literal n .. | .member m .., .member n .. | .unary m .., .unary n ..
  | .binary m .., .binary n .. | .conditional m .., .conditional n .. | .call m .., .call n ..
  | .lambda m .., .lambda n .. | .unknown m .., .unknown n .. => m == n
  | _, _ => false

/-- The parameter that a node is, if it is one. -/
def asParameter? : Node → Option Parameter
  | .parameter p => some p
  | _ => none

/-- Whether a node is a literal. -/
def isLiteral : Node → Bool
  | .literal .. => true
  | _ => false

end Node

namespace Value

/-- The node that a value is, if it is one. -/
def node? : Value → Option Node
  | .node n => some n
  | _ => none

/-- The parameter that a value is, if it is one. -/
def parameter? : Value → Option Parameter
  | .node n => n.asParameter?
  | _ => none

/-- Whether a value is the absent value. -/
def isAbsent : Value → Bool
  | .absent => true
  | _ => false

/-- The type of a value that is no object.  That of an object stands in the store. -/
def fixedType : Value → StaticType
  | .absent => .absent
  | .bool _ => .bool
  | .int .. => .int
  | .float .. => .float
  | .str .. => .str
  | .list .. => .list
  | .tuple .. => .tuple
  | .dict .. => .dict
  | .mapping .. => .mapping
  | .type t => t.kindOf
  | .union .. => .union
  | .mathematics => .module
  | .named f =>
    match f with
    | .length | .abs | .max | .min | .sum | .sorted | .shown
    | .floor | .squareRoot | .greatestCommonDivisor => .builtin
    | _ => .function
  | .operator key => if key = .binary .contains then .function else .builtin
  | .method .. => .builtin
  | .objectMethod _ | .tracer .. | .raiser .. | .closure .. => .function
  | .bound .. => .method
  | .object _ => .object
  | .binaryOp _ => .binaryOp
  | .unaryOp _ => .unaryOp
  | .nodeKind _ => .nodeKind
  | .node n => n.classType

/-- Whether two values are one and the same thing.  What has no mark is told apart by what it is,
and so are empty tuples. -/
def identical : Value → Value → Bool
  | .absent, .absent => true
  | .bool x, .bool y => x == y
  | .int m x, .int n y => m == n && x == y
  | .float m x, .float n y => m == n && x.toBits == y.toBits
  | .str m x, .str n y => m == n && x == y
  | .list a, .list b => a == b
  | .tuple m xs, .tuple n ys =>
    if xs.isEmpty || ys.isEmpty then xs.isEmpty && ys.isEmpty else m == n
  | .dict m _, .dict n _ => m == n
  | .mapping m _, .mapping n _ => m == n
  | .type x, .type y => x == y
  | .union m _, .union n _ => m == n
  | .mathematics, .mathematics => true
  | .named x, .named y => x == y
  | .operator x, .operator y => x == y
  | .method m k r x, .method n l s y => m == n && k == l && r == s && x == y
  | .objectMethod x, .objectMethod y => x == y
  | .bound m r x, .bound n s y => m == n && r.identical s && x.identical y
  | .tracer m .., .tracer n .. => m == n
  | .raiser m .., .raiser n .. => m == n
  | .object a, .object b => a == b
  | .binaryOp x, .binaryOp y => x == y
  | .unaryOp x, .unaryOp y => x == y
  | .nodeKind x, .nodeKind y => x == y
  | .node x, .node y => x.identical y
  | .closure m .., .closure n .. => m == n
  | _, _ => false

/-- The static type that a node sees of a child: unknown where the child is no node. -/
def staticType : Value → StaticType
  | .node n => n.type
  | _ => .object

end Value

end PredicateTree
