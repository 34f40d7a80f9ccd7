/-!
# Operators and node kinds

The closed vocabularies of a predicate tree: the eight kinds of node (`NodeKind`), the binary
operators (`BinaryOp`), the unary operators (`UnaryOp`), and the keys under which a table stores
the meaning of an operator (`OperatorKey`).  Every vocabulary has a list of its members in their
fixed order (`all`), a written symbol and a label, and a reader that inverts the symbol
(`ofSymbol?`).
-/

namespace PredicateTree

/-- The kinds of node that a tree is made of. -/
inductive NodeKind where
  | literal
  | parameter
  | member
  | unary
  | binary
  | conditional
  | call
  | lambda
deriving DecidableEq, Repr

/-- The binary operators. -/
inductive BinaryOp where
  | add
  | subtract
  | multiply
  | divide
  | floorDivide
  | modulo
  | power
  | equal
  | notEqual
  | less
  | lessEqual
  | greater
  | greaterEqual
  | contains
  | and
  | or
  | xor
  | andAlso
  | orElse
deriving DecidableEq, Repr

/-- The unary operators. -/
inductive UnaryOp where
  | not
  | negate
  | invert
deriving DecidableEq, Repr

namespace NodeKind

/-- All kinds, in their fixed order. -/
def all : List NodeKind :=
  [.literal, .parameter, .member, .unary, .binary, .conditional, .call, .lambda]

/-- The written name of a kind. -/
def symbol : NodeKind → String
  | .literal => "literal"
  | .parameter => "parameter"
  | .member => "member"
  | .unary => "unary"
  | .binary => "binary"
  | .conditional => "if"
  | .call => "call"
  | .lambda => "lambda"

/-- The label of a kind, as enumerations show it. -/
def label : NodeKind → String
  | .literal => "LITERAL"
  | .parameter => "PARAMETER"
  | .member => "MEMBER_ACCESS"
  | .unary => "UNARY"
  | .binary => "BINARY"
  | .conditional => "CONDITIONAL"
  | .call => "CALL"
  | .lambda => "LAMBDA"

/-- The kind written `s`, if there is one. -/
def ofSymbol? (s : String) : Option NodeKind := all.find? (·.symbol == s)

theorem mem_all (k : NodeKind) : k ∈ all := by cases k <;> decide

end NodeKind

namespace BinaryOp

/-- All binary operators, in their fixed order. -/
def all : List BinaryOp :=
  [.add, .subtract, .multiply, .divide, .floorDivide, .modulo, .power,
   .equal, .notEqual, .less, .lessEqual, .greater, .greaterEqual, .contains,
   .and, .or, .xor, .andAlso, .orElse]

/-- The written symbol of an operator. -/
def symbol : BinaryOp → String
  | .add => "+"
  | .subtract => "-"
  | .multiply => "*"
  | .divide => "/"
  | .floorDivide => "//"
  | .modulo => "%"
  | .power => "**"
  | .equal => "=="
  | .notEqual => "!="
  | .less => "<"
  | .lessEqual => "<="
  | .greater => ">"
  | .greaterEqual => ">="
  | .contains => "in"
  | .and => "&"
  | .or => "|"
  | .xor => "^"
  | .andAlso => "&&"
  | .orElse => "||"

/-- The label of an operator, as enumerations show it. -/
def label : BinaryOp → String
  | .add => "ADD"
  | .subtract => "SUBTRACT"
  | .multiply => "MULTIPLY"
  | .divide => "DIVIDE"
  | .floorDivide => "FLOOR_DIVIDE"
  | .modulo => "MODULO"
  | .power => "POWER"
  | .equal => "EQUAL"
  | .notEqual => "NOT_EQUAL"
  | .less => "LESS"
  | .lessEqual => "LESS_EQUAL"
  | .greater => "GREATER"
  | .greaterEqual => "GREATER_EQUAL"
  | .contains => "CONTAINS"
  | .and => "AND"
  | .or => "OR"
  | .xor => "XOR"
  | .andAlso => "AND_ALSO"
  | .orElse => "OR_ELSE"

/-- The operator written `s`, if there is one. -/
def ofSymbol? (s : String) : Option BinaryOp := all.find? (·.symbol == s)

/-- The operators whose right operand is evaluated on demand. -/
def isShortCircuit : BinaryOp → Bool
  | .andAlso | .orElse => true
  | _ => false

/-- The operators that compare their operands. -/
def isComparison : BinaryOp → Bool
  | .equal | .notEqual | .less | .lessEqual | .greater | .greaterEqual | .contains => true
  | _ => false

/-- The operators that compute with their operands. -/
def isArithmetic : BinaryOp → Bool
  | .add | .subtract | .multiply | .divide | .floorDivide | .modulo | .power => true
  | _ => false

/-- The operators on bits and sets, which always evaluate both operands. -/
def isBitwise : BinaryOp → Bool
  | .and | .or | .xor => true
  | _ => false

theorem mem_all (op : BinaryOp) : op ∈ all := by cases op <;> decide

end BinaryOp

namespace UnaryOp

/-- All unary operators, in their fixed order. -/
def all : List UnaryOp := [.not, .negate, .invert]

/-- The written symbol of an operator. -/
def symbol : UnaryOp → String
  | .not => "not"
  | .negate => "-"
  | .invert => "~"

/-- The label of an operator, as enumerations show it. -/
def label : UnaryOp → String
  | .not => "NOT"
  | .negate => "NEGATE"
  | .invert => "INVERT"

/-- The operator written `s`, if there is one. -/
def ofSymbol? (s : String) : Option UnaryOp := all.find? (·.symbol == s)

theorem mem_all (op : UnaryOp) : op ∈ all := by cases op <;> decide

end UnaryOp

/-- The key of an operator in a table of meanings.  The minus sign names two keys, one for each
number of operands. -/
inductive OperatorKey where
  | binary (op : BinaryOp)
  | unary (op : UnaryOp)
deriving DecidableEq, Repr

namespace OperatorKey

/-- The keys of the arithmetic operators. -/
def arithmetic : List OperatorKey := (BinaryOp.all.filter (·.isArithmetic)).map .binary

/-- The keys of the comparisons. -/
def comparison : List OperatorKey := (BinaryOp.all.filter (·.isComparison)).map .binary

/-- The keys of the bitwise operators. -/
def bitwise : List OperatorKey := (BinaryOp.all.filter (·.isBitwise)).map .binary

/-- The keys of the unary operators. -/
def unaries : List OperatorKey := UnaryOp.all.map .unary

/-- All keys of a complete table, in their fixed order.  The two short-circuit operators are
control flow and have no key. -/
def all : List OperatorKey := arithmetic ++ comparison ++ bitwise ++ unaries

end OperatorKey

end PredicateTree
