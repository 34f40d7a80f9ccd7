import PredicateTree.Value.Entries

/-!
# Building trees

Makes new nodes.  The constructors (`Builder.literal`, `Builder.binary` and so on) do not check
their children; where no static type is given they infer one.  The other functions wrap values that
are no nodes as literals, so that trees are easy to write.
-/

namespace PredicateTree.Builder

/-! ### Constructors -/

/-- The static type that a value is where a type is expected; a value that is none is kept. -/
def typeFrom (v : Value) : Action StaticType := do
  match v with
  | .type t => return t
  | v =>
    let s ← Action.store
    match s.label? v with
    | some place => return .labelled place
    | none =>
      Action.updateStore (·.withLabel v)
      return .labelled s.givens.labels.size

/-- A literal; its type is that of its value unless given. -/
def literal (v : Value) (type : Option StaticType) : Action Node := do
  return .literal (← Action.freshMark) v (type.getD (← Action.typeOf v))

/-- A new parameter, different from all others whatever its name. -/
def parameter (name : Value) (type : Option StaticType) : Action Parameter := do
  let uid ← Action.freshUid
  match name with
  | .str mark s => return ⟨uid, s, type.getD .object, mark⟩
  | name =>
    Action.updateStore (·.withParameterName uid name)
    return ⟨uid, "", type.getD .object, 0⟩

/-- Access to a member of a value, or of `owner` where the expression is absent. -/
def member (expression name : Value) (type : Option StaticType) (owner : Value) : Action Node := do
  return .member (← Action.freshMark) expression name owner (type.getD .object)

/-- The first of several members of a vocabulary whose symbol equals a value. -/
def equalTo {α : Type} (v : Value) (symbol : α → String) : List α → Action (Option α)
  | [] => return none
  | a :: as => do
    if ← (Value.ofText (symbol a)).equal v then return some a else equalTo v symbol as

/-- The member of a vocabulary that a value names.  It is looked up by its hash; a value that has
none is compared with one symbol after the other. -/
def named {α : Type} (v : Value) (vocabulary : StaticType) (symbol : α → String)
    (members : List α) : Action α := do
  let hashed : Action (Option α) := do
    v.requireHashable
    match v with
    | .str _ s => return members.find? (symbol · == s)
    | _ => return none
  let found ← Action.handle hashed fun fault =>
    if fault.errorClass.isSubclass .key then pure none
    else if fault.errorClass.isSubclass .type then equalTo v symbol members
    else Action.raise fault
  match found with
  | some a => return a
  | none => Action.fail (.notAMember (← v.shown) vocabulary.name)

/-- The unary operator that a value names: an operator, or its symbol. -/
def unaryOp (v : Value) : Action UnaryOp :=
  match v with
  | .unaryOp op => pure op
  | v => named v .unaryOp UnaryOp.symbol UnaryOp.all

/-- The binary operator that a value names: an operator, or its symbol. -/
def binaryOp (v : Value) : Action BinaryOp :=
  match v with
  | .binaryOp op => pure op
  | v => named v .binaryOp BinaryOp.symbol BinaryOp.all

/-- The kind of node that a value names: a kind, or its symbol. -/
def nodeKind (v : Value) : Action NodeKind :=
  match v with
  | .nodeKind k => pure k
  | v => named v .nodeKind NodeKind.symbol NodeKind.all

/-- A unary node. -/
def unary (op : UnaryOp) (operand : Value) (type : Option StaticType) : Action Node := do
  let type := type.getD (op.resultType operand.staticType)
  return .unary (← Action.freshMark) op operand type

/-- A binary node. -/
def binary (op : BinaryOp) (left right : Value) (type : Option StaticType) : Action Node := do
  let type := type.getD (op.resultType left.staticType right.staticType)
  return .binary (← Action.freshMark) op left right type

/-- A conditional; its type is that of its first branch unless given. -/
def conditional (test ifTrue ifFalse : Value) (type : Option StaticType) : Action Node := do
  return .conditional (← Action.freshMark) test ifTrue ifFalse (type.getD ifTrue.staticType)

/-- A call with the arguments that stand in a tuple with the mark `row`. -/
def callOn (function : Value) (row : Nat) (arguments : List Value) (type : Option StaticType) :
    Action Node := do
  return .call (← Action.freshMark) function row arguments (type.getD .object)

/-- A call. -/
def call (function : Value) (arguments : List Value) (type : Option StaticType) : Action Node := do
  callOn function (← Action.freshMark) arguments type

/-- A lambda over the parameters that stand in a tuple with the mark `row`. -/
def lambdaOver (row : Nat) (parameters : List Value) (body : Value) : Action Node := do
  return .lambda (← Action.freshMark) row parameters body

/-- A lambda. -/
def lambda (parameters : List Value) (body : Value) : Action Node := do
  lambdaOver (← Action.freshMark) parameters body

/-! ### Short-circuit joins -/

/-- The conjunction of two conditions: the right one is evaluated where the left one holds. -/
def andAlso (left right : Value) : Action Node := binary .andAlso left right (some .bool)

/-- The disjunction of two conditions: the right one is evaluated where the left one fails. -/
def orElse (left right : Value) : Action Node := binary .orElse left right (some .bool)

/-! ### Wrapping values -/

/-- A node unchanged, and any other value as a literal. -/
def toNode (v : Value) : Action Node :=
  match v with
  | .node n => pure n
  | v => literal v none

/-- The names of a dotted path, at least one. -/
def pathNames : List Char → List (List Char)
  | [] => [[]]
  | c :: rest =>
    if c = '.' then [] :: pathNames rest
    else match pathNames rest with
      | [] => [[c]]
      | name :: names => (c :: name) :: names

/-- The names of a dotted path as texts.  A path that is a name itself is not cut. -/
def pathTexts (mark : Nat) (dotted : String) : Action (List Value) :=
  match pathNames dotted.toList with
  | [_] => pure [.str mark dotted]
  | names => names.mapM fun name => Action.textPiece (String.ofList name)

/-- A chain of member accesses, one for each name.  The type is that of the last one. -/
def chain (n : Node) (type : Option StaticType) : List Value → Action Node
  | [] => pure n
  | [name] => member (.node n) name type .absent
  | name :: names => do
    let link ← member (.node n) name none .absent
    chain link type names

/-- The member of a value at the end of a dotted path, which is a text with a mark. -/
def path (expression : Value) (mark : Nat) (dotted : String) (type : Option StaticType) :
    Action Node := do
  let names ← pathTexts mark dotted
  chain (← toNode expression) type names

/-- A static member of a class or a module. -/
def static (owner name : Value) (type : Option StaticType) : Action Node :=
  member .absent name type owner

/-- The application of an operator: a unary one to one operand, a binary one to two. -/
def apply (symbol : Value) (operands : List Value) : Action Node := do
  let symbol := match symbol with
    | .binaryOp op => Value.ofText op.symbol
    | .unaryOp op => Value.ofText op.symbol
    | v => v
  let unknown : Action Node := do
    Action.fail (.operandCount operands.length (← symbol.formatted))
  match operands with
  | [x] =>
    symbol.requireHashable
    match symbol with
    | .str _ s =>
      match UnaryOp.ofSymbol? s with
      | some op => unary op (.node (← toNode x)) none
      | none => unknown
    | _ => unknown
  | [x, y] =>
    symbol.requireHashable
    match symbol with
    | .str _ s =>
      match BinaryOp.ofSymbol? s with
      | some op => binary op (.node (← toNode x)) (.node (← toNode y)) none
      | none => unknown
    | _ => unknown
  | _ => unknown

/-- A choice between two values. -/
def cond (test ifTrue ifFalse : Value) : Action Node := do
  conditional (.node (← toNode test)) (.node (← toNode ifTrue)) (.node (← toNode ifFalse)) none

/-- Several values as nodes. -/
def toNodes : List Value → Action (List Node)
  | [] => pure []
  | v :: vs => do
    let n ← toNode v
    return n :: (← toNodes vs)

/-- A call of a function, which may be any value, with arguments. -/
def invoke (function : Value) (arguments : List Value) (type : Option StaticType) :
    Action Node := do
  let f ← toNode function
  let args ← toNodes arguments
  call (.node f) (args.map .node) type

/-- A lambda over parameters. -/
def abstraction (parameters : List Value) (body : Value) : Action Node := do
  lambda parameters (.node (← toNode body))

/-- Joins nodes from left to right. -/
def joinAll (join : Value → Value → Action Node) (first : Node) : List Node → Action Node
  | [] => pure first
  | n :: ns => do
    let joined ← join (.node first) (.node n)
    joinAll join joined ns

/-- Joins conditions from left to right; a literal where there are none. -/
def joinConditions (join : Value → Value → Action Node) (empty : Bool) (conditions : List Value) :
    Action Node := do
  match ← toNodes conditions with
  | [] => literal (.bool empty) none
  | n :: ns => joinAll join n ns

/-- The conjunction of conditions, which holds where there are none. -/
def allOf (conditions : List Value) : Action Node := joinConditions andAlso true conditions

/-- The disjunction of conditions, which fails where there are none. -/
def anyOf (conditions : List Value) : Action Node := joinConditions orElse false conditions

end PredicateTree.Builder
