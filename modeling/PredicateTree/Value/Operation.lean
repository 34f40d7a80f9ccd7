import PredicateTree.Value.Template
import PredicateTree.Number.Arithmetic
import PredicateTree.Number.Bitwise
import PredicateTree.Tree.Equality
import PredicateTree.Compose

/-!
# Operators on values

The meaning of every operator on the values themselves (`BinaryOp.applyTo`, `UnaryOp.applyTo`).
Numbers are computed with and compared, texts, lists and tuples are joined and repeated,
dictionaries are merged, and lambdas are composed.  The classes of objects may say what an operator
does with them (`BinaryOp.asked?`).  Every other pair of operands is refused by the types of both.
-/

namespace PredicateTree

namespace Value

/-- The value of a numeral. -/
def ofNumeral : Numeral → Action Value
  | .int i => Action.newInt i
  | .float x => Action.newFloat x

/-- Whether a value is a text, a list or a tuple. -/
def isSequence : Value → Bool
  | .str .. | .list _ | .tuple .. => true
  | _ => false

/-- Two values compared for equality.  A parameter on the left answers for itself, and a class may
give any answer for its objects. -/
def equals (a b : Value) : Action Value := do
  match a, b with
  | .node (.parameter p), b => return .bool (b.parameter? == some p)
  | .node m, .node n => return .bool (← structurallyEqual (.node m) (.node n))
  | a, b =>
    if a.isObject || b.isObject then
      return (← askedEqual? a b).getD (.bool (a.identical b))
    else return .bool (← a.equal b)

/-- Two values compared for inequality: the answer to equality turned round, unless a class gives
another for its objects. -/
def differs (a b : Value) : Action Value := do
  match a, b with
  | .node _, _ => return .bool (!(← (← equals a b).truth))
  | a, b =>
    if a.isObject || b.isObject then
      return (← askedDiffers? a b).getD (.bool (!a.identical b))
    else return .bool (!(← a.equal b))

end Value

/-- A numeric operation as an operation on values. -/
def computed (r : Except Failure Numeral) : Action Value :=
  match r with
  | .ok n => Value.ofNumeral n
  | .error f => Action.fail f

namespace BinaryOp

/-- How a refusal of operands names the operator. -/
def refusalSymbol : BinaryOp → String
  | .power => "** or pow()"
  | op => op.symbol

/-- The name of an operator within the special names under which classes say what it does. -/
def specialName : BinaryOp → String
  | .add => "add"
  | .subtract => "sub"
  | .multiply => "mul"
  | .divide => "truediv"
  | .floorDivide => "floordiv"
  | .modulo => "mod"
  | .power => "pow"
  | .and => "and"
  | .or => "or"
  | .xor => "xor"
  | op => op.symbol

/-- What the classes of two operands answer.  The left one is asked first, unless the type of the
right one extends that of the left one and has an answer of its own; an operand of the same type is
not asked from the right. -/
def asked? (op : BinaryOp) (a b : Value) : Action (Option Value) := do
  let s ← Action.store
  let (t, u) := (s.typeOf a, s.typeOf b)
  let (direct, reflected) := ("__" ++ op.specialName ++ "__", "__r" ++ op.specialName ++ "__")
  let ofRight := s.typeAttribute? u reflected
  let ownOfRight : Bool := match ofRight, s.typeAttribute? t reflected with
    | some f, some g => !f.identical g
    | some _, none => true
    | none, _ => false
  let ask (v w : Value) (name : String) : Action (Option Value) := v.askSpecial name [w]
  if t ≠ u ∧ s.extends u t ∧ ownOfRight then ask b a reflected
  else
    match ← ask a b direct with
    | some answer => return some answer
    | none => if t = u then return none else ask b a reflected

/-- Refuses two operands. -/
def refuse (op : BinaryOp) (a b : Value) : Action Value := do
  Action.fail (.unsupportedOperands op.refusalSymbol (← Action.typeOf a) (← Action.typeOf b))

/-- What the class of an operand answers, or else what `otherwise` says. -/
def askedOr (op : BinaryOp) (a b : Value) (otherwise : Action Value) : Action Value :=
  if a.isObject || b.isObject then do
    match ← op.asked? a b with
    | some answer => return answer
    | none => otherwise
  else otherwise

/-- The numeric meaning of an arithmetic operator. -/
def onNumerals : BinaryOp → Numeral → Numeral → Except Failure Numeral
  | .subtract => Numeral.subtract
  | .multiply => Numeral.multiply
  | .divide => Numeral.divide
  | .floorDivide => Numeral.floorDivide
  | .modulo => Numeral.modulo
  | .power => Numeral.power
  | _ => Numeral.add

/-- An arithmetic operator on two values, or `otherwise` where one is no number and no class
answers. -/
def arithmetic (op : BinaryOp) (a b : Value) (otherwise : Action Value) : Action Value :=
  match a.numeral?, b.numeral? with
  | some x, some y => computed (op.onNumerals x y)
  | _, _ => op.askedOr a b otherwise

/-- Two tuples joined; one that is joined with nothing stays itself. -/
def joinedTuples (a b : Value) (xs ys : List Value) : Action Value :=
  if xs.isEmpty then pure b else if ys.isEmpty then pure a else Action.newTuple (xs ++ ys)

/-- Two texts joined; one that is joined with nothing stays itself. -/
def joinedTexts (a b : Value) (s t : String) : Action Value :=
  if s.isEmpty then pure b else if t.isEmpty then pure a else Action.newText (s ++ t)

/-- The sum of two values: numbers are added, and sequences of one type are joined. -/
def sum (a b : Value) : Action Value :=
  arithmetic .add a b <|
    match a, b with
    | .str m s, .str n t => joinedTexts (.str m s) (.str n t) s t
    | .list x, .list y => Action.joinedLists x y
    | .tuple m xs, .tuple n ys => joinedTuples (.tuple m xs) (.tuple n ys) xs ys
    | a, b => do
      if a.isSequence then Action.fail (.concatenation a.fixedType (← Action.typeOf b))
      else refuse .add a b

/-- A sequence repeated: that of half as many repetitions stands twice. -/
@[specialize]
def repetition {α : Type} [Append α] (empty a : α) (n : Nat) : α :=
  if n = 0 then empty
  else
    let half := repetition empty a (n / 2)
    if n % 2 = 0 then half ++ half else half ++ half ++ a
termination_by n

theorem toList_repetition {α β : Type} [Append α] {empty : α} (toList : α → List β)
    (toList_empty : toList empty = [])
    (toList_append : ∀ x y, toList (x ++ y) = toList x ++ toList y) (a : α) (n : Nat) :
    toList (repetition empty a n) = (List.replicate n (toList a)).flatten := by
  induction n using Nat.strongRecOn with
  | _ n ih =>
    rw [repetition]
    split
    · rename_i none
      rw [none, toList_empty]
      rfl
    · rename_i some
      have half := ih (n / 2) (Nat.div_lt_self (Nat.pos_of_ne_zero some) Nat.one_lt_two)
      split
      · rename_i even
        have twice : n = n / 2 + n / 2 := by omega
        rw [toList_append, half, ← List.flatten_append, List.replicate_append_replicate, ← twice]
      · rename_i odd
        have twice : n = n / 2 + n / 2 + 1 := by omega
        rw [toList_append, toList_append, half, ← List.flatten_append,
          List.replicate_append_replicate]
        conv => rhs; rw [twice, List.replicate_succ', List.flatten_append]
        rw [List.flatten_singleton]

/-- A sequence repeated; a negative count repeats it no times, and a text or a tuple that is
repeated once stays itself. -/
def repeated (sequence : Value) (count : Int) : Action Value := do
  let n := count.toNat
  if !Number.fitsWord count then Action.fail .countTooLarge
  else match sequence with
    | .str mark s =>
      if !Number.fitsWord (n * s.length) then Action.fail .repetitionTooLong
      else if n = 1 then return .str mark s
      else
        requireRoom (n * s.length)
        Action.newText (repetition "" s n)
    | .list address =>
      let xs := ((← Action.store).items address).toArray
      requireRoom (n * xs.size)
      Action.newRope (.items (if xs.isEmpty then xs else repetition #[] xs n))
    | .tuple mark xs =>
      if n = 1 then return .tuple mark xs
      else
        requireRoom (n * xs.length)
        Action.newTuple (if xs.isEmpty then xs else repetition [] xs n)
    | v => return v

/-- The product of two values: numbers are multiplied, and a sequence is repeated. -/
def product (a b : Value) : Action Value :=
  arithmetic .multiply a b <|
    let repeatBy (sequence count : Value) : Action Value := do
      match ← count.index? with
      | some n => repeated sequence n
      | none => Action.fail (.repetition (← Action.typeOf count))
    if a.isSequence then repeatBy a b
    else if b.isSequence then repeatBy b a
    else refuse .multiply a b

/-- Whether the sizes of two integers, in digits of thirty bits and by the first digit, show at once
that the first one is its own remainder.  Two integers of one digit are computed with. -/
def isOwnRemainder (i j : Int) : Bool :=
  let digits (n : Nat) : Nat := n.log2 / 30
  let (m, n) := (digits i.natAbs, digits j.natAbs)
  let smaller := m < n || m = n && i.natAbs >>> (30 * m) < j.natAbs >>> (30 * n)
  0 < n && smaller && (i < 0) = (j < 0)

/-- The remainder of two numbers, or a template filled with a value. -/
def remainder (a b : Value) : Action Value :=
  match a, b with
  | .str mark s, b => Template.format mark s b
  | .int m i, .int n j =>
    if isOwnRemainder i j then pure (.int m i)
    else arithmetic .modulo (.int m i) (.int n j) (refuse .modulo a b)
  | a, b => arithmetic .modulo a b (refuse .modulo a b)

/-- The meaning of a bitwise operator on integers. -/
def onBits : BinaryOp → Int → Int → Int
  | .or => Number.bitOr
  | .xor => Number.bitXor
  | _ => Number.bitAnd

/-- A bitwise operator on truth values or integers, or `otherwise`. -/
def bitwise (op : BinaryOp) (a b : Value) (otherwise : Action Value) : Action Value :=
  match a, b with
  | .bool x, .bool y =>
    let i := op.onBits (if x then 1 else 0) (if y then 1 else 0)
    pure (.bool (i != 0))
  | a, b =>
    match a.numeral?, b.numeral? with
    | some (.int i), some (.int j) => Action.newInt (op.onBits i j)
    | _, _ => op.askedOr (if op = .or then a.asDict else a) b otherwise

/-- The types between which a value chooses, if it can stand in a choice. -/
def choices? : Value → Option (List StaticType)
  | .absent => some [.absent]
  | .type t => some [t]
  | .union _ members => some members
  | _ => none

/-- The choice between the types of two values, each type once; of a single type it is the type
itself. -/
def choice (ts us : List StaticType) : Action Value := do
  match (ts ++ us).foldl (fun seen t => if seen.contains t then seen else seen ++ [t]) [] with
  | [t] => return .type t
  | members => return .union (← Action.freshMark) members

/-- Whether a value is a lambda. -/
def isLambda : Value → Bool
  | .node (.lambda ..) => true
  | _ => false

/-- The meet of two values: of truth values or integers, or the conjunction of lambdas. -/
def meet (a b : Value) : Action Value :=
  if isLambda a then do return .node (← conjunction a b)
  else bitwise .and a b (refuse .and a b)

/-- The join of two values: of truth values or integers, of dictionaries, of types, or the
disjunction of lambdas. -/
def join (a b : Value) : Action Value :=
  if isLambda a then do return .node (← disjunction a b)
  else bitwise .or a b <|
    match a.asDict, b.asDict with
    | .dict _ d, .dict _ e => do Action.newDict (← Entries.merge d e)
    | .absent, .absent => refuse .or a b
    | a, b =>
      match choices? a, choices? b with
      | some ts, some us => choice ts us
      | _, _ => refuse .or a b

/-- The meaning of a binary operator.  Both operands are values already, so for the short-circuit
operators this is the truth of both or of either. -/
def applyTo (op : BinaryOp) (a b : Value) : Action Value :=
  match op with
  | .add => sum a b
  | .subtract => arithmetic .subtract a b (refuse .subtract a b)
  | .multiply => product a b
  | .divide => arithmetic .divide a b (refuse .divide a b)
  | .floorDivide => arithmetic .floorDivide a b (refuse .floorDivide a b)
  | .modulo => remainder a b
  | .power => arithmetic .power a b (refuse .power a b)
  | .equal => a.equals b
  | .notEqual => a.differs b
  | .less => a.ordered .less b
  | .lessEqual => a.ordered .lessEqual b
  | .greater => a.ordered .greater b
  | .greaterEqual => a.ordered .greaterEqual b
  | .contains => do return .bool (← a.isIn b)
  | .and => meet a b
  | .or => join a b
  | .xor => bitwise .xor a b (refuse .xor a b)
  | .andAlso => do if ← a.truth then return .bool (← b.truth) else return .bool false
  | .orElse => do if ← a.truth then return .bool true else return .bool (← b.truth)

end BinaryOp

namespace UnaryOp

/-- What the class of an operand answers under a special name; it refuses where there is no
answer. -/
def asked (a : Value) (name operation : String) : Action Value := do
  match ← a.askSpecial name [] with
  | some answer => return answer
  | none => Action.fail (.unsupportedOperand operation (← Action.typeOf a))

/-- The meaning of a unary operator. -/
def applyTo (op : UnaryOp) (a : Value) : Action Value :=
  match op with
  | .not => do return .bool (!(← a.truth))
  | .negate =>
    match a.numeral? with
    | some n => Value.ofNumeral n.negate
    | none => asked a "__neg__" "unary -"
  | .invert =>
    match a.numeral? with
    | some (.int i) => Action.newInt (Number.complement i)
    | _ => asked a "__invert__" "unary ~"

end UnaryOp

namespace OperatorKey

/-- Calls the meaning of an operator with arguments. -/
def call (key : OperatorKey) (args : List Value) : Action Value :=
  match key with
  | .binary op => do
    if op = .contains then checkArguments key.functionName ["item", "container"] 0 args.length
    match args with
    | [a, b] => op.applyTo a b
    | _ => Action.fail (.arguments (.expectedExactly key.functionName 2 args.length))
  | .unary op =>
    match args with
    | [a] => op.applyTo a
    | _ => Action.fail (.arguments (.exactlyOne ("_operator." ++ key.functionName) args.length))

end OperatorKey

end PredicateTree
