import PredicateTree.Value.Attribute

/-!
# Changing values

Attributes of objects can be set and deleted, and so can those of functions, of types of a caller
and of modules (`Value.setAttribute`, `Value.deleteAttribute`); everything else refuses.  The class of
an object may take this over, and an object may change its class (`Value.setClass`).
-/

namespace PredicateTree

/-- Attributes with one of them set; one that is there keeps its place. -/
def withAttribute (name : String) (v : Value) : Attributes → Attributes
  | [] => [(name, v)]
  | (a, w) :: rest => if a = name then (a, v) :: rest else (a, w) :: withAttribute name v rest

/-- Attributes without one of them. -/
def withoutAttribute (name : String) (attributes : Attributes) : Attributes :=
  attributes.filter fun e => e.1 != name

/-- Whether an attribute is a name that a function or a type always has. -/
def isOwnName (name : String) : Bool := name == "__name__" || name == "__qualname__"

/-- Why a type does not take a value of another type as one of its names. -/
def StaticType.refusesName? (t found : StaticType) (name : String) (w : Value) : Option Failure :=
  if isOwnName name then
    match w with
    | .str _ s => if name = "__name__" ∧ s.contains '\x00' then some .typeNameWithNull else none
    | _ => some (.typeNameNotText t name found)
  else none

/-- Whether objects of a type can become ones of another, and others ones of it. -/
def StaticType.isChangeable : StaticType → Bool
  | .custom _ | .made .. | .ambiguous | .eqAmbiguous | .foldTrace | .foldStep => true
  | _ => false

namespace Value

/-- Whether a value is a function that takes attributes. -/
def isPlainFunction (v : Value) : Bool := v.fixedType == .function

/-- Why a value has no place for an attribute of its own: `deleted` says that the attribute should
go, not come.  Members of enumerations have theirs by definition, and nodes are immutable. -/
def refusesAttribute? (s : Store) (deleted : Bool) (v : Value) (name : String) : Option Failure :=
  let fixed : Option Failure :=
    if name = "value" ∨ name = "name" then some (.enumerationAttribute deleted name) else none
  match v with
  | .node n => some (.immutable n.className)
  | .object _ => if s.typeOf v = .object then some (v.lacks s name) else none
  | .type t =>
    if t.isBuiltIn then some (.immutableType t name)
    else if (enumerationMember t name).isSome then
      some (if deleted then .deletedMember t name else .reassignedMember name)
    else if deleted && (isOwnName name || name == "__module__") then
      some (.undeletedName t name)
    else none
  | .binaryOp op =>
    if (operatorProperty? op name).isSome then some (.computedAttribute deleted .binaryOp name)
    else fixed
  | .unaryOp _ | .nodeKind _ => fixed
  | .mathematics => none
  | .bool _ | .int .. =>
    some (if (v.naturalAttribute? s name).isSome then .notWritable .int name else v.lacks s name)
  | .str .. =>
    some (if (v.naturalAttribute? s name).isSome then .readOnly .str name else v.lacks s name)
  | .bound .. => some (.missingAttribute (.instanceOf .method) name)
  | v =>
    if v.isPlainFunction then if deleted && isOwnName name then some (.nameNotText name) else none
    else some (if (v.naturalAttribute? s name).isSome then .notWritable v.fixedType name
      else v.lacks s name)

/-- Why a value does not take another as one of its attributes. -/
def refusesValue? (s : Store) (v : Value) (name : String) (w : Value) : Option Failure :=
  match v, w with
  | .type t, w => t.refusesName? (s.typeOf w) name w
  | _, .str .. => none
  | v, _ => if v.isPlainFunction && isOwnName name then some (.nameNotText name) else none

/-- Whether an attribute of a value is its class, which no attribute can hide. -/
def isClassOf (v : Value) (name : String) : Bool :=
  name == "__class__" && match v with
    | .node _ => false
    | .type t => !t.isBuiltIn
    | _ => true

/-- Makes a value one of another class. -/
def setClass (v w : Value) : Action Unit := do
  let old ← Action.typeOf v
  match v, w with
  | .object address, .type new =>
    if old.isChangeable && new.isChangeable then
      Action.updateStore (·.withChangedObject address fun o => { o with type := new })
    else if old.isChangeable && !new.isBuiltIn then Action.fail (.classLayout old new)
    else Action.fail .classAssignment
  | _, .type _ => Action.fail .classAssignment
  | _, w => Action.fail (.classNotAType (← Action.typeOf w))

/-- Sets an attribute of a value. -/
def setAttribute (v : Value) (name : String) (w : Value) : Action Unit := do
  match ← v.askSpecial "__setattr__" [.ofText name, w] with
  | some _ => return ()
  | none =>
    if v.isClassOf name then v.setClass w
    else
      let s ← Action.store
      match (v.refusesAttribute? s false name).or (v.refusesValue? s name w) with
      | some failure => Action.fail failure
      | none =>
        Action.updateStore fun s => s.withAttributes v (withAttribute name w (s.attributes v))

/-- A failure for the lack of an attribute that should be deleted. -/
def lacksToDelete (s : Store) (v : Value) (name : String) : Failure :=
  match v with
  | .type t => .missingAttribute (.typeItself t) name
  | v => .missingAttribute (.deletedFrom (s.typeOf v)) name

/-- Deletes an attribute of a value. -/
def deleteAttribute (v : Value) (name : String) : Action Unit := do
  match ← v.askSpecial "__delattr__" [.ofText name] with
  | some _ => return ()
  | none =>
    if v.isClassOf name then Action.fail .classDeletion
    else
      let s ← Action.store
      match v.refusesAttribute? s true name with
      | some failure => Action.fail failure
      | none =>
        if (s.attribute? v name).isSome then
          Action.updateStore fun s => s.withAttributes v (withoutAttribute name (s.attributes v))
        else Action.fail (v.lacksToDelete s name)

end Value

end PredicateTree
