import PredicateTree.Tree
import PredicateTree.Failure
import PredicateTree.Text.Quoted

/-!
# Faults

Everything that can end a computation on trees: a failure of an operation on values, an error that
a caller's function raises, a malformed tree, an evaluation that failed at a node, a parameter
without a value, and lambdas of different arity (`Fault`).  A fault at a node keeps the fault that
caused it.
-/

namespace PredicateTree

/-- What is wrong with a malformed tree. -/
inductive Defect where
  /-- A value stands where a node is expected. -/
  | notANode (t : StaticType)
  /-- A node lacks a required child. -/
  | missingChild (className field : String)
  /-- A child is no node. -/
  | strayChild (className field shown : String)
  /-- A lambda declares something that is no parameter. -/
  | notAParameter (field shown : String)
  /-- A node is of a kind outside the vocabulary. -/
  | unknownKind (shown : String)
  /-- A static member has no owner to be read from. -/
  | noOwner (member : String)

/-- What was being done at a node when it failed. -/
inductive Activity where
  | evaluating
  | reading (member : String)

/-- The reason for which a computation ended without a value. -/
inductive Fault where
  /-- An operation on values failed. -/
  | failure (f : Failure)
  /-- A function or an attribute of a caller failed. -/
  | raised (error : ErrorClass) (message : String)
  /-- A tree is malformed; `subject` is the node, or the value in the place of a node. -/
  | malformed (defect : Defect) (subject : Value)
  /-- Evaluation failed at the node `site`, whose text is `shown`. -/
  | failedAt (site : Node) (shown : String) (activity : Activity) (cause : Fault)
  /-- A parameter, or what stands for one, has no value. -/
  | unbound (subject : Value) (name : String)
  /-- Two lambdas that should agree take different numbers of parameters. -/
  | arity (expected actual : Int) (note : Option String)

namespace Defect

/-- The wording of a defect. -/
def message (naming : TypeNaming) : Defect → String
  | .notANode t => s!"expected an expression node, got {(naming t).name}"
  | .missingChild c field => s!"{c} is missing its {field}"
  | .strayChild c field shown => s!"{c}.{field} is not a node: {shown}"
  | .notAParameter field shown => s!"Lambda.{field} is not a parameter: {shown}"
  | .unknownKind shown => s!"unknown node kind: {shown}"
  | .noOwner member => s!"static member '{member}' has no owner"

end Defect

namespace Fault

/-- The fault that a function or an attribute of a caller ends with.  A mismatch of arities has to
say of which, so these are made up. -/
def ofError (error : ErrorClass) (message : String) : Fault :=
  match error with
  | .arityMismatch => .arity 1 2 (some message)
  | error => .raised error message

/-- The class of a fault. -/
def errorClass : Fault → ErrorClass
  | .failure f => f.errorClass
  | .raised e _ => e
  | .malformed .. => .malformedTree
  | .failedAt .. => .evaluation
  | .unbound .. => .unboundParameter
  | .arity .. => .arityMismatch

/-- Whether a fault says that an evaluation failed.  Such a fault already names the node at which
it happened, so the nodes around it pass it on unchanged. -/
def isEvaluation (f : Fault) : Bool := f.errorClass.isSubclass .evaluation

/-- A failure of an operation on values is no fault of evaluation until it is reported at a node. -/
theorem isEvaluation_failure (f : Failure) : (failure f).isEvaluation = false := by
  change f.errorClass.isSubclass .evaluation = false
  unfold Failure.errorClass
  split <;> rfl

theorem errorClass_failure_ne (f : Failure) : (failure f).errorClass ≠ .unboundParameter := by
  intro h
  have hf := isEvaluation_failure f
  rw [isEvaluation, h] at hf
  cases hf

/-- The wording of a fault. -/
def message (naming : TypeNaming) : Fault → String
  | .failure f => f.message naming
  | .raised .key m => Text.quoted m
  | .raised _ m => m
  | .malformed d _ => d.message naming
  | .failedAt _ shown activity cause =>
    let start := match activity with
      | .evaluating => "evaluating " ++ shown
      | .reading member => "reading member '" ++ member ++ "' in " ++ shown
    start ++ " raised " ++ cause.errorClass.name ++ ": " ++ cause.message naming
  | .unbound _ name => "parameter '" ++ name ++ "' has no bound value"
  | .arity expected actual note =>
    match note with
    | some "" | none =>
      s!"cannot compose lambdas of different arity: {expected} != {actual}"
    | some text => text

/-- The node, or the value in its place, that a fault of a tree is about. -/
def subject : Fault → Option Value
  | .malformed _ v => some v
  | .failedAt site .. => some (.node site)
  | .unbound v _ => some v
  | .raised .malformedTree _ | .raised .evaluation _ => some .absent
  | _ => none

/-- The fault that caused a fault. -/
def cause : Fault → Option Fault
  | .failedAt _ _ _ c => some c
  | _ => none

end Fault

/-- The number of items, or of characters, that fit into memory. -/
def room : Nat := 0x10000000

/-- Fails for more items, or characters, than fit into memory. -/
def requireRoom (n : Nat) : Except Fault Unit :=
  if n ≤ room then .ok () else .error (.failure .outOfMemory)

/-- Fails with a wrong number of arguments unless all that a function requires are given, and at
most so many optional ones more. -/
def checkArguments (function : String) (required : List String) (optional given : Nat) :
    Except Fault Unit :=
  let most := required.length + optional
  if given < required.length then
    .error (.failure (.arguments (.missing function (required.drop given))))
  else if given ≤ most then .ok ()
  else if optional = 0 then .error (.failure (.arguments (.tooMany function most given)))
  else .error (.failure (.arguments (.tooManyBetween function required.length most given)))

/-- A computation that goes on after another has succeeded only if that one has. -/
theorem exists_of_bind_eq_ok {ε α β : Type} {x : Except ε α} {k : α → Except ε β} {b : β}
    (h : x >>= k = .ok b) : ∃ a, x = .ok a ∧ k a = .ok b := by
  cases x with
  | error f => cases h
  | ok a => exact ⟨a, rfl, h⟩

end PredicateTree
