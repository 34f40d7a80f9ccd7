/-!
# Classes of errors

Every fault belongs to a class (`ErrorClass`), by which handlers and reports tell faults apart.
The classes are ordered by `ErrorClass.isSubclass`: a handler for a class also meets its
subclasses.
-/

namespace PredicateTree

/-- The class of a fault. -/
inductive ErrorClass where
  | any
  | arithmetic
  | lookup
  | type
  | value
  | key
  | index
  | attribute
  | zeroDivision
  | overflow
  | memory
  | runtime
  | recursion
  | tree
  | malformedTree
  | evaluation
  | unboundParameter
  | arityMismatch
deriving DecidableEq, Repr

namespace ErrorClass

/-- All classes. -/
def all : List ErrorClass :=
  [.any, .arithmetic, .lookup, .type, .value, .key, .index, .attribute, .zeroDivision, .overflow,
   .memory, .runtime, .recursion, .tree, .malformedTree, .evaluation, .unboundParameter,
   .arityMismatch]

/-- The written name of a class. -/
def name : ErrorClass → String
  | .any => "Exception"
  | .arithmetic => "ArithmeticError"
  | .lookup => "LookupError"
  | .type => "TypeError"
  | .value => "ValueError"
  | .key => "KeyError"
  | .index => "IndexError"
  | .attribute => "AttributeError"
  | .zeroDivision => "ZeroDivisionError"
  | .overflow => "OverflowError"
  | .memory => "MemoryError"
  | .runtime => "RuntimeError"
  | .recursion => "RecursionError"
  | .tree => "RebindError"
  | .malformedTree => "MalformedTreeError"
  | .evaluation => "EvaluationError"
  | .unboundParameter => "UnboundParameterError"
  | .arityMismatch => "ArityMismatchError"

/-- The class with a given name, if there is one. -/
def ofName? (s : String) : Option ErrorClass := all.find? (·.name == s)

/-- The classes a class refines at once. -/
def parents : ErrorClass → List ErrorClass
  | .any => []
  | .key | .index => [.lookup]
  | .zeroDivision | .overflow => [.arithmetic]
  | .recursion => [.runtime]
  | .malformedTree | .arityMismatch => [.tree, .value]
  | .evaluation => [.tree]
  | .unboundParameter => [.evaluation]
  | _ => [.any]

/-- All classes that a class refines, itself included.  No chain of parents has more than four
links. -/
def ancestors (c : ErrorClass) : List ErrorClass :=
  let up (cs : List ErrorClass) := cs ++ cs.flatMap parents
  up (up (up [c]))

/-- Whether every fault of class `c` is one of class `d`. -/
def isSubclass (c d : ErrorClass) : Bool := d ∈ c.ancestors

theorem mem_all (c : ErrorClass) : c ∈ all := by cases c <;> decide

theorem isSubclass_refl (c : ErrorClass) : c.isSubclass c = true := by cases c <;> decide

theorem isSubclass_any (c : ErrorClass) : c.isSubclass .any = true := by cases c <;> decide

end ErrorClass

end PredicateTree
