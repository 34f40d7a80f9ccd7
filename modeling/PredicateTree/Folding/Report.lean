import PredicateTree.Folding.Trace
import PredicateTree.Tree.Format
import PredicateTree.Value.Operation

/-!
# Reports on folding

What the methods of traces and of their steps answer (`ObjectMethod.call`).  They read the
attributes of their object as they are, which a caller may have changed, and they call the methods
of what they find there.
-/

namespace PredicateTree

namespace FoldStep

/-- A step as a dictionary: its two sides as texts, and the value that was found. -/
def toDict (step : Value) : Action Value := do
  let before ← format false (← step.readAttribute "before")
  let after ← format false (← step.readAttribute "after")
  let v ← (← step.readAttribute "after").readAttribute "value"
  Action.newDict
    [(.ofText "before", before), (.ofText "after", after), (.ofText "value", v)]

end FoldStep

namespace FoldTrace

/-- The length of an attribute. -/
def lengthOf (trace : Value) (name : String) : Action Nat := do
  (← trace.readAttribute name).length

/-- The tree in an attribute as a text. -/
def treeTextOf (trace : Value) (name : String) : Action String := do
  (← (← trace.readAttribute name).treeText).formatted

/-- A trace on a single line: the tree before, the number of steps, and the tree after. -/
def compactText (trace : Value) : Action String := do
  let before ← treeTextOf trace "initial"
  let count ← lengthOf trace "steps"
  let after ← treeTextOf trace "final"
  return before ++ " --[" ++ toString count ++ " folds]--> " ++ after

/-- What a trace comes to, in one sentence. -/
def summary (trace : Value) : Action String := do
  if ← (← trace.readAttribute "steps").truth then
    let folded ← lengthOf trace "steps"
    let left ← lengthOf trace "skipped"
    return s!"{folded} sub-trees folded, {left} left in place"
  else return "No folding performed"

/-- A step as the dictionary that its own method makes of it. -/
def stepDict (step : Value) : Action Value := do
  Action.call (← step.readAttribute "to_dict") []

/-- A trace as a dictionary. -/
def toDict (trace : Value) : Action Value := do
  let initial ← format false (← trace.readAttribute "initial")
  let final ← format false (← trace.readAttribute "final")
  let steps ← (← (← trace.readAttribute "steps").supply).map stepDict
  let skipped ← (← (← trace.readAttribute "skipped").supply).map (format false)
  let steps ← Action.newList steps
  let skipped ← Action.newList skipped
  Action.newDict [(.ofText "initial", initial), (.ofText "final", final),
    (.ofText "steps", steps), (.ofText "skipped", skipped)]

/-- Adds a step to those of a trace: to a list as its last item, to any other value as that value
lets it. -/
def recordStep (trace step : Value) : Action Unit := do
  match ← trace.readAttribute "steps" with
  | .list steps => Action.updateStore fun s => s.withItem steps step
  | v =>
    let append ← v.readAttribute "append"
    let _ ← Action.call append [step]

/-- A trace in a style: the compact one, or that in which it is shown. -/
def formatted (trace style : Value) : Action Value := do
  if ← (← style.equals (.ofText "compact")).truth then Action.newText (← compactText trace)
  else trace.shownText

end FoldTrace

namespace ObjectMethod

/-- The names of the arguments that a method requires; the first is the object. -/
def required : ObjectMethod → List String
  | .addStep => ["self", "step"]
  | _ => ["self"]

/-- The number of arguments of a method that may be left out. -/
def optional : ObjectMethod → Nat
  | .format | .compile => 1
  | _ => 0

/-- Calls a method; `compile` compiles a lambda with the meanings that a value gives to its
operators. -/
def call (compile : Value → Value → Action Value) (m : ObjectMethod) (args : List Value) :
    Action Value := do
  let name := (Value.objectMethod m).calledName (← Action.store)
  checkArguments name m.required m.optional args.length
  let object := args.headD .absent
  match m with
  | .addStep =>
    FoldTrace.recordStep object (args.getD 1 .absent)
    return .absent
  | .format => FoldTrace.formatted object (args.getD 1 (.ofText "verbose"))
  | .summary => Action.newText (← FoldTrace.summary object)
  | .traceToDict => FoldTrace.toDict object
  | .stepToDict => FoldStep.toDict object
  | .compile => compile object (args.getD 1 .absent)

end ObjectMethod

end PredicateTree
