import PredicateTree.Evaluation.Compile
import PredicateTree.Evaluation.Host
import PredicateTree.Folding.Report

/-!
# Running code

Code runs in an environment that gives parameters their values (`Code.run`).  Operands are evaluated
once each and from left to right, before anything is applied; a short-circuit operator and a
conditional evaluate only what they need; a lambda keeps the environment it is evaluated in.

A failure is reported against the node it happened at.  An evaluation fault that comes out of an
operator, a truth test or a call names its node already and passes unchanged; a failing read is
always reported against the member.

A call is one step (`Host.apply`), which leaves the calls that it makes to its caller.  Calls nest no
deeper than the depth of the `Machine`; beyond it a run is out of fuel (`Machine.callWithin`).
-/

namespace PredicateTree

/-- Reports the faults of an action against a node.  Faults that `passes` holds of go on
unchanged. -/
def reporting {α : Type} (host : Host) (site : Node) (activity : Action Activity)
    (passes : Fault → Bool) (x : Action α) : Action α :=
  x.handle fun fault =>
    if passes fault then Action.raise fault
    else do
      let activity ← activity
      let shown ← host.describe site
      Action.raise (.failedAt site shown activity fault)

/-- Applies something at a node. -/
def applyingAt {α : Type} (host : Host) (site : Node) (x : Action α) : Action α :=
  reporting host site (pure .evaluating) Fault.isEvaluation x

/-- Reads a member at a node. -/
def readingAt (host : Host) (site : Node) (name v : Value) : Action Value :=
  reporting host site (do return .reading (← host.spell name)) (fun _ => false)
    (host.member v name)

/-- Tests the truth of a value at a node. -/
def testingAt (host : Host) (site : Node) (v : Value) : Action Bool :=
  applyingAt host site (host.truth v)

/-- Fails for a parameter that has no value. -/
def unboundAt (host : Host) (p : Parameter) : Action Value := do
  let name ← host.spell ((← Action.store).parameterName p)
  Action.raise (.unbound (.node (.parameter p)) name)

mutual

/-- Runs code in an environment. -/
def Code.run (host : Host) : Code → Environment → Action Value
  | .constant v, _ => pure v
  | .variable p, env =>
    match env.get? p with
    | some v => pure v
    | none => unboundAt host p
  | .readMember site target name, env => do
    let v ← target.run host env
    readingAt host site name v
  | .readStatic site owner name, _ => readingAt host site name owner
  | .applyUnary site f operand, env => do
    let v ← operand.run host env
    applyingAt host site (Action.call f [v])
  | .applyBinary site f left right, env => do
    let v ← left.run host env
    let w ← right.run host env
    applyingAt host site (Action.call f [v, w])
  | .both site left right, env => do
    let v ← left.run host env
    if ← testingAt host site v then
      let w ← right.run host env
      return .bool (← testingAt host site w)
    else return .bool false
  | .either site left right, env => do
    let v ← left.run host env
    if ← testingAt host site v then return .bool true
    else
      let w ← right.run host env
      return .bool (← testingAt host site w)
  | .choose site test ifTrue ifFalse, env => do
    let v ← test.run host env
    if ← testingAt host site v then ifTrue.run host env else ifFalse.run host env
  | .call site function arguments, env => do
    let f ← function.run host env
    let args ← runAll host arguments env
    applyingAt host site (Action.call f args)
  | .abstraction parameters body, env => do
    return .closure (← Action.freshMark) parameters body env
termination_by structural code => code

/-- Runs several pieces of code, one after the other. -/
def runAll (host : Host) : List Code → Environment → Action (List Value)
  | [], _ => pure []
  | code :: codes, env => do
    let v ← code.run host env
    let vs ← runAll host codes env
    return v :: vs
termination_by structural codes => codes

end

/-! ### Calls -/

/-- Checks and compiles a lambda, and logs it. -/
def compileLogged (t : OperatorTable) (parameters : List Value) (v : Value) : Action Code := do
  let code ← compileTree t v
  Action.note (.compiled parameters.length)
  return code

/-- The code of a lambda with the meanings of a table. -/
def codeOf (v : Value) (table : Action OperatorTable) : Action Code := do
  let (_, parameters, _) ← requireLambda "compile_lambda expects" v
  let t ← table
  compileLogged t parameters v

namespace Host

/-- The function that a lambda which is called itself is compiled to, with the standard meanings.
That is done at its first call. -/
def compiled (host : Host) (mark : Nat) (parameters : List Value) (v : Value) : Action Value := do
  match (← Action.store).compiled? mark with
  | some f => return f
  | none =>
    let code ← compileLogged .standard parameters v
    let f ← code.run host []
    Action.updateStore (·.withCompiled mark f)
    return f

/-- The function of a method that compiles lambdas, with the meanings that a value gives to the
operators. -/
def compileMethod (host : Host) (v table : Value) : Action Value := do
  (← codeOf v (OperatorTable.ofValue table)).run host []

/-- Calls a function, or an object whose class says what a call of it does.  The calls that it makes
itself are left to whoever runs this. -/
def apply (host : Host) (f : Value) (args : List Value) : Action Value := do
  match f with
  | .closure _ parameters body env =>
    if args.length = parameters.length then
      body.run host (Environment.extend env parameters args)
    else Action.fail (.arguments (.lambda parameters.length args.length))
  | .node (.lambda mark row parameters body) =>
    let g ← host.compiled mark parameters (.node (.lambda mark row parameters body))
    Action.call g args
  | .bound _ receiver g => Action.call g (receiver :: args)
  | .object address =>
    match (Value.object address).special? (← Action.store) "__call__" with
    | some g => Action.call g args
    | none => host.call (.object address) args
  | .type t => t.call args
  | .objectMethod m => m.call host.compileMethod args
  | f => host.call f args

end Host

/-- What runs code: a host, and the depth to which calls may nest. -/
structure Machine where
  host : Host
  depth : Nat

namespace Machine

/-- The machine over the values of this library. -/
def standard : Machine := ⟨Host.standard, 1000⟩

/-- Calls functions whose calls nest so deep at most. -/
def callWithin (host : Host) : Nat → Caller
  | 0, _, _, s => (.exhausted, s)
  | depth + 1, f, args, s => (host.apply f args).run (callWithin host depth) s

/-- Calls functions. -/
def caller (M : Machine) : Caller := callWithin M.host M.depth

/-- Compiles a lambda to a function. -/
def compileLambda (M : Machine) (overrides : List (Value × Value)) (v : Value) : Action Value := do
  (← codeOf v (OperatorTable.resolve overrides)).run M.host []

/-- Calls a value with overrides of operators, or nothing, under their name.  The method that
compiles lambdas takes them, and a dictionary keeps what it is given under a name. -/
def callWithOperators (M : Machine) (f : Value) (overrides : Option (List (Value × Value))) :
    Action Value := do
  let name := "operators"
  match f with
  | .bound _ v (.objectMethod .compile) => M.compileLambda (overrides.getD []) v
  | .objectMethod .compile =>
    Action.fail (.arguments (.missing (f.calledName (← Action.store)) ["self"]))
  | .type .dict =>
    let given ← match overrides with
      | some entries => Action.newDict entries
      | none => pure .absent
    Action.newDict [(.ofText name, given)]
  | f => Action.fail (f.refusesNamed (← Action.store) name)

/-- The environment that a dictionary of bindings describes; only parameters can be looked up. -/
def environmentOf (bindings : List (Value × Value)) : Environment :=
  bindings.filterMap fun (k, v) => k.parameter?.map (·, v)

/-- The value of a tree, given values for its free parameters. -/
def evaluate (M : Machine) (v : Value) (bindings overrides : List (Value × Value)) :
    Action Value := do
  let t ← OperatorTable.resolve overrides
  let code ← compileTree t v
  code.run M.host (environmentOf bindings)

end Machine

/-- Calls a method of a value, or an attribute that was put in its place. -/
def Value.callMethod (v : Value) (name : String) (args : List Value) : Action Value := do
  Action.call (← v.readAttribute name) args

end PredicateTree
