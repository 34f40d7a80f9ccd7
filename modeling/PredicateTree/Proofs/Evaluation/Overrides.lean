import PredicateTree.Proofs.Evaluation.Compilation
import PredicateTree.Proofs.Traversal.Orders

/-!
# The reach of overrides

To override an operator affects only the trees that use it.  Tables that agree on the operators of a
tree (`OperatorTable.AgreeOn`) compile it to the same code, the bodies of its lambdas included
(`compileTree_congr`), so with either of them it is evaluated in the same way, call by call
(`Machine.evaluate_congr`).  The short-circuit operators are not in a table: with every table they
are control flow (`Node.code_run_both`, `Node.code_run_either`).
-/

namespace PredicateTree

/-- The operator of a node that is applied as a table says. -/
def Node.operator? : Node → Option OperatorKey
  | .unary _ op _ _ => some (.unary op)
  | .binary _ op _ _ _ => if op.isShortCircuit then none else some (.binary op)
  | _ => none

/-- Two tables give the operators of a tree the same meanings. -/
def OperatorTable.AgreeOn (t t' : OperatorTable) (n : Node) : Prop :=
  ∀ k ∈ n.preorder, ∀ key, k.operator? = some key → t key = t' key

variable {t t' : OperatorTable} {n k : Node}

namespace OperatorTable.AgreeOn

theorem offspring (h : t.AgreeOn t' n) (hk : k ∈ n.offspring) : t.AgreeOn t' k :=
  fun m hm => h m (Node.preorder_subset hk hm)

theorem here (h : t.AgreeOn t' n) {key : OperatorKey} (hn : n.operator? = some key) :
    t key = t' key :=
  h n n.self_mem_preorder key hn

end OperatorTable.AgreeOn

/-! ### Compilation -/

theorem Code.ofBinary_congr {op : BinaryOp}
    (h : op.isShortCircuit = false → t (.binary op) = t' (.binary op)) (site : Node)
    (left right : Code) : Code.ofBinary t site op left right = .ofBinary t' site op left right := by
  cases op with
  | andAlso | orElse => rfl
  | _ => simp only [Code.ofBinary, h rfl]

theorem Code.ofNode_congr (h : ∀ key, n.operator? = some key → t key = t' key)
    (children : List Code) : Code.ofNode t n children = Code.ofNode t' n children := by
  unfold Code.ofNode
  split
  case h_5 => simp only [h (.unary _) rfl]
  case h_6 mark op l r type left right =>
    have hop (eager : op.isShortCircuit = false) : t (.binary op) = t' (.binary op) :=
      h (.binary op) (by simp [Node.operator?, eager])
    rw [ofBinary_congr hop]
  -- the other nodes do not look at the table
  all_goals rfl

/-- Tables that agree on the operators of a tree compile it to the same code. -/
theorem compileTree_congr (h : t.AgreeOn t' n) :
    compileTree t (.node n) = compileTree t' (.node n) :=
  foldTree_congr fun k hk => Code.ofNode_congr (h k hk)

namespace Machine

variable {M : Machine} {overrides overrides' : List (Value × Value)}

/-- Overrides that agree on the operators of a tree evaluate it in the same way. -/
theorem evaluate_congr (hv : OperatorTable.Valid overrides) (hv' : OperatorTable.Valid overrides')
    (h : (OperatorTable.standard.overridden overrides).AgreeOn
      (OperatorTable.standard.overridden overrides') n) (bindings : List (Value × Value)) :
    M.evaluate (.node n) bindings overrides = M.evaluate (.node n) bindings overrides' := by
  rw [evaluate, evaluate, OperatorTable.resolve_eq hv, OperatorTable.resolve_eq hv', pure_bind,
    pure_bind, compileTree_congr h]

/-- Overrides that agree on the operators of a lambda compile it to the same function. -/
theorem compileLambda_congr (hv : OperatorTable.Valid overrides)
    (hv' : OperatorTable.Valid overrides')
    (h : (OperatorTable.standard.overridden overrides).AgreeOn
      (OperatorTable.standard.overridden overrides') n) :
    M.compileLambda overrides (.node n) = M.compileLambda overrides' (.node n) := by
  simp only [compileLambda, codeOf, OperatorTable.resolve_eq hv, OperatorTable.resolve_eq hv',
    pure_bind, compileLogged, compileTree_congr h]

end Machine

/-! ### Short-circuit operators -/

namespace Node

variable (M : Machine) (env : Environment) (mark : Nat) (l r : Value) (type : StaticType)

/-- Whatever the table, `&&` tests its left operand, and then, where that holds, the right one. -/
theorem code_run_both :
    let n : Node := .binary mark .andAlso l r type
    (n.code t).run M.host env = do
      let v ← (l.code t).run M.host env
      if ← testingAt M.host n v then
        let w ← (r.code t).run M.host env
        return .bool (← testingAt M.host n w)
      else return .bool false := rfl

/-- Whatever the table, `||` tests its left operand, and then, where that fails, the right one. -/
theorem code_run_either :
    let n : Node := .binary mark .orElse l r type
    (n.code t).run M.host env = do
      let v ← (l.code t).run M.host env
      if ← testingAt M.host n v then return .bool true
      else
        let w ← (r.code t).run M.host env
        return .bool (← testingAt M.host n w) := rfl

end Node

end PredicateTree
