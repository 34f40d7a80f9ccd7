import PredicateTree.Session
import PredicateTree.Value.Shown

/-!
# The log

Every entry of the log has a source, the activity that writes it, and a text.  The text is made only
where the log is written (`Action.note`); a failure to make it ends what is logged.
-/

namespace PredicateTree

/-- A step of the library that is logged. -/
inductive LogEntry where
  | compiled (arity : Nat)
  | composing (arity : Nat)
  | folded (before after : Node)
  | leftUnfolded (node : Node) (reason : Fault)

namespace LogEntry

/-- The activity that writes an entry. -/
def source : LogEntry → String
  | .compiled _ => "compiler"
  | .composing _ => "compose"
  | .folded .. | .leftUnfolded .. => "folding"

/-- The text of an entry. -/
def text : LogEntry → Action String
  | .compiled arity => pure s!"compiled lambda of arity {arity}"
  | .composing arity => pure s!"composing lambdas of arity {arity}"
  | .folded before after => do
    let a ← (Value.node before).shown
    let b ← (Value.node after).shown
    return "folded " ++ a ++ " to " ++ b
  | .leftUnfolded n reason => do
    let a ← (Value.node n).shown
    return "left " ++ a ++ " unfolded: " ++ reason.message (← Query.typeNames)

end LogEntry

/-- Writes an entry into the log, if the log is written. -/
def Action.note (e : LogEntry) : Action Unit := do
  if (← session).logging then
    let text ← e.text
    update fun s => { s with log := ⟨e.source, text⟩ :: s.log }

theorem Action.run_note_of_not_logging (e : LogEntry) (c : Caller) {s : Session}
    (h : s.logging = false) : (Action.note e).run c s = (.done (), s) := by
  unfold Action.note
  rw [run_bind]
  simp [session, run, h, pure, Action.pure]

end PredicateTree
