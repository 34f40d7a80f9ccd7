import PredicateTree.Tree
import Std.Data.TreeMap

/-!
# Sets of parameters

A `ParameterSet` finds its parameters by their serial numbers.  With it `distinct` drops the
repetitions from a list of parameters: what is left has the same members
(`mem_distinct`), each of them once (`nodup_distinct`), in the order in which they came first.
-/

namespace PredicateTree

/-- A set of parameters, by their serial numbers. -/
structure ParameterSet where
  byUid : Std.TreeMap Nat (List Parameter) := {}

namespace ParameterSet

/-- The parameters that have a serial number. -/
def withUid (s : ParameterSet) (uid : Nat) : List Parameter := s.byUid.getD uid []

/-- Whether a parameter is in the set. -/
def contains (s : ParameterSet) (p : Parameter) : Bool := (s.withUid p.uid).contains p

/-- The set with one more parameter. -/
def insert (s : ParameterSet) (p : Parameter) : ParameterSet :=
  ⟨s.byUid.insert p.uid (p :: s.withUid p.uid)⟩

theorem contains_empty (p : Parameter) : ({} : ParameterSet).contains p = false := by
  simp [contains, withUid]

theorem contains_insert (s : ParameterSet) (p q : Parameter) :
    (s.insert q).contains p = (decide (p = q) || s.contains p) := by
  by_cases h : q.uid = p.uid
  · simp [contains, withUid, insert, h]
  · have hne : p ≠ q := fun e => h (e ▸ rfl)
    simp [contains, withUid, insert, Std.TreeMap.getD_insert, h, hne]

end ParameterSet

/-- The parameters of a list that are not in a set, each where it comes first. -/
def distinctBeside (seen : ParameterSet) : List Parameter → List Parameter
  | [] => []
  | p :: ps =>
    if seen.contains p then distinctBeside seen ps else p :: distinctBeside (seen.insert p) ps

/-- The parameters of a list, each where it comes first. -/
def distinct (ps : List Parameter) : List Parameter := distinctBeside {} ps

theorem mem_distinctBeside {seen : ParameterSet} {ps : List Parameter} {p : Parameter} :
    p ∈ distinctBeside seen ps ↔ p ∈ ps ∧ seen.contains p = false := by
  induction ps generalizing seen with
  | nil => simp [distinctBeside]
  | cons q ps ih =>
    rw [distinctBeside]
    by_cases hq : seen.contains q = true
    · rw [if_pos hq, ih, List.mem_cons]
      refine ⟨fun h => ⟨.inr h.1, h.2⟩, fun h => ⟨h.1.resolve_left ?_, h.2⟩⟩
      rintro rfl
      simp [h.2] at hq
    · rw [if_neg hq, List.mem_cons, ih, List.mem_cons, ParameterSet.contains_insert]
      by_cases hp : p = q
      · subst hp
        simpa using hq
      · simp [hp]

theorem nodup_distinctBeside (seen : ParameterSet) (ps : List Parameter) :
    (distinctBeside seen ps).Nodup := by
  induction ps generalizing seen with
  | nil => simp [distinctBeside]
  | cons q ps ih =>
    rw [distinctBeside]
    split
    · exact ih seen
    · refine List.nodup_cons.2 ⟨fun h => ?_, ih _⟩
      have := (mem_distinctBeside.1 h).2
      simp [ParameterSet.contains_insert] at this

theorem mem_distinct {ps : List Parameter} {p : Parameter} : p ∈ distinct ps ↔ p ∈ ps := by
  simp [distinct, mem_distinctBeside, ParameterSet.contains_empty]

theorem nodup_distinct (ps : List Parameter) : (distinct ps).Nodup := nodup_distinctBeside {} ps

end PredicateTree
