import PredicateTree.Measure

/-!
# One order from several

`Precedence.merge` puts the members of several lists into one list, which keeps the order of each of
them (`sublist_of_merge`).  The lists before others have the say where the order is open: next comes
the first head of a list that stands behind no other member.  Where every head stands behind another
one, the lists contradict each other, and the heads are what waits.
-/

namespace PredicateTree.Precedence

variable {α : Type} [DecidableEq α]

/-- The heads of several lists. -/
def heads (lists : List (List α)) : List α := lists.filterMap List.head?

/-- Whether a member stands behind another one in one of the lists. -/
def isBehind (lists : List (List α)) (a : α) : Bool := lists.any (·.tail.contains a)

/-- The first head that stands behind no other member. -/
def next? (lists : List (List α)) : Option α := (heads lists).find? (!isBehind lists ·)

/-- A list without a member at its head. -/
def without (a : α) (l : List α) : List α := if l.head? = some a then l.tail else l

/-- Several lists, in each of which a head that comes next is passed. -/
def advance (a : α) (lists : List (List α)) : List (List α) := lists.map (without a)

theorem length_without_le (a : α) (l : List α) : (without a l).length ≤ l.length := by
  unfold without
  split <;> simp

theorem length_without_lt {a : α} {l : List α} (h : l.head? = some a) :
    (without a l).length < l.length := by
  cases l with
  | nil => simp at h
  | cons b l => simp [without, h]

theorem total_length_advance_le (a : α) (lists : List (List α)) :
    total List.length (advance a lists) ≤ total List.length lists := by
  induction lists with
  | nil => exact Nat.le_refl 0
  | cons l lists ih => exact Nat.add_le_add (length_without_le a l) ih

theorem total_length_advance_lt {a : α} {lists : List (List α)} (h : a ∈ heads lists) :
    total List.length (advance a lists) < total List.length lists := by
  obtain ⟨l, hl, ha⟩ := List.mem_filterMap.1 h
  obtain ⟨before, after, rfl⟩ := List.append_of_mem hl
  have hbefore := total_length_advance_le a before
  have hafter := total_length_advance_le a after
  have hlt := length_without_lt ha
  unfold advance at hbefore hafter ⊢
  rw [List.map_append, List.map_cons, total_append, total_append, total_cons, total_cons]
  omega

/-- One list of the members of several lists, in an order that all of them agree with; or else the
members that wait for one another. -/
def merge (lists : List (List α)) : Except (List α) (List α) :=
  match _ : next? lists with
  | some a => do return a :: (← merge (advance a lists))
  | none => if heads lists = [] then .ok [] else .error (heads lists).eraseDups
termination_by total List.length lists
decreasing_by exact total_length_advance_lt (List.mem_of_find?_eq_some ‹next? lists = some a›)

/-- The order of each list is kept. -/
theorem sublist_of_merge {lists : List (List α)} {order l : List α}
    (h : merge lists = .ok order) (hl : l ∈ lists) : l.Sublist order := by
  fun_induction merge lists generalizing order l with
  | case1 lists a _ ih =>
    cases hrest : merge (advance a lists) with
    | error => simp [hrest, bind, Except.bind] at h
    | ok rest =>
      have horder : a :: rest = order := by
        simpa [hrest, bind, Except.bind, pure, Except.pure] using h
      have hsub := ih hrest (List.mem_map_of_mem hl)
      subst horder
      unfold without at hsub
      split at hsub
      next hhead =>
        cases l with
        | nil => exact List.nil_sublist _
        | cons b l =>
          obtain rfl : b = a := by simpa using hhead
          exact hsub.cons_cons b
      next => exact hsub.cons a
  | case2 lists _ hheads =>
    have : l.head? = none := by
      cases hhead : l.head? with
      | none => rfl
      | some b =>
        have : b ∈ heads lists := List.mem_filterMap.2 ⟨l, hl, hhead⟩
        simp [hheads] at this
    rw [List.head?_eq_none_iff.1 this]
    exact List.nil_sublist _
  | case3 => simp at h

end PredicateTree.Precedence
