/-!
# Sums of a measure

`total f` adds up a measure over a list.  The loops of this library work off a stack, and end
because the total of the work on it gets smaller.
-/

namespace PredicateTree

variable {α β : Type}

/-- The sum of a measure over a list. -/
def total (f : α → Nat) : List α → Nat
  | [] => 0
  | a :: as => f a + total f as

@[simp] theorem total_nil (f : α → Nat) : total f [] = 0 := rfl

@[simp] theorem total_cons (f : α → Nat) (a : α) (as : List α) :
    total f (a :: as) = f a + total f as := rfl

@[simp] theorem total_append (f : α → Nat) (as bs : List α) :
    total f (as ++ bs) = total f as + total f bs := by
  induction as with
  | nil => rw [List.nil_append, total_nil, Nat.zero_add]
  | cons a as ih => rw [List.cons_append, total_cons, total_cons, ih, Nat.add_assoc]

theorem total_map (f : β → Nat) (g : α → β) (as : List α) :
    total f (as.map g) = total (fun a => f (g a)) as := by
  induction as with
  | nil => rfl
  | cons a as ih => rw [List.map_cons, total_cons, total_cons, ih]

theorem total_reverse (f : α → Nat) (as : List α) : total f as.reverse = total f as := by
  induction as with
  | nil => rfl
  | cons a as ih =>
    rw [List.reverse_cons, total_append, total_cons, total_cons, total_nil, ih, Nat.add_zero,
      Nat.add_comm]

end PredicateTree
