/-!
# Ropes

A `Rope` is a list that is joined from parts.  To append one rope to another takes a single step and
copies no more than one short part, however long they are: the other parts are shared.
-/

namespace PredicateTree

/-- A list that is joined from parts. -/
inductive Rope (α : Type) where
  | items (xs : Array α)
  | join (left right : Rope α)

namespace Rope

variable {α : Type}

/-- The items, and those of a list behind them. -/
def followedBy : Rope α → List α → List α
  | .items xs, rest => xs.toListAppend rest
  | .join left right, rest => left.followedBy (right.followedBy rest)

/-- The items. -/
def toList (r : Rope α) : List α := r.followedBy []

/-- The length up to which parts are copied into one. -/
def shortPart : Nat := 64

/-- One rope behind another.  Short parts that meet become one part. -/
def append : Rope α → Rope α → Rope α
  | .items xs, .items ys =>
    if xs.size + ys.size ≤ shortPart then .items (xs ++ ys) else .join (.items xs) (.items ys)
  | .join left (.items xs), .items ys =>
    if xs.size + ys.size ≤ shortPart then .join left (.items (xs ++ ys))
    else .join (.join left (.items xs)) (.items ys)
  | .items xs, .join (.items ys) right =>
    if xs.size + ys.size ≤ shortPart then .join (.items (xs ++ ys)) right
    else .join (.items xs) (.join (.items ys) right)
  | left, right => .join left right

/-- The number of items, and `n` more. -/
def sizeBeside (n : Nat) : Rope α → Nat
  | .items xs => xs.size + n
  | .join left right => left.sizeBeside (right.sizeBeside n)

/-- The number of items. -/
def size (r : Rope α) : Nat := r.sizeBeside 0

/-- The item at an index, or how far the index lies behind the end. -/
def locate : Rope α → Nat → α ⊕ Nat
  | .items xs, i => if h : i < xs.size then .inl xs[i] else .inr (i - xs.size)
  | .join left right, i =>
    match left.locate i with
    | .inl a => .inl a
    | .inr j => right.locate j

/-- The item at an index. -/
def get? (r : Rope α) (i : Nat) : Option α := (r.locate i).getLeft?

/-- The rope with one more item, at its end. -/
def push (a : α) : Rope α → Rope α
  | .items xs => .items (xs.push a)
  | .join left right => .join left (right.push a)

theorem followedBy_eq (r : Rope α) (rest : List α) : r.followedBy rest = r.toList ++ rest := by
  induction r generalizing rest with
  | items xs => simp [followedBy, toList, Array.toListAppend_eq]
  | join left right ihl ihr =>
    rw [toList, followedBy, followedBy, ihl, ihr, ihl (right.followedBy []), ihr [],
      List.append_nil, List.append_assoc]

@[simp] theorem toList_items (xs : Array α) : (items xs).toList = xs.toList := by
  simp [toList, followedBy, Array.toListAppend_eq]

@[simp] theorem toList_join (left right : Rope α) :
    (join left right).toList = left.toList ++ right.toList := by
  rw [toList, followedBy, followedBy_eq, followedBy_eq, List.append_nil]

@[simp] theorem toList_append (left right : Rope α) :
    (left.append right).toList = left.toList ++ right.toList := by
  unfold append
  split
  · split <;> simp
  · split <;> simp
  · split <;> simp
  · simp

@[simp] theorem toList_push (r : Rope α) (a : α) : (r.push a).toList = r.toList ++ [a] := by
  induction r with
  | items xs => simp [push]
  | join left right _ ihr => simp [push, ihr]

theorem sizeBeside_eq (r : Rope α) (n : Nat) : r.sizeBeside n = r.toList.length + n := by
  induction r generalizing n with
  | items xs => simp [sizeBeside]
  | join left right ihl ihr => simp [sizeBeside, ihl, ihr, Nat.add_assoc]

theorem locate_eq (r : Rope α) (i : Nat) :
    r.locate i =
      if h : i < r.toList.length then .inl r.toList[i] else .inr (i - r.toList.length) := by
  induction r generalizing i with
  | items xs => simp [locate]
  | join left right ihl ihr =>
    rw [locate, ihl]
    by_cases h : i < left.toList.length
    · have : i < left.toList.length + right.toList.length := by omega
      simp [h, this, List.getElem_append_left]
    · by_cases h' : i < left.toList.length + right.toList.length
      · have : i - left.toList.length < right.toList.length := by omega
        simp [h, h', this, ihr, List.getElem_append_right (Nat.not_lt.1 h)]
      · have : ¬ i - left.toList.length < right.toList.length := by omega
        simp [h, h', this, ihr]
        omega

@[simp] theorem get?_eq (r : Rope α) (i : Nat) : r.get? i = r.toList[i]? := by
  rw [get?, locate_eq]
  split <;> simp_all

@[simp] theorem size_eq (r : Rope α) : r.size = r.toList.length := by
  rw [size, sizeBeside_eq, Nat.add_zero]

end Rope

end PredicateTree
