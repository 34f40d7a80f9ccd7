import PredicateTree.Sorting.Merge

/-!
# Sorting by runs

`sort` puts items in ascending order; equals keep their order.  It goes over the items once, from
left to right, and cuts them into runs that are sorted already, or descend and are turned round; a
run that is too short is lengthened by insertion.  Neighbouring runs are merged in an order that
keeps the merges balanced: by the power of the boundary between them, the depth at which it lies in
an even subdivision of all items.
-/

namespace PredicateTree.Sorting

variable {α : Type} {m : Type → Type} [Monad m]

/-- The length of a run, after its first item, that goes on as long as each item, compared with the
one before it, is less (`descending`) or not less. -/
def runLength (less : α → α → m Bool) (descending : Bool) (previous : α) :
    List α → m Nat
  | [] => pure 0
  | x :: rest => do
    if (← less x previous) = descending then return (← runLength less descending x rest) + 1
    else return 0

/-- The run at the start of several items, and the items after it. -/
def firstRun (less : α → α → m Bool) : List α → m (List α × List α)
  | x :: y :: rest => do
    let descending ← less y x
    let n ← runLength less descending y rest
    let run := x :: y :: rest.take n
    return (if descending then run.reverse else run, rest.drop n)
  | items => pure (items, [])

/-- Inserts items one by one into sorted ones, each after its equals. -/
def insertAll (less : α → α → m Bool) (sorted : Array α) : List α → m (Array α)
  | [] => pure sorted
  | x :: rest => do
    let i ← search (afterEquals less x sorted) 0 sorted.size
    insertAll less (sorted.insertIdxIfInBounds i x) rest

/-- The least length of a run of `n` items: the six leading binary digits of `n`, and one more where
`odd` says that a digit after them is not zero. -/
def leastRun : (fuel n : Nat) → (odd : Bool) → Nat
  | 0, n, _ => n
  | fuel + 1, n, odd =>
    if n < 64 then (if odd then n + 1 else n) else leastRun fuel (n / 2) (odd || n % 2 = 1)

/-- A sorted run: its place, its items, and the power of the boundary behind it. -/
structure Run (α : Type) where
  start : Nat
  items : Array α
  power : Nat

/-- The number of binary digits by which the quotients of `a` and of `b` by `n` first differ. -/
def powerOf : (fuel a b n : Nat) → Nat
  | 0, _, _, _ => 0
  | fuel + 1, a, b, n =>
    if n ≤ a then powerOf fuel (2 * (a - n)) (2 * (b - n)) n + 1
    else if n ≤ b then 1
    else powerOf fuel (2 * a) (2 * b) n + 1

/-- The power of the boundary between two neighbouring runs of `n` items in all. -/
def boundaryPower (r : Run α) (next n : Nat) : Nat :=
  let a := 2 * r.start + r.items.size
  powerOf (n + 1) a (a + r.items.size + next) n

/-- Merges the last two of several runs, the last one given first, as long as the boundary between
them has a power above `power`. -/
def mergeAbove (less : α → α → m Bool) (power : Nat) (pace : Pace) :
    List (Run α) → m (List (Run α) × Pace)
  | r :: q :: rest =>
    if power < q.power then do
      let (items, pace) ← merge less pace q.items r.items
      mergeAbove less power pace (⟨q.start, items, r.power⟩ :: rest)
    else pure (r :: q :: rest, pace)
  | runs => pure (runs, pace)
termination_by runs => runs.length

/-- Merges all runs, the last one given first. -/
def mergeAll (less : α → α → m Bool) (pace : Pace) : List (Run α) → m (Array α)
  | [] => pure #[]
  | [r] => pure r.items
  | [r, q] => do return (← merge less pace q.items r.items).1
  | r :: q :: p :: rest => do
    if p.items.size < r.items.size then
      let (items, pace) ← merge less pace p.items q.items
      mergeAll less pace (r :: ⟨p.start, items, q.power⟩ :: rest)
    else
      let (items, pace) ← merge less pace q.items r.items
      mergeAll less pace (⟨q.start, items, r.power⟩ :: p :: rest)
termination_by runs => runs.length

/-- Cuts items into runs and merges them.  The runs so far are given last one first; `n` is the
number of all items, and `least` the least length of a run. -/
def sortRuns (less : α → α → m Bool) (n least : Nat) :
    (fuel start : Nat) → Pace → List (Run α) → List α → m (Array α)
  | 0, _, _, _, items => pure items.toArray
  | fuel + 1, start, pace, runs, items =>
    if items.isEmpty then mergeAll less pace runs
    else do
      let (run, rest) ← firstRun less items
      let more := least - run.length
      let run ← insertAll less run.toArray (rest.take more)
      let (runs, pace) ← match runs with
        | [] => pure ([], pace)
        | r :: _ => do
          let power := boundaryPower r run.size n
          let (runs, pace) ← mergeAbove less power pace runs
          pure (match runs with
            | [] => []
            | r :: earlier => { r with power := power } :: earlier, pace)
      sortRuns less n least fuel (start + run.size) pace (⟨start, run, 0⟩ :: runs)
        (rest.drop more)

/-- Sorts items in ascending order. -/
def sort (less : α → α → m Bool) (items : List α) : m (List α) :=
  let n := items.length
  if n < 2 then pure items
  else do return (← sortRuns less n (leastRun n n false) (n + 1) 0 Pace.least [] items).toList

end PredicateTree.Sorting
