import PredicateTree.Sorting.Search

/-!
# Merging sorted runs

Two neighbouring runs are merged into one (`merge`).  Items of the left run go before their equals
of the right one.  The shorter run decides the direction: forward from the first items
(`mergeForward`), or backward from the last ones (`mergeBackward`).

A merge takes one item at a time until one run has won often in a row; then it gallops over whole
stretches of items as long as that pays.  How often is often (`Pace`) is learned: it falls while
galloping goes on, grows where galloping ends, and is handed from one merge to the next.
-/

namespace PredicateTree.Sorting

variable {α : Type} {m : Type → Type} [Monad m]

/-- The number of wins in a row after which a merge starts to gallop. -/
abbrev Pace := Nat

/-- The pace that a sort starts with.  A stretch of so many items keeps a merge galloping. -/
def Pace.least : Pace := 7

/-- The pace after one more round of galloping. -/
def Pace.quicker (pace : Pace) : Pace := if 1 < pace then pace - 1 else pace

section forward

variable (less : α → α → m Bool) (left right : Array α)

mutual

/-- Merges forward one item at a time, from the item `i` of the left run and the item `j` of the
right one on.  `leftWins` and `rightWins` count the wins in a row.  The last item of the left run
goes behind all others. -/
def mergeForward (pace : Pace) (leftWins rightWins i j : Nat) (merged : Array α) :
    m (Array α × Pace) :=
  if h : i < left.size ∧ j < right.size then do
    if ← less right[j] left[i] then
      let merged := merged.push right[j]
      if j + 1 = right.size then return (merged ++ left.extract i, pace)
      else if pace ≤ rightWins + 1 then gallopForward (pace + 1) i (j + 1) merged
      else mergeForward pace 0 (rightWins + 1) i (j + 1) merged
    else
      let merged := merged.push left[i]
      if i + 2 = left.size then return (merged ++ right.extract j ++ left.extract (i + 1), pace)
      else if pace ≤ leftWins + 1 then gallopForward (pace + 1) (i + 1) j merged
      else mergeForward pace (leftWins + 1) 0 (i + 1) j merged
  else pure (merged ++ right.extract j ++ left.extract i, pace)
termination_by left.size - i + (right.size - j)

/-- Merges forward by stretches of items. -/
def gallopForward (pace : Pace) (i j : Nat) (merged : Array α) : m (Array α × Pace) :=
  let pace := pace.quicker
  if hj : j < right.size then do
    let y := right[j]
    let n ← gallop (fun k => afterEquals less y left (i + k)) (left.size - i) 0
    let merged := merged ++ left.extract i (i + n)
    if hi : i + n < left.size then
      let x := left[i + n]
      let next := i + n + 1
      if n ≠ 0 ∧ next = left.size then return ((merged ++ right.extract j).push x, pace)
      else if j + 1 = right.size then return (merged.push y ++ left.extract (i + n), pace)
      else
        let start := j + 1
        let wins ← gallop (fun k => beforeEquals less x right (start + k)) (right.size - start) 0
        let rest := start + wins
        let merged := merged.push y ++ right.extract (j + 1) rest
        if right.size ≤ rest then return (merged ++ left.extract (i + n), pace)
        else
          let merged := merged.push x
          if next + 1 = left.size then
            return (merged ++ right.extract rest ++ left.extract next, pace)
          else if Pace.least ≤ n ∨ Pace.least ≤ wins then gallopForward pace next rest merged
          else mergeForward (pace + 1) 0 0 next rest merged
    else return (merged ++ right.extract j, pace)
  else pure (merged ++ left.extract i, pace)
termination_by left.size - i + (right.size - j)

end

end forward

section backward

variable (less : α → α → m Bool) (left right : Array α)

mutual

/-- Merges backward one item at a time; `i` items of the left run and `j` of the right one are
left.  The items merged are kept last one first.  The first item of the right run goes before all
others. -/
def mergeBackward (pace : Pace) (leftWins rightWins i j : Nat) (merged : Array α) :
    m (Array α × Pace) :=
  if h : (0 < i ∧ i ≤ left.size) ∧ 0 < j ∧ j ≤ right.size then do
    if ← less right[j - 1] left[i - 1] then
      let merged := merged.push left[i - 1]
      if i = 1 then return (right.extract 0 j ++ merged.reverse, pace)
      else if pace ≤ leftWins + 1 then gallopBackward (pace + 1) (i - 1) j merged
      else mergeBackward pace (leftWins + 1) 0 (i - 1) j merged
    else
      let merged := merged.push right[j - 1]
      if j = 2 then return (right.extract 0 1 ++ left.extract 0 i ++ merged.reverse, pace)
      else if pace ≤ rightWins + 1 then gallopBackward (pace + 1) i (j - 1) merged
      else mergeBackward pace 0 (rightWins + 1) i (j - 1) merged
  else pure (right.extract 0 j ++ left.extract 0 i ++ merged.reverse, pace)
termination_by i + j

/-- Merges backward by stretches of items. -/
def gallopBackward (pace : Pace) (i j : Nat) (merged : Array α) : m (Array α × Pace) :=
  let pace := pace.quicker
  if hj : 0 < j ∧ j ≤ right.size then do
    let y := right[j - 1]
    let place ← gallop (afterEquals less y left) i (i - 1)
    let merged := (merged ++ (left.extract place i).reverse).push y
    if hi : 0 < place ∧ place ≤ i ∧ i ≤ left.size then
      let x := left[place - 1]
      if j = 2 then return (right.extract 0 1 ++ left.extract 0 place ++ merged.reverse, pace)
      else
        let rest ← gallop (beforeEquals less x right) (j - 1) (j - 2)
        let merged := merged ++ (right.extract rest (j - 1)).reverse
        if rest ≠ j - 1 ∧ rest = 1 then
          return (right.extract 0 1 ++ left.extract 0 place ++ merged.reverse, pace)
        else if rest = 0 then return (left.extract 0 place ++ merged.reverse, pace)
        else
          let merged := merged.push x
          if place = 1 then return (right.extract 0 rest ++ merged.reverse, pace)
          else if hr : rest < j then
            if Pace.least ≤ i - place ∨ Pace.least ≤ j - 1 - rest then
              gallopBackward pace (place - 1) rest merged
            else mergeBackward (pace + 1) 0 0 (place - 1) rest merged
          else pure (merged.reverse, pace)
    else return (right.extract 0 (j - 1) ++ merged.reverse, pace)
  else pure (left.extract 0 i ++ merged.reverse, pace)
termination_by i + j

end

end backward

/-- Starts a forward merge: the first item of the right run goes before all others. -/
def startForward (less : α → α → m Bool) (pace : Pace) (left right : Array α) :
    m (Array α × Pace) :=
  if right.size ≤ 1 then pure (right ++ left, pace)
  else if left.size = 1 then pure (right ++ left, pace)
  else mergeForward less left right pace 0 0 0 1 (right.extract 0 1)

/-- Starts a backward merge: the last item of the left run goes behind all others. -/
def startBackward (less : α → α → m Bool) (pace : Pace) (left right : Array α) :
    m (Array α × Pace) :=
  if left.size ≤ 1 then pure (right ++ left, pace)
  else if right.size = 1 then pure (right ++ left, pace)
  else
    let last := left.size - 1
    mergeBackward less left right pace 0 0 last right.size (left.extract last)

/-- Merges two neighbouring runs.  What of the left run goes before the right one, and what of the
right run goes behind the left one, stays where it is. -/
def merge (less : α → α → m Bool) (pace : Pace) (left right : Array α) :
    m (Array α × Pace) :=
  match right[0]?, left.back? with
  | some first, some last => do
    let i ← gallop (afterEquals less first left) left.size 0
    if i = left.size then return (left ++ right, pace)
    else
      let j ← gallop (beforeEquals less last right) right.size (right.size - 1)
      if j = 0 then return (left ++ right, pace)
      else
        let start := if left.size - i ≤ j then startForward less else startBackward less
        let (merged, pace) ← start pace (left.extract i) (right.extract 0 j)
        return (left.extract 0 i ++ merged ++ right.extract j, pace)
  | _, _ => pure (left ++ right, pace)

end PredicateTree.Sorting
