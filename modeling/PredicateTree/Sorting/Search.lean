/-!
# Searching in sorted items

The place of a key among sorted items, found by few comparisons: by halving a range (`search`), or
from a hint, by strides of growing length and then by halving the last one (`gallop`).

A search only asks whether the key belongs after an item, so it serves a key that goes before its
equals as well as one that goes after them.  Which items are asked about is part of the behaviour:
it shows where the order of the items is not consistent, or where a comparison fails.
-/

namespace PredicateTree.Sorting

variable {α : Type} {m : Type → Type} [Monad m]

/-- The first place from `low` to `high` where the key does not belong after the item.  The item in
the middle is asked about first. -/
def search (after : Nat → m Bool) (low high : Nat) : m Nat :=
  if low < high then do
    let middle := low + (high - low) / 2
    if ← after middle then search after (middle + 1) high else search after low middle
  else pure low
termination_by high - low

/-- The last two distances of growing strides, of which the second is at most `bound`.  A stride
follows as long as `goesOn` holds of the distance reached. -/
def stride (goesOn : Nat → m Bool) (bound last next : Nat) : m (Nat × Nat) :=
  if next < bound then do
    if ← goesOn next then stride goesOn bound next (2 * next + 1) else return (last, next)
  else pure (last, min next bound)
termination_by bound - next

/-- The place of a key among `n` items, looked for from the item `hint` on in both directions. -/
def gallop (after : Nat → m Bool) (n hint : Nat) : m Nat := do
  if ← after hint then
    let (last, next) ← stride (fun k => after (hint + k)) (n - hint) 0 1
    search after (hint + last + 1) (hint + next)
  else
    let (last, next) ← stride (fun k => not <$> after (hint - k)) (hint + 1) 0 1
    search after (hint + 1 - next) (hint - last)

/-- Whether a key belongs after an item, where it goes before its equals. -/
def beforeEquals (less : α → α → m Bool) (key : α) (items : Array α) (i : Nat) :
    m Bool :=
  less (items.getD i key) key

/-- Whether a key belongs after an item, where it goes after its equals. -/
def afterEquals (less : α → α → m Bool) (key : α) (items : Array α) (i : Nat) :
    m Bool :=
  not <$> less key (items.getD i key)

end PredicateTree.Sorting
