import PredicateTree.Text.Digit

/-!
# Searching in text

Where a pattern occurs in a text, how often, and what a text becomes when it is cut at or replaced
there.  Occurrences are taken from left to right and do not overlap.  A text is read once: at each
character it is known how much of the pattern the text ends with (`Pattern.advance`), which never
grows by more than that character (`Pattern.advance_le`).

A search for the first occurrence reads no further than that (`find?`), and a place in a text is
reached from the nearer end (`locate`).
-/

namespace PredicateTree.Text

/-- A pattern made ready for searching: each of its characters, together with the length of the
longest start of the pattern, other than all that was read, with which the pattern ends there. -/
structure Pattern where
  table : Array (Char × Nat)
  border_le : ∀ i (h : i < table.size), table[i].2 ≤ i

namespace Pattern

/-- The number of characters. -/
def size (p : Pattern) : Nat := p.table.size

/-- How many characters of the pattern a text ends with, if it ended with so many of them before
the last character was read. -/
def advance (p : Pattern) (c : Char) : Nat → Nat
  | 0 => if p.table[0]?.any (·.1 == c) then 1 else 0
  | k + 1 =>
    if p.table[k + 1]?.any (·.1 == c) then k + 2
    else if h : k < p.table.size then
      have := p.border_le k h
      p.advance c p.table[k].2
    else 0
termination_by k => k

theorem advance_le (p : Pattern) (c : Char) (k : Nat) : p.advance c k ≤ k + 1 := by
  fun_induction p.advance c k with
  | case1 => omega
  | case2 => omega
  | case3 => omega
  | case4 k _ h border ih => omega
  | case5 => omega

/-- What the whole pattern ends with, once it is read on, is no longer than it was. -/
theorem advance_size_le (p : Pattern) (c : Char) : p.advance c p.size ≤ p.size := by
  unfold size
  cases hs : p.table.size with
  | zero => simp [advance, hs]
  | succ k =>
    have h : k < p.table.size := by omega
    have outside : p.table[k + 1]? = none := Array.getElem?_eq_none (by omega)
    have border := p.border_le k h
    have step := p.advance_le c p.table[k].2
    rw [advance, dif_pos h]
    simp only [outside, Option.any_none, Bool.false_eq_true, if_false]
    omega

/-- The pattern that has no characters. -/
def empty : Pattern := ⟨#[], fun i h => by simp at h⟩

/-- The pattern with one character more. -/
def push (p : Pattern) (c : Char) : Pattern where
  table := p.table.push (c, p.advance c p.size)
  border_le i h := by
    rw [Array.getElem_push]
    split
    · exact p.border_le i _
    · have := p.advance_size_le c
      unfold size at this ⊢
      simp only [Array.size_push] at h
      omega

/-- A list of characters as a pattern. -/
def ofList (cs : List Char) : Pattern := cs.foldl push empty

/-- Where the first occurrence of the pattern ends.  Of the text, `read` characters have been read,
the last `k` of which are the first ones of the pattern. -/
def endOfFirst? (p : Pattern) (k read : Nat) : List Char → Option Nat
  | [] => if k = p.size then some read else none
  | c :: cs => if k = p.size then some read else p.endOfFirst? (p.advance c k) (read + 1) cs

/-- Where the first occurrence of the pattern ends in a text from a position on, up to the place
`stop`.  The position is the place `read`, and what is before it ends with the first `k` characters
of the pattern. -/
def endOfFirstAt? (p : Pattern) (stop : Nat) {s : String} (k read : Nat) (at_ : s.Pos) :
    Option Nat :=
  if k = p.size then some read
  else if read = stop then none
  else if h : at_ = s.endPos then none
  else p.endOfFirstAt? stop (p.advance (at_.get h) k) (read + 1) (at_.next h)
termination_by at_

/-- What stands before and after the first occurrence of the pattern. -/
def cut? (p : Pattern) (cs : List Char) : Option (List Char × List Char) :=
  (p.endOfFirst? 0 0 cs).map fun n => (cs.take (n - p.size), cs.drop n)

/-- The pieces between the first occurrences, at most `cuts`, of the pattern, if it is not empty. -/
def pieces (p : Pattern) : (cuts : Nat) → List Char → List (List Char)
  | 0, cs => [cs]
  | cuts + 1, cs =>
    match p.cut? cs with
    | none => [cs]
    | some (before, after) => before :: p.pieces cuts after

end Pattern

/-! ### Places -/

/-- The position so many characters after another, or the last one. -/
def forward {s : String} : Nat → s.Pos → s.Pos
  | 0, at_ => at_
  | n + 1, at_ => if h : at_ = s.endPos then at_ else forward n (at_.next h)

/-- The position so many characters before another, or the first one. -/
def backward {s : String} : Nat → s.Pos → s.Pos
  | 0, at_ => at_
  | n + 1, at_ => if h : at_ = s.startPos then at_ else backward n (at_.prev h)

/-- The position after so many characters of a text. -/
def locate (s : String) (n : Nat) : s.Pos :=
  if 2 * n ≤ s.length then forward n s.startPos else backward (s.length - n) s.endPos

/-- The character at a place of a text. -/
def charAt? (s : String) (i : Nat) : Option Char :=
  if i < s.length then
    let at_ := locate s i
    if h : at_ = s.endPos then none else some (at_.get h)
  else none

/-- So many characters of a text from a place on, or all that there are. -/
def part (s : String) (start count : Nat) : String :=
  ((s.sliceFrom (locate s start)).take count).copy

/-- A text without the characters at its ends that satisfy `p`. -/
def stripped (p : Char → Bool) (s : String) : String :=
  ((s.dropWhile p).dropEndWhile p).copy

/-! ### Searching -/

/-- The place of the first occurrence of a pattern in a text between two places. -/
def find? (pattern s : String) (start stop : Nat) : Option Nat :=
  ((Pattern.ofList pattern.toList).endOfFirstAt? stop 0 start (locate s start)).map
    (· - pattern.length)

/-- Whether a pattern occurs in a text. -/
def occursIn (pattern s : String) : Bool := (find? pattern s 0 s.length).isSome

/-- The pieces between the first occurrences, at most `cuts`, of a pattern that is not empty. -/
def pieces (pattern : List Char) (cuts : Nat) (cs : List Char) : List (List Char) :=
  (Pattern.ofList pattern).pieces cuts cs

/-- The number of occurrences of a pattern; the empty one occurs around every character. -/
def occurrences (pattern cs : List Char) : Nat :=
  if pattern.isEmpty then cs.length + 1 else (pieces pattern cs.length cs).length - 1

/-- The text with new text before each of the first characters, at most `count`, and at the end. -/
def interleave (new : List Char) : (count : Nat) → List Char → List Char
  | 0, cs => cs
  | _ + 1, [] => new
  | count + 1, c :: rest => new ++ c :: interleave new count rest

/-- Replaces the first occurrences, at most `count`, of a pattern. -/
def replaceFirst (old new : List Char) (count : Nat) (cs : List Char) : List Char :=
  if old.isEmpty then interleave new count cs
  else new.intercalate (pieces old count cs)

/-- The words between blanks, at most `cuts` of them; the rest of the text is the last one. -/
def words : (cuts : Nat) → List Char → List (List Char)
  | 0, cs =>
    let rest := cs.dropWhile isBlank
    if rest.isEmpty then [] else [rest]
  | cuts + 1, cs =>
    let rest := cs.dropWhile isBlank
    if rest.isEmpty then []
    else rest.takeWhile (fun c => !isBlank c) :: words cuts (rest.dropWhile fun c => !isBlank c)

/-- A bound of a slice of a text of length `n`; negative bounds count from the end. -/
def sliceBound (n : Nat) (i : Int) : Nat :=
  if i < 0 then (i + n).toNat else min i.toNat n

end PredicateTree.Text
