/-!
# Directives

A template for text consists of plain text and of directives, each of which stands for an argument
and begins with a percent sign (`templatePieces`).  A directive may name its argument, and say how
it is set, how wide and how exactly; its last character says what of the argument is shown.  A
directive is read as far as it goes: what it lacks is left to those who fill it.
-/

namespace PredicateTree.Text

/-- A width or a precision: a number, or an asterisk, which stands for an argument. -/
inductive Extent where
  | number (n : Nat)
  | argument

/-- What a directive says of the name of its argument, which stands in parentheses. -/
inductive ArgumentName where
  | absent
  | unclosed
  | named (name : String)

/-- A directive. -/
structure Directive where
  name : ArgumentName
  flags : List Char
  width : Option Extent
  precision : Option Extent
  /-- What is shown; nothing where the template ends within the directive. -/
  conversion : Option Char

/-- A piece of a template. -/
inductive Piece where
  | plain (text : List Char)
  /-- Two percent signs, which stand for one. -/
  | sign
  /-- A directive, and what comes after it in the template. -/
  | directive (d : Directive) (after : List Char)

namespace Directive

/-- A text up to the parenthesis that closes it, and the rest after that; `depth` more pairs of
parentheses are open. -/
def enclosed (depth : Nat) : List Char → Option (List Char × List Char)
  | [] => none
  | c :: rest =>
    if c = ')' then
      match depth with
      | 0 => some ([], rest)
      | depth + 1 => (enclosed depth rest).map fun (inner, tail) => (c :: inner, tail)
    else
      (enclosed (if c = '(' then depth + 1 else depth) rest).map fun (inner, tail) =>
        (c :: inner, tail)

/-- The name of an argument. -/
def readName : List Char → ArgumentName × List Char
  | '(' :: rest =>
    match enclosed 0 rest with
    | some (name, tail) => (.named (String.ofList name), tail)
    | none => (.unclosed, [])
  | cs => (.absent, cs)

/-- The characters that say how a text is set. -/
def isFlag (c : Char) : Bool := c == '-' || c == '+' || c == ' ' || c == '#' || c == '0'

/-- The natural that digits stand for. -/
def numberOf (ds : List Char) : Nat := ds.foldl (fun n d => 10 * n + (d.toNat - '0'.toNat)) 0

/-- A width. -/
def readWidth : List Char → Option Extent × List Char
  | [] => (none, [])
  | c :: rest =>
    if c = '*' then (some .argument, rest)
    else if c.isDigit then
      (some (.number (numberOf (c :: rest.takeWhile Char.isDigit))), rest.dropWhile Char.isDigit)
    else (none, c :: rest)

/-- A precision, which stands after a point; a point alone says none at all. -/
def readPrecision : List Char → Option Extent × List Char
  | '.' :: rest =>
    let (extent, tail) := readWidth rest
    (some (extent.getD (.number 0)), tail)
  | cs => (none, cs)

/-- A directive without a letter that says nothing. -/
def withoutSize : List Char → List Char
  | [] => []
  | c :: rest => if c == 'h' || c == 'l' || c == 'L' then rest else c :: rest

/-- The first character. -/
def readConversion : List Char → Option Char × List Char
  | [] => (none, [])
  | c :: rest => (some c, rest)

/-- The directive at the start of a text, without its percent sign, and the rest of the text. -/
def read (cs : List Char) : Directive × List Char :=
  let (name, cs) := readName cs
  let flags := cs.takeWhile isFlag
  let (width, cs) := readWidth (cs.dropWhile isFlag)
  let (precision, cs) := readPrecision cs
  let (conversion, cs) := readConversion (withoutSize cs)
  (⟨name, flags, width, precision, conversion⟩, cs)

/-! ### The rest is no longer than what is read -/

theorem length_of_enclosed {depth : Nat} {cs inner tail : List Char}
    (h : enclosed depth cs = some (inner, tail)) : tail.length ≤ cs.length := by
  induction cs generalizing depth inner with
  | nil => simp [enclosed] at h
  | cons c rest ih =>
    have step : ∀ {depth : Nat} {inner : List Char},
        (enclosed depth rest).map (fun x => (c :: x.1, x.2)) = some (inner, tail) →
          tail.length ≤ (c :: rest).length := by
      intro depth inner h
      obtain ⟨⟨inner', tail'⟩, found, same⟩ := Option.map_eq_some_iff.1 h
      cases same
      exact Nat.le_succ_of_le (ih found)
    unfold enclosed at h
    split at h
    · cases depth with
      | zero =>
        cases h
        exact Nat.le_succ _
      | succ depth => exact step h
    · exact step h

theorem length_dropWhile_le (p : Char → Bool) (cs : List Char) :
    (cs.dropWhile p).length ≤ cs.length :=
  (List.dropWhile_sublist p).length_le

theorem length_readName_le (cs : List Char) : (readName cs).2.length ≤ cs.length := by
  unfold readName
  split
  · split
    · rename_i found
      exact Nat.le_succ_of_le (length_of_enclosed found)
    · exact Nat.zero_le _
  · exact Nat.le_refl _

theorem length_readWidth_le (cs : List Char) : (readWidth cs).2.length ≤ cs.length := by
  unfold readWidth
  split
  · exact Nat.le_refl _
  · rename_i c rest
    split
    · exact Nat.le_succ _
    · split
      · exact Nat.le_succ_of_le (length_dropWhile_le _ rest)
      · exact Nat.le_refl _

theorem length_readPrecision_le (cs : List Char) :
    (readPrecision cs).2.length ≤ cs.length := by
  unfold readPrecision
  split
  · rename_i rest
    exact Nat.le_succ_of_le (length_readWidth_le rest)
  · exact Nat.le_refl _

theorem length_withoutSize_le (cs : List Char) : (withoutSize cs).length ≤ cs.length := by
  unfold withoutSize
  split
  · exact Nat.le_refl _
  · split
    · exact Nat.le_succ _
    · exact Nat.le_refl _

theorem length_readConversion_le (cs : List Char) :
    (readConversion cs).2.length ≤ cs.length := by
  cases cs with
  | nil => exact Nat.le_refl _
  | cons c rest => exact Nat.le_succ _

theorem length_read_le (cs : List Char) : (read cs).2.length ≤ cs.length := by
  refine Nat.le_trans (length_readConversion_le _) (Nat.le_trans (length_withoutSize_le _) ?_)
  refine Nat.le_trans (length_readPrecision_le _) (Nat.le_trans (length_readWidth_le _) ?_)
  exact Nat.le_trans (length_dropWhile_le _ _) (length_readName_le cs)

end Directive

/-- The pieces of a template. -/
def templatePieces : List Char → List Piece
  | [] => []
  | '%' :: '%' :: rest => .sign :: templatePieces rest
  | '%' :: rest =>
    let d := Directive.read rest
    .directive d.1 d.2 :: templatePieces d.2
  | c :: rest =>
    .plain (c :: rest.takeWhile (· != '%')) :: templatePieces (rest.dropWhile (· != '%'))
termination_by cs => cs.length
decreasing_by
  · simp only [List.length_cons]
    omega
  · exact Nat.lt_succ_of_le (Directive.length_read_le rest)
  · exact Nat.lt_succ_of_le (Directive.length_dropWhile_le _ rest)

end PredicateTree.Text
