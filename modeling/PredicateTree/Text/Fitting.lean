/-!
# Texts of limited length

Long names are cut in reports: to a number of characters, or to a number of bytes.
-/

namespace PredicateTree.Text

/-- The character that stands for a character that was cut in two. -/
def replacementCharacter : Char := Char.ofNat 0xFFFD

/-- The characters that fit into `limit` bytes.  A replacement stands for one of which only a part
fits. -/
def fitting (limit : Nat) : List Char → List Char
  | [] => []
  | c :: rest =>
    if c.utf8Size ≤ limit then c :: fitting (limit - c.utf8Size) rest
    else if limit = 0 then []
    else [replacementCharacter]

/-- A text cut to the characters that fit into `limit` bytes. -/
def cutToBytes (limit : Nat) (s : String) : String := String.ofList (fitting limit s.toList)

/-- A text cut to `limit` characters. -/
def cutTo (limit : Nat) (s : String) : String := String.ofList (s.toList.take limit)

theorem fitting_of_utf8Size_le {limit : Nat} {c : Char} {rest : List Char}
    (h : c.utf8Size ≤ limit) :
    fitting limit (c :: rest) = c :: fitting (limit - c.utf8Size) rest := by
  rw [fitting, if_pos h]

end PredicateTree.Text
