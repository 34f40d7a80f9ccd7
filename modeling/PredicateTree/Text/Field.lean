/-!
# Fields

A text set in a field of a least width (`Field.set`): blanks are put before it or after it, or zeros
after its sign.
-/

namespace PredicateTree.Text

/-- How a text is set. -/
structure Field where
  /-- The least width. -/
  width : Nat
  /-- Whether the blanks come after the text. -/
  left : Bool
  /-- Whether there are zeros in place of the blanks before the text. -/
  zeros : Bool

/-- A text of a sign and a body, set in a field. -/
def Field.set (f : Field) (sign body : List Char) : List Char :=
  let missing := f.width - (sign.length + body.length)
  if f.left then sign ++ body ++ List.replicate missing ' '
  else if f.zeros then sign ++ List.replicate missing '0' ++ body
  else List.replicate missing ' ' ++ sign ++ body

/-- A field is filled, and a text that is wider is not cut. -/
theorem Field.length_set (f : Field) (sign body : List Char) :
    (f.set sign body).length = max f.width (sign.length + body.length) := by
  unfold Field.set
  simp only
  split
  · simp only [List.length_append, List.length_replicate]
    omega
  · split
    · simp only [List.length_append, List.length_replicate]
      omega
    · simp only [List.length_append, List.length_replicate]
      omega

end PredicateTree.Text
