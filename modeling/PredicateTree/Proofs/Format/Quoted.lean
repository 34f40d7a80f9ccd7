import Mathlib.Algebra.Group.Nat.Defs
import PredicateTree.Text.Quoted

/-!
# Quoted texts are told apart

An escaped character can be read back, whatever follows it (`Text.unescape_escape`), and no escaped
character starts as the closing quote does.  So a quoted text ends where its closing quote stands:
the text that was quoted, and what follows it, are determined by what is written
(`Text.quoted_append_inj`).
-/

namespace PredicateTree.Text

/-! ### Reading an escaped character -/

/-- The value of a digit of base sixteen. -/
def hexValue (c : Char) : Nat := if c.toNat < 58 then c.toNat - 48 else c.toNat - 87

/-- The number that digits of base sixteen stand for. -/
def readHex (cs : List Char) : Nat := cs.foldl (fun n c => 16 * n + hexValue c) 0

/-- Reads a character by its code point, which has so many digits. -/
def readPoint (width : Nat) (cs : List Char) : Char × List Char :=
  (Char.ofNat (readHex (cs.take width)), cs.drop width)

/-- Reads an escaped character. -/
def unescape : List Char → Option (Char × List Char)
  | '\\' :: 'x' :: cs => some (readPoint 2 cs)
  | '\\' :: 'u' :: cs => some (readPoint 4 cs)
  | '\\' :: 'U' :: cs => some (readPoint 8 cs)
  | '\\' :: 't' :: cs => some ('\t', cs)
  | '\\' :: 'n' :: cs => some ('\n', cs)
  | '\\' :: 'r' :: cs => some ('\r', cs)
  | '\\' :: c :: cs => some (c, cs)
  | c :: cs => some (c, cs)
  | [] => none

theorem length_hexDigits (width n : Nat) : (hexDigits width n).length = width := by
  induction width generalizing n with
  | zero => rfl
  | succ width ih => rw [hexDigits, List.length_append, ih, List.length_singleton]

theorem hexValue_hexDigit : ∀ n < 16, hexValue (hexDigit n) = n := by decide

theorem readHex_hexDigits (width n : Nat) : readHex (hexDigits width n) = n % 16 ^ width := by
  induction width generalizing n with
  | zero => rw [Nat.pow_zero, Nat.mod_one]; rfl
  | succ width ih =>
    have hinit := ih (n / 16)
    rw [readHex] at hinit
    rw [hexDigits, readHex, List.foldl_append, hinit, List.foldl_cons, List.foldl_nil,
      hexValue_hexDigit _ (Nat.mod_lt n (by decide)), Nat.pow_succ, Nat.mul_comm (16 ^ width),
      Nat.mod_mul, Nat.add_comm]

theorem readPoint_hexDigits {width : Nat} {c : Char} (h : c.toNat < 16 ^ width) (u : List Char) :
    readPoint width (hexDigits width c.toNat ++ u) = (c, u) := by
  rw [readPoint, List.take_left' (length_hexDigits _ _), List.drop_left' (length_hexDigits _ _),
    readHex_hexDigits, Nat.mod_eq_of_lt h, Char.ofNat_toNat]

theorem toNat_lt_pow (c : Char) : c.toNat < 16 ^ 8 := by
  have h := c.toNat_val
  have := c.val.toNat_lt
  omega

theorem unescape_codePoint (c : Char) (u : List Char) :
    unescape (codePoint c ++ u) = some (c, u) := by
  unfold codePoint
  split
  · exact congrArg some (readPoint_hexDigits (by omega) u)
  · split
    · exact congrArg some (readPoint_hexDigits (by omega) u)
    · exact congrArg some (readPoint_hexDigits (toNat_lt_pow c) u)

/-- The quotes that a text may be written between. -/
def IsQuote (q : Char) : Prop := q = '\'' ∨ q = '"'

theorem isQuote_quoteFor (cs : List Char) : IsQuote (quoteFor cs) := by
  unfold quoteFor
  split
  · exact .inr rfl
  · exact .inl rfl

variable {q c d : Char} {u v : List Char}

theorem unescape_cons (h : c ≠ '\\') (u : List Char) : unescape (c :: u) = some (c, u) := by
  unfold unescape
  split
  all_goals simp_all

/-- An escaped character can be read back, whatever follows. -/
theorem unescape_escape (hq : IsQuote q) (c : Char) (u : List Char) :
    unescape (escape q c ++ u) = some (c, u) := by
  unfold escape
  split
  · rename_i h
    rcases Bool.or_eq_true_iff.1 h with h | h
    · rw [beq_iff_eq.1 h]
      rcases hq with rfl | rfl <;> rfl
    · rw [beq_iff_eq.1 h]
      rfl
  · rename_i hplain
    repeat' split
    · rename_i h
      rw [beq_iff_eq.1 h]
      rfl
    · rename_i h
      rw [beq_iff_eq.1 h]
      rfl
    · rename_i h
      rw [beq_iff_eq.1 h]
      rfl
    · exact unescape_cons (fun h => hplain (by simp [h])) u
    · exact unescape_codePoint c u

theorem escape_append_inj (hq : IsQuote q) (h : escape q c ++ u = escape q d ++ v) :
    c = d ∧ u = v := by
  have hread := congrArg unescape h
  rw [unescape_escape hq, unescape_escape hq] at hread
  exact Prod.mk.inj (Option.some.inj hread)

/-- An escaped character does not start as the closing quote does. -/
theorem exists_escape (hq : IsQuote q) (c : Char) : ∃ d cs, escape q c = d :: cs ∧ d ≠ q := by
  have hslash : '\\' ≠ q := by rcases hq with rfl | rfl <;> decide
  unfold escape
  split
  · exact ⟨_, _, rfl, hslash⟩
  · rename_i hplain
    repeat' split
    · exact ⟨_, _, rfl, hslash⟩
    · exact ⟨_, _, rfl, hslash⟩
    · exact ⟨_, _, rfl, hslash⟩
    · exact ⟨_, _, rfl, fun h => hplain (by simp [h])⟩
    · unfold codePoint
      repeat' split
      · exact ⟨_, _, rfl, hslash⟩
      · exact ⟨_, _, rfl, hslash⟩
      · exact ⟨_, _, rfl, hslash⟩

theorem escape_ne (hq : IsQuote q) : escape q c ++ u ≠ q :: v := by
  obtain ⟨d, cs, heq, hne⟩ := exists_escape hq c
  rw [heq, List.cons_append]
  exact fun h => hne (List.cons.inj h).1

theorem flatMap_escape_append_inj (hq : IsQuote q) {cs ds : List Char}
    (h : cs.flatMap (escape q) ++ q :: u = ds.flatMap (escape q) ++ q :: v) : cs = ds ∧ u = v := by
  induction cs generalizing ds with
  | nil =>
    cases ds with
    | nil => exact ⟨rfl, (List.cons.inj h).2⟩
    | cons d ds =>
      rw [List.flatMap_cons, List.append_assoc] at h
      exact absurd h.symm (escape_ne hq)
  | cons c cs ih =>
    cases ds with
    | nil =>
      rw [List.flatMap_cons, List.append_assoc] at h
      exact absurd h (escape_ne hq)
    | cons d ds =>
      rw [List.flatMap_cons, List.flatMap_cons, List.append_assoc, List.append_assoc] at h
      obtain ⟨rfl, hrest⟩ := escape_append_inj hq h
      obtain ⟨rfl, htail⟩ := ih hrest
      exact ⟨rfl, htail⟩

theorem toList_quoted (s : String) : (quoted s).toList =
    quoteFor s.toList :: (s.toList.flatMap (escape (quoteFor s.toList)) ++ [quoteFor s.toList]) :=
  String.toList_ofList

/-- Texts that are written the same between quotes, whatever follows, are the same. -/
theorem quoted_append_inj {s t : String} (h : (quoted s).toList ++ u = (quoted t).toList ++ v) :
    s = t ∧ u = v := by
  rw [toList_quoted, toList_quoted, List.cons_append, List.cons_append] at h
  obtain ⟨hquote, hrest⟩ := List.cons.inj h
  rw [← hquote, List.append_assoc, List.append_assoc] at hrest
  obtain ⟨hchars, htail⟩ := flatMap_escape_append_inj (isQuote_quoteFor s.toList) hrest
  exact ⟨String.toList_injective hchars, htail⟩

end PredicateTree.Text
