import PredicateTree.Proofs.Format.Quoted
import PredicateTree.Value.Shown

/-!
# Groups are told apart

Within parentheses stand items that are separated by blanks.  An item is made of plain characters,
quoted texts and groups again, so that a blank or a parenthesis which belongs to it always stands
between quotes or parentheses of its own (`Text.Item`).  Therefore an item ends at the first blank or
closing parenthesis outside of them (`Text.Item.delimited`), and the items of a group are determined by
what is written (`Text.group_inj`).
-/

namespace PredicateTree.Text

/-! ### Items and groups -/

/-- Whether a character has no meaning of its own where texts are grouped. -/
def isPlain (c : Char) : Bool := !([' ', '(', ')', '\'', '"'].contains c)

/-- What follows the first of several items up to the end of their group. -/
def closing : List (List Char) → List Char
  | [] => [')']
  | x :: xs => ' ' :: (x ++ closing xs)

/-- Items within parentheses. -/
def group : List (List Char) → List Char
  | [] => ['(', ')']
  | x :: xs => '(' :: (x ++ closing xs)

/-- A text in which blanks and parentheses are balanced. -/
inductive Item : List Char → Prop where
  | nil : Item []
  | plain {c : Char} {x : List Char} (hc : isPlain c = true) (hx : Item x) : Item (c :: x)
  | quoted (s : String) {x : List Char} (hx : Item x) : Item ((Text.quoted s).toList ++ x)
  | group {xs : List (List Char)} {x : List Char} (filled : ∀ y ∈ xs, y ≠ [])
      (items : ∀ y ∈ xs, Item y) (hx : Item x) : Item (Text.group xs ++ x)

variable {c : Char} {x y u v : List Char} {xs ys : List (List Char)}

theorem closing_eq (x : List Char) (xs : List (List Char)) :
    x ++ closing xs = [' '].intercalate (x :: xs) ++ [')'] := by
  induction xs generalizing x with
  | nil => rw [List.intercalate_singleton]; rfl
  | cons y ys ih =>
    rw [List.intercalate_cons_cons, closing, ih y]
    simp

theorem toList_grouped (parts : List String) :
    (grouped parts).toList = group (parts.map String.toList) := by
  rw [grouped, String.toList_append, String.toList_append, String.toList_intercalate]
  cases parts with
  | nil => rfl
  | cons a parts =>
    rw [List.map_cons, group, closing_eq]
    rfl

namespace Item

theorem append (hx : Item x) (hy : Item y) : Item (x ++ y) := by
  induction hx with
  | nil => exact hy
  | plain hc _ ih => exact .plain hc ih
  | quoted s _ ih =>
    rw [List.append_assoc]
    exact .quoted s ih
  | group filled items _ _ ih =>
    rw [List.append_assoc]
    exact .group filled items ih

theorem of_plain (h : ∀ c ∈ x, isPlain c = true) : Item x := by
  induction x with
  | nil => exact .nil
  | cons c x ih =>
    exact .plain (h c List.mem_cons_self) (ih fun d hd => h d (List.mem_cons_of_mem c hd))

theorem of_quoted (s : String) : Item (Text.quoted s).toList := by
  rw [← List.append_nil (Text.quoted s).toList]
  exact .quoted s .nil

theorem of_group (filled : ∀ y ∈ xs, y ≠ []) (items : ∀ y ∈ xs, Item y) : Item (Text.group xs) := by
  rw [← List.append_nil (Text.group xs)]
  exact .group filled items .nil

end Item

/-! ### Where items end -/

/-- What may follow an item: nothing, a blank, or a closing parenthesis. -/
def Ends (u : List Char) : Prop := ∀ c ∈ u.head?, c = ' ' ∨ c = ')'

theorem ends_closing (xs : List (List Char)) (u : List Char) : Ends (closing xs ++ u) := by
  cases xs with
  | nil => exact fun _ hc => .inr (Option.some.inj hc).symm
  | cons => exact fun _ hc => .inl (Option.some.inj hc).symm

theorem exists_quoted (s : String) : ∃ q cs, (quoted s).toList = q :: cs ∧ IsQuote q :=
  ⟨_, _, toList_quoted s, isQuote_quoteFor _⟩

theorem exists_group (xs : List (List Char)) : ∃ cs, group xs = '(' :: cs := by
  cases xs with
  | nil => exact ⟨_, rfl⟩
  | cons => exact ⟨_, rfl⟩

/-- An item does not start as what follows an item does. -/
theorem Item.not_ends (h : Item x) (filled : x ≠ []) (u : List Char) : ¬ Ends (x ++ u) := by
  intro hends
  cases h with
  | nil => exact filled rfl
  | @plain c x hc hx =>
    rcases hends c rfl with rfl | rfl
    · exact absurd hc (by decide)
    · exact absurd hc (by decide)
  | quoted s =>
    obtain ⟨q, cs, heq, hq⟩ := exists_quoted s
    rw [heq] at hends
    rcases hends q rfl with rfl | rfl
    · exact absurd hq (by simp [IsQuote])
    · exact absurd hq (by simp [IsQuote])
  | @group xs =>
    obtain ⟨cs, heq⟩ := exists_group xs
    rw [heq] at hends
    exact absurd (hends '(' rfl) (by decide)

/-- An item is told apart from every other one, whatever may follow them. -/
def Delimited (x : List Char) : Prop :=
  ∀ {y u v}, Item y → Ends u → Ends v → x ++ u = y ++ v → x = y ∧ u = v

theorem closing_append_inj (hxs : ∀ x ∈ xs, Delimited x) (hys : ∀ y ∈ ys, Item y)
    (h : closing xs ++ u = closing ys ++ v) : xs = ys ∧ u = v := by
  induction xs generalizing ys with
  | nil =>
    cases ys with
    | nil => exact ⟨rfl, (List.cons.inj h).2⟩
    | cons => exact absurd (List.cons.inj h).1 (by decide)
  | cons x xs ih =>
    cases ys with
    | nil => exact absurd (List.cons.inj h).1 (by decide)
    | cons y ys =>
      rw [closing, closing, List.cons_append, List.cons_append, List.append_assoc,
        List.append_assoc] at h
      obtain ⟨rfl, hclosing⟩ := hxs x List.mem_cons_self (hys y List.mem_cons_self)
        (ends_closing xs u) (ends_closing ys v) (List.cons.inj h).2
      obtain ⟨rfl, htail⟩ := ih (fun k hk => hxs k (List.mem_cons_of_mem x hk))
        (fun k hk => hys k (List.mem_cons_of_mem x hk)) hclosing
      exact ⟨rfl, htail⟩

theorem Item.ne_of_ends (h : Item x) (filled : x ≠ []) (hv : Ends v) : x ++ u ≠ v :=
  fun heq => h.not_ends filled u (heq ▸ hv)

theorem ends_close (u : List Char) : Ends (')' :: u) := fun _ hc => .inr (Option.some.inj hc).symm

/-- The items of a group are told apart if each of them is. -/
theorem group_append_inj (filled : ∀ x ∈ xs, x ≠ []) (items : ∀ x ∈ xs, Item x)
    (hxs : ∀ x ∈ xs, Delimited x) (filled' : ∀ y ∈ ys, y ≠ []) (hys : ∀ y ∈ ys, Item y)
    (h : group xs ++ u = group ys ++ v) : xs = ys ∧ u = v := by
  cases xs with
  | nil =>
    cases ys with
    | nil => exact ⟨rfl, (List.cons.inj (List.cons.inj h).2).2⟩
    | cons y ys =>
      rw [group, group, List.cons_append, List.cons_append, List.cons_append, List.nil_append,
        List.append_assoc] at h
      have hy := hys y List.mem_cons_self
      exact absurd (List.cons.inj h).2.symm
        (hy.ne_of_ends (filled' y List.mem_cons_self) (ends_close u))
  | cons x xs =>
    cases ys with
    | nil =>
      rw [group, group, List.cons_append, List.cons_append, List.cons_append, List.nil_append,
        List.append_assoc] at h
      have hx := items x List.mem_cons_self
      exact absurd (List.cons.inj h).2
        (hx.ne_of_ends (filled x List.mem_cons_self) (ends_close v))
    | cons y ys =>
      have hclosing : closing (x :: xs) ++ u = closing (y :: ys) ++ v :=
        congrArg (' ' :: ·) (List.cons.inj h).2
      exact closing_append_inj hxs hys hclosing

theorem plain_ne_quoted (hc : isPlain c = true) (s : String) : c :: x ≠ (quoted s).toList ++ u := by
  obtain ⟨q, cs, heq, hq⟩ := exists_quoted s
  rw [heq]
  intro h
  rw [(List.cons.inj h).1] at hc
  rcases hq with rfl | rfl <;> exact absurd hc (by decide)

theorem plain_ne_group (hc : isPlain c = true) (xs : List (List Char)) : c :: x ≠ group xs ++ u := by
  obtain ⟨cs, heq⟩ := exists_group xs
  rw [heq]
  intro h
  rw [(List.cons.inj h).1] at hc
  exact absurd hc (by decide)

theorem quoted_ne_group (s : String) (xs : List (List Char)) :
    (quoted s).toList ++ u ≠ group xs ++ v := by
  obtain ⟨q, cs, heq, hq⟩ := exists_quoted s
  obtain ⟨ds, heq'⟩ := exists_group xs
  rw [heq, heq']
  intro h
  rw [(List.cons.inj h).1] at hq
  rcases hq with h | h <;> exact absurd h (by decide)

/-- What an item starts with, a plain character, a quoted text or a group, is told apart, and an item
follows it. -/
theorem Item.delimited (hx : Item x) : Delimited x := by
  induction hx with
  | nil =>
    intro y u v hy hu _ h
    by_cases hfilled : y = []
    · subst hfilled
      exact ⟨rfl, h⟩
    · exact absurd h.symm (hy.ne_of_ends hfilled hu)
  | @plain c x hc hx ih =>
    intro y u v hy hu hv h
    cases hy with
    | nil => exact absurd h ((Item.plain hc hx).ne_of_ends (List.cons_ne_nil c x) hv)
    | plain _ hy =>
      obtain ⟨rfl, hrest⟩ := List.cons.inj h
      obtain ⟨rfl, rfl⟩ := ih hy hu hv hrest
      exact ⟨rfl, rfl⟩
    | quoted s =>
      rw [List.append_assoc] at h
      exact absurd h (plain_ne_quoted hc s)
    | group =>
      rw [List.append_assoc] at h
      exact absurd h (plain_ne_group hc _)
  | @quoted s x hx ih =>
    intro y u v hy hu hv h
    cases hy with
    | nil => exact absurd h ((Item.quoted s hx).ne_of_ends (by simp [toList_quoted]) hv)
    | plain hc =>
      rw [List.append_assoc] at h
      exact absurd h.symm (plain_ne_quoted hc s)
    | quoted t hy =>
      rw [List.append_assoc, List.append_assoc] at h
      obtain ⟨rfl, hrest⟩ := quoted_append_inj h
      obtain ⟨rfl, rfl⟩ := ih hy hu hv hrest
      exact ⟨rfl, rfl⟩
    | group =>
      rw [List.append_assoc, List.append_assoc] at h
      exact absurd h (quoted_ne_group s _)
  | @group xs x filled items hx ihitems ih =>
    intro y u v hy hu hv h
    cases hy with
    | nil =>
      obtain ⟨cs, heq⟩ := exists_group xs
      exact absurd h ((Item.group filled items hx).ne_of_ends (by simp [heq]) hv)
    | plain hc =>
      rw [List.append_assoc] at h
      exact absurd h.symm (plain_ne_group hc xs)
    | quoted s =>
      rw [List.append_assoc, List.append_assoc] at h
      exact absurd h.symm (quoted_ne_group s xs)
    | group filled' items' hy =>
      rw [List.append_assoc, List.append_assoc] at h
      obtain ⟨rfl, hrest⟩ := group_append_inj filled items ihitems filled' items' h
      obtain ⟨rfl, rfl⟩ := ih hy hu hv hrest
      exact ⟨rfl, rfl⟩

/-- Groups that are written the same have the same items. -/
theorem group_inj (hxs : ∀ x ∈ xs, x ≠ [] ∧ Item x) (hys : ∀ y ∈ ys, y ≠ [] ∧ Item y)
    (h : group xs = group ys) : xs = ys := by
  have happend : group xs ++ [] = group ys ++ [] := by rw [h]
  exact (group_append_inj (fun x hx => (hxs x hx).1) (fun x hx => (hxs x hx).2)
    (fun x hx => (hxs x hx).2.delimited) (fun y hy => (hys y hy).1) (fun y hy => (hys y hy).2)
    happend).1

end PredicateTree.Text
