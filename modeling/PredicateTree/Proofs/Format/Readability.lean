import Mathlib
import PredicateTree.Proofs.Format.Spelling

/-!
# Trees are told apart by their texts

The text of a tree, with the serial numbers of its parameters, says all of the tree but static types
(`format_unambiguous`).  The text of every node is an item that holds a character which no keyword
holds (`Text.Phrase`), so the parts of a text within parentheses, and whether the first of them is a
keyword, can be read off.  What kind of text it is shows at its last character, or else at the
characters that it holds (`Text.form`).
-/

namespace PredicateTree

/-! ### Phrases and keywords -/

namespace Text

/-- Whether a character stands in no keyword. -/
def isTelling (c : Char) : Bool := c.isDigit || c.isUpper || ['\'', '"', '#', '.', '('].contains c

/-- An item with a character that stands in no keyword, as the text of every node is. -/
structure Phrase (x : List Char) : Prop where
  item : Item x
  telling : ∃ c ∈ x, isTelling c = true

/-- A text without such characters, as that of every operator is. -/
structure Keyword (x : List Char) : Prop where
  filled : x ≠ []
  chars : ∀ c ∈ x, isPlain c = true ∧ isTelling c = false

theorem Phrase.filled {x : List Char} (h : Phrase x) : x ≠ [] := by
  rintro rfl
  obtain ⟨c, hc, -⟩ := h.telling
  cases hc

/-- What starts with a phrase does not start with a keyword. -/
theorem Phrase.cons_ne {x k : List Char} {xs ks : List (List Char)} (h : Phrase x) (hk : Keyword k) :
    x :: xs ≠ k :: ks := by
  intro heq
  obtain ⟨c, hc, htelling⟩ := h.telling
  rw [(List.cons.inj heq).1] at hc
  rw [(hk.chars c hc).2] at htelling
  cases htelling

theorem Keyword.fit {x : List Char} (h : Keyword x) : x ≠ [] ∧ Item x :=
  ⟨h.filled, .of_plain fun c hc => (h.chars c hc).1⟩

theorem fit_phrases {xs : List (List Char)} (h : ∀ x ∈ xs, Phrase x) : ∀ x ∈ xs, x ≠ [] ∧ Item x :=
  fun x hx => ⟨(h x hx).filled, (h x hx).item⟩

theorem phrase_group {xs : List (List Char)} (h : ∀ x ∈ xs, x ≠ [] ∧ Item x) :
    Phrase (group xs) := by
  obtain ⟨cs, heq⟩ := exists_group xs
  exact ⟨.of_group (fun x hx => (h x hx).1) fun x hx => (h x hx).2, '(', by simp [heq], rfl⟩

theorem keyword_binary (op : BinaryOp) : Keyword op.symbol.toList := by
  constructor
  · cases op <;> simp [BinaryOp.symbol]
  · cases op <;> simp [BinaryOp.symbol, isPlain, isTelling]

theorem keyword_unary (op : UnaryOp) : Keyword op.symbol.toList := by
  constructor
  · cases op <;> simp [UnaryOp.symbol]
  · cases op <;> simp [UnaryOp.symbol, isPlain, isTelling]

theorem keyword_if : Keyword "if".toList := by
  constructor
  · simp
  · simp [isPlain, isTelling]

theorem keyword_lambda : Keyword "lambda".toList := by
  constructor
  · simp
  · simp [isPlain, isTelling]

theorem ofSymbol?_binary (op : BinaryOp) : BinaryOp.ofSymbol? op.symbol = some op := by
  cases op <;> decide +kernel

theorem ofSymbol?_unary (op : UnaryOp) : UnaryOp.ofSymbol? op.symbol = some op := by
  cases op <;> decide +kernel

/-! ### Characters -/

theorem digits_toString (n : Nat) : ∀ c ∈ (toString n).toList, c.isDigit = true := by
  intro c hc
  rw [Nat.toString_eq_repr, Nat.repr_eq_ofList_toDigits, String.toList_ofList] at hc
  exact Nat.isDigit_of_mem_toDigits (by decide) (by decide) hc

theorem toString_ne_nil (n : Nat) : (toString n).toList ≠ [] := by
  rw [Nat.toString_eq_repr, Nat.repr_eq_ofList_toDigits, String.toList_ofList]
  exact Nat.toDigits_ne_nil

/-- An integer is written by a natural number, behind a sign if it is negative. -/
theorem toString_int (i : Int) :
    ∃ n : Nat, (toString i).toList = (toString n).toList ∨
      (toString i).toList = '-' :: (toString n).toList := by
  rw [Int.toString_eq_repr, Int.repr_eq_if]
  split
  · exact ⟨i.toNat, .inl rfl⟩
  · refine ⟨(-i).toNat, .inr ?_⟩
    rw [String.toList_append]
    rfl

/-- A character of a name, of a serial number or of an integer. -/
def isAtomChar (c : Char) : Bool := isWordChar c || c == '#' || c == '-'

/-- Blanks, parentheses and quotes are no such characters. -/
theorem isPlain_of_isAtomChar {c : Char} (h : isAtomChar c = true) : isPlain c = true := by
  rw [isPlain, Bool.not_eq_true', List.contains_eq_mem, decide_eq_false_iff_not]
  intro hc
  have hnone : ∀ d ∈ [' ', '(', ')', '\'', '"'], isAtomChar d = false := by
    simp [isAtomChar, isWordChar]
  rw [hnone c hc] at h
  cases h

theorem isAtomChar_of_isWordChar {c : Char} (h : isWordChar c = true) : isAtomChar c = true := by
  rw [isAtomChar, h]
  rfl

theorem isAtomChar_of_isDigit {c : Char} (h : c.isDigit = true) : isAtomChar c = true := by
  refine isAtomChar_of_isWordChar ?_
  rw [isWordChar, Char.isAlphanum, h, Bool.or_true]
  rfl

theorem isTelling_of_isDigit {c : Char} (h : c.isDigit = true) : isTelling c = true := by
  rw [isTelling, h]
  rfl

variable {x y w : List Char}

/-! ### Kinds of text -/

/-- The kinds of text that nodes have. -/
inductive Form where
  | group
  | quoted
  | member
  | parameter
  | plain

/-- The kind of a text, which shows at its last character, or else at those that it holds. -/
def form (x : List Char) : Form :=
  if x.getLast? = some ')' then .group
  else if x.getLast? = some '\'' ∨ x.getLast? = some '"' then .quoted
  else if '.' ∈ x then .member
  else if '#' ∈ x then .parameter
  else .plain

theorem form_of_last (h : ∀ d ∈ [')', '\'', '"'], x.getLast? ≠ some d) :
    form x = if '.' ∈ x then .member else if '#' ∈ x then .parameter else .plain := by
  have hclose := h ')' (by simp)
  have hsingle := h '\'' (by simp)
  have hdouble := h '"' (by simp)
  rw [form, if_neg hclose, if_neg (by simp [hsingle, hdouble])]

theorem getLast?_ne_of_atom (h : ∀ c ∈ x, isAtomChar c = true) :
    ∀ d ∈ [')', '\'', '"'], x.getLast? ≠ some d := by
  intro d hd hlast
  have hatom := h d (List.mem_of_getLast? hlast)
  have hnone : ∀ d ∈ [')', '\'', '"'], isAtomChar d = false := by simp [isAtomChar, isWordChar]
  rw [hnone d hd] at hatom
  cases hatom

theorem form_of_atom (h : ∀ c ∈ x, isAtomChar c = true) :
    form x = if '#' ∈ x then .parameter else .plain := by
  have hdot : '.' ∉ x := fun hmem => absurd (h '.' hmem) (by decide)
  rw [form_of_last (getLast?_ne_of_atom h), if_neg hdot]

theorem form_of_plain (h : ∀ c ∈ x, isAtomChar c = true) (hhash : '#' ∉ x) : form x = .plain := by
  rw [form_of_atom h, if_neg hhash]

theorem form_member {w : String} (hw : IsWord w) : form (x ++ '.' :: w.toList) = .member := by
  have hlast : (x ++ '.' :: w.toList).getLast? = w.toList.getLast? := by
    rw [List.getLast?_append, List.getLast?_cons, List.getLast?_eq_some_getLast hw.filled]
    rfl
  rw [form_of_last, if_pos (by simp)]
  rw [hlast]
  exact getLast?_ne_of_atom fun c hc => isAtomChar_of_isWordChar (hw.chars c hc)

theorem form_quoted (s : String) : form (quoted s).toList = .quoted := by
  have hlast : (quoted s).toList.getLast? = some (quoteFor s.toList) := by
    rw [toList_quoted, List.getLast?_cons, List.getLast?_append]
    rfl
  rw [form, hlast]
  rcases isQuote_quoteFor s.toList with h | h
  · rw [h]
    rfl
  · rw [h]
    rfl

theorem getLast?_closing (u : List Char) (xs : List (List Char)) :
    (u ++ closing xs).getLast? = some ')' := by
  induction xs generalizing u with
  | nil => simp [closing]
  | cons x xs ih =>
    have h := ih (u ++ ' ' :: x)
    rwa [List.append_assoc] at h

theorem form_group (xs : List (List Char)) : form (group xs) = .group := by
  have hlast : (group xs).getLast? = some ')' := by
    cases xs with
    | nil => rfl
    | cons x xs => exact getLast?_closing ('(' :: x) xs
  rw [form, if_pos hlast]

/-- What stands behind the last of several equal characters is told apart. -/
theorem append_cons_inj {c : Char} {x y u v : List Char} (hu : c ∉ u) (hv : c ∉ v)
    (h : x ++ c :: u = y ++ c :: v) : x = y ∧ u = v := by
  induction x generalizing y with
  | nil =>
    cases y with
    | nil => exact ⟨rfl, (List.cons.inj h).2⟩
    | cons d y => exact absurd ((List.cons.inj h).2 ▸ by simp) hu
  | cons a x ih =>
    cases y with
    | nil => exact absurd ((List.cons.inj h).2 ▸ by simp) hv
    | cons d y =>
      obtain ⟨rfl, hrest⟩ := List.cons.inj h
      obtain ⟨rfl, htail⟩ := ih hrest
      exact ⟨rfl, htail⟩

theorem chars_int (i : Int) : ∀ c ∈ (toString i).toList, c.isDigit = true ∨ c = '-' := by
  obtain ⟨n, h | h⟩ := toString_int i
  · rw [h]
    exact fun c hc => .inl (digits_toString n c hc)
  · rw [h]
    intro c hc
    rcases List.mem_cons.1 hc with rfl | hc
    · exact .inr rfl
    · exact .inl (digits_toString n c hc)

theorem isAtomChar_int (i : Int) : ∀ c ∈ (toString i).toList, isAtomChar c = true := by
  intro c hc
  rcases chars_int i c hc with h | rfl
  · exact isAtomChar_of_isDigit h
  · rfl

/-- A text that holds something other than digits and a sign is no integer. -/
theorem int_ne {c : Char} (i : Int) (hc : c ∈ x) (hno : c.isDigit = false) (hminus : c ≠ '-') :
    (toString i).toList ≠ x := by
  rintro rfl
  rcases chars_int i c hc with h | rfl
  · rw [hno] at h
    cases h
  · exact hminus rfl

theorem exists_digit_int (i : Int) : ∃ c ∈ (toString i).toList, c.isDigit = true := by
  obtain ⟨n, h⟩ := toString_int i
  obtain ⟨c, hc⟩ := List.exists_mem_of_ne_nil _ (toString_ne_nil n)
  refine ⟨c, ?_, digits_toString n c hc⟩
  rcases h with h | h
  · rwa [h]
  · rw [h]
    exact List.mem_cons_of_mem _ hc

theorem phrase_of_atom (h : ∀ c ∈ x, isAtomChar c = true) (telling : ∃ c ∈ x, isTelling c = true) :
    Phrase x :=
  ⟨.of_plain fun c hc => isPlain_of_isAtomChar (h c hc), telling⟩

end Text

/-! ### What is told -/

/-- Values of one type that are written the same. -/
inductive Value.SameData : Value → Value → Prop where
  | absent : SameData .absent .absent
  | bool (b : Bool) : SameData (.bool b) (.bool b)
  | int (m m' : Nat) (i : Int) : SameData (.int m i) (.int m' i)
  | str (m m' : Nat) (s : String) : SameData (.str m s) (.str m' s)

namespace Node

/-- Two nodes of one kind, with the same operator, name of a member, or value, or one parameter. -/
inductive SameLabel : Node → Node → Prop where
  | literal {m m' : Nat} {v w : Value} {t t' : StaticType} (h : v.SameData w) :
      SameLabel (.literal m v t) (.literal m' w t')
  | parameter (p : Parameter) : SameLabel (.parameter p) (.parameter p)
  | member {m m' k k' : Nat} {e e' owner : Value} {w : String} {t t' : StaticType} :
      SameLabel (.member m e (.str k w) owner t) (.member m' e' (.str k' w) owner t')
  | unary {m m' : Nat} {op : UnaryOp} {e e' : Value} {t t' : StaticType} :
      SameLabel (.unary m op e t) (.unary m' op e' t')
  | binary {m m' : Nat} {op : BinaryOp} {l l' r r' : Value} {t t' : StaticType} :
      SameLabel (.binary m op l r t) (.binary m' op l' r' t')
  | conditional {m m' : Nat} {c c' a a' b b' : Value} {t t' : StaticType} :
      SameLabel (.conditional m c a b t) (.conditional m' c' a' b' t')
  | call {m m' row row' : Nat} {f f' : Value} {args args' : List Value} {t t' : StaticType} :
      SameLabel (.call m f row args t) (.call m' f' row' args' t')
  | lambda {m m' row row' : Nat} {ps ps' : List Value} {b b' : Value} :
      SameLabel (.lambda m row ps b) (.lambda m' row' ps' b')

/-- Trees that differ at most in static types: position by position their nodes say the same. -/
inductive SameButTypes : Node → Node → Prop where
  | intro {n m : Node} {ns ms : List Node} (label : n.SameLabel m) (hn : n.childNodes = .ok ns)
      (hm : m.childNodes = .ok ms) (each : List.Forall₂ SameButTypes ns ms) : SameButTypes n m

end Node

open Text

variable {A : Parameter → Prop} {v w : Value} {n m : Node} {x y : List Char}
  {xs ys items items' : List (List Char)}

theorem Value.Written.phrase (h : v.Written x) : Phrase x := by
  cases h with
  | absent => exact phrase_of_atom (by simp [isAtomChar, isWordChar]) ⟨'N', by simp, rfl⟩
  | bool b =>
    cases b
    · exact phrase_of_atom (by simp [isAtomChar, isWordChar]) ⟨'F', by simp, rfl⟩
    · exact phrase_of_atom (by simp [isAtomChar, isWordChar]) ⟨'T', by simp, rfl⟩
  | int m i =>
    obtain ⟨c, hc, hdigit⟩ := exists_digit_int i
    exact phrase_of_atom (isAtomChar_int i) ⟨c, hc, isTelling_of_isDigit hdigit⟩
  | str m s =>
    refine ⟨.of_quoted s, quoteFor s.toList, by simp [toList_quoted], ?_⟩
    rcases isQuote_quoteFor s.toList with h | h
    · rw [h]
      rfl
    · rw [h]
      rfl

theorem Value.Written.form (h : v.Written x) :
    form x = match v with | .str .. => .quoted | _ => .plain := by
  cases h with
  | absent => exact form_of_plain (by simp [isAtomChar, isWordChar]) (by simp)
  | bool b => cases b <;> exact form_of_plain (by simp [isAtomChar, isWordChar]) (by simp)
  | int m i => exact form_of_plain (isAtomChar_int i) fun hc => int_ne i hc rfl (by decide) rfl
  | str m s => exact form_quoted s

theorem Value.Written.sameData (h : v.Written x) (h' : w.Written y) (hxy : x = y) :
    v.SameData w := by
  have hform := h.form.symm.trans ((congrArg Text.form hxy).trans h'.form)
  cases h with
  | absent =>
    cases h' with
    | absent => exact .absent
    | bool b => cases b <;> simp at hxy
    | int m i => exact absurd hxy.symm (int_ne (c := 'N') i (by simp) rfl (by decide))
    | str => cases hform
  | bool b =>
    have hhead : ∃ c ∈ (if b then "True" else "False").toList, c.isDigit = false ∧ c ≠ '-' := by
      cases b
      · exact ⟨'F', by simp, rfl, by decide⟩
      · exact ⟨'T', by simp, rfl, by decide⟩
    cases h' with
    | absent => cases b <;> simp at hxy
    | bool b' => cases b <;> cases b' <;> first | exact .bool _ | simp at hxy
    | int m i =>
      obtain ⟨c, hc, hno, hminus⟩ := hhead
      exact absurd hxy.symm (int_ne i hc hno hminus)
    | str => cases hform
  | int m i =>
    cases h' with
    | absent => exact absurd hxy (int_ne (c := 'N') i (by simp) rfl (by decide))
    | bool b =>
      cases b
      · exact absurd hxy (int_ne (c := 'F') i (by simp) rfl (by decide))
      · exact absurd hxy (int_ne (c := 'T') i (by simp) rfl (by decide))
    | int m' j =>
      have hij := String.toList_injective hxy
      rw [Int.toString_eq_repr, Int.toString_eq_repr, Int.repr_inj] at hij
      rw [hij]
      exact .int m m' j
    | str => cases hform
  | str m s =>
    cases h' with
    | str m' s' =>
      obtain ⟨rfl, -⟩ := quoted_append_inj (congrArg (· ++ []) hxy)
      exact .str m m' s
    | _ => cases hform

/-! ### Parts -/

namespace Node

theorem Parts.fit (h : n.Parts xs items) (hxs : ∀ x ∈ xs, Phrase x) :
    ∀ y ∈ items, y ≠ [] ∧ Item y := by
  cases h with
  | @unary _ op => exact List.forall_mem_cons.2 ⟨(keyword_unary op).fit, fit_phrases hxs⟩
  | @binary _ op => exact List.forall_mem_cons.2 ⟨(keyword_binary op).fit, fit_phrases hxs⟩
  | conditional => exact List.forall_mem_cons.2 ⟨keyword_if.fit, fit_phrases hxs⟩
  | call => exact fit_phrases hxs
  | @lambda _ _ _ _ x ps =>
    obtain ⟨hps, hx⟩ := List.forall_mem_append.1 hxs
    have hgroup : Phrase (group ps) := phrase_group (fit_phrases hps)
    have hrest : ∀ y ∈ [group ps, x], Phrase y := List.forall_mem_cons.2 ⟨hgroup, hx⟩
    exact List.forall_mem_cons.2 ⟨keyword_lambda.fit, fit_phrases hrest⟩

theorem binary_ne_lambda (op : BinaryOp) : op.symbol.toList ≠ "lambda".toList := by
  cases op <;> simp [BinaryOp.symbol]

theorem unary_inj {op op' : UnaryOp} (h : op.symbol.toList = op'.symbol.toList) : op = op' := by
  have hsome : some op = some op' := by
    rw [← ofSymbol?_unary op, String.toList_injective h, ofSymbol?_unary op']
  exact Option.some.inj hsome

theorem binary_inj {op op' : BinaryOp} (h : op.symbol.toList = op'.symbol.toList) : op = op' := by
  have hsome : some op = some op' := by
    rw [← ofSymbol?_binary op, String.toList_injective h, ofSymbol?_binary op']
  exact Option.some.inj hsome

/-- The parts tell the kind of a node, by their number and by what keyword is first, if any. -/
theorem Parts.unique (h : n.Parts xs items) (h' : m.Parts ys items') (hxs : ∀ x ∈ xs, Phrase x)
    (hys : ∀ y ∈ ys, Phrase y) (heq : items = items') : n.SameLabel m ∧ xs = ys := by
  cases h with
  | @unary _ op =>
    -- A binary operator may have the same symbol, but it has another part.
    cases h' with
    | unary =>
      obtain ⟨hop, hx⟩ := List.cons.inj heq
      obtain rfl := unary_inj hop
      exact ⟨.unary, hx⟩
    | call => exact absurd heq.symm ((hys _ (by simp)).cons_ne (keyword_unary op))
    | _ => simp at heq
  | @binary _ op =>
    cases h' with
    | binary =>
      obtain ⟨hop, hx⟩ := List.cons.inj heq
      obtain rfl := binary_inj hop
      exact ⟨.binary, hx⟩
    | lambda => exact absurd (List.cons.inj heq).1 (binary_ne_lambda op)
    | call => exact absurd heq.symm ((hys _ (by simp)).cons_ne (keyword_binary op))
    | _ => simp at heq
  | conditional =>
    cases h' with
    | conditional => exact ⟨.conditional, (List.cons.inj heq).2⟩
    | call => exact absurd heq.symm ((hys _ (by simp)).cons_ne keyword_if)
    | _ => simp at heq
  | call =>
    have hhead := hxs _ List.mem_cons_self
    cases h' with
    | unary => exact absurd heq (hhead.cons_ne (keyword_unary _))
    | binary => exact absurd heq (hhead.cons_ne (keyword_binary _))
    | conditional => exact absurd heq (hhead.cons_ne keyword_if)
    | call => exact ⟨.call, heq⟩
    | lambda => exact absurd heq (hhead.cons_ne keyword_lambda)
  | lambda =>
    cases h' with
    | lambda =>
      obtain ⟨hps, -⟩ := List.forall_mem_append.1 hxs
      obtain ⟨hqs, -⟩ := List.forall_mem_append.1 hys
      obtain ⟨hgroup, hbody⟩ := List.cons.inj (List.cons.inj heq).2
      obtain rfl := group_inj (fit_phrases hps) (fit_phrases hqs) hgroup
      rw [hbody]
      exact ⟨.lambda, rfl⟩
    | binary => exact absurd (List.cons.inj heq).1.symm (binary_ne_lambda _)
    | call => exact absurd heq.symm ((hys _ (by simp)).cons_ne keyword_lambda)
    | _ => simp at heq

/-! ### Layouts -/

theorem isAtomChar_parameter {w : String} (hw : IsWord w) (uid : Nat) :
    ∀ c ∈ w.toList ++ '#' :: (toString uid).toList, isAtomChar c = true := by
  refine List.forall_mem_append.2 ⟨fun c hc => isAtomChar_of_isWordChar (hw.chars c hc), ?_⟩
  exact List.forall_mem_cons.2 ⟨rfl, fun c hc => isAtomChar_of_isDigit (digits_toString uid c hc)⟩

theorem Layout.phrase (h : n.Layout A xs x) (hxs : ∀ y ∈ xs, Phrase y) : Phrase x := by
  cases h with
  | literal hv => exact hv.phrase
  | parameter _ hw => exact phrase_of_atom (isAtomChar_parameter hw _) ⟨'#', by simp, rfl⟩
  | @member _ _ _ w _ x hw =>
    have hplain : ∀ c ∈ '.' :: w.toList, isPlain c = true := List.forall_mem_cons.2
      ⟨rfl, fun c hc => isPlain_of_isAtomChar (isAtomChar_of_isWordChar (hw.chars c hc))⟩
    exact ⟨(hxs x (by simp)).item.append (.of_plain hplain), '.', by simp, rfl⟩
  | group h => exact phrase_group (h.fit hxs)

theorem Spelled.phrase (h : n.Spelled A x) : Phrase x := by
  induction h with
  | intro _ length _ layout ih =>
    exact layout.phrase (forall_of_forall₂ (forall₂_of_zip length ih) fun _ _ _ h => h)

/-- The kind of text that a node has. -/
def form : Node → Form
  | .literal _ (.str ..) _ => .quoted
  | .literal .. => .plain
  | .parameter _ => .parameter
  | .member .. => .member
  | _ => .group

theorem Layout.form_eq (h : n.Layout A xs x) : Text.form x = n.form := by
  cases h with
  | literal hv =>
    rw [hv.form]
    cases hv <;> rfl
  | @parameter p w _ hw =>
    have hhash : '#' ∈ w.toList ++ '#' :: (toString p.uid).toList := by simp
    rw [form_of_atom (isAtomChar_parameter hw p.uid), if_pos hhash]
    rfl
  | member hw => exact form_member hw
  | group h =>
    rw [form_group]
    cases h <;> rfl

/-- The text of a node tells the node and the texts of its children. -/
theorem Layout.unique (hone : ∀ p q, A p → A q → p.uid = q.uid → p = q) (h : n.Layout A xs x)
    (h' : m.Layout A ys y) (hxs : ∀ x ∈ xs, Phrase x) (hys : ∀ y ∈ ys, Phrase y) (heq : x = y) :
    n.SameLabel m ∧ xs = ys := by
  have hform : n.form = m.form := by rw [← h.form_eq, heq, h'.form_eq]
  cases h with
  | literal hv =>
    cases h' with
    | literal hv' => exact ⟨.literal (hv.sameData hv' heq), rfl⟩
    | parameter => cases hv <;> cases hform
    | member => cases hv <;> cases hform
    | group h' => cases h' <;> cases hv <;> cases hform
  | @parameter p w hp hw =>
    cases h' with
    | literal hv => cases hv <;> cases hform
    | @parameter q w' hq hw' =>
      have hno : ∀ uid : Nat, '#' ∉ (toString uid).toList :=
        fun uid hmem => absurd (digits_toString uid '#' hmem) (by decide)
      obtain ⟨-, huid⟩ := append_cons_inj (hno p.uid) (hno q.uid) heq
      have hrepr := String.toList_injective huid
      rw [Nat.toString_eq_repr, Nat.toString_eq_repr, Nat.repr_inj] at hrepr
      obtain rfl := hone p q hp hq hrepr
      exact ⟨.parameter p, rfl⟩
    | member => cases hform
    | group h' => cases h' <;> cases hform
  | @member _ _ _ w _ x hw =>
    cases h' with
    | literal hv => cases hv <;> cases hform
    | parameter => cases hform
    | @member _ _ _ w' _ y hw' =>
      -- The last dot is that of the member, whatever the text before it holds.
      have hno : ∀ {w : String}, IsWord w → '.' ∉ w.toList :=
        fun hw hmem => absurd (hw.chars '.' hmem) (by decide)
      obtain ⟨hexpr, hname⟩ := append_cons_inj (hno hw) (hno hw') heq
      obtain rfl := String.toList_injective hname
      exact ⟨.member, by rw [hexpr]⟩
    | group h' => cases h' <;> cases hform
  | group h =>
    cases h' with
    | literal hv => cases h <;> cases hv <;> cases hform
    | parameter => cases h <;> cases hform
    | member => cases h <;> cases hform
    | group h' =>
      have hparts := group_inj (h.fit hxs) (h'.fit hys) heq
      exact h.unique h' hxs hys hparts

/-- Trees of one text differ at most in static types: the text of a node tells the node and the texts
of its children, and these the children. -/
theorem Spelled.sameButTypes (hone : ∀ p q, A p → A q → p.uid = q.uid → p = q)
    (h : n.Spelled A x) (h' : m.Spelled A x) : n.SameButTypes m := by
  induction h generalizing m with
  | @intro n ns xs x hn length each layout ih =>
    obtain @⟨_, ms, ys, _, hm, length', each', layout'⟩ := h'
    have hxs : ∀ y ∈ xs, Phrase y :=
      forall_of_forall₂ (forall₂_of_zip length each) fun _ _ _ h => h.phrase
    have hys : ∀ y ∈ ys, Phrase y :=
      forall_of_forall₂ (forall₂_of_zip length' each') fun _ _ _ h => h.phrase
    obtain ⟨label, rfl⟩ := layout.unique hone layout' hxs hys rfl
    refine .intro label hn hm ?_
    have hns : List.Forall₂ (fun x n => ∀ m, Spelled A m x → SameButTypes n m) xs ns :=
      List.Forall₂.flip (forall₂_of_zip length fun e he m hm => ih e he hm)
    have hms : List.Forall₂ (flip (Spelled A)) xs ms :=
      List.Forall₂.flip (forall₂_of_zip length' each')
    exact forall₂_of_both hns hms fun _ _ _ m hn hm => hn m hm

end Node

/-! ### Formatting -/

/-- If two trees of readable nodes, whose parameters have serial numbers of their own, are formatted
with these numbers to the same text, they differ at most in static types. -/
theorem format_unambiguous {s t s' t' : Session} {c c' : Caller} {a b : Node} {v w : Value}
    (hone : ∀ p q, A p → A q → p.uid = q.uid → p = q)
    (ha : a.All (·.Readable s.store A)) (hb : b.All (·.Readable s'.store A))
    (hrun : (format true (.node a)).run c s = (.done v, t))
    (hrun' : (format true (.node b)).run c' s' = (.done w, t')) :
    ∃ i j x y, v = .str i x ∧ w = .str j y ∧ (x = y → a.SameButTypes b) := by
  obtain ⟨i, x, rfl, hx⟩ := format_spelled ha hrun
  obtain ⟨j, y, rfl, hy⟩ := format_spelled hb hrun'
  refine ⟨i, j, x, y, rfl, rfl, ?_⟩
  rintro rfl
  exact hx.sameButTypes hone hy

/-- A function that calls a member of a quoted text, with one type throughout and with another. -/
theorem format_unambiguous_types :
    let x : Parameter := ⟨1, "x", .object, 0⟩
    let counted (mark : Nat) (type : StaticType) : Node := .call (mark + 1) (.node
      (.member (mark + 2) (.node (.literal (mark + 3) (.str 0 "a) b") type)) (.str 0 "count") .absent
        type)) (mark + 4) [.node (.parameter x)] type
    let tree (mark : Nat) (type : StaticType) : Node :=
      .lambda mark (mark + 5) (Node.declarations [x]) (.node (.binary (mark + 6) .subtract
        (.node (counted mark type)) (.node (.unary (mark + 7) .negate (.node (.parameter x)) type))
        type))
    let s : Session := { nextMark := 17 }
    let c := Machine.standard.caller
    ∃ v t u, (format true (.node (tree 1 .object))).run c s = (.done v, t) ∧
      (format true (.node (tree 9 .int))).run c s = (.done v, u) ∧
      (tree 1 .object).SameButTypes (tree 9 .int) := by
  intro x counted tree s c
  let A (p : Parameter) : Prop := p = x
  let R (n : Node) : Prop := n.Readable s.store A
  let w := "(lambda (x#1) (- ('a) b'.count x#1) (- x#1)))"
  have hone : ∀ p q, A p → A q → p.uid = q.uid → p = q := fun _ _ hp hq _ => hp.trans hq.symm
  have hx : (Node.parameter x).All R :=
    .intro [] rfl ⟨rfl, 0, "x", rfl, by simp, by simp [isWordChar]⟩ (by simp)
  have htree (mark : Nat) (type : StaticType) : (tree mark type).All R := by
    have htext : (Node.literal (mark + 3) (.str 0 "a) b") type).All R :=
      .intro [] rfl ⟨_, .str 0 "a) b"⟩ (by simp)
    have hmember : (Node.member (mark + 2) (.node (.literal (mark + 3) (.str 0 "a) b") type))
        (.str 0 "count") .absent type).All R :=
      .intro [_] rfl ⟨nofun, rfl, 0, "count", rfl, by simp, by simp [isWordChar]⟩ (by simp [htext])
    have hcounted : (counted mark type).All R :=
      .intro [_, .parameter x] rfl trivial (by simp [hmember, hx])
    have hnegated : (Node.unary (mark + 7) .negate (.node (.parameter x)) type).All R :=
      .intro [.parameter x] rfl trivial (by simp [hx])
    have hbody : (Node.binary (mark + 6) .subtract (.node (counted mark type)) (.node
        (.unary (mark + 7) .negate (.node (.parameter x)) type)) type).All R :=
      .intro [_, _] rfl trivial (by simp [hcounted, hnegated])
    exact .intro [.parameter x, _] rfl trivial (by simp [hx, hbody])
  have hrun (mark : Nat) (type : StaticType) :
      ∃ t, (format true (.node (tree mark type))).run c s = (.done (.str 17 w), t) := by
    have hfold (call : Caller) : (foldTree (Node.render true) (.node (tree mark type))).run call s =
        (.done (.ofText w), s) := by cbv
    refine ⟨{ s with nextMark := 18 }, ?_⟩
    rw [format, Action.run_bind_done (hfold c)]
    change (Action.newText w).run c s = _
    rw [Action.newText, if_neg (by simp [w])]
    rfl
  obtain ⟨t, ht⟩ := hrun 1 .object
  obtain ⟨u, hu⟩ := hrun 9 .int
  obtain ⟨_, _, _, _, heq, heq', hsame⟩ :=
    format_unambiguous hone (htree 1 .object) (htree 9 .int) ht hu
  refine ⟨_, _, _, ht, hu, hsame ?_⟩
  cases heq
  cases heq'
  rfl

end PredicateTree
