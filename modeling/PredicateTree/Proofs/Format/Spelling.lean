import PredicateTree.Proofs.Evaluation.Bookkeeping
import PredicateTree.Proofs.Format.Groups
import PredicateTree.Proofs.Tree.Recursion
import PredicateTree.Tree.Format

/-!
# How trees are spelled

A tree whose literals hold no values but the absent one, truth values, integers and texts, and whose
names are words, has a text that is laid out node by node (`Node.Layout`, `Node.Spelled`).  If such a
tree can be formatted with the serial numbers of its parameters, the result is this text
(`format_spelled`).
-/

namespace PredicateTree

/-! ### Words -/

namespace Text

/-- A character that identifiers may hold: a letter, a digit, an underscore, or one beyond ASCII. -/
def isWordChar (c : Char) : Bool := c.isAlphanum || c == '_' || 0x80 ≤ c.toNat

/-- A text of such characters, as every identifier is. -/
structure IsWord (w : String) : Prop where
  filled : w.toList ≠ []
  chars : ∀ c ∈ w.toList, isWordChar c = true

end Text

/-! ### Layouts -/

/-- A value of which there is nothing to be told but how it is written. -/
inductive Value.Written : Value → List Char → Prop where
  | absent : Written .absent "None".toList
  | bool (b : Bool) : Written (.bool b) (if b then "True" else "False").toList
  | int (mark : Nat) (i : Int) : Written (.int mark i) (toString i).toList
  | str (mark : Nat) (s : String) : Written (.str mark s) (Text.quoted s).toList

namespace Node

/-- The parts of which the text of a node consists that stands within parentheses, made of the texts
of its children. -/
inductive Parts : Node → List (List Char) → List (List Char) → Prop where
  | unary {mark : Nat} {op : UnaryOp} {e : Value} {type : StaticType} {x : List Char} :
      Parts (.unary mark op e type) [x] [op.symbol.toList, x]
  | binary {mark : Nat} {op : BinaryOp} {l r : Value} {type : StaticType} {x y : List Char} :
      Parts (.binary mark op l r type) [x, y] [op.symbol.toList, x, y]
  | conditional {mark : Nat} {c a b : Value} {type : StaticType} {x y z : List Char} :
      Parts (.conditional mark c a b type) [x, y, z] ["if".toList, x, y, z]
  | call {mark row : Nat} {f : Value} {args : List Value} {type : StaticType} {x : List Char}
      {xs : List (List Char)} : Parts (.call mark f row args type) (x :: xs) (x :: xs)
  | lambda {mark row : Nat} {ps : List Value} {b : Value} {x : List Char}
      {xs : List (List Char)} :
      Parts (.lambda mark row ps b) (xs ++ [x]) ["lambda".toList, Text.group xs, x]

/-- The text of a node, made of the texts of its children.  All parameters are among `A`, and have
words for names. -/
inductive Layout (A : Parameter → Prop) : Node → List (List Char) → List Char → Prop where
  | literal {mark : Nat} {v : Value} {type : StaticType} {x : List Char} (h : v.Written x) :
      Layout A (.literal mark v type) [] x
  | parameter {p : Parameter} {w : String} (hp : A p) (hw : Text.IsWord w) :
      Layout A (.parameter p) [] (w.toList ++ '#' :: (toString p.uid).toList)
  | member {mark nameMark : Nat} {e : Value} {w : String} {type : StaticType} {x : List Char}
      (hw : Text.IsWord w) :
      Layout A (.member mark e (.str nameMark w) .absent type) [x] (x ++ '.' :: w.toList)
  | group {n : Node} {xs items : List (List Char)} (h : n.Parts xs items) :
      Layout A n xs (Text.group items)

/-- The text of a tree. -/
inductive Spelled (A : Parameter → Prop) : Node → List Char → Prop where
  | intro {n : Node} {ns : List Node} {xs : List (List Char)} {x : List Char}
      (children : n.childNodes = .ok ns) (length : ns.length = xs.length)
      (each : ∀ e ∈ ns.zip xs, Spelled A e.1 e.2) (layout : n.Layout A xs x) : Spelled A n x

/-! ### Formatting -/

/-- A node that can be told from its text: a literal of a value that is written plainly, a parameter
among `A`, a member that is read from a value, or whatever holds nothing besides its children.  The
names are words. -/
def Readable (s : Store) (A : Parameter → Prop) : Node → Prop
  | .literal _ v _ => ∃ x, v.Written x
  | .parameter p => A p ∧ ∃ mark w, s.parameterName p = .str mark w ∧ Text.IsWord w
  | .member _ e name owner _ =>
    e ≠ .absent ∧ owner = .absent ∧ ∃ mark w, name = .str mark w ∧ Text.IsWord w
  | _ => True

end Node

/-- Computations that, if they end with a value, end with a good one. -/
def Judgement.ending (c : Caller) : Judgement Action where
  holds x s post := ∀ a t, x.run c s = (.done a, t) → post a t
  pure := by
    intro α a s post h b t heq
    cases heq
    exact h
  bind := by
    intro α β x k s post h b u heq
    rcases hx : x.run c s with ⟨a | f | _, t⟩
    · rw [Action.run_bind_done hx] at heq
      exact h a t hx b u heq
    · rw [Action.run_bind_raised hx] at heq
      cases heq
    · rw [Action.run_bind_exhausted hx] at heq
      cases heq
  mono h imp a t heq := imp a t (h a t heq)

theorem formatted_str (mark : Nat) (w : String) : (Value.str mark w).formatted = pure w := rfl

theorem mapM_formatted_texts (xs : List String) :
    (xs.map Value.ofText).mapM Value.formatted = (pure xs : Action (List String)) := by
  induction xs with
  | nil => rfl
  | cons x xs ih =>
    rw [List.map_cons, List.mapM_cons, Value.ofText, formatted_str, pure_bind, ih, pure_bind]

theorem requireTexts_texts (i : Nat) (xs : List String) :
    requireTexts i (xs.map Value.ofText) = pure xs := by
  induction xs generalizing i with
  | nil => rfl
  | cons x xs ih =>
    change (requireTexts (i + 1) (xs.map Value.ofText) >>= fun ys => pure (x :: ys)) = _
    rw [ih, pure_bind]

variable {A : Parameter → Prop} {c : Caller} {s t : Session} {n : Node} {ns : List Node} {v : Value}

/-- The text of a value that is written plainly, unless it has too many digits. -/
theorem text_literal {mark : Nat} {type : StaticType} {w : Value} {y : List Char} (h : w.Written y)
    (hrun : (Node.literal mark w type).text.run c s = (.done v, t)) :
    t = s ∧ ∃ x, v = .ofText x ∧ w.Written x.toList := by
  cases h with
  | absent =>
    cases hrun
    exact ⟨rfl, _, rfl, .absent⟩
  | bool b =>
    cases hrun
    refine ⟨rfl, _, rfl, ?_⟩
    cases b
    · exact .bool false
    · exact .bool true
  | int m i =>
    have htext (shown : Action String) : (literalText (.int m i) shown).run c s =
      (shown >>= fun x => pure (.ofText x)).run c s := rfl
    rw [Node.text, Node.textBy, htext, Value.shownBy, intText] at hrun
    split at hrun
    · cases hrun
      exact ⟨rfl, _, rfl, .int m i⟩
    · cases hrun
  | str m s =>
    cases hrun
    exact ⟨rfl, _, rfl, .str m s⟩

theorem render_layout (hn : n.childNodes = .ok ns) (h : n.Readable s.store A) {parts : List String}
    (length : parts.length = ns.length)
    (hrun : (n.render true (parts.map .ofText)).run c s = (.done v, t)) :
    t = s ∧ ∃ x, v = .ofText x ∧ n.Layout A (parts.map String.toList) x.toList := by
  cases Node.hasChildren_of_childNodes hn with
  | literal =>
    obtain rfl := List.length_eq_zero_iff.1 length
    obtain ⟨_, hw⟩ := h
    obtain ⟨hs, x, hv, hx⟩ := text_literal hw hrun
    exact ⟨hs, x, hv, .literal hx⟩
  | parameter p =>
    obtain rfl := List.length_eq_zero_iff.1 length
    obtain ⟨hp, nameMark, w, hname, hw⟩ := h
    have htext : (p.text true).run c s =
      ((s.store.parameterName p).formatted >>= fun x =>
        pure (.ofText (x ++ "#" ++ toString p.uid))).run c s := rfl
    change (p.text true).run c s = _ at hrun
    rw [htext, hname, formatted_str, pure_bind] at hrun
    cases hrun
    refine ⟨rfl, _, rfl, ?_⟩
    rw [String.toList_append, String.toList_append, List.append_assoc]
    exact .parameter hp hw
  | static => exact absurd rfl h.1
  | member mark e name owner type =>
    obtain ⟨-, rfl, nameMark, w, rfl, hw⟩ := h
    obtain ⟨x, rfl⟩ := List.length_eq_one_iff.1 length
    change (memberText Value.formatted (.str 0 x) (.str nameMark w)).run c s = _ at hrun
    rw [memberText, formatted_str, formatted_str, pure_bind, pure_bind] at hrun
    cases hrun
    refine ⟨rfl, _, rfl, ?_⟩
    rw [String.toList_append, String.toList_append, List.append_assoc]
    exact .member hw
  | unary mark op x type =>
    obtain ⟨x, rfl⟩ := List.length_eq_one_iff.1 length
    change (operatorText Value.formatted op.symbol ([x].map .ofText)).run c s = _ at hrun
    rw [operatorText, mapM_formatted_texts, pure_bind] at hrun
    cases hrun
    refine ⟨rfl, _, rfl, ?_⟩
    rw [Text.toList_grouped]
    exact .group .unary
  | binary mark op l r type =>
    obtain ⟨x, y, rfl⟩ := List.length_eq_two.1 length
    change (operatorText Value.formatted op.symbol ([x, y].map .ofText)).run c s = _ at hrun
    rw [operatorText, mapM_formatted_texts, pure_bind] at hrun
    cases hrun
    refine ⟨rfl, _, rfl, ?_⟩
    rw [Text.toList_grouped]
    exact .group .binary
  | conditional mark test a b type =>
    obtain ⟨x, y, z, rfl⟩ := List.length_eq_three.1 length
    change (choiceText ([x, y, z].map .ofText)).run c s = _ at hrun
    rw [choiceText, requireTexts_texts, pure_bind] at hrun
    cases hrun
    refine ⟨rfl, _, rfl, ?_⟩
    rw [Text.toList_grouped]
    exact .group .conditional
  | call mark f row args type =>
    obtain ⟨x, xs, rfl⟩ := List.exists_cons_of_length_eq_add_one length
    change (callText ((x :: xs).map .ofText)).run c s = _ at hrun
    rw [callText, requireTexts_texts, pure_bind] at hrun
    cases hrun
    refine ⟨rfl, _, rfl, ?_⟩
    rw [Text.toList_grouped]
    exact .group .call
  | lambda mark row ps b =>
    obtain ⟨xs, x, rfl⟩ : ∃ xs x, parts = xs ++ [x] := by
      rcases List.eq_nil_or_concat' parts with rfl | h
      · simp at length
      · exact h
    rw [List.map_append] at hrun
    change (lambdaText Value.formatted (xs.map Value.ofText ++ [Value.ofText x]).dropLast
      ((xs.map Value.ofText ++ [Value.ofText x]).getLastD .absent)).run c s = _ at hrun
    rw [List.dropLast_concat, List.getLastD_concat, lambdaText, requireTexts_texts, pure_bind,
      Value.ofText, formatted_str, pure_bind] at hrun
    cases hrun
    refine ⟨rfl, _, rfl, ?_⟩
    rw [Text.toList_grouped, List.map_cons, List.map_cons, Text.toList_grouped, List.map_append]
    exact .group .lambda

/-- A value is the text of a tree. -/
def IsTextOf (A : Parameter → Prop) (n : Node) (v : Value) : Prop :=
  ∃ x, v = .ofText x ∧ n.Spelled A x.toList

theorem exists_parts {vs : List Value} (h : List.Forall₂ (IsTextOf A) ns vs) :
    ∃ parts : List String, vs = parts.map .ofText ∧
      List.Forall₂ (Node.Spelled A) ns (parts.map String.toList) := by
  induction h with
  | nil => exact ⟨[], rfl, .nil⟩
  | cons hv _ ih =>
    obtain ⟨x, rfl, hx⟩ := hv
    obtain ⟨parts, rfl, hparts⟩ := ih
    exact ⟨x :: parts, rfl, .cons hx hparts⟩

theorem render_isTextOf (hn : n.childNodes = .ok ns) (h : n.Readable s.store A) {vs : List Value}
    (hvs : List.Forall₂ (IsTextOf A) ns vs) (hrun : (n.render true vs).run c s = (.done v, t)) :
    t = s ∧ IsTextOf A n v := by
  obtain ⟨parts, rfl, hparts⟩ := exists_parts hvs
  have hlength : parts.length = ns.length := by rw [hparts.length_eq, List.length_map]
  obtain ⟨hs, x, rfl, hlayout⟩ := render_layout hn h hlength hrun
  exact ⟨hs, x, rfl, .intro hn hparts.length_eq (zip_of_forall₂ hparts) hlayout⟩

/-- What a tree that can be told from its text is formatted to, if it can be formatted, is its
text. -/
theorem format_spelled (h : n.All (·.Readable s.store A))
    (hrun : (format true (.node n)).run c s = (.done v, t)) :
    ∃ mark x, v = .str mark x ∧ n.Spelled A x.toList := by
  have hfold := (Judgement.ending c).foldTree Eq (fun _ => IsTextOf A) (fun _ => rfl)
    (fun h h' => h.trans h') (fun _ h => h) s (P := (·.Readable s.store A))
    (fun hn hall hs hvs v u hrun => by
      subst hs
      obtain ⟨rfl, hv⟩ := render_isTextOf hn hall.holds hvs hrun
      exact ⟨rfl, hv⟩) h rfl
  rcases hfolded : (foldTree (Node.render true) (.node n)).run c s with ⟨w | f | _, u⟩
  · obtain ⟨-, x, rfl, hx⟩ := hfold w u hfolded
    rw [format, Action.run_bind_done hfolded] at hrun
    change (Action.newText x).run c u = _ at hrun
    rw [Action.newText] at hrun
    split at hrun
    · cases hrun
      exact ⟨_, x, rfl, hx⟩
    · cases hrun
      exact ⟨_, x, rfl, hx⟩
  · rw [format, Action.run_bind_raised hfolded] at hrun
    cases hrun
  · rw [format, Action.run_bind_exhausted hfolded] at hrun
    cases hrun

end PredicateTree
