import PredicateTree.Proofs.Evaluation.Bookkeeping

/-!
# What is the same in two sessions

Pure operations give the same on the same, whenever they are asked.  What that means of values that
refer to a store is left open: a `Sameness` says which value of one session is the same as which
value of another, and in time what is the same stays the same.

Two runs on the same, each in a session of its own, end the same (`Sameness.Ends`): both with results
that are the same, both with faults, or both out of fuel.  Two trees are the same but for marks
(`Sameness.Alike`) if they agree in shape, labels and types and hold the same values.
-/

namespace PredicateTree

/-- Which values are the same, each in a session of its own. -/
structure Sameness where
  /-- The sessions in question. -/
  session : Session → Prop
  /-- What time does to sessions. -/
  later : Session → Session → Prop
  /-- A value in one session is the same as a value in another. -/
  value : Session → Session → Value → Value → Prop
  /-- The types that trees carry. -/
  type : StaticType → Prop
  order : Session.Order later
  session_later : ∀ {s t}, session s → later s t → session t
  nextMark_le : ∀ {s t : Session}, later s t → s.nextMark ≤ t.nextMark
  value_symm : ∀ {s t v w}, value s t v w → value t s w v
  value_trans : ∀ {s t u v w x}, value s t v w → value t u w x → value s u v x
  /-- What is the same stays the same. -/
  value_later : ∀ {s s' t t' v w}, value s s' v w → later s t → later s' t' → value t t' v w
  value_bool : ∀ {s t} (b : Bool), session s → session t → value s t (.bool b) (.bool b)
  typeOf_eq : ∀ {s t v w}, value s t v w → s.store.typeOf v = t.store.typeOf w
  /-- What stands for a type of a tree is absent in all sessions or in none. -/
  isAbsent_eq : ∀ {s t τ}, session s → session t → type τ →
    (s.store.typeValue τ).isAbsent = (t.store.typeValue τ).isAbsent

theorem Sameness.later_refl (S : Sameness) (s : Session) : S.later s s := S.order.noted .refl

namespace Sameness

/-! ### Ends -/

section ends

variable {α β γ δ : Type}

/-- Two runs, begun in the sessions `s` and `s'`, end the same: with results in the relation `P`, or
with faults, both of the kind `E`, or out of fuel. -/
inductive Ends (S : Sameness) (s s' : Session) (E : Fault → Prop)
    (P : Session → Session → α → β → Prop) :
    Outcome α × Session → Outcome β × Session → Prop where
  | done {t t' : Session} {a : α} {b : β} (hs : S.later s t) (hs' : S.later s' t')
      (h : P t t' a b) : Ends S s s' E P (.done a, t) (.done b, t')
  | raised {t t' : Session} {f g : Fault} (hs : S.later s t) (hs' : S.later s' t') (hf : E f)
      (hg : E g) : Ends S s s' E P (.raised f, t) (.raised g, t')
  | exhausted {t t' : Session} : Ends S s s' E P (.exhausted, t) (.exhausted, t')

variable {S : Sameness} {s s' t t' : Session} {E : Fault → Prop}
  {P : Session → Session → α → β → Prop} {R : Session → Session → γ → δ → Prop} {c c' : Caller}

namespace Ends

theorem pure {a : α} {b : β} (h : P s s' a b) :
    S.Ends s s' E P ((Pure.pure a : Action α).run c s) ((Pure.pure b : Action β).run c' s') :=
  .done (S.later_refl s) (S.later_refl s') h

theorem earlier {o : Outcome α × Session} {o' : Outcome β × Session} (hs : S.later s t)
    (hs' : S.later s' t') (h : S.Ends t t' E P o o') : S.Ends s s' E P o o' := by
  cases h with
  | done ht ht' hP => exact .done (S.order.trans hs ht) (S.order.trans hs' ht') hP
  | raised ht ht' hf hg => exact .raised (S.order.trans hs ht) (S.order.trans hs' ht') hf hg
  | exhausted => exact .exhausted

theorem mono {R : Session → Session → α → β → Prop} {o : Outcome α × Session}
    {o' : Outcome β × Session} (h : S.Ends s s' E P o o')
    (imp : ∀ {t t' a b}, S.later s t → S.later s' t' → P t t' a b → R t t' a b) :
    S.Ends s s' E R o o' := by
  cases h with
  | done ht ht' hP => exact .done ht ht' (imp ht ht' hP)
  | raised ht ht' hf hg => exact .raised ht ht' hf hg
  | exhausted => exact .exhausted

/-- What goes on the same after ends that are the same ends the same. -/
theorem bind {x : Action α} {y : Action β} {k : α → Action γ} {l : β → Action δ}
    (hx : S.Ends s s' E P (x.run c s) (y.run c' s'))
    (hk : ∀ {t t' a b}, S.later s t → S.later s' t' → P t t' a b →
      S.Ends t t' E R ((k a).run c t) ((l b).run c' t')) :
    S.Ends s s' E R ((x >>= k).run c s) ((y >>= l).run c' s') := by
  generalize hox : x.run c s = o at hx
  generalize hoy : y.run c' s' = o' at hx
  cases hx with
  | done ht ht' hP =>
    rw [Action.run_bind_done hox, Action.run_bind_done hoy]
    exact (hk ht ht' hP).earlier ht ht'
  | raised ht ht' hf hg =>
    rw [Action.run_bind_raised hox, Action.run_bind_raised hoy]
    exact .raised ht ht' hf hg
  | exhausted =>
    rw [Action.run_bind_exhausted hox, Action.run_bind_exhausted hoy]
    exact .exhausted

end Ends

end ends

/-! ### Trees -/

/-- What a node holds besides its children is the same in two sessions, and its type is one of those
that trees carry. -/
def Label (S : Sameness) (s t : Session) : Node → Prop
  | .literal _ v _ => S.value s t v v
  | .member _ _ name _ type => S.value s t name name ∧ S.type type
  | .unary _ _ _ type | .binary _ _ _ _ type | .conditional _ _ _ _ type | .call _ _ _ _ type =>
    S.type type
  | _ => True

/-- Two trees agree in shape, labels and types, and the values that they hold, each in its session,
are the same. -/
inductive Alike (S : Sameness) (s t : Session) : Node → Node → Prop where
  | literal {mark mark' : Nat} {v w : Value} {type : StaticType} (h : S.value s t v w) :
      Alike S s t (.literal mark v type) (.literal mark' w type)
  | upon {n : Node} {ns ms : List Node} (children : n.childNodes = .ok ns)
      (other : n.isLiteral = false) (label : S.Label s t n) (length : ns.length = ms.length)
      (each : ∀ e ∈ ns.zip ms, Alike S s t e.1 e.2) (mark row : Nat) :
      Alike S s t n (n.upon mark row (ms.map .node))

/-- All that a tree holds is something in a session. -/
def Present (S : Sameness) (s : Session) (n : Node) : Prop := S.Alike s s n n

variable {S : Sameness} {s s' t t' u u' : Session} {n m k : Node} {ns ms : List Node}

theorem Label.later (h : S.Label s s' n) (hs : S.later s t) (hs' : S.later s' t') :
    S.Label t t' n := by
  cases n with
  | literal mark v type => exact S.value_later h hs hs'
  | member mark e name owner type => exact ⟨S.value_later h.1 hs hs', h.2⟩
  | _ => exact h

theorem Label.symm (h : S.Label s t n) : S.Label t s n := by
  cases n with
  | literal mark v type => exact S.value_symm h
  | member mark e name owner type => exact ⟨S.value_symm h.1, h.2⟩
  | _ => exact h

theorem Label.trans (h : S.Label s t n) (h' : S.Label t u n) : S.Label s u n := by
  cases n with
  | literal mark v type => exact S.value_trans h h'
  | member mark e name owner type => exact ⟨S.value_trans h.1 h'.1, h.2⟩
  | _ => exact h

theorem label_upon (mark row : Nat) (vs : List Value) :
    S.Label s t (n.upon mark row vs) = S.Label s t n := by
  unfold Node.upon
  split <;> rfl

theorem isLiteral_upon (n : Node) (mark row : Nat) (vs : List Value) :
    (n.upon mark row vs).isLiteral = n.isLiteral := by
  unfold Node.upon
  split <;> rfl

namespace Alike

theorem fits (h : S.Alike s t n m) : n.Fits m := by
  rintro p rfl
  cases h with
  | upon => exact ⟨p, rfl⟩

theorem later (h : S.Alike s s' n m) (hs : S.later s t) (hs' : S.later s' t') :
    S.Alike t t' n m := by
  induction h with
  | literal h => exact .literal (S.value_later h hs hs')
  | upon children other label length _ mark row ih =>
    exact .upon children other (label.later hs hs') length ih mark row

/-- Two trees that agree have as many children, which agree. -/
theorem children (h : S.Alike s t n m) : ∃ ns ms, n.childNodes = .ok ns ∧
    m.childNodes = .ok ms ∧ List.Forall₂ (S.Alike s t) ns ms := by
  cases h with
  | literal => exact ⟨[], [], rfl, rfl, .nil⟩
  | upon children other label length each mark row =>
    have hall : List.Forall₂ (S.Alike s t) _ _ :=
      forall₂_of_zip length each
    exact ⟨_, _, children, Node.childNodes_upon children (hall.imp fun _ _ h => h.fits) mark row,
      hall⟩

theorem wellFormed (h : S.Alike s t n m) : n.WellFormed ∧ m.WellFormed := by
  induction h with
  | literal =>
    exact ⟨.intro [] rfl trivial (by simp), .intro [] rfl trivial (by simp)⟩
  | @upon n ns ms children other label length each mark row ih =>
    have hall : List.Forall₂ (S.Alike s t) ns ms :=
      forall₂_of_zip length each
    have hboth : List.Forall₂ (fun k l => k.WellFormed ∧ l.WellFormed) ns ms :=
      forall₂_of_zip length ih
    refine ⟨.intro ns children trivial ?_, .intro ms
      (Node.childNodes_upon children (hall.imp fun _ _ h => h.fits) mark row) trivial ?_⟩
    · exact forall_of_forall₂ hboth.flip fun _ _ _ h => h.1
    · exact forall_of_forall₂ hboth fun _ _ _ h => h.2

/-- A tree that agrees with another one is that one over children that agree, but for literals. -/
theorem of_children (h : S.Alike s t n m) (hn : n.childNodes = .ok ns)
    (other : n.isLiteral = false) : S.Label s t n ∧ ∃ ms mark row,
      List.Forall₂ (S.Alike s t) ns ms ∧ m = n.upon mark row (ms.map .node) := by
  cases h with
  | literal => cases other
  | upon children _ label length each mark row =>
    cases hn.symm.trans children
    exact ⟨label, _, mark, row, forall₂_of_zip length each, rfl⟩

/-- A node over children that agree is the same as over the others. -/
theorem rebuilt {rs : List Node} (hn : n.childNodes = .ok ns) (label : S.Label s t n)
    (hr : List.Forall₂ Node.Fits ns rs) (hall : List.Forall₂ (S.Alike s t) rs ms)
    (mark row mark' row' : Nat) :
    S.Alike s t (n.upon mark row (rs.map .node)) (n.upon mark' row' (ms.map .node)) := by
  have hm : List.Forall₂ Node.Fits ns ms := by
    clear label hn
    induction hr generalizing ms with
    | nil =>
      cases hall
      exact .nil
    | cons hk _ ih =>
      cases hall with
      | cons hkm hrest =>
        refine .cons (fun p hp => ?_) (ih hrest)
        obtain ⟨q, rfl⟩ := hk p hp
        exact hkm.fits q rfl
  cases hliteral : n.isLiteral with
  | true =>
    cases n with
    | literal mark v type =>
      cases hn
      cases hr
      cases hall
      exact .literal label
    | _ => cases hliteral
  | false =>
    rw [← Node.upon_upon hn (.of_fits hn hr) (.of_fits hn hm) mark row]
    refine .upon (Node.childNodes_upon hn hr mark row) ?_ ?_ hall.length_eq ?_ mark' row'
    · rw [isLiteral_upon, hliteral]
    · rwa [label_upon]
    · exact zip_of_forall₂ hall

theorem symm (h : S.Alike s t n m) : S.Alike t s m n := by
  induction h with
  | literal h => exact .literal (S.value_symm h)
  | @upon n ns ms children other label length each mark row ih =>
    have hfits : List.Forall₂ Node.Fits ns ms :=
      forall₂_of_zip length fun e he => (each e he).fits
    have hall : List.Forall₂ (S.Alike t s) ms ns :=
      List.Forall₂.flip (forall₂_of_zip length ih)
    obtain ⟨row', hself⟩ := Node.upon_self children
    have hover := rebuilt children label.symm hfits hall mark row n.mark row'
    rwa [hself] at hover

theorem trans (h : S.Alike s t n m) (h' : S.Alike t u m k) : S.Alike s u n k := by
  induction h generalizing k with
  | literal h =>
    cases h' with
    | literal h' => exact .literal (S.value_trans h h')
    | upon _ other => cases other
  | @upon n ns ms children other label length each mark row ih =>
    have hfits : List.Forall₂ Node.Fits ns ms :=
      forall₂_of_zip length fun e he => (each e he).fits
    obtain ⟨label', ks, mark', row', hks, rfl⟩ := h'.of_children
      (Node.childNodes_upon children hfits mark row) (by rw [isLiteral_upon, other])
    rw [label_upon] at label'
    have hsteps : List.Forall₂ (fun m n => ∀ k, S.Alike t u m k → S.Alike s u n k) ms ns :=
      List.Forall₂.flip (forall₂_of_zip length fun e he _ hk => ih e he hk)
    have hall : List.Forall₂ (S.Alike s u) ns ks :=
      forall₂_of_both hsteps hks fun _ _ _ _ hstep hk => hstep _ hk
    obtain ⟨row₀, hself⟩ := Node.upon_self children
    have hnk : List.Forall₂ Node.Fits ns ks := hall.imp fun _ _ h => h.fits
    have hover := rebuilt children (label.trans label') (List.forall₂_same.2 fun _ _ _ hp => ⟨_, hp⟩)
      hall n.mark row₀ mark' row'
    rwa [hself, ← Node.upon_upon children (.of_fits children hfits) (.of_fits children hnk) mark
      row] at hover

theorem present (h : S.Alike s t n m) : S.Present s n ∧ S.Present t m :=
  ⟨h.trans h.symm, h.symm.trans h⟩

/-- What is the same was so before, as soon as it was there. -/
theorem before (h : S.Alike t t' n m) (hn : S.Present s n) (hs : S.later s t)
    (hm : S.Present s' m) (hs' : S.later s' t') : S.Alike s s' n m :=
  (hn.later (S.later_refl s) hs).trans (h.trans (hm.later hs' (S.later_refl s')))

/-- Whatever a tree that is the same as another one holds is something in its session. -/
theorem labels (h : S.Alike s t n m) : n.All (S.Label s s) := by
  induction h with
  | literal h => exact .intro [] rfl (S.value_trans h (S.value_symm h)) (by simp)
  | @upon n ns ms children other label length each mark row ih =>
    have hall : List.Forall₂ (fun k _ => k.All (S.Label s s)) ns ms :=
      forall₂_of_zip length ih
    exact .intro ns children (label.trans label.symm) (forall_of_forall₂ hall.flip fun _ _ _ h => h)

end Alike

end Sameness

end PredicateTree
