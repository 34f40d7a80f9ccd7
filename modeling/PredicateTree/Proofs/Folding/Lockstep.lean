import PredicateTree.Proofs.Folding.Passes

/-!
# Passes side by side

Where everything that a pass runs is pure, passes over two trees that correspond do the same, step by
step: they fail both or neither, and what they make of the trees corresponds again
(`Machine.foldConstants_ends`).  Where they fail, their faults have in common what the faults of the
operations have (`Machine.foldConstants_concurs`).  It does not matter in which sessions the two
passes run, nor which parameters stand for which.
-/

namespace PredicateTree

variable {S : Sameness} {K : S.Kinship} {M : Machine} {options : FoldOptions} {c : Caller}
  {F₀ F : Faults}
  {s s' t t' : Session} {n m r : Node} {ns ms rs rs' : List Node}

/-! ### Computations with traces -/

section abreast

variable {E : Fault → Prop} {α β γ δ : Type} {P : Session → Session → α → β → Prop}
  {R : Session → Session → γ → δ → Prop}

/-- Two computations, begun in the sessions `s` and `s'`, concur, whatever their traces. -/
def Sameness.Abreast (S : Sameness) (c : Caller) (s s' : Session) (E : Fault → Prop) (F : Faults)
    (P : Session → Session → α → β → Prop) (x : StateT FoldTrace Action α)
    (y : StateT FoldTrace Action β) : Prop :=
  ∀ trace trace', S.Concurs s s' E F (fun t t' a b => P t t' a.1 b.1) ((x.run trace).run c s)
    ((y.run trace').run c s')

namespace Sameness.Abreast

theorem pure {a : α} {b : β} (h : P s s' a b) :
    S.Abreast c s s' E F P (Pure.pure a) (Pure.pure b) :=
  fun _ _ => .pure h

theorem bind {x : StateT FoldTrace Action α} {y : StateT FoldTrace Action β}
    {k : α → StateT FoldTrace Action γ} {l : β → StateT FoldTrace Action δ}
    (hx : S.Abreast c s s' E F P x y)
    (hk : ∀ {t t' a b}, S.later s t → S.later s' t' → P t t' a b →
      S.Abreast c t t' E F R (k a) (l b)) : S.Abreast c s s' E F R (x >>= k) (y >>= l) := by
  intro trace trace'
  rw [StateT.run_bind, StateT.run_bind]
  exact (hx trace trace').bind fun ht ht' h => hk ht ht' h _ _

end Sameness.Abreast

end abreast

/-! ### Steps -/

/-- What passes made of two nodes by two sessions: trees that correspond, each of which stands for its
node. -/
structure Sameness.Kinship.Replaced (K : S.Kinship) (s t : Session) (n m r r' : Node) : Prop where
  akin : K.Akin s t r r'
  left : n.Replaced s r
  right : m.Replaced t r'

theorem Sameness.Kinship.Akin.of_alike (h : S.Alike s t n m) (hliteral : n.isLiteral = true) :
    K.Akin s t n m := by
  cases h with
  | literal h =>
    exact .intro (.agree (.literal h)) (S.value_trans h (S.value_symm h))
      (S.value_trans (S.value_symm h) h) rfl rfl rfl (by simp)
  | upon _ other =>
    rw [hliteral] at other
    cases other

/-- What a pass makes of the children of two nodes that correspond. -/
theorem Sameness.Kinship.mapM_abreast {E : Fault → Prop} {g h : Node → StateT FoldTrace Action Node}
    (length : ns.length = ms.length)
    (each : ∀ e ∈ ns.zip ms, ∀ {t t'}, S.later s t → S.later s' t' →
      S.Abreast c t t' E F (fun u u' r r' => K.Replaced u u' e.1 e.2 r r') (g e.1) (h e.2))
    (ht : S.later s t) (ht' : S.later s' t') :
    S.Abreast c t t' E F (fun u u' rs rs' => List.Forall₂ (K.Akin u u') rs rs' ∧
      List.Forall₂ (Node.Replaced u) ns rs ∧ List.Forall₂ (Node.Replaced u') ms rs')
      (ns.mapM g) (ms.mapM h) := by
  induction ns generalizing ms t t' with
  | nil =>
    cases ms with
    | nil => exact .pure ⟨.nil, .nil, .nil⟩
    | cons => cases length
  | cons n ns ih =>
    cases ms with
    | nil => cases length
    | cons m ms =>
      rw [List.mapM_cons, List.mapM_cons]
      refine (each (n, m) List.mem_cons_self ht ht').bind fun hu hu' hr => ?_
      refine (ih (Nat.succ.inj length) (fun e he => each e (List.mem_cons_of_mem _ he))
        (S.order.trans ht hu) (S.order.trans ht' hu')).bind fun hw hw' hrs => ?_
      exact .pure ⟨.cons (hr.akin.later hw hw') hrs.1, .cons (hr.left.later hw) hrs.2.1,
        .cons (hr.right.later hw') hrs.2.2⟩

section

variable (hP : M.Pure S options.overrides options.foldCalls)
  (hF : M.host.FailsWith K (OperatorTable.standard.overridden options.overrides)
    options.foldCalls F₀)
  (hR : K.Reports F₀ F) (hK : K.Reads M.host) (hv : OperatorTable.Valid options.overrides)

include hP hF hR hK hv

namespace Machine

/-- To try to fold nodes that correspond concurs. -/
theorem tryFold_concurs (hs : S.session s) (hs' : S.session s') (h : K.Akin s s' n m)
    (fit : n.foldable options.foldCalls = pure true) (trace trace' : FoldTrace) :
    S.Concurs s s' (fun f => f.isEvaluation = true ∧ options.strict = true) F
      (fun t t' a b => K.Akin t t' a.1 b.1 ∧ (a.1 = n ∨ a.1.isLiteral = true ∧ a.1.Older t) ∧
        (b.1 = m ∨ b.1.isLiteral = true ∧ b.1.Older t'))
      ((M.tryFold options n trace).run M.caller s)
      ((M.tryFold options m trace').run M.caller s') := by
  have hfit : m.foldable options.foldCalls = pure true := (h.foldable_eq _).trans fit
  obtain ⟨hends, hfaults⟩ := fold_concurs_of_foldable (M := M) hP.host hF hR hK hv hs hs' h fit
  generalize ho : (M.fold options.overrides (.node n)).run M.caller s = o at hends hfaults
  generalize ho' : (M.fold options.overrides (.node m)).run M.caller s' = o' at hends hfaults
  cases hends with
  | @done u u' r r' hsu hsu' hr =>
    obtain ⟨mark, w, type, rfl, hmark⟩ := literal_of_fold h.wellFormed.1 fit hv ho
    obtain ⟨mark', w', type', rfl, hmark'⟩ := literal_of_fold h.wellFormed.2 hfit hv ho'
    have hold : (Node.literal mark w type).Older u := fun _ => hmark
    have hold' : (Node.literal mark' w' type').Older u' := fun _ => hmark'
    have hsite := (h.later hsu hsu').present
    obtain ⟨_, _, x, huv, hvx, -, -, htry⟩ := tryFold_of_folded options hP
      (S.session_later hs hsu) hsite.1 (Sameness.Alike.present hr).1 ho trace
    obtain ⟨_, _, x', huv', hvx', -, -, htry'⟩ := tryFold_of_folded options hP
      (S.session_later hs' hsu') hsite.2 (Sameness.Alike.present hr).2 ho' trace'
    have hux := S.order.trans huv hvx
    have hux' := S.order.trans huv' hvx'
    rw [htry, htry']
    exact .done (S.order.trans hsu hux) (S.order.trans hsu' hux')
      ⟨(Sameness.Kinship.Akin.of_alike hr rfl).later hux hux', .inr ⟨rfl, hold.later hux⟩,
        .inr ⟨rfl, hold'.later hux'⟩⟩
  | @raised u u' f g hsu hsu' hf hg =>
    cases hstrict : options.strict with
    | true =>
      rw [tryFold_of_raised trace ho, tryFold_of_raised trace' ho', if_neg (by simp [hstrict]),
        if_neg (by simp [hstrict])]
      exact .raised hsu hsu' ⟨hf, rfl⟩ ⟨hg, rfl⟩ (hfaults rfl rfl)
    | false =>
      have hsite := (h.later hsu hsu').present
      obtain ⟨v, huv, htry⟩ := tryFold_of_failed options hP (S.session_later hs hsu) hsite.1 hf
        hstrict ho trace
      obtain ⟨v', huv', htry'⟩ := tryFold_of_failed options hP (S.session_later hs' hsu') hsite.2 hg
        hstrict ho' trace'
      rw [htry, htry']
      have hsv := S.order.trans hsu huv
      have hsv' := S.order.trans hsu' huv'
      exact .done hsv hsv' ⟨h.later hsv hsv', .inl rfl, .inl rfl⟩
  | exhausted =>
    rw [tryFold_of_exhausted trace ho, tryFold_of_exhausted trace' ho']
    exact .exhausted

/-- Steps on nodes that correspond, over children that do, do the same. -/
theorem foldStep_abreast (hs : S.session s) (hs' : S.session s') (label : K.Label s s' n m)
    (here : S.Label s s n) (there : S.Label s' s' m) (hn : n.childNodes = .ok ns)
    (hm : m.childNodes = .ok ms) (hold : n.Older s) (hold' : m.Older s')
    (hall : List.Forall₂ (K.Akin s s') rs rs') (hrs : List.Forall₂ (Node.Replaced s) ns rs)
    (hrs' : List.Forall₂ (Node.Replaced s') ms rs') :
    S.Abreast M.caller s s' (fun f => f.isEvaluation = true ∧ options.strict = true) F
      (fun t t' r r' => K.Replaced t t' n m r r') (M.foldStep options n rs)
      (M.foldStep options m rs') := by
  intro trace trace'
  obtain ⟨mark, row, used, hcurrent, hreplaced⟩ :=
    Node.withChildren_replaced hn hold hrs M.caller
  obtain ⟨mark', row', used', hcurrent', hreplaced'⟩ :=
    Node.withChildren_replaced hm hold' hrs' M.caller
  have hsu : S.later s (s.marked used) := S.order.noted (.mark .refl used)
  have hsu' : S.later s' (s'.marked used') := S.order.noted (.mark .refl used')
  have hakin := (Sameness.Kinship.Akin.rebuilt label here there hn hm (hrs.imp fun _ _ h => h.fits)
    (hrs'.imp fun _ _ h => h.fits) hall mark row mark' row').later hsu hsu'
  obtain ⟨b, hb, -⟩ := Node.foldable_eq options.foldCalls hakin.wellFormed.1
  have hb' := (hakin.foldable_eq options.foldCalls).trans hb
  rw [foldStep_eq, Action.run_bind_done hcurrent, hb, pure_bind, foldStep_eq,
    Action.run_bind_done hcurrent', hb', pure_bind]
  cases b with
  | false => exact .done hsu hsu' ⟨hakin, hreplaced, hreplaced'⟩
  | true =>
    have htry := tryFold_concurs hP hF hR hK hv (S.session_later hs hsu) (S.session_later hs' hsu') hakin hb
      trace trace'
    refine (htry.mono fun ht ht' h => ?_).earlier hsu hsu'
    exact ⟨h.1, hreplaced.tried (S.nextMark_le ht) hb h.2.1,
      hreplaced'.tried (S.nextMark_le ht') hb' h.2.2⟩

/-! ### Passes -/

theorem foldTree_abreast (hs : S.session s) (hs' : S.session s') (h : K.Akin s s' n m)
    (hold : n.All (·.Older s)) (hold' : m.All (·.Older s')) (ht : S.later s t)
    (ht' : S.later s' t') :
    S.Abreast M.caller t t' (fun f => f.isEvaluation = true ∧ options.strict = true) F
      (fun u u' r r' => K.Replaced u u' n m r r') (foldTree (M.foldStep options) (.node n))
      (foldTree (M.foldStep options) (.node m)) := by
  induction h generalizing t t' with
  | @intro n m ns ms label here there left right length each ih =>
    rw [foldTree_node hold.wellFormed left, foldTree_node hold'.wellFormed right]
    refine (Sameness.Kinship.mapM_abreast (K := K) length (fun e he {u u'} hu hu' => ?_) ht ht').bind
      fun hu hu' hrs => ?_
    · have hmem := List.of_mem_zip he
      exact ih e he (hold.of_childNodes left hmem.1) (hold'.of_childNodes right hmem.2) hu hu'
    · have hsu := S.order.trans ht hu
      have hsu' := S.order.trans ht' hu'
      exact foldStep_abreast hP hF hR hK hv (S.session_later hs hsu) (S.session_later hs' hsu')
        (label.later hsu hsu') (here.later hsu hsu) (there.later hsu' hsu') left right
        (hold.holds.later hsu) (hold'.holds.later hsu') hrs.1 hrs.2.1 hrs.2.2

/-- Passes over trees that correspond concur, with trees that correspond. -/
theorem foldConstants_concurs (hs : S.session s) (hs' : S.session s') (h : K.Akin s s' n m)
    (hold : n.All (·.Older s)) (hold' : m.All (·.Older s')) :
    S.Concurs s s' (fun f => f.isEvaluation = true ∧ options.strict = true) F
      (fun t t' a b => K.Akin t t' a.1 b.1)
      ((M.foldConstants options (.node n)).run M.caller s)
      ((M.foldConstants options (.node m)).run M.caller s') := by
  have htree := foldTree_abreast hP hF hR hK hv hs hs' h hold hold' (S.later_refl s)
    (S.later_refl s') { initial := .node n } { initial := .node m }
  exact htree.bind fun _ _ hr => .pure hr.akin

omit hF hR in
/-- Passes over trees that correspond end the same, with trees that correspond. -/
theorem foldConstants_ends (hs : S.session s) (hs' : S.session s') (h : K.Akin s s' n m)
    (hold : n.All (·.Older s)) (hold' : m.All (·.Older s')) :
    S.Ends s s' (fun f => f.isEvaluation = true ∧ options.strict = true)
      (fun t t' a b => K.Akin t t' a.1 b.1)
      ((M.foldConstants options (.node n)).run M.caller s)
      ((M.foldConstants options (.node m)).run M.caller s') :=
  (foldConstants_concurs hP (M.host.failsWith_any K _ options.foldCalls)
    Sameness.Kinship.reports_any hK hv hs hs' h hold hold').ends

end Machine

end

end PredicateTree
