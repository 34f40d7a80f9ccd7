import Mathlib.Data.List.Forall2
import PredicateTree.Proofs.Tree.WellFormed
import PredicateTree.Tree.Traversal

/-!
# Traversals as recursion

A fold keeps a stack of work.  On a well-formed tree the stack is only a way to compute a recursion
over the tree, which combines the results of the folds of the children (`foldTree_node`).

What one step of a fold establishes about a node, given the same of its children, a fold establishes
about the tree (`Judgement.foldTree`), in whatever sense computations establish things (`Judgement`).
-/

namespace PredicateTree

/-! ### Lists in step -/

theorem forall_of_forall₂ {α β : Type} {R : α → β → Prop} {P : β → Prop} {as : List α}
    {bs : List β} (h : List.Forall₂ R as bs) (imp : ∀ a ∈ as, ∀ b, R a b → P b) :
    ∀ b ∈ bs, P b := by
  induction h with
  | nil => exact fun _ hb => nomatch hb
  | @cons a b as bs hab _ ih =>
    intro c hc
    rcases List.mem_cons.1 hc with rfl | hc
    · exact imp a List.mem_cons_self c hab
    · exact ih (fun a' ha' => imp a' (List.mem_cons_of_mem a ha')) c hc

theorem forall₂_of_both {α β γ : Type} {R : α → β → Prop} {R' : α → γ → Prop} {Q : β → γ → Prop}
    {as : List α} {bs : List β} {cs : List γ} (h : List.Forall₂ R as bs)
    (h' : List.Forall₂ R' as cs) (imp : ∀ a ∈ as, ∀ b c, R a b → R' a c → Q b c) :
    List.Forall₂ Q bs cs := by
  induction h generalizing cs with
  | nil =>
    cases h'
    exact .nil
  | @cons a b as bs hab _ ih =>
    cases h' with
    | @cons _ c _ cs hac hrest =>
      refine .cons (imp a List.mem_cons_self b c hab hac) (ih hrest fun a' ha' => ?_)
      exact imp a' (List.mem_cons_of_mem a ha')

theorem forall₂_of_zip {α β : Type} {R : α → β → Prop} {as : List α} {bs : List β}
    (length : as.length = bs.length) (each : ∀ e ∈ as.zip bs, R e.1 e.2) : List.Forall₂ R as bs :=
  List.forall₂_iff_zip.2 ⟨length, fun h => each _ h⟩

theorem zip_of_forall₂ {α β : Type} {R : α → β → Prop} {as : List α} {bs : List β}
    (h : List.Forall₂ R as bs) : ∀ e ∈ as.zip bs, R e.1 e.2 :=
  fun _ he => (List.forall₂_iff_zip.1 h).2 he

theorem map_eq_of_forall₂ {α β γ : Type} {R : α → β → Prop} {f : α → γ} {g : β → γ} {as : List α}
    {bs : List β} (h : List.Forall₂ R as bs) (imp : ∀ a b, R a b → f a = g b) :
    as.map f = bs.map g := by
  induction h with
  | nil => rfl
  | @cons a b _ _ hab _ ih => rw [List.map_cons, List.map_cons, imp a b hab, ih]

theorem getLastD_of_forall₂ {α β : Type} {R : α → β → Prop} {as : List α} {bs : List β} {a : α}
    {b : β} (h : List.Forall₂ R as bs) (hab : R a b) : R (as.getLastD a) (bs.getLastD b) := by
  induction h generalizing a b with
  | nil => exact hab
  | @cons a' b' _ _ hhead _ ih =>
    rw [List.getLastD_cons, List.getLastD_cons]
    exact ih hhead

/-! ### Folds -/

/-- What follows the results of several computations may rely on their number. -/
theorem mapM_bind_congr {m : Type → Type} [Monad m] [LawfulMonad m] {α β γ : Type}
    {g : α → m β} {as : List α} {k l : List β → m γ}
    (h : ∀ rs : List β, rs.length = as.length → k rs = l rs) :
    as.mapM g >>= k = as.mapM g >>= l := by
  induction as generalizing k l with
  | nil => simpa only [List.mapM_nil, pure_bind] using h [] rfl
  | cons a as ih =>
    simp only [List.mapM_cons, bind_assoc, pure_bind]
    refine bind_congr fun r => ih fun rs hrs => h (r :: rs) ?_
    rw [List.length_cons, List.length_cons, hrs]

section fold

variable {m : Type → Type} [Monad m] [LawfulMonad m] [MonadLiftT Action m] {β : Type}
  (combine : Node → List β → m β)

/-- The work on a node that is entered comes down to a computation of its result. -/
def Computes (n : Node) (x : m β) : Prop :=
  ∀ rest results, foldLoop combine (.enter n :: rest) results =
    x >>= fun result => foldLoop combine rest (result :: results)

variable {combine}

theorem foldLoop_children {g : Node → m β} {ns : List Node}
    (h : ∀ n ∈ ns, Computes combine n (g n)) (rest : List Pending) (results : List β) :
    foldLoop combine (ns.map .enter ++ rest) results =
      ns.mapM g >>= fun rs => foldLoop combine rest (rs.reverse ++ results) := by
  induction ns generalizing results with
  | nil => simp only [List.map_nil, List.nil_append, List.mapM_nil, pure_bind, List.reverse_nil]
  | cons n ns ih =>
    rw [List.map_cons, List.cons_append, h n List.mem_cons_self, List.mapM_cons]
    simp only [bind_assoc, pure_bind, List.reverse_cons, List.append_assoc, List.singleton_append]
    refine bind_congr fun r => ?_
    exact ih (fun k hk => h k (List.mem_cons_of_mem n hk)) (r :: results)

/-- A node whose children are computed is computed from their results. -/
theorem computes_of_children {g : Node → m β} {n : Node} {ns : List Node}
    (hn : n.childNodes = .ok ns) (h : ∀ k ∈ ns, Computes combine k (g k)) :
    Computes combine n (ns.mapM g >>= combine n) := by
  intro rest results
  rw [foldLoop]
  split
  · rename_i hs
    cases hn.symm.trans hs
  · rename_i ms hs
    cases hn.symm.trans hs
    rw [foldLoop_children h, bind_assoc]
    refine mapM_bind_congr fun rs hrs => ?_
    rw [foldLoop, ← hrs, ← List.length_reverse, List.take_left, List.drop_left,
      List.reverse_reverse]

variable [LawfulMonadLiftT Action m]

theorem foldTree_eq_of_computes {n : Node} {x : m β} (h : Computes combine n x) :
    foldTree combine (.node n) = x := by
  have hn : (Value.node n).requireTree = pure n := rfl
  rw [foldTree, hn, liftM_pure, pure_bind, h]
  simp only [foldLoop, bind_assoc, pure_bind, bind_pure]

theorem computes_foldTree {n : Node} (h : n.WellFormed) :
    Computes combine n (foldTree combine (.node n)) := by
  induction h with
  | intro ns children _ _ ih =>
    have hc := computes_of_children children ih
    rwa [foldTree_eq_of_computes hc]

/-- The result for a node comes from those for its children, in order. -/
theorem foldTree_node {n : Node} {ns : List Node} (h : n.WellFormed)
    (hn : n.childNodes = .ok ns) :
    foldTree combine (.node n) =
      (ns.mapM fun k => foldTree combine (.node k)) >>= combine n := by
  obtain ⟨ms, hms, below⟩ := h.children
  cases hn.symm.trans hms
  exact foldTree_eq_of_computes (computes_of_children hn fun k hk => computes_foldTree (below k hk))

end fold

/-! ### Reasoning about folds -/

/-- A sense in which computations establish something: `holds x s post` says that `x`, begun in the
session `s`, ends with what `post` is true of. -/
structure Judgement (m : Type → Type) [Monad m] where
  holds : {α : Type} → m α → Session → (α → Session → Prop) → Prop
  pure {α : Type} {a : α} {s : Session} {post : α → Session → Prop} :
    post a s → holds (pure a) s post
  bind {α β : Type} {x : m α} {k : α → m β} {s : Session} {post : β → Session → Prop} :
    holds x s (fun a t => holds (k a) t post) → holds (x >>= k) s post
  mono {α : Type} {x : m α} {s : Session} {post post' : α → Session → Prop} :
    holds x s post → (∀ a t, post a t → post' a t) → holds x s post'

namespace Judgement

variable {m : Type → Type} [Monad m] {β : Type} (J : Judgement m)
  (later : Session → Session → Prop) (Q : Session → Node → β → Prop)

theorem mapM [LawfulMonad m] (refl : ∀ s, later s s)
    (trans : ∀ {s t u}, later s t → later t u → later s u)
    (stable : ∀ {s t n b}, later s t → Q s n b → Q t n b) {s₀ : Session} {g : Node → m β}
    {ns : List Node}
    (each : ∀ n ∈ ns, ∀ s, later s₀ s → J.holds (g n) s fun b t => later s t ∧ Q t n b)
    {s : Session} (hs : later s₀ s) :
    J.holds (ns.mapM g) s fun bs t => later s t ∧ List.Forall₂ (Q t) ns bs := by
  induction ns generalizing s with
  | nil =>
    rw [List.mapM_nil]
    exact J.pure ⟨refl s, .nil⟩
  | cons n ns ih =>
    rw [List.mapM_cons]
    refine J.bind (J.mono (each n List.mem_cons_self s hs) fun b t ⟨hst, hb⟩ => ?_)
    refine J.bind (J.mono (ih (fun k hk => each k (List.mem_cons_of_mem n hk)) (trans hs hst))
      fun bs u ⟨htu, hbs⟩ => ?_)
    exact J.pure ⟨trans hst htu, .cons (stable htu hb) hbs⟩

/-- What every step of a fold establishes about its node, the fold establishes about the tree.  The
sessions on the way get later and later, which leaves what is established true. -/
theorem foldTree [LawfulMonad m] [MonadLiftT Action m] [LawfulMonadLiftT Action m]
    (refl : ∀ s, later s s) (trans : ∀ {s t u}, later s t → later t u → later s u)
    (stable : ∀ {s t n b}, later s t → Q s n b → Q t n b) (s₀ : Session)
    {P : Node → Prop} {combine : Node → List β → m β}
    (step : ∀ {n ns bs s}, n.childNodes = .ok ns → n.All P → later s₀ s →
      List.Forall₂ (Q s) ns bs → J.holds (combine n bs) s fun b t => later s t ∧ Q t n b)
    {n : Node} (h : n.All P) {s : Session} (hs : later s₀ s) :
    J.holds (PredicateTree.foldTree combine (.node n)) s fun b t => later s t ∧ Q t n b := by
  induction h generalizing s with
  | @intro n ns children holds below ih =>
    have hn : n.All P := .intro ns children holds below
    rw [foldTree_node hn.wellFormed children]
    refine J.bind (J.mono (J.mapM later Q refl trans stable (fun k hk s hs => ih k hk hs) hs)
      fun bs t ⟨hst, hbs⟩ => ?_)
    exact J.mono (step children hn (trans hs hst) hbs) fun b u ⟨htu, hb⟩ => ⟨trans hst htu, hb⟩

/-- The same where what is established has nothing to do with sessions. -/
theorem foldTree_result [LawfulMonad m] [MonadLiftT Action m] [LawfulMonadLiftT Action m]
    {P : Node → Prop} {R : Node → β → Prop} {combine : Node → List β → m β}
    (step : ∀ {n ns bs}, n.childNodes = .ok ns → n.All P → List.Forall₂ R ns bs →
      ∀ s, J.holds (combine n bs) s fun b _ => R n b)
    {n : Node} (h : n.All P) (s : Session) :
    J.holds (PredicateTree.foldTree combine (.node n)) s fun b _ => R n b := by
  refine J.mono (J.foldTree (fun _ _ => True) (fun _ => R) (fun _ => trivial)
    (fun _ _ => trivial) (fun _ h => h) s (fun hn h _ hbs => ?_) h trivial) fun _ _ h => h.2
  exact J.mono (step hn h hbs _) fun _ _ h => ⟨trivial, h⟩

end Judgement

/-! ### Sizes -/

theorem le_total_of_mem {α : Type} (f : α → Nat) {a : α} {as : List α} (h : a ∈ as) :
    f a ≤ total f as := by
  induction h with
  | head as => exact Nat.le_add_right _ _
  | tail b _ ih => exact Nat.le_trans ih (Nat.le_add_left _ _)

/-- The size of a tree: how many nodes stand in it, each as often as it does. -/
def Node.size (n : Node) : Nat :=
  match _h : n.childNodes with
  | .error _ => 1
  | .ok ns => total (fun k => k.1.size) ns.attach + 1
termination_by n.work
decreasing_by
  have := total_work_childNodes _h
  have := le_total_of_mem Node.work k.2
  omega

theorem Node.size_eq {n : Node} {ns : List Node} (hn : n.childNodes = .ok ns) :
    n.size = total Node.size ns + 1 := by
  rw [size]
  split
  · rename_i hs
    cases hn.symm.trans hs
  · rename_i ms hs
    cases hn.symm.trans hs
    have hall := total_map Node.size Subtype.val ns.attach
    rw [List.attach_map_subtype_val] at hall
    rw [hall]

end PredicateTree
