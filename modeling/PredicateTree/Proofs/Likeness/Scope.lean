import Mathlib.Data.List.Forall2
import Mathlib.Data.Option.Basic
import PredicateTree.Tree

/-!
# Scopes and renamings

A reference is resolved to the innermost declaration of its parameter (`declarationOf`,
`Environment.get?_extend`).  A renaming of parameters that is applied to declarations and references
alike may change that: `Keeps ρ ps p` says that among the declarations `ps` the parameter `p` is
resolved as it was.  Where scopes are kept, environments that agree along a renaming still do so
within a function body (`Environment.Alike.extend`).
-/

namespace PredicateTree

variable {ρ : Parameter → Parameter} {ps : List Parameter} {p : Parameter}

/-! ### Looking things up -/

theorem lookup_map_snd {α β γ : Type} [BEq α] (f : β → γ) (l : List (α × β)) (a : α) :
    (l.map fun e => (e.1, f e.2)).lookup a = (l.lookup a).map f := by
  induction l with
  | nil => rfl
  | cons e l ih =>
    obtain ⟨k, b⟩ := e
    rw [List.map_cons, List.lookup_cons, List.lookup_cons, ih]
    cases a == k <;> rfl

theorem lookup_map_fst {β : Type} {l : List (Parameter × β)}
    (h : ∀ e ∈ l, ρ e.1 = ρ p → e.1 = p) :
    (l.map fun e => (ρ e.1, e.2)).lookup (ρ p) = l.lookup p := by
  induction l with
  | nil => rfl
  | cons e l ih =>
    obtain ⟨q, b⟩ := e
    rw [List.map_cons, List.lookup_cons, List.lookup_cons,
      ih fun e he => h e (List.mem_cons_of_mem _ he)]
    by_cases hq : p = q
    · rw [hq, beq_self_eq_true, beq_self_eq_true]
    · have hρ : ρ p ≠ ρ q := fun heq => hq (h (q, b) List.mem_cons_self heq.symm).symm
      rw [beq_eq_false_iff_ne.2 hq, beq_eq_false_iff_ne.2 hρ]

/-! ### Declarations -/

/-- The place of the declaration that a parameter refers to, if there is one: the last of several
counts. -/
def declarationOf (ps : List Parameter) (p : Parameter) : Option Nat := ps.zipIdx.reverse.lookup p

theorem lt_of_declarationOf {i : Nat} (h : declarationOf ps p = some i) : i < ps.length := by
  obtain ⟨l₁, l₂, heq, -⟩ := List.lookup_eq_some_iff.1 h
  have hmem : (p, i) ∈ ps.zipIdx.reverse := by
    rw [heq]
    exact List.mem_append_right l₁ List.mem_cons_self
  exact List.snd_lt_of_mem_zipIdx (List.mem_reverse.1 hmem)

theorem not_mem_of_declarationOf (h : declarationOf ps p = none) : p ∉ ps := by
  intro hp
  obtain ⟨i, hi, rfl⟩ := List.getElem_of_mem hp
  have hmem : (ps[i], i) ∈ ps.zipIdx.reverse :=
    List.mem_reverse.2 (List.mk_mem_zipIdx_iff_getElem?.2 (List.getElem?_eq_getElem hi))
  have hne := List.lookup_eq_none_iff.1 h _ hmem
  exact absurd rfl (bne_iff_ne.1 hne)

/-- Among some declarations a parameter is resolved as it was before renaming. -/
def Keeps (ρ : Parameter → Parameter) (ps : List Parameter) (p : Parameter) : Prop :=
  declarationOf (ps.map ρ) (ρ p) = declarationOf ps p

/-- No declaration catches a parameter that no other is renamed to. -/
theorem keeps_of_injective (h : ∀ q ∈ ps, ρ q = ρ p → q = p) : Keeps ρ ps p := by
  rw [Keeps, declarationOf, List.zipIdx_map, ← List.map_reverse]
  refine lookup_map_fst fun e he heq => ?_
  exact h e.1 (List.fst_mem_of_mem_zipIdx (List.mem_reverse.1 he)) heq

namespace Environment

variable {R : Value → Value → Prop} {S S' : Parameter → Prop} {env env' : Environment}
  {args args' : List Value}

/-- In a function body a parameter has the value of the argument for its declaration. -/
theorem get?_extend (h : args.length = ps.length) :
    (env.extend ps args).get? p =
      ((declarationOf ps p).map (args.getD · .absent)).or (env.get? p) := by
  have hzip : ps.zip args = ps.zipIdx.map fun e => (e.1, args.getD e.2 .absent) := by
    refine List.ext_getElem (by simp [h]) fun i hi hi' => ?_
    have hlt : i < args.length := by
      rw [List.length_zip] at hi
      omega
    simp [hlt]
  rw [get?, extend, List.lookup_append, hzip, ← List.map_reverse,
    lookup_map_snd (fun i => args.getD i .absent)]
  rfl

/-- In a function body a parameter has the value of an argument, or the one that it had. -/
theorem get?_extend_cases (h : args.length = ps.length) (env : Environment) (p : Parameter) :
    (∃ a ∈ args, (env.extend ps args).get? p = some a) ∨
      p ∉ ps ∧ (env.extend ps args).get? p = env.get? p := by
  rw [get?_extend h]
  cases hd : declarationOf ps p with
  | none => exact .inr ⟨not_mem_of_declarationOf hd, Option.none_or⟩
  | some i =>
    have hi : i < args.length := by
      rw [h]
      exact lt_of_declarationOf hd
    exact .inl ⟨args[i], List.getElem_mem hi, by simp [hi]⟩

/-- In a scope, two environments give a parameter and what it is renamed to like values, or
neither gives one. -/
def Alike (R : Value → Value → Prop) (ρ : Parameter → Parameter) (S : Parameter → Prop)
    (env env' : Environment) : Prop :=
  ∀ p, S p → Option.Rel R (env.get? p) (env'.get? (ρ p))

theorem Alike.mono {R' : Value → Value → Prop} (h : Alike R ρ S env env')
    (imp : ∀ v w, R v w → R' v w) : Alike R' ρ S env env' := by
  intro p hp
  have hrel := h p hp
  generalize env.get? p = v? at hrel ⊢
  generalize env'.get? (ρ p) = w? at hrel ⊢
  cases hrel with
  | some hvw => exact .some (imp _ _ hvw)
  | none => exact .none

/-- Environments that agree along a renaming do so in a body whose scopes it keeps. -/
theorem Alike.extend (h : Alike R ρ S env env') (hargs : List.Forall₂ R args args')
    (hlen : args.length = ps.length)
    (hscope : ∀ p, S' p → Keeps ρ ps p ∧ (p ∉ ps → S p)) :
    Alike R ρ S' (env.extend ps args) (env'.extend (ps.map ρ) args') := by
  intro p hp
  obtain ⟨hkeeps, hS⟩ := hscope p hp
  have hlen' : args'.length = (ps.map ρ).length := by
    rw [List.length_map, ← hargs.length_eq, hlen]
  rw [get?_extend hlen, get?_extend hlen', hkeeps]
  cases hd : declarationOf ps p with
  | none => exact h p (hS (not_mem_of_declarationOf hd))
  | some i =>
    have hi : i < args.length := by
      rw [hlen]
      exact lt_of_declarationOf hd
    have hi' : i < args'.length := by
      rw [← hargs.length_eq]
      exact hi
    refine .some ?_
    simpa [hi, hi'] using hargs.get hi hi'

end Environment

end PredicateTree
