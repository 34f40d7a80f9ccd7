import PredicateTree.Proofs.Typing.Comparison

/-!
# Texts of data

To show data and to fill a template with data is steady: no class is asked, and nothing is changed.
-/

namespace PredicateTree

open Action (Steady)

variable {A : Nat → Prop}

/-! ### Written forms -/

/-- To show data inside other things is steady. -/
def ShowInside.SteadyOn (inside : ShowInside) (A : Nat → Prop) : Prop :=
  ∀ path v, v.Data A → (inside path v).Steady A fun _ => True

theorem requireAnswer_steady (name : String) (answer : Value) :
    (requireAnswer name answer).Steady A fun _ => True := by
  cases answer with
  | str => exact .pure trivial
  | _ => exact (Steady.typeOf _).bind fun _ _ => .fail _

theorem unlessInside_steady {path : List Value} {v : Value} {hint : String} {text : Action String}
    (h : text.Steady A fun _ => True) : (unlessInside path v hint text).Steady A fun _ => True := by
  unfold unlessInside
  split
  · exact .pure trivial
  · exact h

section

variable {inside : ShowInside}

theorem allShownBy_steady {path : List Value} {vs : List Value}
    (h : ∀ v ∈ vs, (v.shownBy inside path).Steady A fun _ => True) :
    (allShownBy inside path vs).Steady A fun _ => True := by
  induction vs with
  | nil => exact .pure trivial
  | cons v vs ih =>
    refine (h v List.mem_cons_self).bind fun _ _ => ?_
    exact (ih fun w hw => h w (List.mem_cons_of_mem _ hw)).bind fun _ _ => .pure trivial

theorem entriesShownBy_steady {path : List Value} {entries : List (Value × Value)}
    (hkeys : ∀ e ∈ entries, (e.1.shownBy inside path).Steady A fun _ => True)
    (hvalues : ∀ e ∈ entries, (e.2.shownBy inside path).Steady A fun _ => True) :
    (entriesShownBy inside path entries).Steady A fun _ => True := by
  induction entries with
  | nil => exact .pure trivial
  | cons e entries ih =>
    refine (hkeys e List.mem_cons_self).bind fun _ _ => ?_
    refine (hvalues e List.mem_cons_self).bind fun _ _ => ?_
    have htail := ih (fun e he => hkeys e (List.mem_cons_of_mem _ he))
      fun e he => hvalues e (List.mem_cons_of_mem _ he)
    exact htail.bind fun _ _ => .pure trivial

theorem ShowInside.SteadyOn.text (hin : inside.SteadyOn A) {v : Value} (hv : v.Data A)
    (path : List Value) : (inside.text path v).Steady A fun _ => True :=
  (hin path v hv).bind fun w _ => requireAnswer_steady _ w

theorem Value.Data.shownBy_steady (hin : inside.SteadyOn A) {v : Value} (hv : v.Data A)
    (path : List Value) : (v.shownBy inside path).Steady A fun _ => True := by
  induction hv generalizing path with
  | int m i => exact Steady.ofExcept (e := intText i) fun _ _ => trivial
  | list h => exact hin.text (.list h) path
  | tuple h ih =>
    refine unlessInside_steady ?_
    exact (allShownBy_steady fun v hv => ih v hv _).bind fun _ _ => .pure trivial
  | dict keys values ihk ihv =>
    refine unlessInside_steady ?_
    exact (entriesShownBy_steady (fun e he => ihk e he _) fun e he => ihv e he _).bind
      fun _ _ => .pure trivial
  | _ => exact .pure trivial

end

theorem shownWithin_steady (fuel : Nat) : (shownWithin fuel).SteadyOn A := by
  induction fuel with
  | zero => exact fun _ _ _ => .fail _
  | succ fuel ih =>
    intro path v hv
    cases hv with
    | list h =>
      refine Steady.bind (unlessInside_steady ?_) fun _ _ => .pure trivial
      refine (Steady.items h).bind fun vs hvs => ?_
      exact (allShownBy_steady fun v hv => (hvs v hv).shownBy_steady ih _).bind
        fun _ _ => .pure trivial
    | absent => exact (Value.Data.absent.shownBy_steady ih path).bind fun _ _ => .pure trivial
    | bool b => exact ((Value.Data.bool b).shownBy_steady ih path).bind fun _ _ => .pure trivial
    | int m i => exact ((Value.Data.int m i).shownBy_steady ih path).bind fun _ _ => .pure trivial
    | float m x =>
      exact ((Value.Data.float m x).shownBy_steady ih path).bind fun _ _ => .pure trivial
    | str m s => exact ((Value.Data.str m s).shownBy_steady ih path).bind fun _ _ => .pure trivial
    | tuple h => exact ((Value.Data.tuple h).shownBy_steady ih path).bind fun _ _ => .pure trivial
    | dict keys values =>
      exact ((Value.Data.dict keys values).shownBy_steady ih path).bind fun _ _ => .pure trivial

namespace Value.Data

variable {v : Value}

/-- To show data is steady. -/
theorem shown_steady (hv : v.Data A) : v.shown.Steady A fun _ => True :=
  hv.shownBy_steady (shownWithin_steady _) []

theorem plain_steady (hv : v.Data A) : v.plain.Steady A fun _ => True := by
  have hshown := (shownWithin_steady (A := A) Query.nesting) [] v hv
  have hplain (hmember : v.enumerationMember? = none) (hno : ∀ m s, v ≠ .str m s) :
      (plainOr v (shownWithin Query.nesting [] v)).Steady A fun _ => True := by
    unfold plainOr
    split
    · exact absurd rfl (hno _ _)
    · rename_i h
      rw [hmember] at h
      cases h
    · refine (Steady.askSpecial hv.isObject_eq _ _).bind fun o ho => ?_
      subst ho
      exact hshown.bind fun w _ => requireAnswer_steady _ w
  cases hv with
  | str => exact .pure trivial
  | _ => exact hplain rfl nofun

/-! ### Numbers that data are -/

theorem integerAsked?_steady (hv : v.Data A) (name : String) :
    (v.integerAsked? name).Steady A (· = none) := by
  refine (Steady.askSpecial hv.isObject_eq _ _).bind fun o ho => ?_
  subst ho
  exact .pure rfl

/-- As an index data are the integers that they are themselves. -/
theorem index?_steady (hv : v.Data A) : v.index?.Steady A (· = v.ownInteger?) := by
  unfold Value.index?
  cases v.ownInteger? with
  | some i => exact .pure rfl
  | none => exact hv.integerAsked?_steady _

theorem integer?_steady (hv : v.Data A) : v.integer?.Steady A fun _ => True := by
  refine (hv.integerAsked?_steady _).bind fun o ho => ?_
  subst ho
  refine (hv.integerAsked?_steady _).bind fun o ho => ?_
  subst ho
  refine (Steady.askSpecial hv.isObject_eq _ _).bind fun o ho => ?_
  subst ho
  exact .pure trivial

theorem toReal_steady (hv : v.Data A) : v.toReal.Steady A fun _ => True := by
  unfold Value.toReal
  split
  · exact .ofExcept fun _ _ => trivial
  · have hreal : v.real?.Steady A (· = none) := by
      refine (Steady.askSpecial hv.isObject_eq _ _).bind fun o ho => ?_
      subst ho
      refine (hv.integerAsked?_steady _).bind fun o ho => ?_
      subst ho
      exact .pure rfl
    refine hreal.bind fun o ho => ?_
    subst ho
    exact (Steady.typeOf _).bind fun _ _ => .fail _

/-- What data hold under a name are data. -/
theorem item_steady (hv : v.Data A) (name : String) :
    (v.item (.ofText name)).Steady A fun w => w.Data A := by
  have hname : (Value.ofText name).Data A := .str _ _
  cases hv with
  | str | list | tuple =>
    refine hname.index?_steady.bind fun o ho => ?_
    subst ho
    exact (Steady.typeOf _).bind fun _ _ => .fail _
  | dict keys values =>
    refine hname.requireHashable_steady.bind fun _ _ => ?_
    refine (hname.find?_steady keys).bind fun o ho => ?_
    cases o with
    | none => exact hname.shown_steady.bind fun _ _ => .fail _
    | some w =>
      obtain ⟨e, he, rfl⟩ := ho w rfl
      exact .pure (values e he)
  | _ =>
    refine (Steady.askSpecial rfl _ _).bind fun o ho => ?_
    subst ho
    exact (Steady.typeOf _).bind fun _ _ => .fail _

end Value.Data

end PredicateTree
