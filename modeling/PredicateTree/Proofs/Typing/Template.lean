import PredicateTree.Proofs.Typing.Text

/-!
# Templates filled with data

To fill a template with data is steady, and makes a text (`Value.Data.format_steady`).
-/

namespace PredicateTree.Template

open Action (Steady)
open PredicateTree.Text (Directive Extent Piece)

variable {A : Nat → Prop} {v : Value}

/-! ### Arguments -/

/-- The arguments, and the value in which named ones are looked up, are data. -/
structure Arguments.AreData (A : Nat → Prop) (s : Arguments) : Prop where
  named : ∀ v ∈ s.named, v.Data A
  values : ∀ v ∈ s.values, v.Data A

namespace Arguments.AreData

variable {s : Arguments}

theorem ofValue (hv : v.Data A) (store : Store) : (Arguments.ofValue store v).AreData A := by
  have halone (source : Option Value) (hsource : ∀ w ∈ source, w = v) :
      AreData A ⟨source, [v]⟩ :=
    ⟨fun w hw => hsource w hw ▸ hv, fun w hw => List.mem_singleton.1 hw ▸ hv⟩
  have hone : AreData A ⟨if holdsNames store v then some v else none, [v]⟩ := by
    refine halone _ fun w hw => ?_
    split at hw
    · exact (Option.some.inj hw).symm
    · cases hw
  cases hv with
  | tuple h => exact ⟨nofun, h⟩
  | _ => exact hone

theorem next (hs : s.AreData A) {v : Value} {t : Arguments} (h : s.next = .ok (v, t)) :
    v.Data A ∧ t.AreData A := by
  obtain ⟨named, values⟩ := s
  cases values with
  | nil => cases h
  | cons w values =>
    cases h
    exact ⟨hs.values _ List.mem_cons_self,
      hs.named, fun u hu => hs.values u (List.mem_cons_of_mem _ hu)⟩

theorem select_steady (hs : s.AreData A) (name : Text.ArgumentName) :
    (s.select name).Steady A fun t => t.AreData A := by
  cases name with
  | absent => exact .pure hs
  | unclosed =>
    simp only [Arguments.select]
    split
    · exact .fail _
    · exact .fail _
  | named name =>
    simp only [Arguments.select]
    split
    · rename_i source hsource
      refine ((hs.named source hsource).item_steady name).bind fun w hw => ?_
      exact .pure ⟨hs.named, fun u hu => List.mem_singleton.1 hu ▸ hw⟩
    · exact .fail _

theorem size (hs : s.AreData A) {limit : Nat} {tooBig unfit : Failure} {extent : Extent} {i : Int}
    {t : Arguments} (h : s.size limit tooBig unfit extent = .ok (i, t)) : t.AreData A := by
  cases extent with
  | number n =>
    simp only [Arguments.size] at h
    split at h
    · cases h
      exact hs
    · cases h
  | argument =>
    rw [Arguments.size] at h
    obtain ⟨⟨w, u⟩, hnext, h⟩ := exists_of_bind_eq_ok h
    simp only at h
    split at h
    · split at h
      · cases h
        exact (hs.next hnext).2
      · cases h
    · cases h

theorem width (hs : s.AreData A) {d : Directive} {width : Option Int} {t : Arguments}
    (h : s.width d = .ok (width, t)) : t.AreData A := by
  unfold Arguments.width at h
  split at h
  · cases h
    exact hs
  · obtain ⟨⟨i, u⟩, hsize, h⟩ := exists_of_bind_eq_ok h
    cases h
    exact hs.size hsize

theorem precision (hs : s.AreData A) {d : Directive} {precision : Option Nat} {t : Arguments}
    (h : s.precision d = .ok (precision, t)) : t.AreData A := by
  unfold Arguments.precision at h
  split at h
  · cases h
    exact hs
  · obtain ⟨⟨i, u⟩, hsize, h⟩ := exists_of_bind_eq_ok h
    cases h
    exact hs.size hsize

end Arguments.AreData

/-! ### What directives show -/

/-- A pure computation that may fail leaves everything as it is. -/
theorem lifted_steady {α : Type} (e : Except Fault α) :
    (Action.ofExcept e).Steady A fun _ => True :=
  .ofExcept fun _ _ => trivial

theorem required_steady (c : Char) (integral : Bool) {found : Action (Option Int)}
    (hfound : found.Steady A fun _ => True) :
    (required c integral v found).Steady A fun _ => True := by
  refine (Steady.typeOf v).bind fun t _ => ?_
  have hhandled : (Action.handle found fun fault =>
      if fault.errorClass.isSubclass .type then Action.fail (.formatNumber c integral t)
      else Action.raise fault).Steady A fun _ => True := by
    refine hfound.handle fun f => ?_
    split
    · exact .fail _
    · exact .raise _
  refine hhandled.bind fun o _ => ?_
  cases o with
  | some i => exact .pure trivial
  | none => exact .fail _

theorem whole_steady (hv : v.Data A) (c : Char) : (whole c v).Steady A fun _ => True := by
  unfold whole
  split
  · exact .pure trivial
  · split
    · exact .fail _
    · split
      · exact .fail _
      · exact .pure trivial
  · refine Steady.store.bind fun s _ => required_steady c false ?_
    split
    · exact hv.integer?_steady
    · exact .pure trivial

theorem wholePart_steady (hv : v.Data A) (s : Setting) (c : Char) :
    (wholePart s c v).Steady A fun _ => True := by
  refine (whole_steady hv c).bind fun i _ => ?_
  refine (lifted_steady (intText i.natAbs)).bind fun text _ => ?_
  refine (lifted_steady (s.padded text.toList)).bind fun digits _ => ?_
  refine (lifted_steady (s.ofNumber (i < 0) [] digits)).bind fun text _ => ?_
  split
  · exact .pure trivial
  · exact .pure trivial

theorem basePart_steady (hv : v.Data A) (s : Setting) (c : Char) :
    (basePart s c v).Steady A fun _ => True := by
  refine (required_steady c true (hv.index?_steady.mono fun _ _ => trivial)).bind fun i _ => ?_
  refine (lifted_steady (s.padded _)).bind fun digits _ => ?_
  exact (lifted_steady (s.ofNumber (i < 0) _ _)).bind fun _ _ => .pure trivial

theorem placedPart_steady (hv : v.Data A) (s : Setting) (c : Char) :
    (placedPart s c v).Steady A fun _ => True := by
  refine hv.toReal_steady.bind fun x _ => ?_
  refine (lifted_steady (requireRoom _)).bind fun _ _ => ?_
  exact (lifted_steady (s.ofNumber _ _ _)).bind fun _ _ => .pure trivial

theorem characterOf_steady (hv : v.Data A) : (characterOf v).Steady A fun _ => True := by
  have hasked : (Action.handle v.index? fun fault =>
      if fault.errorClass.isSubclass .type then pure none else Action.raise fault).Steady A
        fun _ => True := by
    refine (hv.index?_steady.mono fun _ _ => trivial).handle fun f => ?_
    split
    · exact .pure trivial
    · exact .raise _
  unfold characterOf
  split
  · split
    · exact .pure trivial
    · exact .fail _
  · refine hasked.bind fun o _ => ?_
    split
    · split
      · exact .pure trivial
      · exact .fail _
    · exact .fail _

theorem textPart_steady (s : Setting) {shown : Action String} (hshown : shown.Steady A fun _ => True)
    (edit : String → String) : (textPart s v shown edit).Steady A fun _ => True := by
  unfold textPart
  split
  · refine hshown.bind fun text _ => ?_
    split
    · exact .pure trivial
    · exact lifted_steady _
  · exact hshown.bind fun _ _ => lifted_steady _

/-- What a directive shows of data leaves everything as it is. -/
theorem part_steady (hv : v.Data A) (s : Setting) (c : Char) (conversion : Conversion) :
    (conversion.part s c v).Steady A fun _ => True := by
  cases conversion with
  | text =>
    have hplain := textPart_steady (v := v) s hv.plain_steady id
    cases hv with
    | str => exact lifted_steady _
    | _ => exact hplain
  | writtenForm => exact textPart_steady s hv.shown_steady id
  | ascii => exact textPart_steady s hv.shown_steady inAscii
  | whole => exact wholePart_steady hv s c
  | base => exact basePart_steady hv s c
  | placed => exact placedPart_steady hv s c
  | character => exact (characterOf_steady hv).bind fun _ _ => lifted_steady _

/-! ### Filling a template -/

theorem fillDirective_steady (template : List Char) (d : Directive) (after : List Char)
    {s : Arguments} (hs : s.AreData A) :
    (fillDirective template d after s).Steady A fun r => r.2.AreData A := by
  refine (hs.select_steady d.name).bind fun s hs => ?_
  refine (Steady.ofExcept (e := s.width d) (Q := fun r => r.2.AreData A)
    fun r hr => hs.width hr).bind fun r hr => ?_
  obtain ⟨width, s⟩ := r
  refine (Steady.ofExcept (e := s.precision d) (Q := fun r => r.2.AreData A)
    fun r hr => Arguments.AreData.precision ‹_› hr).bind fun r hr => ?_
  obtain ⟨precision, s⟩ := r
  simp only
  split
  · exact .fail _
  · rename_i c _
    refine (Steady.ofExcept (e := s.next) (Q := fun r => r.1.Data A ∧ r.2.AreData A)
      fun r h => Arguments.AreData.next ‹_› h).bind fun r hr => ?_
    split
    · exact (part_steady hr.1 _ c _).bind fun _ _ => .pure hr.2
    · exact .fail _

theorem fill_steady (template : List Char) {s : Arguments} (hs : s.AreData A)
    (pieces : List Piece) : (fill template s pieces).Steady A fun _ => True := by
  induction pieces generalizing s with
  | nil => exact .pure trivial
  | cons piece pieces ih =>
    have hrest (r : Part × Arguments) (hr : r.2.AreData A) :
        (fill template r.2 pieces >>= fun q => pure (r.1 :: q.1, q.2)).Steady A fun _ => True :=
      (ih hr).bind fun _ _ => .pure trivial
    unfold fill
    cases piece with
    | plain text => exact hrest (.written (String.ofList text), s) hs
    | sign => exact hrest (.written "%", s) hs
    | directive d after => exact (fillDirective_steady template d after hs).bind hrest

theorem joined_steady (parts : List Part) :
    (joined parts).Steady A fun w => ∃ m t, w = .str m t := by
  simp only [joined]
  split
  · split
    · exact .pure ⟨_, _, rfl⟩
    · exact (Steady.textPiece _).mono fun w ⟨m, hw⟩ => ⟨m, _, hw⟩
  · split
    · exact (Steady.newText _).mono fun w ⟨m, hw⟩ => ⟨m, _, hw⟩
    · exact (Steady.textPiece _).mono fun w ⟨m, hw⟩ => ⟨m, _, hw⟩
  · exact (Steady.textPiece _).mono fun w ⟨m, hw⟩ => ⟨m, _, hw⟩

/-- A template filled with data is a text. -/
theorem format_steady (mark : Nat) (template : String) (hv : v.Data A) :
    (format mark template v).Steady A fun w => ∃ m t, w = .str m t := by
  have hparts : (parts template.toList v).Steady A fun _ => True := by
    refine Steady.store.bind fun s _ => ?_
    refine (fill_steady _ (.ofValue hv s) _).bind fun ⟨parts, left⟩ _ => ?_
    simp only
    split
    · exact .pure trivial
    · exact .fail _
  refine hparts.bind fun parts _ => ?_
  split
  · exact joined_steady parts
  · exact .pure ⟨_, _, rfl⟩

end PredicateTree.Template
