import ScriptFront.Proofs.Assignability
import ScriptFront.Proofs.DeclarationOrder

/-!
Where names stand for well-formed types, so do written types, and so do the names of a block in the
course of its completion.
-/

namespace ScriptFront

/-! ### Fields of declared structures -/

namespace Ty

theorem ofFields_concat (fields : List (String × Ty)) (f : String × Ty) :
    ofFields (fields ++ [f]) = setField f.1 f.2 (ofFields fields) := by
  simp only [ofFields, List.foldl_append, List.foldl_cons, List.foldl_nil]

theorem mem_setField {name : String} {t : Ty} {fields : List (String × Ty)} {g : String × Ty}
    (h : g ∈ setField name t fields) : g = (name, t) ∨ g ∈ fields := by
  induction fields with
  | nil => exact .inl (List.mem_singleton.mp h)
  | cons f fields ih =>
      obtain ⟨n, u⟩ := f
      unfold setField at h
      split at h
      · next same =>
          rcases List.mem_cons.mp h with rfl | later
          · exact .inl (by rw [same])
          · exact .inr (List.mem_cons_of_mem _ later)
      · rcases List.mem_cons.mp h with rfl | later
        · exact .inr List.mem_cons_self
        · exact (ih later).imp_right (List.mem_cons_of_mem _)

theorem mem_of_mem_ofFields {fields : List (String × Ty)} {g : String × Ty}
    (h : g ∈ ofFields fields) : g ∈ fields := by
  induction fields using List.reverseRecOn with
  | nil => exact h
  | append_singleton fields f ih =>
      rw [ofFields_concat] at h
      rcases mem_setField h with rfl | earlier
      · exact List.mem_append_right _ (List.mem_singleton_self _)
      · exact List.mem_append_left _ (ih earlier)

theorem lookup_setField (name : String) (t : Ty) (fields : List (String × Ty)) (x : String) :
    (setField name t fields).lookup x = if x = name then some t else fields.lookup x := by
  have lookup_cons : ∀ (n : String) (u : Ty) (fields : List (String × Ty)),
      ((n, u) :: fields).lookup x = if x = n then some u else fields.lookup x := by
    intro n u fields
    by_cases here : x = n
    · simp [here]
    · simp [List.lookup_cons, here, beq_eq_false_iff_ne.mpr here]
  induction fields with
  | nil => exact lookup_cons name t []
  | cons f fields ih =>
      obtain ⟨n, u⟩ := f
      by_cases same : n = name
      · rw [setField, if_pos same, lookup_cons, lookup_cons, same]
        split <;> rfl
      · rw [setField, if_neg same, lookup_cons, lookup_cons, ih]
        by_cases here : x = n
        · rw [if_pos here, if_pos here, if_neg (here ▸ same)]
        · rw [if_neg here, if_neg here]

theorem wellFormed_iff {t : Ty} :
    t.WellFormed ↔ t.namesOnce = true ∧ ∀ u ∈ t.parts, u.WellFormed := all_iff

theorem wellFormed_of_no_parts {t : Ty} (names : t.namesOnce = true) (none : t.parts = []) :
    t.WellFormed := by
  refine wellFormed_iff.mpr ⟨names, ?_⟩
  rw [none]
  exact List.forall_mem_nil _

theorem wellFormed_generic (name : String) : (generic name).WellFormed :=
  wellFormed_of_no_parts rfl rfl

theorem wellFormed_ofGenerics {names : List String} {t : Ty} (h : t ∈ ofGenerics names) :
    t.WellFormed := by
  obtain ⟨name, _, rfl⟩ := List.mem_map.mp h
  exact wellFormed_generic name

end Ty

/-! ### Written types -/

theorem exists_of_bind {α β ε : Type} {x : Except ε α} {f : α → Except ε β} {b : β}
    (h : (x >>= f) = .ok b) : ∃ a, x = .ok a ∧ f a = .ok b := by
  cases x with
  | error e => cases h
  | ok a => exact ⟨a, rfl, h⟩

/-- An entry stands for a well-formed type, if for a type at all. -/
def Entry.WellFormed : Entry → Prop
  | .named t => t.type.WellFormed
  | .cls c => c.type.toTy.WellFormed
  | .var _ | .param _ | .func _ => True

/-- Names stand for well-formed types. -/
def Meaning.WellFormed (m : Meaning) : Prop := ∀ x e, m x = some e → e.WellFormed

theorem Scopes.wellFormed_of_entries {s : Scopes}
    (h : ∀ f ∈ s.frames, ∀ e ∈ f.entries, e.WellFormed) : Meaning.WellFormed s.lookup := by
  intro x e found
  obtain ⟨f, hf, found⟩ := List.exists_of_findSome?_eq_some found
  exact h f hf e (List.mem_of_find?_eq_some found)

namespace Meaning.WellFormed

variable {m : Meaning}

theorem withGenerics (h : m.WellFormed) (generics : List Ident) :
    (m.withGenerics generics).WellFormed := by
  intro x e found
  cases hg : generics.find? (·.text == x) with
  | none => exact h x e ((withGenerics_of_none hg m).symm.trans found)
  | some g =>
      rw [withGenerics_of_some hg] at found
      cases found
      exact Ty.wellFormed_generic g.text

/-- Other generics keep a type well-formed. -/
theorem typeNamed (h : m.WellFormed) {x : String} {arguments : List Ty} {t : Ty}
    (args : ∀ a ∈ arguments, a.WellFormed) (named : m.typeNamed? x arguments = some t) :
    t.WellFormed := by
  unfold typeNamed? at named
  cases found : m x with
  | none => simp [found] at named
  | some e =>
      have whole := h x e found
      rw [found] at named
      cases e with
      | var v | param v | func f => cases named
      | named t' =>
          cases form : t'.type with
          | struct fields generics =>
              have type : (Ty.struct fields generics).WellFormed := form ▸ whole
              simp only [form, Option.some.injEq] at named
              subst named
              refine Ty.wellFormed_iff.mpr ⟨(Ty.wellFormed_iff.mp type).1, fun u inside => ?_⟩
              rcases List.mem_append.mp inside with field | generic
              · exact type.part (List.mem_append_left _ field)
              · split at generic
                · exact type.part (List.mem_append_right _ generic)
                · exact args u generic
          | _ =>
              simp only [form, Option.some.injEq] at named
              exact named ▸ form ▸ whole
      | cls c =>
          simp only [Option.some.injEq] at named
          subst named
          split
          · exact whole
          · refine Ty.wellFormed_iff.mpr ⟨rfl, fun u inside => ?_⟩
            rcases List.mem_append.mp inside with above | generic
            · exact Ty.WellFormed.part whole (List.mem_append_left _ above)
            · exact args u generic

mutual

theorem resolveType (h : m.WellFormed) :
    ∀ (t : TypeExpr) (ty : Ty), t.resolve m = .ok ty → ty.WellFormed
  | ⟨form, place⟩, ty, found => resolveForm h place form ty found

theorem resolveForm (h : m.WellFormed) (place : Location) :
    ∀ (form : TypeForm) (ty : Ty), form.resolve m place = .ok ty → ty.WellFormed
  | .reference name generics, ty, found => by
      obtain ⟨arguments, args, found⟩ := exists_of_bind found
      cases named : m.typeNamed? name arguments with
      | none => simp [named] at found
      | some t =>
          simp only [named, Except.ok.injEq] at found
          exact found ▸ h.typeNamed (resolveAll h generics arguments args) named
  | .array t, ty, found => by
      obtain ⟨u, element, found⟩ := exists_of_bind found
      cases found
      exact Ty.wellFormed_iff.mpr
        ⟨rfl, List.forall_mem_singleton.mpr (resolveType h t u element)⟩
  | .union l r, ty, found | .intersection l r, ty, found => by
      obtain ⟨u, left, found⟩ := exists_of_bind found
      obtain ⟨v, right, found⟩ := exists_of_bind found
      cases found
      exact Ty.wellFormed_iff.mpr ⟨rfl, List.forall_mem_cons.mpr
        ⟨resolveType h l u left, List.forall_mem_singleton.mpr (resolveType h r v right)⟩⟩
  | .infer, ty, found | .void, ty, found | .null, ty, found | .undefined, ty, found => by
      cases found
      exact Ty.wellFormed_of_no_parts rfl rfl

theorem resolveAll (h : m.WellFormed) :
    ∀ (ts : List TypeExpr) (tys : List Ty), ScriptFront.resolveAll m ts = .ok tys →
      ∀ ty ∈ tys, ty.WellFormed
  | [], tys, found => by
      cases found
      exact List.forall_mem_nil _
  | t :: ts, tys, found => by
      obtain ⟨u, first, found⟩ := exists_of_bind found
      obtain ⟨us, rest, found⟩ := exists_of_bind found
      cases found
      exact List.forall_mem_cons.mpr ⟨resolveType h t u first, resolveAll h ts us rest⟩

end

theorem resolveOrVoid (h : m.WellFormed) (t : TypeExpr) : (t.resolveOrVoid m).WellFormed := by
  unfold TypeExpr.resolveOrVoid
  split
  · next ty found => exact h.resolveType t ty found
  · exact Ty.wellFormed_of_no_parts rfl rfl

/-! ### Entries -/

theorem ofStruct (h : m.WellFormed) (d : TypeDeclaration) :
    (Signature.ofStruct m d).type.WellFormed := by
  refine Ty.wellFormed_iff.mpr ⟨Ty.namesOnce_ofFields _ _, fun u inside => ?_⟩
  rcases List.mem_append.mp inside with field | generic
  · obtain ⟨g, member, rfl⟩ := List.mem_map.mp field
    obtain ⟨f, _, rfl⟩ := List.mem_map.mp (Ty.mem_of_mem_ofFields member)
    exact (h.withGenerics d.generics).resolveOrVoid f.type
  · exact Ty.wellFormed_ofGenerics generic

theorem ofClass (h : m.WellFormed) (d : ClassDeclaration) :
    (Signature.ofClass m d).type.toTy.WellFormed := by
  rw [Signature.type_ofClass]
  refine Ty.wellFormed_iff.mpr ⟨rfl, fun u inside => ?_⟩
  rcases List.mem_append.mp inside with inside | generic
  · rcases List.mem_append.mp inside with above | interface
    · obtain ⟨above, _⟩ := Option.filter_eq_some_iff.mp (Option.mem_toList.mp above)
      obtain ⟨t, _, rfl⟩ := Option.map_eq_some_iff.mp above
      exact (h.withGenerics d.generics).resolveOrVoid t
    · obtain ⟨t, _, rfl⟩ := List.mem_map.mp interface
      exact (h.withGenerics d.generics).resolveOrVoid t
  · exact Ty.wellFormed_ofGenerics generic

theorem completed (h : m.WellFormed) {s : Statement} {e : Entry} (found : s.completed? m = some e) :
    e.WellFormed := by
  unfold Statement.completed? at found
  split at found <;> cases found
  · next d _ => exact h.ofStruct d
  · next d _ => exact h.ofClass d
  · trivial

theorem complete (h : m.WellFormed) (s : Statement) : (m.complete s).WellFormed := by
  intro x e found
  unfold Meaning.complete at found
  split at found
  · exact h.completed found
  · exact h x e found

theorem completeAll (h : m.WellFormed) (ss : List Statement) : (m.completeAll ss).WellFormed := by
  induction ss generalizing m with
  | nil => exact h
  | cons s ss ih => exact ih (h.complete s)

end Meaning.WellFormed

namespace Hoisted

theorem wellFormed_meaning (body : List Statement) {c : Checker}
    (h : Meaning.WellFormed c.scopes.lookup) : (ofBody body c).meaning.WellFormed := by
  intro x e found
  by_cases names : (ofBody body c).Names x
  · obtain ⟨s, hs, name⟩ := List.mem_map.mp names
    obtain ⟨id, e', provisional, known⟩ := (ofBody body c).known s hs
    simp only [Statement.aheadName?, provisional, Option.map_some, Option.some.injEq] at name
    subst name
    cases known.symm.trans found
    unfold Statement.provisional? at provisional
    split at provisional <;> cases provisional
    · exact Ty.wellFormed_of_no_parts rfl rfl
    · exact Ty.wellFormed_of_no_parts rfl rfl
    · trivial
  · exact h x e ((Check.lookup_declareAhead names).symm.trans found)

variable {b : Hoisted}

theorem wellFormed_round (h : b.meaning.WellFormed) (r : Nat) : (b.round r).WellFormed := by
  induction r with
  | zero => exact h
  | succ r ih => exact ih.completeAll _

theorem wellFormed_final (h : b.meaning.WellFormed) : b.final.WellFormed :=
  (wellFormed_round h 2).completeAll _

end Hoisted
end ScriptFront
