import ScriptFront.Proofs.TypeEquality
import ScriptFront.Typing.Assignable

/-!
Which types fit which. A target that is a union or an intersection is taken apart before the value
is. Where the target is not taken apart, each form of a type fits few forms, which `Suits` lists.
Without classes and generics, what fits is transitive.
-/

namespace ScriptFront
namespace Ty

/-- Whether a type is taken apart where it is a target. -/
def splits : Ty → Bool
  | .union .. | .intersection .. => true
  | _ => false

/-- How a value fits a target that is not taken apart. -/
inductive Suits : Ty → Ty → Prop
  | unknown {name u} : Suits (generic name) u
  | accepted {t name} : Suits t (generic name)
  | sides {l r u} : l.fits u = true → r.fits u = true → Suits (union l r) u
  | equal {p} : Suits (primitive p) (primitive p)
  | widened : Suits int float
  | filled {p u} : p = .null ∨ p = .undefined → (∀ q, u ≠ primitive q) → Suits (primitive p) u
  | elements {e e'} : e.fits e' = true → Suits (array e) (array e')
  | fields {fields targets generics generics'} :
      (∀ f ∈ targets, ∃ t, fields.lookup f.1 = some t ∧ t.fits f.2 = true) →
      Suits (struct fields generics) (struct targets generics')
  | alike {params returns generics variadic u} :
      (function params returns generics variadic).same u = true →
      Suits (function params returns generics variadic) u
  | descendant {n superclass interfaces generics a superclass' interfaces' generics'} :
      descendsFrom a (class_ n superclass interfaces generics) = true →
      Suits (class_ n superclass interfaces generics) (class_ a superclass' interfaces' generics')
  | implementer {n superclass interfaces generics targets generics' i} :
      i ∈ interfaces → i.fits (struct targets generics') = true →
      Suits (class_ n superclass interfaces generics) (struct targets generics')

variable {t u v l r : Ty}

/-! ### Targets that are taken apart -/

theorem splits_cases (t : Ty) :
    t.splits = false ∨ (∃ l r, t = union l r) ∨ ∃ l r, t = intersection l r := by
  cases t with
  | union l r => exact .inr (.inl ⟨l, r, rfl⟩)
  | intersection l r => exact .inr (.inr ⟨l, r, rfl⟩)
  | _ => exact .inl rfl

section Widen

variable {equal test : Ty → Bool}

theorem widen_of_equal (h : equal t = true) : widen equal test t = true := by
  cases t <;> simp [widen, h]

theorem widen_of_whole (whole : t.splits = false) :
    widen equal test t = true ↔ equal t = true ∨ (∃ name, t = generic name) ∨ test t = true := by
  cases t <;> simp_all [widen, splits]

theorem suits_of_widen (whole : u.splits = false) (same : equal u = true → t.Suits u)
    (tested : test u = true → t.Suits u) (h : widen equal test u = true) : t.Suits u := by
  rcases (widen_of_whole whole).mp h with h | ⟨name, rfl⟩ | h
  · exact same h
  · exact .accepted
  · exact tested h

end Widen

theorem fits_of_same (h : t.same u = true) : t.fits u = true := by
  cases t with
  | generic name => rfl
  | _ => exact widen_of_equal h

theorem fits_generic (t : Ty) (name : String) : t.fits (generic name) = true := by
  cases t <;> simp [fits, widen]

theorem fits_union : t.fits (union l r) = true ↔
    t.same (union l r) = true ∨ t.fits l = true ∨ t.fits r = true := by
  cases t with
  | generic name => simp [fits]
  | _ => simp only [fits, widen, Bool.or_eq_true]

theorem fits_intersection : t.fits (intersection l r) = true ↔
    t.same (intersection l r) = true ∨ t.fits l = true ∧ t.fits r = true := by
  cases t with
  | generic name => simp [fits]
  | _ => simp only [fits, widen, Bool.or_eq_true, Bool.and_eq_true]

/-! ### Targets that are not -/

theorem primitiveFits_iff {p : Primitive} : primitiveFits p u = true ↔
    p = .int ∧ u = float ∨ (p = .null ∨ p = .undefined) ∧ ∀ q, u ≠ primitive q := by
  cases u with
  | primitive q => cases p <;> cases q <;> simp [primitiveFits]
  | _ => cases p <;> simp [primitiveFits]

theorem anyFits_iff {ts : List Ty} : anyFits ts u = true ↔ ∃ t ∈ ts, t.fits u = true := by
  induction ts with
  | nil => simp [anyFits]
  | cons t ts ih => simp [anyFits, ih]

theorem fieldFits_iff {fields : List (String × Ty)} {name : String} :
    fieldFits fields name u = true ↔ ∃ t, fields.lookup name = some t ∧ t.fits u = true := by
  induction fields with
  | nil => simp [fieldFits]
  | cons f fields ih =>
      obtain ⟨n, t⟩ := f
      by_cases here : n = name
      · simp [fieldFits, here]
      · have other : (name == n) = false := beq_eq_false_iff_ne.mpr (Ne.symm here)
        simp [fieldFits, List.lookup_cons, here, other, ih]

theorem Suits.fits (h : t.Suits u) (whole : u.splits = false) : t.fits u = true := by
  cases h with
  | unknown => rfl
  | accepted => exact fits_generic _ _
  | equal => exact fits_of_same (same_primitive.mpr rfl)
  | widened => rfl
  | alike equal => exact fits_of_same equal
  | sides left right =>
      exact (widen_of_whole whole).mpr (.inr (.inr (Bool.and_eq_true_iff.mpr ⟨left, right⟩)))
  | filled empty other =>
      exact (widen_of_whole whole).mpr (.inr (.inr (primitiveFits_iff.mpr (.inr ⟨empty, other⟩))))
  | elements inner => exact (widen_of_whole whole).mpr (.inr (.inr inner))
  | fields inner =>
      refine (widen_of_whole whole).mpr (.inr (.inr ?_))
      exact List.all_eq_true.mpr fun f field => fieldFits_iff.mpr (inner f field)
  | descendant above => exact (widen_of_whole whole).mpr (.inr (.inr above))
  | implementer mem inner =>
      exact (widen_of_whole whole).mpr (.inr (.inr (anyFits_iff.mpr ⟨_, mem, inner⟩)))

/-- A union value fits what is not taken apart if both its sides do. -/
theorem union_fits_of_whole (whole : u.splits = false) :
    (union l r).fits u = true ↔ l.fits u = true ∧ r.fits u = true := by
  constructor
  · intro h
    rcases (widen_of_whole whole).mp h with same | ⟨name, rfl⟩ | test
    · obtain ⟨_, _, rfl, _⟩ := same_union.mp same
      cases whole
    · exact ⟨fits_generic l name, fits_generic r name⟩
    · exact Bool.and_eq_true_iff.mp test
  · exact fun ⟨left, right⟩ => Suits.fits (.sides left right) whole

/-- There is no other way to fit a target that is not taken apart. -/
theorem suits_of_fits (wellFormed : t.WellFormed) (whole : u.splits = false)
    (h : t.fits u = true) : t.Suits u := by
  cases t with
  | generic name => exact .unknown
  | primitive p =>
      refine suits_of_widen whole (fun equal => ?_) (fun test => ?_) h
      · cases same_primitive.mp equal
        exact .equal
      · rcases primitiveFits_iff.mp test with ⟨rfl, rfl⟩ | ⟨empty, other⟩
        · exact .widened
        · exact .filled empty other
  | array e =>
      refine suits_of_widen whole (fun equal => ?_) (fun test => ?_) h
      · obtain ⟨e', rfl, equal⟩ := same_array.mp equal
        exact .elements (fits_of_same equal)
      · cases u with
        | array e' => exact .elements test
        | _ => cases test
  | struct fields generics =>
      refine suits_of_widen whole (fun equal => ?_) (fun test => ?_) h
      · obtain ⟨targets, others, rfl, length, equal, _⟩ := same_struct.mp equal
        refine .fields fun f field => ?_
        obtain ⟨t, found, equal⟩ := field_of_sameFields wellFormed.nodup length equal field
        exact ⟨t, found, fits_of_same equal⟩
      · cases u with
        | struct targets others =>
            exact .fields fun f field => fieldFits_iff.mp (List.all_eq_true.mp test f field)
        | _ => cases test
  | class_ name superclass interfaces generics =>
      refine suits_of_widen whole (fun equal => ?_) (fun test => ?_) h
      · obtain ⟨_, _, _, rfl, _⟩ := same_class.mp equal
        exact .descendant ((descendsFrom_class _ _ _ _ _).mpr (.inl rfl))
      · cases u with
        | class_ a superclass' interfaces' generics' => exact .descendant test
        | struct targets others =>
            obtain ⟨i, mem, inner⟩ := anyFits_iff.mp test
            exact .implementer mem inner
        | _ => cases test
  | function params returns generics variadic =>
      exact suits_of_widen whole .alike (absurd · Bool.false_ne_true) h
  | union l r =>
      obtain ⟨left, right⟩ := (union_fits_of_whole whole).mp h
      exact .sides left right
  | intersection l r =>
      refine suits_of_widen whole (fun equal => ?_) (absurd · Bool.false_ne_true) h
      obtain ⟨_, _, rfl, _⟩ := same_intersection.mp equal
      cases whole

/-! ### Transitivity -/

/-- A type of which structures name their fields once, without classes and generics. -/
structure Plain (t : Ty) : Prop where
  wellFormed : t.WellFormed
  structural : t.Structural

theorem Plain.part (h : t.Plain) (inside : u ∈ t.parts) : u.Plain :=
  ⟨h.wellFormed.part inside, h.structural.part inside⟩

theorem Plain.union (h : (union l r).Plain) : l.Plain ∧ r.Plain :=
  ⟨h.part (by simp [parts]), h.part (by simp [parts])⟩

theorem Plain.intersection (h : (intersection l r).Plain) : l.Plain ∧ r.Plain :=
  ⟨h.part (by simp [parts]), h.part (by simp [parts])⟩

theorem Plain.array (h : (array t).Plain) : t.Plain := h.part (by simp [parts])

/-- What fits a type fits all that this type fits, for types below a size taken together. -/
def TransitiveBelow (n : Nat) : Prop :=
  ∀ t u v : Ty, sizeOf t + sizeOf u + sizeOf v < n → t.Plain → u.Plain → v.Plain →
    t.fits u = true → u.fits v = true → t.fits v = true

section Transitivity

variable {n : Nat} (below : TransitiveBelow n)

include below

/-- The target is a union. -/
theorem trans_to_union (size : sizeOf t + sizeOf u + sizeOf (union l r) ≤ n) (ht : t.Plain)
    (hu : u.Plain) (hv : (union l r).Plain) (h : t.fits u = true)
    (h' : u.fits (union l r) = true) : t.fits (union l r) = true := by
  simp only [union.sizeOf_spec] at size
  rcases fits_union.mp h' with same | left | right
  · obtain ⟨a, b, rfl, sameLeft, sameRight⟩ := same_union_right.mp same
    simp only [union.sizeOf_spec] at size
    rcases fits_union.mp h with same' | left | right
    · exact fits_of_same (same_trans same' same)
    · exact fits_union.mpr (.inr (.inl
        (below t a l (by omega) ht hu.union.1 hv.union.1 left (fits_of_same sameLeft))))
    · exact fits_union.mpr (.inr (.inr
        (below t b r (by omega) ht hu.union.2 hv.union.2 right (fits_of_same sameRight))))
  · exact fits_union.mpr (.inr (.inl (below t u l (by omega) ht hu hv.union.1 h left)))
  · exact fits_union.mpr (.inr (.inr (below t u r (by omega) ht hu hv.union.2 h right)))

/-- The target is an intersection. -/
theorem trans_to_intersection (size : sizeOf t + sizeOf u + sizeOf (intersection l r) ≤ n)
    (ht : t.Plain) (hu : u.Plain) (hv : (intersection l r).Plain) (h : t.fits u = true)
    (h' : u.fits (intersection l r) = true) : t.fits (intersection l r) = true := by
  simp only [intersection.sizeOf_spec] at size
  rcases fits_intersection.mp h' with same | ⟨left, right⟩
  · obtain ⟨a, b, rfl, sameLeft, sameRight⟩ := same_intersection_right.mp same
    simp only [intersection.sizeOf_spec] at size
    rcases fits_intersection.mp h with same' | ⟨left, right⟩
    · exact fits_of_same (same_trans same' same)
    · exact fits_intersection.mpr (.inr
        ⟨below t a l (by omega) ht hu.intersection.1 hv.intersection.1 left (fits_of_same sameLeft),
          below t b r (by omega) ht hu.intersection.2 hv.intersection.2 right
            (fits_of_same sameRight)⟩)
  · exact fits_intersection.mpr (.inr ⟨below t u l (by omega) ht hu hv.intersection.1 h left,
      below t u r (by omega) ht hu hv.intersection.2 h right⟩)

/-- What is between is a union, whose sides fit a target that is not taken apart. -/
theorem trans_through_union (size : sizeOf t + sizeOf (union l r) + sizeOf v ≤ n) (ht : t.Plain)
    (hu : (union l r).Plain) (hv : v.Plain) (whole : v.splits = false)
    (h : t.fits (union l r) = true) (left : l.fits v = true) (right : r.fits v = true) :
    t.fits v = true := by
  simp only [union.sizeOf_spec] at size
  rcases fits_union.mp h with same | h | h
  · obtain ⟨a, b, rfl, sameLeft, sameRight⟩ := same_union_right.mp same
    simp only [union.sizeOf_spec] at size
    refine Suits.fits (.sides ?_ ?_) whole
    · exact below a l v (by omega) ht.union.1 hu.union.1 hv (fits_of_same sameLeft) left
    · exact below b r v (by omega) ht.union.2 hu.union.2 hv (fits_of_same sameRight) right
  · exact below t l v (by omega) ht hu.union.1 hv h left
  · exact below t r v (by omega) ht hu.union.2 hv h right

/-- A structure is between, so that fields are found in two steps. -/
theorem trans_fields {fields between targets : List (String × Ty)} {gs gs' gs'' : List Ty}
    (size : sizeOf (struct fields gs) + sizeOf (struct between gs') + sizeOf (struct targets gs'')
      ≤ n)
    (ht : (struct fields gs).Plain) (hu : (struct between gs').Plain)
    (hv : (struct targets gs'').Plain)
    (h : ∀ f ∈ between, ∃ t, fields.lookup f.1 = some t ∧ t.fits f.2 = true)
    (h' : ∀ f ∈ targets, ∃ t, between.lookup f.1 = some t ∧ t.fits f.2 = true) :
    ∀ f ∈ targets, ∃ t, fields.lookup f.1 = some t ∧ t.fits f.2 = true := by
  intro f field
  obtain ⟨u, found, inner'⟩ := h' f field
  obtain ⟨t, found', inner⟩ := h _ (mem_of_lookup found)
  have inside : t ∈ (struct fields gs).parts := mem_parts_of_field (mem_of_lookup found')
  have inside' : u ∈ (struct between gs').parts := mem_parts_of_field (mem_of_lookup found)
  have inside'' : f.2 ∈ (struct targets gs'').parts := mem_parts_of_field field
  have smaller := sizeOf_part inside
  have smaller' := sizeOf_part inside'
  have smaller'' := sizeOf_part inside''
  exact ⟨t, found', below t u f.2 (by omega) (ht.part inside) (hu.part inside') (hv.part inside'')
    inner inner'⟩

/-- Neither what is between nor the target is taken apart. -/
theorem trans_of_suits (size : sizeOf t + sizeOf u + sizeOf v ≤ n) (ht : t.Plain) (hu : u.Plain)
    (hv : v.Plain) (whole : u.splits = false) (whole' : v.splits = false) (h : t.Suits u)
    (h' : u.Suits v) : t.fits v = true := by
  have noClass := (all_iff.mp ht.structural).1
  have noGeneric := (all_iff.mp hu.structural).1
  have noGeneric' := (all_iff.mp hv.structural).1
  cases h with
  | unknown => cases noClass
  | accepted => cases noGeneric
  | descendant _ => cases noClass
  | implementer _ _ => cases noClass
  | equal => exact h'.fits whole'
  | widened =>
      cases h' with
      | equal => rfl
      | accepted => cases noGeneric'
      | filled empty _ => rcases empty with empty | empty <;> cases empty
  | filled empty other =>
      refine Suits.fits (.filled empty fun q here => ?_) whole'
      subst here
      cases h' with
      | sides _ _ => cases whole
      | equal => exact other _ rfl
      | widened => exact other _ rfl
      | unknown => cases noGeneric
      | filled _ other' => exact other' _ rfl
      | alike equal => cases equal
  | @sides l r _ left right =>
      simp only [union.sizeOf_spec] at size
      refine Suits.fits (.sides ?_ ?_) whole'
      · exact below l u v (by omega) ht.union.1 hu hv left (h'.fits whole')
      · exact below r u v (by omega) ht.union.2 hu hv right (h'.fits whole')
  | elements inner =>
      cases h' with
      | accepted => cases noGeneric'
      | elements inner' =>
          simp only [array.sizeOf_spec] at size
          refine Suits.fits (.elements ?_) whole'
          exact below _ _ _ (by omega) ht.array hu.array hv.array inner inner'
  | fields inner =>
      cases h' with
      | accepted => cases noGeneric'
      | fields inner' =>
          exact Suits.fits (.fields (trans_fields below size ht hu hv inner inner')) whole'
  | alike equal =>
      obtain ⟨_, _, _, rfl, _⟩ := same_function.mp equal
      cases h' with
      | accepted => cases noGeneric'
      | alike equal' => exact fits_of_same (same_trans equal equal')

end Transitivity

theorem transitiveBelow (n : Nat) : TransitiveBelow n := by
  induction n with
  | zero => exact fun _ _ _ size => absurd size (Nat.not_lt_zero _)
  | succ n below =>
      intro t u v size ht hu hv h h'
      have size := Nat.le_of_lt_succ size
      rcases splits_cases v with whole' | ⟨l, r, rfl⟩ | ⟨l, r, rfl⟩
      · have suits := suits_of_fits hu.wellFormed whole' h'
        rcases splits_cases u with whole | ⟨l, r, rfl⟩ | ⟨l, r, rfl⟩
        · exact trans_of_suits below size ht hu hv whole whole'
            (suits_of_fits ht.wellFormed whole h) suits
        · cases suits with
          | accepted => exact fits_generic t _
          | sides left right => exact trans_through_union below size ht hu hv whole' h left right
        · cases suits with
          | accepted => exact fits_generic t _
      · exact trans_to_union below size ht hu hv h h'
      · exact trans_to_intersection below size ht hu hv h h'

/--
Where there are no classes and no generics, what fits a type fits everything that this type fits.
Structures name each of their fields once, as all do that are declared (`namesOnce_ofFields`).
-/
theorem fits_trans (wt : t.WellFormed) (wu : u.WellFormed) (wv : v.WellFormed) (st : t.Structural)
    (su : u.Structural) (sv : v.Structural) (h : t.fits u = true) (h' : u.fits v = true) :
    t.fits v = true :=
  transitiveBelow _ t u v (Nat.lt_succ_self _) ⟨wt, st⟩ ⟨wu, su⟩ ⟨wv, sv⟩ h h'

theorem fits_trans_of_fields :
    let t := array (struct [("x", int), ("y", null)] [])
    let u := array (struct [("y", union string null), ("x", float)] [])
    let v := array (union null (struct [("x", union float string)] [int]))
    t.WellFormed ∧ u.WellFormed ∧ v.WellFormed ∧ t.Structural ∧ u.Structural ∧ v.Structural ∧
      t.fits u = true ∧ u.fits v = true ∧ t.fits v = true := by
  intro t u v
  have h : t.fits u = true := by decide
  have h' : u.fits v = true := by decide
  exact ⟨by decide, by decide, by decide, by decide, by decide, by decide, h, h',
    fits_trans (by decide) (by decide) (by decide) (by decide) (by decide) (by decide) h h'⟩

end Ty
end ScriptFront
