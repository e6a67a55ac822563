import ScriptFront.Proofs.UnionValues

/-!
Where values of an intersection fit. Targets are taken apart, and the value never is: it fits what
equals it and what everything fits, whatever its two sides would fit by themselves.
-/

namespace ScriptFront
namespace Ty

/-- The number of unions and intersections in a type that are not inside anything else. -/
def cuts : Ty → Nat
  | .union l r | .intersection l r => l.cuts + r.cuts + 1
  | _ => 0

variable {t u l r : Ty}

theorem cuts_of_same (h : t.same u = true) : t.cuts = u.cuts := by
  induction t using induct_target generalizing u with
  | whole t uncut =>
      cases t with
      | union _ _ | intersection _ _ => cases uncut
      | _ => cases u <;> first | rfl | cases h
  | ofUnion l r ihl ihr =>
      obtain ⟨l', r', rfl, left, right⟩ := same_union.mp h
      rw [cuts, cuts, ihl left, ihr right]
  | ofIntersection l r ihl ihr =>
      obtain ⟨l', r', rfl, left, right⟩ := same_intersection.mp h
      rw [cuts, cuts, ihl left, ihr right]

theorem cuts_of_settles {ts : List Ty} (h : t.Settles ts) : ∀ p ∈ ts, p.cuts ≤ t.cuts := by
  induction h with
  | whole t => simp
  | left _ ih | right _ ih =>
      intro p mem
      have := ih p mem
      simp only [cuts]
      omega
  | both _ _ ihl ihr =>
      intro p mem
      simp only [cuts]
      rcases List.mem_append.mp mem with mem | mem
      · have := ihl p mem
        omega
      · have := ihr p mem
        omega

theorem intersection_fits_of_whole (uncut : t.splits = false) :
    (intersection l r).fits t = true ↔ ∃ name, t = generic name := by
  have other : (intersection l r).same t ≠ true := by
    intro same
    obtain ⟨_, _, rfl, _⟩ := same_intersection.mp same
    cases uncut
  rw [fits, widen_of_whole uncut]
  simp [other]

/-- An intersection fits a target by equality and by generics alone. -/
theorem intersection_settles : (intersection l r).fits t = true ↔ ∃ us, t.Settles us ∧
    ∀ p ∈ us, (intersection l r).same p = true ∨ ∃ name, p = generic name := by
  rw [fits_iff_settles]
  have each : ∀ p : Ty, p.splits = false ∧ (intersection l r).fits p = true ↔
      ∃ name, p = generic name := by
    intro p
    constructor
    · rintro ⟨uncut, h⟩
      exact (intersection_fits_of_whole uncut).mp h
    · rintro ⟨name, rfl⟩
      exact ⟨rfl, fits_generic _ name⟩
  simp only [each]

/-- What everything fits are generics, and what can be settled to generics alone. -/
theorem all_fit_iff : (∀ u : Ty, u.fits t = true) ↔
    ∃ us, t.Settles us ∧ ∀ p ∈ us, ∃ name, p = generic name := by
  constructor
  · intro all
    -- The intersection of the type with itself is larger than all that the type is settled to.
    obtain ⟨us, settles, each⟩ := intersection_settles.mp (all (intersection t t))
    refine ⟨us, settles, fun p mem => (each p mem).resolve_left fun same => ?_⟩
    have small := cuts_of_settles settles p mem
    have large := cuts_of_same same
    simp only [cuts] at large
    omega
  · rintro ⟨us, settles, each⟩ u
    refine fits_iff_settles.mpr ⟨us, settles, fun p mem => .inr ?_⟩
    obtain ⟨name, rfl⟩ := each p mem
    exact ⟨rfl, fits_generic u name⟩

/-- An intersection fits nothing of fewer cuts but what everything fits. -/
theorem intersection_fits_below (below : t.cuts ≤ l.cuts + r.cuts) :
    (intersection l r).fits t = true ↔ ∀ u : Ty, u.fits t = true := by
  refine ⟨fun h => all_fit_iff.mpr ?_, fun all => all _⟩
  obtain ⟨us, settles, each⟩ := intersection_settles.mp h
  refine ⟨us, settles, fun p mem => (each p mem).resolve_left fun same => ?_⟩
  have small := cuts_of_settles settles p mem
  have large := cuts_of_same same
  simp only [cuts] at large
  omega

/--
An intersection value fits a target if and only if the target can be settled to types each of which
is that intersection or a generic. What its sides fit does not count: it fits a side, or a target
that is not taken apart, exactly if every type does.
-/
theorem intersection_fits_iff_settles (l r t : Ty) :
    ((intersection l r).fits t = true ↔ ∃ us, t.Settles us ∧
        ∀ p ∈ us, (intersection l r).same p = true ∨ ∃ name, p = generic name) ∧
      ((intersection l r).fits l = true ↔ ∀ u : Ty, u.fits l = true) ∧
      ((intersection l r).fits r = true ↔ ∀ u : Ty, u.fits r = true) ∧
      (t.splits = false → ((intersection l r).fits t = true ↔ ∀ u : Ty, u.fits t = true)) := by
  refine ⟨intersection_settles, intersection_fits_below (by omega),
    intersection_fits_below (by omega), fun uncut => intersection_fits_below ?_⟩
  cases t with
  | union _ _ | intersection _ _ => cases uncut
  | _ => exact Nat.zero_le _

/-- A value of two structures at once fits neither of them, though each fits itself. -/
theorem intersection_does_not_fit_side :
    let a := struct [("x", int)] []
    let b := struct [("y", string)] []
    a.splits = false ∧ a.fits a = true ∧ (intersection a b).fits a = false ∧
      (intersection a b).fits b = false ∧ ¬ ∀ u : Ty, u.fits a = true := by
  intro a b
  obtain ⟨_, left, right, whole⟩ := intersection_fits_iff_settles a b a
  have some_do_not : ¬ ∀ u : Ty, u.fits a = true := fun all => absurd (all int) (by decide)
  have neither : ¬ ∀ u : Ty, u.fits b = true := fun all => absurd (all int) (by decide)
  refine ⟨rfl, by decide, ?_, ?_, some_do_not⟩
  · exact Bool.eq_false_iff.mpr fun h => some_do_not ((whole rfl).mp h)
  · exact Bool.eq_false_iff.mpr fun h => neither (right.mp h)

end Ty
end ScriptFront
