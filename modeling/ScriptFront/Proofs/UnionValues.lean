import ScriptFront.Proofs.Assignability

/-!
Where values of a union fit. The target is taken apart first, so that a side of each union in it is
taken for both sides of the value at once. What fits then are values both sides of which fit by way
of the same sides of the target.
-/

namespace ScriptFront
namespace Ty

/--
Types that a value has to fit to fit a target: of each union on the way one side is taken and of
each intersection both, and any target may be left as it is.
-/
inductive Settles : Ty → List Ty → Prop
  | whole (t) : Settles t [t]
  | left {l r ts} : Settles l ts → Settles (union l r) ts
  | right {l r ts} : Settles r ts → Settles (union l r) ts
  | both {l r ts us} : Settles l ts → Settles r us → Settles (intersection l r) (ts ++ us)

variable {t u l r : Ty}

/-- Targets by what they are taken apart into. -/
theorem induct_target {motive : Ty → Prop} (whole : ∀ t, t.splits = false → motive t)
    (ofUnion : ∀ l r, motive l → motive r → motive (union l r))
    (ofIntersection : ∀ l r, motive l → motive r → motive (intersection l r)) (t : Ty) :
    motive t := by
  induction t using induct_parts with
  | step t ih =>
      rcases splits_cases t with uncut | ⟨l, r, rfl⟩ | ⟨l, r, rfl⟩
      · exact whole t uncut
      · exact ofUnion l r (ih l (by simp [parts])) (ih r (by simp [parts]))
      · exact ofIntersection l r (ih l (by simp [parts])) (ih r (by simp [parts]))

/-- A value fits a target if it equals or suits all that the target is settled to. -/
theorem fits_iff_settles : t.fits u = true ↔ ∃ us, u.Settles us ∧
    ∀ p ∈ us, t.same p = true ∨ p.splits = false ∧ t.fits p = true := by
  constructor
  · intro h
    induction u using induct_target with
    | whole u uncut => exact ⟨_, .whole u, by simpa using .inr ⟨uncut, h⟩⟩
    | ofUnion l r ihl ihr =>
        rcases fits_union.mp h with same | h | h
        · exact ⟨_, .whole _, by simpa using .inl same⟩
        · obtain ⟨us, settles, each⟩ := ihl h
          exact ⟨us, .left settles, each⟩
        · obtain ⟨us, settles, each⟩ := ihr h
          exact ⟨us, .right settles, each⟩
    | ofIntersection l r ihl ihr =>
        rcases fits_intersection.mp h with same | ⟨left, right⟩
        · exact ⟨_, .whole _, by simpa using .inl same⟩
        · obtain ⟨us, settles, each⟩ := ihl left
          obtain ⟨vs, settles', each'⟩ := ihr right
          exact ⟨us ++ vs, .both settles settles', List.forall_mem_append.mpr ⟨each, each'⟩⟩
  · rintro ⟨us, settles, each⟩
    induction settles with
    | whole p =>
        rcases each p (List.mem_singleton_self p) with same | ⟨_, h⟩
        · exact fits_of_same same
        · exact h
    | left _ ih => exact fits_union.mpr (.inr (.inl (ih each)))
    | right _ ih => exact fits_union.mpr (.inr (.inr (ih each)))
    | both _ _ ihl ihr =>
        obtain ⟨each, each'⟩ := List.forall_mem_append.mp each
        exact fits_intersection.mpr (.inr ⟨ihl each, ihr each'⟩)

/-- If a union value fits a target, so do both its sides. -/
theorem sides_fit (h : (union l r).fits t = true) : l.fits t = true ∧ r.fits t = true := by
  induction t using induct_target with
  | whole t uncut => exact (union_fits_of_whole uncut).mp h
  | ofUnion a b iha ihb =>
      rcases fits_union.mp h with same | h | h
      · obtain ⟨_, _, ⟨⟩, left, right⟩ := same_union.mp same
        exact ⟨fits_union.mpr (.inr (.inl (fits_of_same left))),
          fits_union.mpr (.inr (.inr (fits_of_same right)))⟩
      · obtain ⟨left, right⟩ := iha h
        exact ⟨fits_union.mpr (.inr (.inl left)), fits_union.mpr (.inr (.inl right))⟩
      · obtain ⟨left, right⟩ := ihb h
        exact ⟨fits_union.mpr (.inr (.inr left)), fits_union.mpr (.inr (.inr right))⟩
  | ofIntersection a b iha ihb =>
      rcases fits_intersection.mp h with same | ⟨ha, hb⟩
      · obtain ⟨_, _, ⟨⟩, _⟩ := same_union.mp same
      · exact ⟨fits_intersection.mpr (.inr ⟨(iha ha).1, (ihb hb).1⟩),
          fits_intersection.mpr (.inr ⟨(iha ha).2, (ihb hb).2⟩)⟩

/--
A union value fits a target if and only if the target can be settled to types each of which is that
union, or is not taken apart and both sides fit it. Then both sides fit the target. That both sides
fit it is enough where the target is not taken apart.
-/
theorem union_fits_iff_settles (l r t : Ty) :
    ((union l r).fits t = true ↔ ∃ us, t.Settles us ∧ ∀ p ∈ us,
        (union l r).same p = true ∨
          p.splits = false ∧ l.fits p = true ∧ r.fits p = true) ∧
      ((union l r).fits t = true → l.fits t = true ∧ r.fits t = true) ∧
      (t.splits = false → l.fits t = true → r.fits t = true → (union l r).fits t = true) := by
  refine ⟨?_, sides_fit, fun uncut left right => (union_fits_of_whole uncut).mpr ⟨left, right⟩⟩
  rw [fits_iff_settles]
  have each : ∀ p : Ty, p.splits = false ∧ (union l r).fits p = true ↔
      p.splits = false ∧ l.fits p = true ∧ r.fits p = true :=
    fun p => and_congr_right fun uncut => union_fits_of_whole uncut
  simp only [each]

/-- Both sides fit the union written the other way round, and the union does not. -/
theorem union_does_not_fit_reversed :
    let t := union int string
    (union string int).fits t = false ∧ string.fits t = true ∧ int.fits t = true ∧
      ¬ ∃ us, t.Settles us ∧ ∀ p ∈ us, (union string int).same p = true ∨
          p.splits = false ∧ string.fits p = true ∧ int.fits p = true := by
  intro t
  have refused : (union string int).fits t = false := by decide
  refine ⟨refused, by decide, by decide, fun settled => ?_⟩
  rw [(union_fits_iff_settles string int t).1.mpr settled] at refused
  cases refused

end Ty
end ScriptFront
