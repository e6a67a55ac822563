import ScriptFront.Grammar.Nesting
import ScriptFront.Proofs.ForwardReading
import ScriptFront.Proofs.RelatedReading

/-!
Two parsers side by side at one nesting depth. From each cursor of the depth both do the same, and
whether they read or fail, they leave the cursor at this depth again and never further back. Of what
they do at another depth nothing is said: so a parser that takes over there is out of the picture.
What the parsers read is left open.
-/

namespace ScriptFront
namespace Parser

variable {α β : Type}

/-- Two results are the same, at a nesting depth and not further back than a cursor. -/
inductive Meets (depth : Nat) (s : Cursor) :
    EStateM.Result SyntaxError Cursor α → EStateM.Result SyntaxError Cursor α → Prop
  | read {a s'} : s'.Within s → s'.depth = depth → Meets depth s (.ok a s') (.ok a s')
  | failed {e s'} : s'.Within s → s'.depth = depth → Meets depth s (.error e s') (.error e s')

/-- Two parsers do the same from every cursor at a nesting depth, and come back to the depth. -/
def Abreast (depth : Nat) (p q : Parser α) : Prop :=
  ∀ s : Cursor, s.depth = depth → Meets depth s (p s) (q s)

variable {depth limit : Nat} {s s' : Cursor} {p q : Parser α} {f g : α → Parser β}

theorem Meets.behind {x y : EStateM.Result SyntaxError Cursor α} (h : Meets depth s' x y)
    (within : s'.Within s) : Meets depth s x y := by
  cases h with
  | read far at_depth => exact .read (far.trans within) at_depth
  | failed far at_depth => exact .failed (far.trans within) at_depth

theorem Abreast.eq (h : Abreast depth p q) (at_depth : s.depth = depth) : p s = q s := by
  have meets := h s at_depth
  generalize p s = x at meets ⊢
  generalize q s = y at meets ⊢
  cases meets with
  | read _ _ => rfl
  | failed _ _ => rfl

theorem Abreast.leaves (h : Abreast depth p q) (at_depth : s.depth = depth) :
    (q.leaves s).depth = depth ∧ (q.leaves s).Within s := by
  have meets := h s at_depth
  unfold Parser.leaves
  generalize p s = x at meets
  generalize q s = y at meets ⊢
  cases meets with
  | read within back => exact ⟨back, within⟩
  | failed within back => exact ⟨back, within⟩

/-! ### Steps -/

theorem Abreast.bind (hp : Abreast depth p q) (hf : ∀ a, Abreast depth (f a) (g a)) :
    Abreast depth (p >>= f) (q >>= g) := by
  intro s at_depth
  change Meets depth s (EStateM.bind p f s) (EStateM.bind q g s)
  unfold EStateM.bind
  have first := hp s at_depth
  generalize p s = x at first ⊢
  generalize q s = y at first ⊢
  cases first with
  | failed within back => exact .failed within back
  | @read a s' within back => exact (hf a s' back).behind within

theorem abreast_fail (fault : SyntaxFault) (place : Location) :
    Abreast depth (fail fault place : Parser α) (fail fault place) :=
  fun s at_depth => .failed (.refl s) at_depth

theorem abreast_look (f : Cursor → α) :
    Abreast depth (fun s => .ok (f s) s) fun s => .ok (f s) s :=
  fun s at_depth => .read (.refl s) at_depth

theorem abreast_step : Abreast depth (modify Cursor.advance) (modify Cursor.advance) :=
  fun s at_depth => .read s.within_advance at_depth

/-! ### Looks ahead, repetitions and levels -/

theorem leaves_foresee (test : Parser Bool) (s : Cursor) : (foresee test).leaves s = s := by
  unfold Parser.leaves foresee
  cases test s <;> rfl

theorem abreast_foresee {test test' : Parser Bool} (h : Abreast depth test test') :
    Abreast depth (foresee test) (foresee test') := by
  intro s at_depth
  unfold foresee
  rw [h.eq at_depth]
  cases test' s with
  | ok answer s' => exact .read (.refl s) at_depth
  | error e s' => exact .read (.refl s) at_depth

theorem abreast_iterate {step step' : α → Parser (ForInStep α)}
    (h : ∀ a, Abreast depth (step a) (step' a)) (a : α) :
    Abreast depth (iterate step a) (iterate step' a) := by
  intro s at_depth
  induction hn : s.rest.length using Nat.strongRecOn generalizing a s with
  | ind n ih =>
      unfold iterate
      have first := h a s at_depth
      generalize step a s = x at first ⊢
      generalize step' a s = y at first ⊢
      cases first with
      | failed within back => exact .failed within back
      | @read r s' within back =>
          cases r with
          | done b => exact .read within back
          | yield b =>
              dsimp only
              split
              · next shorter => exact (ih _ (hn ▸ shorter) b s' back rfl).behind within
              · exact .read within back

/-- Parsers that do the same at a depth make parsers that do. -/
def abreastAt (depth : Nat) : Congruence where
  Rel := Abreast depth
  bind := Abreast.bind
  look := abreast_look
  step := abreast_step
  fail _ := abreast_fail _
  foresee := abreast_foresee
  iterate := abreast_iterate

/-- What is inside a construct is read one level deeper, and only if the limit allows it. -/
theorem abreast_nested (h : depth < limit → Abreast (depth + 1) p q) :
    Abreast depth (nested limit p) (nested limit q) := by
  intro s at_depth
  unfold nested
  split
  · exact .failed (.refl s) at_depth
  · next allowed =>
      have inside := h (by omega) { s with depth := s.depth + 1 } (by simp only [at_depth])
      generalize p { s with depth := s.depth + 1 } = x at inside ⊢
      generalize q { s with depth := s.depth + 1 } = y at inside ⊢
      cases inside with
      | read within back => exact .read ⟨within.suffix, within.stop⟩ (by simp only [back]; omega)
      | failed within back => exact .failed ⟨within.suffix, within.stop⟩ (by simp only [back]; omega)

/-- No other parser takes over where the depth is the given one. -/
theorem abreast_onlyAt (other : Parser α) (allowed : depth ≤ limit) (h : Abreast depth p q) :
    Abreast depth (onlyAt limit depth other p) q := by
  intro s at_depth
  unfold onlyAt
  rw [if_pos ⟨at_depth, allowed⟩]
  exact h s at_depth

theorem abreast_entered (other : Parser α) (allowed : depth ≤ limit)
    (h : depth < limit → Abreast (depth + 1) p q) :
    Abreast depth (entered limit depth other p) (nested limit q) :=
  abreast_onlyAt other allowed (abreast_nested fun below => abreast_onlyAt other below (h below))

end Parser
end ScriptFront
