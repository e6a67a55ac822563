import ScriptFront.Proofs.RelatedGrammar

/-!
Which rules are broken where. Two rules are about a program as a whole: where its imports stand and
how many default exports it has. No statement breaks them, and no import does, whatever it is made of
and however it fails.
-/

namespace ScriptFront

namespace Parser

variable {α β : Type} {p : Parser α} {f : α → Parser β}

/-- A parser that breaks no rule about a program as a whole. -/
def Inner (p : Parser α) : Prop := ∀ s e s', p s = .error e s' → e.fault.Inner

theorem inner_of_ok (h : ∀ s, ∃ a s', p s = .ok a s') : Inner p := by
  intro s e s' run
  obtain ⟨a, s'', ok⟩ := h s
  exact nomatch ok.symm.trans run

theorem Inner.bind (hp : Inner p) (hf : ∀ a, Inner (f a)) : Inner (p >>= f) := by
  intro s e s' run
  change EStateM.bind p f s = .error e s' at run
  unfold EStateM.bind at run
  split at run
  · next a s'' _ => exact hf a s'' e s' run
  · next e' s'' failed =>
      cases run
      exact hp s e s' failed

theorem inner_pure (a : α) : Inner (pure a : Parser α) := inner_of_ok fun _ => ⟨_, _, rfl⟩

theorem inner_fail {fault : SyntaxFault} (h : fault.Inner) (place : Location) :
    Inner (fail fault place : Parser α) := by
  intro s e s' run
  cases run
  exact h

theorem inner_foresee (test : Parser Bool) : Inner (foresee test) := by
  refine inner_of_ok fun s => ?_
  unfold foresee
  split
  · exact ⟨_, _, rfl⟩
  · exact ⟨_, _, rfl⟩

theorem inner_nested (limit : Nat) (hp : Inner p) : Inner (nested limit p) := by
  intro s e s' run
  unfold nested at run
  split at run
  · cases run
    exact nofun
  · split at run
    · cases run
    · next failed =>
        cases run
        exact hp _ _ _ failed

theorem inner_iterate {step : α → Parser (ForInStep α)} (h : ∀ a, Inner (step a)) (a : α) :
    Inner (iterate step a) := by
  intro s e s' run
  induction hn : s.rest.length using Nat.strongRecOn generalizing a s with
  | ind n ih =>
      rw [iterate] at run
      split at run
      · next failed =>
          cases run
          exact h a s _ _ failed
      · cases run
      · split at run
        · next shorter => exact ih _ (hn ▸ shorter) _ _ run rfl
        · cases run

/-- Parsers that break no rule about a program as a whole make parsers that break none. -/
def innerFaults : Congruence where
  Rel _ q := Inner q
  bind := Inner.bind
  look _ := inner_of_ok fun _ => ⟨_, _, rfl⟩
  step := inner_of_ok fun _ => ⟨_, _, rfl⟩
  fail := inner_fail
  foresee _ := inner_foresee _
  iterate := inner_iterate

end Parser

namespace Grammar

open ScriptFront.Parser

/-- The parsers of a level break no rule about a program as a whole. -/
structure Inward (g : Grammar) : Prop where
  statement : Inner g.statement
  block : Inner g.block
  expression : Inner g.expression
  operand : Inner g.operand
  primary : Inner g.primary
  typeExpr : Inner g.typeExpr
  declares : Inner g.declares

variable {g : Grammar}

theorem Inward.relates (h : Inward g) : Relates innerFaults g g where
  limit := rfl
  statement := h.statement
  block := h.block
  expression := h.expression
  operand := h.operand
  primary := h.primary
  typeExpr := h.typeExpr
  declares := h.declares

theorem inward_above (h : Inward g) : Inward g.above where
  statement := inner_nested _ (rel_statementForm h.relates)
  block := inner_nested _ (rel_blockForm h.relates)
  expression := inner_nested _ (rel_conditional h.relates)
  operand := inner_nested _ (rel_operandForm h.relates)
  primary := inner_nested _ (rel_primaryForm h.relates)
  typeExpr := inner_nested _ (rel_unionType h.relates)
  declares := inner_foresee _

theorem inner_tooDeep {α : Type} (limit : Nat) : Inner (tooDeep limit : Parser α) := by
  intro s e s' run
  cases run
  exact nofun

theorem inward_ofLevels (limit n : Nat) : Inward (ofLevels limit n) := by
  induction n with
  | zero =>
      exact ⟨inner_tooDeep limit, inner_tooDeep limit, inner_tooDeep limit, inner_tooDeep limit,
        inner_tooDeep limit, inner_tooDeep limit, inner_pure false⟩
  | succ n ih => exact inward_above ih

theorem inner_importDeclaration : Inner importDeclaration := rel_importDeclaration (R := innerFaults)

end Grammar
end ScriptFront
