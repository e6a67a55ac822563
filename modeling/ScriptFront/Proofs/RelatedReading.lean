import ScriptFront.Grammar.Level

/-!
Relations between parsers that are kept by all that parsers are put together with: one parser after
another, looks ahead, steps, repetitions and faults. Of the grammar such a relation need only be shown
for the levels that nested constructs are read with. What the parsers read, and at which depth, is left
open.
-/

namespace ScriptFront

/-- Whether a rule is about a program as a whole. -/
def GrammarRule.ofProgram : GrammarRule → Bool
  | .importsFirst | .oneDefaultExport => true
  | _ => false

/-- A fault that something inside a program can have by itself. -/
def SyntaxFault.Inner (fault : SyntaxFault) : Prop :=
  ∀ rule, fault = .broken rule → rule.ofProgram = false

theorem SyntaxFault.inner_broken {rule : GrammarRule} (h : rule.ofProgram = false) :
    (SyntaxFault.broken rule).Inner := by
  rintro rule ⟨⟩
  exact h

namespace Parser

/--
A relation between parsers that is kept where parsers are put together. Those that fail are related
if something inside a program can have their fault; of other faults nothing is said.
-/
structure Congruence where
  Rel : {α : Type} → Parser α → Parser α → Prop
  /-- One parser after another. -/
  bind {α β : Type} {p q : Parser α} {f g : α → Parser β} :
    Rel p q → (∀ a, Rel (f a) (g a)) → Rel (p >>= f) (q >>= g)
  /-- A look at the cursor. -/
  look {α : Type} (f : Cursor → α) : Rel (fun s => .ok (f s) s) fun s => .ok (f s) s
  /-- The step behind the next token. -/
  step : Rel (modify Cursor.advance) (modify Cursor.advance)
  fail {α : Type} {fault : SyntaxFault} (inner : fault.Inner) (place : Location) :
    Rel (Parser.fail fault place : Parser α) (Parser.fail fault place)
  foresee {test test' : Parser Bool} :
    Rel test test' → Rel (Parser.foresee test) (Parser.foresee test')
  iterate {α : Type} {step step' : α → Parser (ForInStep α)} :
    (∀ a, Rel (step a) (step' a)) → ∀ a, Rel (Parser.iterate step a) (Parser.iterate step' a)

variable {R : Congruence} {α β : Type} {p q : Parser α}

theorem Congruence.Rel.bind {f g : α → Parser β} (h : R.Rel p q) (next : ∀ a, R.Rel (f a) (g a)) :
    R.Rel (p >>= f) (q >>= g) := R.bind h next

theorem rel_pure (a : α) : R.Rel (pure a) (pure a) := R.look fun _ => a

theorem Congruence.Rel.map (h : R.Rel p q) (f : α → β) : R.Rel (f <$> p) (f <$> q) := by
  rw [map_eq_pure_bind, map_eq_pure_bind]
  exact h.bind fun a => rel_pure (f a)

theorem rel_fail {fault : SyntaxFault} (inner : fault.Inner) (place : Location) :
    R.Rel (fail fault place : Parser α) (fail fault place) := R.fail inner place

theorem rel_broken {rule : GrammarRule} (h : rule.ofProgram = false) (place : Location) :
    R.Rel (broken rule place : Parser α) (broken rule place) :=
  rel_fail (SyntaxFault.inner_broken h) place

theorem rel_unexpected (t : Token) (expected : String) :
    R.Rel (unexpected t expected : Parser α) (unexpected t expected) := rel_fail (by exact nofun) _

/-! ### Looks ahead -/

theorem rel_get : R.Rel (get : Parser Cursor) get := R.look id

theorem rel_peek : R.Rel peek peek := R.look Cursor.peek

theorem rel_peekAt (n : Nat) : R.Rel (peekAt n) (peekAt n) := R.look (Cursor.peekAt · n)

theorem rel_here : R.Rel here here := R.look (·.peek.location)

theorem rel_atEnd : R.Rel atEnd atEnd := R.look Cursor.atEnd

theorem rel_check (k : TokenKind) : R.Rel (check k) (check k) := R.look (·.peek.kind == k)

theorem rel_foresee {test test' : Parser Bool} (h : R.Rel test test') :
    R.Rel (foresee test) (foresee test') := R.foresee h

/-! ### Tokens -/

theorem rel_advance : R.Rel advance advance :=
  rel_peek.bind fun t => R.step.bind fun _ => rel_pure t

theorem rel_advances (n : Nat) :
    R.Rel (modify (Nat.repeat Cursor.advance n) : Parser Unit)
      (modify (Nat.repeat Cursor.advance n)) := by
  induction n with
  | zero => exact rel_pure ()
  | succ n ih => exact ih.bind fun _ => R.step

theorem accept_eq (k : TokenKind) : accept k = (do
    let next ← check k
    if next then
      let _ ← advance
      return true
    else return false) := by
  funext s
  change _ = (if s.peek.kind == k then _ else _ : Parser Bool) s
  by_cases next : s.peek.kind == k
  · rw [if_pos next]
    exact if_pos next
  · rw [if_neg next]
    exact if_neg next

theorem rel_accept (k : TokenKind) : R.Rel (accept k) (accept k) := by
  rw [accept_eq]
  refine (rel_check k).bind fun next => ?_
  split
  · exact rel_advance.bind fun _ => rel_pure true
  · exact rel_pure false

theorem expect_eq (k : TokenKind) (expected : String) : expect k expected = (do
    let t ← peek
    if t.kind == k then advance else unexpected t expected) := by
  funext s
  change _ = (if s.peek.kind == k then _ else _ : Parser Token) s
  by_cases next : s.peek.kind == k
  · rw [if_pos next]
    exact if_pos next
  · rw [if_neg next]
    exact if_neg next

theorem rel_expect (k : TokenKind) (expected : String) :
    R.Rel (expect k expected) (expect k expected) := by
  rw [expect_eq]
  refine rel_peek.bind fun t => ?_
  split
  · exact rel_advance
  · exact rel_unexpected t expected

theorem rel_name (expected : String) : R.Rel (name expected) (name expected) :=
  (rel_expect _ _).bind fun _ => rel_pure _

/-! ### Repetitions -/

theorem rel_iterate {step step' : α → Parser (ForInStep α)} (h : ∀ a, R.Rel (step a) (step' a))
    (a : α) : R.Rel (iterate step a) (iterate step' a) := R.iterate h a

theorem rel_commaSeparated (h : R.Rel p q) : R.Rel (commaSeparated p) (commaSeparated q) := by
  refine h.bind fun first => (rel_iterate (fun items => ?_) []).bind fun others => rel_pure _
  refine (rel_accept _).bind fun more => ?_
  split
  · exact h.bind fun item => rel_pure _
  · exact rel_pure _

end Parser
end ScriptFront
