import ScriptFront.Proofs.ImportSections
import ScriptFront.Proofs.InnerFaults

/-!
Imports that are called misplaced: those that reading comes to behind the imports that open a program.
What ends these imports is a statement, a fault, or nothing but a stray semicolon.
-/

namespace ScriptFront

/-- The fault of an import that is not among those that open a program. -/
def misplaced (place : Location) : SyntaxError := ⟨.broken .importsFirst, place⟩

/-- What the reading of statements comes to on its way from a draft and a cursor to the end. -/
inductive Comes (g : Grammar) : Draft → Cursor → Draft → Cursor → Prop
  | here {d s} : Comes g d s d s
  | later {d s d' s'} (more : s.atEnd = false)
      (rest : Comes g (readStep g d s).1 (readStep g d s).2 d' s') : Comes g d s d' s'

variable {g : Grammar} {d d' : Draft} {s s' : Cursor}

/-- What one step adds to a draft, and in front of which token it does so. -/
inductive Adds (s : Cursor) (d : Draft) : Draft → Prop
  | stray (here : s.peek.kind = .semicolon) : Adds s d d
  | misplaced (here : s.peek.isKeyword .kwImport = true) :
      Adds s d (d.addError (misplaced s.peek.location))
  | statement {st d'} (here : s.peek.isKeyword .kwImport = false)
      (added : d.addStatement st = .ok d') : Adds s d d'
  | fault {e} (here : s.peek.isKeyword .kwImport = false)
      (other : e.fault ≠ .broken .importsFirst) : Adds s d (d.addError e)

theorem readStatement_import (here : s.peek.isKeyword .kwImport = true) (d : Draft) :
    readStatement g d s = .error (misplaced s.peek.location) s := by
  refine (Parser.bind_of_ok (p := Parser.peek) rfl).trans ?_
  rw [if_pos here]
  rfl

/-- Nothing but an import is called misplaced. -/
theorem inner_readStatement (h : g.Inward) (here : s.peek.isKeyword .kwImport = false)
    {e : SyntaxError} (run : readStatement g d s = .error e s') :
    e.fault ≠ .broken .importsFirst := by
  have run := (Parser.bind_of_ok (p := Parser.peek) rfl).symm.trans run
  rw [if_neg (by rw [here]; exact Bool.false_ne_true)] at run
  change EStateM.bind _ _ _ = _ at run
  unfold EStateM.bind at run
  split at run
  · next st s₁ _ =>
      cases added : d.addStatement st with
      | ok d' =>
          simp only [added] at run
          cases run
      | error e' =>
          simp only [added] at run
          cases run
          rw [Draft.addStatement] at added
          split at added
          · cases added
            intro same
            cases same
          · cases added
  · next e' s₁ failed =>
      cases run
      intro first
      have inner := h.statement _ _ _ failed _ first
      cases inner

theorem adds_readStep (h : g.Inward) (d : Draft) (s : Cursor) : Adds s d (readStep g d s).1 := by
  unfold readStep
  split
  · next here => exact .stray here
  · cases here : s.peek.isKeyword .kwImport with
    | true =>
        rw [readStatement_import (s := { s with depth := 0 }) here]
        exact .misplaced here
    | false =>
        cases run : readStatement g d { s with depth := 0 } with
        | ok d' s' =>
            obtain ⟨_, st, _, added⟩ := readStatement_eq_ok.mp run
            exact .statement here added
        | error e s' => exact .fault here (inner_readStatement (s := { s with depth := 0 }) h here run)

namespace Adds

theorem grows (h : Adds s d d') : d.body <+: d'.body ∧ d.errors <+: d'.errors := by
  cases h with
  | stray _ => exact ⟨List.prefix_rfl, List.prefix_rfl⟩
  | misplaced _ | fault _ _ => exact ⟨List.prefix_rfl, List.prefix_append _ _⟩
  | statement _ added =>
      rw [Draft.body_addStatement added, Draft.errors_addStatement added]
      exact ⟨List.prefix_append _ _, List.prefix_rfl⟩

theorem mem_errors (h : Adds s d d') (place : Location) : ScriptFront.misplaced place ∈ d'.errors ↔
    ScriptFront.misplaced place ∈ d.errors ∨
      s.peek.isKeyword .kwImport = true ∧ s.peek.location = place := by
  cases h with
  | stray here =>
      refine (or_iff_left ?_).symm
      rintro ⟨opens, -⟩
      simp [Token.isKeyword, here] at opens
  | misplaced here =>
      rw [Draft.addError, List.mem_append, List.mem_singleton]
      refine or_congr_right ⟨fun same => ⟨here, ?_⟩, ?_⟩
      · exact (SyntaxError.mk.inj same).2.symm
      · rintro ⟨-, rfl⟩
        rfl
  | statement here added =>
      rw [Draft.errors_addStatement added]
      refine (or_iff_left ?_).symm
      rintro ⟨opens, -⟩
      exact Bool.false_ne_true (here.symm.trans opens)
  | @fault e here other =>
      rw [Draft.addError, List.mem_append, List.mem_singleton]
      refine or_congr_right (iff_of_false ?_ ?_)
      · rintro rfl
        exact other rfl
      · rintro ⟨opens, -⟩
        exact Bool.false_ne_true (here.symm.trans opens)

end Adds

theorem peek_of_atEnd (ended : s.atEnd = true) : s.peek.isKeyword .kwImport = false := by
  rw [Cursor.atEnd, List.isEmpty_iff] at ended
  simp [Cursor.peek, Cursor.peekAt, ended, Ending.peekAt, Token.endOfFile, Token.isKeyword]

/-- The imports that are called misplaced are those that reading comes to. -/
theorem mem_errors_readBody (forward : g.GoesForward []) (h : g.Inward) (d : Draft) (s : Cursor)
    (place : Location) : misplaced place ∈ (readBody g d s).1.errors ↔ misplaced place ∈ d.errors ∨
      ∃ d' s', Comes g d s d' s' ∧ s'.peek.isKeyword .kwImport = true ∧
        s'.peek.location = place := by
  induction hn : s.rest.length using Nat.strongRecOn generalizing d s with
  | ind n ih =>
      rw [readBody_eq forward]
      split
      · next ended =>
          refine (or_iff_left ?_).symm
          rintro ⟨d', s', comes, opens, -⟩
          cases comes with
          | here => exact Bool.false_ne_true ((peek_of_atEnd ended).symm.trans opens)
          | later more _ => exact Bool.false_ne_true (more.symm.trans ended)
      · next more =>
          have more := Bool.eq_false_iff.mpr more
          have less := (grows_readStep (d := d) forward more).2
          rw [ih _ (hn ▸ less) _ _ rfl, (adds_readStep h d s).mem_errors, or_assoc]
          refine or_congr_right ⟨?_, ?_⟩
          · rintro (⟨opens, same⟩ | ⟨d', s', comes, rest⟩)
            · exact ⟨d, s, .here, opens, same⟩
            · exact ⟨d', s', .later more comes, rest⟩
          · rintro ⟨d', s', comes, opens, same⟩
            cases comes with
            | here => exact .inl ⟨opens, same⟩
            | later _ rest => exact .inr ⟨d', s', rest, opens, same⟩

namespace Comes

theorem grows (h : g.Inward) (comes : Comes g d s d' s') :
    d.body <+: d'.body ∧ d.errors <+: d'.errors := by
  induction comes with
  | here => exact ⟨List.prefix_rfl, List.prefix_rfl⟩
  | @later d s _ _ _ _ ih =>
      have first := (adds_readStep h d s).grows
      exact ⟨first.1.trans ih.1, first.2.trans ih.2⟩

/-- In front of an import that is read late there is a stray semicolon, a statement or a fault. -/
theorem import_late (h : g.Inward) (comes : Comes g d s d' s')
    (opens : s.peek.isKeyword .kwImport = false) (late : s'.peek.isKeyword .kwImport = true) :
    s.peek.kind = .semicolon ∨ d.body.length < d'.body.length ∨
      ∃ e ∈ d'.errors.drop d.errors.length, e.fault ≠ .broken .importsFirst := by
  cases comes with
  | here => exact absurd (opens.symm.trans late) Bool.false_ne_true
  | later _ rest =>
      obtain ⟨body, errors⟩ := rest.grows h
      have first := adds_readStep h d s
      generalize (readStep g d s).1 = d₁ at first body errors
      cases first with
      | stray here => exact .inl here
      | misplaced here => exact absurd (opens.symm.trans here) Bool.false_ne_true
      | statement _ added =>
          have length := body.length_le
          rw [Draft.body_addStatement added, List.length_append, List.length_singleton] at length
          exact .inr (.inl length)
      | @fault e _ other =>
          obtain ⟨more, errors⟩ := errors
          refine .inr (.inr ⟨e, ?_, other⟩)
          rw [← errors, Draft.addError, List.append_assoc, List.drop_left]
          exact List.mem_append_left _ (List.mem_singleton_self e)

end Comes

/-! ### The imports in front -/

theorem peek_readImports (d : Draft) (s : Cursor) :
    (readImports d s).2.peek.isKeyword .kwImport = false := by
  induction hn : s.rest.length using Nat.strongRecOn generalizing d s with
  | ind n ih =>
      rw [readImports_eq]
      split
      · next opens => exact ih _ (hn ▸ (grows_readImport opens).2) _ _ rfl
      · next other => exact Bool.eq_false_iff.mpr other

/-- None of the imports in front is called misplaced. -/
theorem mem_errors_readImports (d : Draft) (s : Cursor) (place : Location) :
    misplaced place ∈ (readImports d s).1.errors ↔ misplaced place ∈ d.errors := by
  induction hn : s.rest.length using Nat.strongRecOn generalizing d s with
  | ind n ih =>
      rw [readImports_eq]
      split
      · next opens =>
          rw [ih _ (hn ▸ (grows_readImport opens).2) _ _ rfl]
          cases read : readImport d { s with depth := 0 } with
          | ok d' s' =>
              obtain ⟨i, rfl⟩ := imports_readImport read
              exact Iff.rfl
          | error e s' =>
              have inner : e.fault.Inner :=
                (Grammar.inner_importDeclaration.bind fun _ => Parser.inner_pure _) _ _ _ read
              simp only [settle, Draft.addError, List.mem_append, List.mem_singleton]
              refine or_iff_left ?_
              rintro rfl
              have other := inner _ rfl
              cases other
      · exact Iff.rfl

theorem afterImports_texts {texts : List (List Token)} {rest : List Token}
    (imports : ∀ ts ∈ texts, ImportText ts ∧ Recoverable ts)
    (last : ∀ t ∈ rest.head?, t.isKeyword .kwImport = false) :
    (Draft.afterImports (texts.flatten ++ rest)).1
        = ⟨(texts.map readAlone).filterMap Except.toOption, [], none, [],
          (texts.map readAlone).filterMap fault?⟩ ∧
      (Draft.afterImports (texts.flatten ++ rest)).2.rest = rest.takeWhile (·.kind != .eof) := by
  have endless : ∀ t ∈ texts.flatten, (t.kind != .eof) = true := by
    intro t mem
    obtain ⟨ts, text, inside⟩ := List.mem_flatten.mp mem
    obtain ⟨before, closer, rfl, ends, endless, -⟩ := (imports ts text).1
    refine bne_iff_ne.mpr ((List.mem_append.mp inside).elim (endless t) fun closes => ?_)
    rw [List.mem_singleton.mp closes, ends.closes]
    exact nofun
  have tokens : Cursor.ofTokens (texts.flatten ++ rest) = ⟨texts.flatten
      ++ rest.takeWhile (·.kind != .eof), (Cursor.ofTokens (texts.flatten ++ rest)).stop, 0⟩ := by
    rw [← List.takeWhile_append_of_pos endless]
    rfl
  have last' : ∀ t ∈ (rest.takeWhile (·.kind != .eof)).head?, t.isKeyword .kwImport = false := by
    cases rest with
    | nil => exact nofun
    | cons t rest =>
        intro t' first
        rw [List.takeWhile_cons] at first
        split at first
        · cases first
          exact last _ rfl
        · exact nomatch first
  rw [Draft.afterImports, tokens, readImports_texts imports last', Draft.foldl_record]
  exact ⟨by simp [Draft.empty], rfl⟩

namespace Program

theorem parse_eq_error {limit : Nat} {tokens : List Token} {errors : List SyntaxError} :
    parse limit tokens = .error errors ↔ errors ≠ [] ∧
      (readBody (.ofLimit limit) (Draft.afterImports tokens).1
        (Draft.afterImports tokens).2).1.errors = errors := by
  change _ ↔ errors ≠ [] ∧ (Draft.read (.ofLimit limit) tokens).1.errors = errors
  simp only [parse]
  generalize (Draft.read (.ofLimit limit) tokens).1 = d
  split
  · next none_ =>
      refine iff_of_false (fun failed => by cases failed) ?_
      rintro ⟨some_, same⟩
      exact some_ (by rw [← same, List.isEmpty_iff.mp none_])
  · next some_ =>
      have some_ : d.errors ≠ [] := fun none_ => some_ (List.isEmpty_iff.mpr none_)
      constructor
      · intro failed
        cases failed
        exact ⟨some_, rfl⟩
      · rintro ⟨-, rfl⟩
        rfl

/--
An import is called misplaced exactly if the reading of statements comes to it. This happens behind
the imports in front, which end in front of a stray semicolon, or behind a statement or another fault
of the body. Imports in front are read one by one: as long as each has nothing in it that hides its
end, or is read as such, it gives what it gives alone, and if this is a fault, then no other one. If
there is nothing else, none of them is called misplaced.
-/
theorem parse_misplaced (limit : Nat) (tokens : List Token) :
    (∀ place, (∃ errors, parse limit tokens = .error errors ∧ misplaced place ∈ errors) ↔
      ∃ d s, Comes (.ofLimit limit) (Draft.afterImports tokens).1 (Draft.afterImports tokens).2 d s ∧
        s.peek.isKeyword .kwImport = true ∧ s.peek.location = place) ∧
    (∀ d s, Comes (.ofLimit limit) (Draft.afterImports tokens).1 (Draft.afterImports tokens).2 d s →
      s.peek.isKeyword .kwImport = true →
        (Draft.afterImports tokens).2.peek.kind = .semicolon ∨ d.body ≠ [] ∨
          ∃ e ∈ d.errors.drop (Draft.afterImports tokens).1.errors.length,
            e.fault ≠ .broken .importsFirst) ∧
    ∀ (texts : List (List Token)) (rest : List Token), tokens = texts.flatten ++ rest →
      (∀ ts ∈ texts, ImportText ts ∧ Recoverable ts) →
      (∀ t ∈ rest.head?, t.isKeyword .kwImport = false) →
        (Draft.afterImports tokens).1 = ⟨(texts.map readAlone).filterMap Except.toOption, [], none, [],
          (texts.map readAlone).filterMap fault?⟩ ∧
        (Draft.afterImports tokens).2.rest = rest.takeWhile (·.kind != .eof) ∧
        (rest.takeWhile (·.kind != .eof) = [] → ∀ errors, parse limit tokens = .error errors →
          errors = (texts.map readAlone).filterMap fault? ∧
            ∀ place, misplaced place ∉ errors) := by
  have inward : (Grammar.ofLimit limit).Inward := Grammar.inward_ofLevels limit (limit + 1)
  have forward : (Grammar.ofLimit limit).GoesForward [] :=
    Grammar.goesForward_ofLevels limit (limit + 1)
  have front (place : Location) : misplaced place ∉ (Draft.afterImports tokens).1.errors := by
    rw [Draft.afterImports, mem_errors_readImports]
    exact List.not_mem_nil
  refine ⟨fun place => ?_, fun d s comes late => ?_, ?_⟩
  · refine Iff.trans ?_
      ((mem_errors_readBody forward inward _ _ place).trans (or_iff_right (front place)))
    constructor
    · rintro ⟨errors, failed, mem⟩
      rwa [(parse_eq_error.mp failed).2]
    · exact fun mem => ⟨_, parse_eq_error.mpr ⟨List.ne_nil_of_mem mem, rfl⟩, mem⟩
  · rcases comes.import_late inward (peek_readImports _ _) late with stray | grown | fault
    · exact .inl stray
    · refine .inr (.inl fun empty => ?_)
      rw [empty] at grown
      exact Nat.not_lt_zero _ grown
    · exact .inr (.inr fault)
  · rintro texts rest rfl imports last
    obtain ⟨draft, behind⟩ := afterImports_texts imports last
    refine ⟨draft, behind, fun ended errors failed => ?_⟩
    have atEnd : (Draft.afterImports (texts.flatten ++ rest)).2.atEnd = true := by
      rw [Cursor.atEnd, behind, ended, List.isEmpty_nil]
    rw [← (parse_eq_error.mp failed).2, readBody_eq forward, if_pos atEnd]
    exact ⟨congrArg Draft.errors draft, front⟩

end Program
end ScriptFront
