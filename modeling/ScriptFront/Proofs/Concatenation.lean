import Mathlib.Data.List.TakeWhile
import ScriptFront.Proofs.LocalStatements
import ScriptFront.Proofs.NestingLimit

/-!
Programs behind one another. A program that is read without fault is read statement by statement,
and what comes after it is then read as on its own, but for the place that its statements have among
all. Two default exports are the only fault that can be new.
-/

namespace ScriptFront

open ScriptFront.Parser

/-- Statements that are read one after the other to the end of a program, without a fault. -/
inductive Reads (g : Grammar) : Draft → Cursor → Draft → Cursor → Prop
  | done {d s} (ended : s.rest = []) : Reads g d s d s
  | stray {d s d' s'} (here : s.peek.kind = .semicolon) (rest : Reads g d s.advance d' s') :
      Reads g d s d' s'
  | statement {d s d₁ s₁ d' s'} (more : s.rest ≠ []) (here : s.peek.kind ≠ .semicolon)
      (first : readStatement g d { s with depth := 0 } = .ok d₁ s₁)
      (shorter : s₁.rest.length < s.rest.length) (rest : Reads g d₁ s₁ d' s') :
      Reads g d s d' s'

namespace Reads

variable {g : Grammar} {d d' : Draft} {s s' : Cursor} {m : Sequel}

theorem ended (h : Reads g d s d' s') : s'.rest = [] := by
  induction h with
  | done ended => exact ended
  | stray _ _ ih => exact ih
  | statement _ _ _ _ _ ih => exact ih

theorem readBody_eq (h : Reads g d s d' s') : readBody g d s = (d', s') := by
  induction h with
  | done ended =>
      rw [readBody, if_pos]
      simp [Cursor.atEnd, ended]
  | @stray d s d' s' here _ ih =>
      have rest := Cursor.rest_of_peek (s := s) (by simp [here])
      rw [readBody, if_neg (by simp [Cursor.atEnd, rest])]
      simp only [readStep, here, if_true]
      rw [if_pos, ih]
      rw [rest]
      exact Nat.lt_succ_self _
  | statement more here first shorter _ ih =>
      rw [readBody, if_neg (by simp [Cursor.atEnd, more])]
      simp only [readStep, here, if_false, first, settle, shorter, if_true, ih]

/-- How deeply the last construct was nested does not matter. -/
theorem at_depth (h : Reads g d s d' s') (depth : Nat) :
    ∃ s'', Reads g d { s with depth := depth } d' s'' := by
  induction h with
  | done ended => exact ⟨_, .done ended⟩
  | stray here _ ih =>
      obtain ⟨s'', rest⟩ := ih
      exact ⟨s'', .stray here rest⟩
  | statement more here first shorter rest _ => exact ⟨_, .statement more here first shorter rest⟩

end Reads

section Statements

variable {g : Grammar} {m : Sequel} (h : Grammar.Composes m g)

include h

theorem whole_readStatement (d : Draft) : Whole m (readStatement g d) := by
  refine local_peek.bind_whole fun t => ?_
  extract_lets next
  have tail : ∀ r, Whole m (next r) := by
    refine fun r => h.statement.bind fun s => ?_
    split
    · exact tail_pure _
    · exact fun _ _ _ run => nomatch run
  split
  · exact (local_broken _ _).bind_whole tail
  · exact tail ()

/-- A parse that reports no fault met none. -/
theorem reads_of_readBody {d d' : Draft} {s s' : Cursor} (run : readBody g d s = (d', s'))
    (clean : d'.errors = []) : Reads g d s d' s' := by
  induction hn : s.rest.length using Nat.strongRecOn generalizing d s with
  | ind n ih =>
      by_cases ended : s.rest = []
      · rw [readBody, if_pos (by simp [Cursor.atEnd, ended])] at run
        cases run
        exact .done ended
      · have open_ : s.atEnd ≠ true := by simp [Cursor.atEnd, ended]
        have later := (readStep_extends g d open_).errors
        rw [run, clean, List.prefix_nil] at later
        rw [readBody, if_neg open_] at run
        by_cases here : s.peek.kind = .semicolon
        · have rest := Cursor.rest_of_peek (s := s) (by simp [here])
          have shorter : s.advance.rest.length < s.rest.length := by
            rw [rest]
            exact Nat.lt_succ_self _
          simp only [readStep, here, if_true, shorter] at run
          exact .stray here (ih _ (hn ▸ shorter) run rfl)
        · cases read : readStatement g d { s with depth := 0 } with
          | error e s₁ => simp [readStep, here, read, settle, Draft.addError] at later
          | ok d₁ s₁ =>
              obtain ⟨init, t, rest, _⟩ := (whole_readStatement h d _ _ _ read).1
              have shorter : s₁.rest.length < s.rest.length := by
                change s.rest = _ at rest
                simp only [rest, List.length_append, List.length_cons]
                omega
              simp only [readStep, here, if_false, read, settle, shorter, if_true] at run
              exact .statement ended here read shorter (ih _ (hn ▸ shorter) run rfl)

/-- What is read at the end of a program is read alike in front of another one. -/
theorem Reads.before {d d' d'' : Draft} {s s' s'' : Cursor} (first : Reads g d s d' s')
    (second : Reads g d' (s'.before m) d'' s'') :
    Settled s.rest ∧ Reads g d (s.before m) d'' s'' := by
  induction first with
  | done ended => exact ⟨.inl ended, second⟩
  | @stray d s d' s' here _ ih =>
      obtain ⟨settled, later⟩ := ih second
      have rest := Cursor.rest_of_peek (s := s) (by simp [here])
      have more : s.rest ≠ [] := by simp [rest]
      have closes : s.Closes s.advance := ⟨[], s.peek, rest, by rw [here]; rfl⟩
      refine ⟨.inr (closes.enclosed settled), .stray ?_ ?_⟩
      · rwa [Cursor.peek_before more]
      · rwa [Cursor.advance_before more]
  | @statement d s d₁ s₁ d' s' more here read shorter _ ih =>
      obtain ⟨settled, later⟩ := ih second
      have whole := whole_readStatement h d _ _ _ read
      refine ⟨.inr (whole.1.enclosed settled), .statement ?_ ?_ (whole.2 settled) ?_ later⟩
      · simp [Cursor.before, more]
      · rwa [Cursor.peek_before more]
      · simpa [Cursor.before] using shorter

end Statements

namespace Draft

/-- A draft with the statements of another one behind its own. -/
def append (d e : Draft) : Draft where
  imports := d.imports ++ e.imports
  body := d.body ++ e.body
  defaultExport := d.defaultExport.or (e.defaultExport.map (· + d.body.length))
  exports := d.exports ++ e.exports.map (· + d.body.length)
  errors := d.errors ++ e.errors

theorem append_empty (d : Draft) : d.append .empty = d := by
  simp [append, empty]

theorem isSome_defaultExport {d d' : Draft} {s : Statement} (h : d.addStatement s = .ok d')
    (some_ : d.defaultExport.isSome) : d'.defaultExport.isSome := by
  simp only [addStatement] at h
  split at h
  · cases h
  · cases h
    dsimp only
    split
    · rfl
    · exact some_

theorem imports_addStatement {d d' : Draft} {s : Statement} (h : d.addStatement s = .ok d') :
    d'.imports = d.imports := by
  simp only [addStatement] at h
  split at h
  · cases h
  · cases h
    rfl

theorem addStatement_append {d e e' : Draft} {s : Statement} (h : e.addStatement s = .ok e')
    (one : d.defaultExport = none ∨ e'.defaultExport = none) :
    (d.append e).addStatement s = .ok (d.append e') := by
  simp only [addStatement] at h
  split at h
  · cases h
  · next fresh =>
      cases h
      have index : (d.append e).body.length = e.body.length + d.body.length := by
        simp [append, Nat.add_comm]
      have exports : (if s.modifiers.has .public_
          then (d.append e).exports ++ [e.body.length + d.body.length] else (d.append e).exports)
          = d.exports ++ (if s.modifiers.has .public_ then e.exports ++ [e.body.length]
              else e.exports).map (· + d.body.length) := by
        split <;> simp [append]
      cases isDefault : s.modifiers.has .default_ with
      | true =>
          have none_ : d.defaultExport = none := by simpa [isDefault] using one
          have fresh' : e.defaultExport = none := by simpa [isDefault] using fresh
          simp only [addStatement, index, exports, isDefault]
          simp [append, none_, fresh']
      | false =>
          simp only [addStatement, index, exports, isDefault]
          simp [append]

end Draft

/-! ### Statements behind a draft -/

theorem readStatement_eq_ok {g : Grammar} {d d' : Draft} {s s' : Cursor} :
    readStatement g d s = .ok d' s' ↔ s.peek.isKeyword .kwImport = false ∧
      ∃ statement, g.statement s = .ok statement s' ∧ d.addStatement statement = .ok d' := by
  constructor
  · intro run
    obtain ⟨t, s₁, looked, run⟩ := bind_eq_ok.mp run
    cases looked
    cases opens : s.peek.isKeyword .kwImport with
    | true =>
        simp only [opens, if_true] at run
        obtain ⟨_, _, fails, _⟩ := bind_eq_ok.mp run
        cases fails
    | false =>
        simp only [opens, Bool.false_eq_true, if_false] at run
        obtain ⟨statement, s₂, read, run⟩ := bind_eq_ok.mp run
        cases added : d.addStatement statement with
        | ok d₁ =>
            simp only [added] at run
            cases run
            exact ⟨rfl, statement, read, added⟩
        | error e =>
            simp only [added] at run
            cases run
  · rintro ⟨opens, statement, read, added⟩
    refine bind_eq_ok.mpr ⟨s.peek, s, rfl, ?_⟩
    simp only [opens, Bool.false_eq_true, if_false]
    refine bind_eq_ok.mpr ⟨statement, s', read, ?_⟩
    simp only [added]
    rfl

namespace Reads

variable {g : Grammar} {d d' e e' : Draft} {s s' : Cursor}

theorem isSome_defaultExport (h : Reads g d s d' s') (some_ : d.defaultExport.isSome) :
    d'.defaultExport.isSome := by
  induction h with
  | done _ => exact some_
  | stray _ _ ih => exact ih some_
  | statement _ _ first _ _ ih =>
      obtain ⟨_, _, _, added⟩ := readStatement_eq_ok.mp first
      exact ih (Draft.isSome_defaultExport added some_)

theorem keeps (h : Reads g d s d' s') : d'.imports = d.imports ∧ d'.errors = d.errors := by
  induction h with
  | done _ => exact ⟨rfl, rfl⟩
  | stray _ _ ih => exact ih
  | statement _ _ first _ _ ih =>
      obtain ⟨_, _, _, added⟩ := readStatement_eq_ok.mp first
      exact ⟨ih.1.trans (Draft.imports_addStatement added),
        ih.2.trans (Draft.errors_addStatement added)⟩

/-- Statements are read alike behind other ones, unless they bring a second default export. -/
theorem append (h : Reads g e s e' s') (one : d.defaultExport = none ∨ e'.defaultExport = none) :
    Reads g (d.append e) s (d.append e') s' := by
  induction h with
  | done ended => exact .done ended
  | stray here _ ih => exact .stray here (ih one)
  | @statement e s e₁ s₁ e' s' more here first shorter rest ih =>
      obtain ⟨opens, statement, read, added⟩ := readStatement_eq_ok.mp first
      have one' : d.defaultExport = none ∨ e₁.defaultExport = none := by
        refine one.imp_right fun none_ => ?_
        cases kept : e₁.defaultExport with
        | none => rfl
        | some index => simpa [none_] using rest.isSome_defaultExport (by simp [kept])
      have again : readStatement g (d.append e) { s with depth := 0 } = .ok (d.append e₁) s₁ :=
        readStatement_eq_ok.mpr ⟨opens, statement, read, Draft.addStatement_append added one'⟩
      exact .statement more here again shorter (ih one)

end Reads

/-! ### Imports -/

section Imports

variable {d d' : Draft} {s s' : Cursor} {m : Sequel}

theorem imports_readImport (read : readImport d s = .ok d' s') :
    ∃ i, d' = { d with imports := d.imports ++ [i] } := by
  obtain ⟨i, s₁, _, rest⟩ := bind_eq_ok.mp read
  cases rest
  exact ⟨i, rfl⟩

theorem whole_readImport (d : Draft) : Whole m (readImport d) :=
  Grammar.whole_importDeclaration.bind fun _ => tail_pure _

theorem readImports_step {d₁ : Draft} {s₁ : Cursor} (opens : s.peek.isKeyword .kwImport = true)
    (read : readImport d { s with depth := 0 } = .ok d₁ s₁)
    (shorter : s₁.rest.length < s.rest.length) : readImports d s = readImports d₁ s₁ := by
  rw [readImports, if_pos opens]
  simp only [read, settle, shorter, if_true]

/-- Imports leave the body as it is, and take no fault back. -/
theorem readImports_grows (d : Draft) (s : Cursor) :
    (readImports d s).1.body = d.body ∧ d.errors <+: (readImports d s).1.errors := by
  induction hn : s.rest.length using Nat.strongRecOn generalizing d s with
  | ind n ih =>
      have step : (settle d s (readImport d { s with depth := 0 })).1.body = d.body ∧
          d.errors <+: (settle d s (readImport d { s with depth := 0 })).1.errors := by
        cases read : readImport d { s with depth := 0 } with
        | error e s₁ => exact ⟨rfl, List.prefix_append _ _⟩
        | ok d₁ s₁ =>
            obtain ⟨_, rfl⟩ := imports_readImport read
            exact ⟨rfl, List.prefix_rfl⟩
      rw [readImports]
      split
      · dsimp only
        split
        · next shorter =>
            obtain ⟨body, errors⟩ := ih _ (hn ▸ shorter)
              (settle d s (readImport d { s with depth := 0 })).1 _ rfl
            exact ⟨body.trans step.1, step.2.trans errors⟩
        · exact step
      · exact ⟨rfl, List.prefix_rfl⟩

/-- An import that opens a program without fault is read, and then the others are. -/
theorem readImports_of_import (opens : s.peek.isKeyword .kwImport = true)
    (run : readImports d s = (d', s')) (clean : d'.errors = []) :
    ∃ d₁ s₁, readImport d { s with depth := 0 } = .ok d₁ s₁ ∧
      s₁.rest.length < s.rest.length ∧ readImports d₁ s₁ = (d', s') := by
  cases read : readImport d { s with depth := 0 } with
  | error e s₁ =>
      have kept : (d.addError e).errors <+: d'.errors := by
        rw [readImports, if_pos opens] at run
        simp only [read, settle] at run
        split at run
        · have later := readImports_grows (d.addError e) { s₁ with rest := resume s.rest s₁.rest }
          rw [run] at later
          exact later.2
        · cases run
          exact List.prefix_rfl
      simp [clean, Draft.addError] at kept
  | ok d₁ s₁ =>
      obtain ⟨init, t, rest, _⟩ := (whole_readImport (m := ⟨[], s.stop⟩) _ _ _ _ read).1
      have shorter : s₁.rest.length < s.rest.length := by
        change s.rest = _ at rest
        simp only [rest, List.length_append, List.length_cons]
        omega
      exact ⟨d₁, s₁, rfl, shorter, (readImports_step opens read shorter).symm.trans run⟩

theorem imports_readImports (run : readImports d s = (d', s')) (clean : d'.errors = []) :
    d.imports <+: d'.imports ∧ (s.peek.isKeyword .kwImport = true → d'.imports ≠ []) := by
  induction hn : s.rest.length using Nat.strongRecOn generalizing d s with
  | ind n ih =>
      cases opens : s.peek.isKeyword .kwImport with
      | false =>
          rw [readImports, if_neg (by simp [opens])] at run
          cases run
          exact ⟨List.prefix_rfl, nofun⟩
      | true =>
          obtain ⟨d₁, s₁, read, shorter, rest⟩ := readImports_of_import opens run clean
          obtain ⟨i, rfl⟩ := imports_readImport read
          have later := (ih _ (hn ▸ shorter) rest rfl).1
          refine ⟨(List.prefix_append _ _).trans later, fun _ none_ => ?_⟩
          simp [none_] at later

/-- Imports are read alike in front of a program that starts with none. -/
theorem readImports_before (run : readImports d s = (d', s')) (clean : d'.errors = [])
    (settled : Settled s'.rest) (statements : m.start.peek.isKeyword .kwImport = false) :
    Settled s.rest ∧ readImports d (s.before m) = (d', s'.before m) := by
  induction hn : s.rest.length using Nat.strongRecOn generalizing d s with
  | ind n ih =>
      cases opens : s.peek.isKeyword .kwImport with
      | false =>
          have opens' : (s.before m).peek.isKeyword .kwImport = false := by
            by_cases ended : s.rest = []
            · rwa [Cursor.peek_before_nil ended]
            · rwa [Cursor.peek_before ended]
          rw [readImports, if_neg (by simp [opens])] at run
          cases run
          refine ⟨settled, ?_⟩
          rw [readImports, if_neg (by simp [opens'])]
      | true =>
          obtain ⟨d₁, s₁, read, shorter, rest⟩ := readImports_of_import opens run clean
          obtain ⟨settled₁, later⟩ := ih _ (hn ▸ shorter) rest rfl
          have whole := whole_readImport (m := m) _ _ _ _ read
          have enclosed := whole.1.enclosed settled₁
          refine ⟨.inr enclosed, ?_⟩
          rw [readImports_step ?_ (whole.2 settled₁) ?_, later]
          · rwa [Cursor.peek_before (s := s) enclosed.ne_nil]
          · simpa [Cursor.before] using shorter

end Imports

/-! ### Programs -/

/-- An end of file is put behind the last tokens. -/
theorem Cursor.closed_append (first : List Token) {second : List Token} (more : second ≠ []) :
    closed (first ++ second) = first ++ closed second := by
  have last : (first ++ second).getLast? = second.getLast? := by
    rw [List.getLast?_append, List.getLast?_eq_some_getLast more, Option.some_or]
  simp only [closed, last]
  split
  · rfl
  · rw [List.append_assoc]

theorem Cursor.ofTokens_append {first second : List Token}
    (endless : ∀ t ∈ first, t.kind ≠ .eof) (more : second ≠ []) :
    ofTokens (first ++ second)
      = (ofTokens first).before ⟨(ofTokens second).rest, (ofTokens second).stop⟩ := by
  have all : ∀ t ∈ first, (t.kind != .eof) = true := fun t mem => bne_iff_ne.mpr (endless t mem)
  have none_ : first.find? (fun t => t.kind == .eof) = none :=
    List.find?_eq_none.mpr fun t mem => by simp [endless t mem]
  have last : (first ++ second).getLast? = second.getLast? := by
    rw [List.getLast?_append, List.getLast?_eq_some_getLast more, Option.some_or]
  simp only [ofTokens, before, List.takeWhile_append_of_pos all, List.find?_append, none_,
    Option.none_or, last, List.takeWhile_eq_self_iff.mpr all, closed_append first more,
    List.dropWhile_append_of_pos all]

namespace Grammar

theorem statementForm_of_keyword {g : Grammar} {s : Cursor} {k : Keyword}
    (here : s.peek.kind = .keyword k) : statementForm g s = keywordStatement g s.peek k s := by
  simp only [statementForm, bind, EStateM.bind, Parser.peek, here]

/-- A statement does not start in the middle of a choice. -/
theorem statement_fails {limit : Nat} {s : Cursor} {k : Keyword}
    (inside : k = .kwElif ∨ k = .kwElse) (here : s.peek.kind = .keyword k) (st : Statement)
    (s' : Cursor) : (ofLimit limit).statement s ≠ .ok st s' := by
  have form : ∀ g, statementForm g { s with depth := s.depth + 1 }
      = unexpected s.peek "a statement" { s with depth := s.depth + 1 } := by
    intro g
    refine (statementForm_of_keyword (s := { s with depth := s.depth + 1 }) here).trans ?_
    cases inside with
    | inl isElif => rw [isElif]; rfl
    | inr isElse => rw [isElse]; rfl
  change nested (ofLevels limit limit).limit (statementForm (ofLevels limit limit)) s ≠ .ok st s'
  simp only [nested, form, unexpected, fail]
  split <;> rintro ⟨⟩

end Grammar

namespace Program

variable {limit : Nat}

theorem parse_eq_ok {tokens : List Token} {p : Program} :
    parse limit tokens = .ok p ↔ p.location = .start ∧
      ∃ s, Reads (.ofLimit limit) (Draft.afterImports tokens).1 (Draft.afterImports tokens).2
        ⟨p.imports, p.body, p.defaultExport, p.exports, []⟩ s := by
  have composes := Grammar.composes_ofLevels (m := ⟨[], ⟨.start, []⟩⟩) ⟨nofun, nofun⟩ limit (limit + 1)
  constructor
  · intro h
    simp only [parse] at h
    split at h
    · next clean =>
        cases h
        have clean := List.isEmpty_iff.mp clean
        have reads := reads_of_readBody composes rfl clean
        rw [← clean]
        exact ⟨rfl, _, reads⟩
    · cases h
  · intro h
    obtain ⟨start, s, reads⟩ := h
    have run : (Draft.read (.ofLimit limit) tokens).1
        = ⟨p.imports, p.body, p.defaultExport, p.exports, []⟩ :=
      congrArg Prod.fst reads.readBody_eq
    simp only [parse, run, List.isEmpty_nil, if_true, ← start]

/-- A program without imports does not start with one, nor in the middle of a choice. -/
theorem reads_of_parse {tokens : List Token} {p : Program} (h : parse limit tokens = .ok p)
    (imports : p.imports = []) :
    (Cursor.ofTokens tokens).peek.isKeyword .kwImport = false ∧
      ∃ s, Reads (.ofLimit limit) .empty (.ofTokens tokens)
        ⟨[], p.body, p.defaultExport, p.exports, []⟩ s := by
  obtain ⟨_, s, reads⟩ := parse_eq_ok.mp h
  rw [imports] at reads
  have opening := imports_readImports (d := .empty) (s := .ofTokens tokens) rfl reads.keeps.2.symm
  cases opens : (Cursor.ofTokens tokens).peek.isKeyword .kwImport with
  | true => exact absurd reads.keeps.1.symm (opening.2 opens)
  | false =>
      have none_ : Draft.afterImports tokens = (.empty, .ofTokens tokens) := by
        rw [Draft.afterImports, readImports, if_neg (by simp [opens])]
      rw [none_] at reads
      exact ⟨rfl, s, reads⟩

/-- What is read as a program does not continue a choice. -/
theorem fresh_of_reads {d d' : Draft} {s s' : Cursor} (h : Reads (.ofLimit limit) d s d' s')
    {k : Keyword} (inside : k = .kwElif ∨ k = .kwElse) : s.peek.kind ≠ .keyword k := by
  intro here
  cases h with
  | done ended => simp [Cursor.peek, Cursor.peekAt, Ending.peekAt, ended, Token.endOfFile] at here
  | stray semicolon _ => simp [here] at semicolon
  | statement _ _ first _ _ =>
      obtain ⟨_, st, read, _⟩ := readStatement_eq_ok.mp first
      exact Grammar.statement_fails (s := { s with depth := 0 }) inside here st _ read

/--
Two programs behind one another, of which the second has no imports and at most one has a default
export, are one program, with the statements of both and with their exports.
-/
theorem parse_append {first second : List Token} {p q : Program}
    (endless : ∀ t ∈ first ++ second, t.kind ≠ .eof) (hp : parse limit first = .ok p)
    (hq : parse limit second = .ok q) (imports : q.imports = [])
    (one : p.defaultExport = none ∨ q.defaultExport = none) :
    parse limit (first ++ second) = .ok
      { imports := p.imports
        body := p.body ++ q.body
        defaultExport := p.defaultExport.or (q.defaultExport.map (· + p.body.length))
        exports := p.exports ++ q.exports.map (· + p.body.length)
        location := .start } := by
  obtain ⟨start, s₁, left⟩ := parse_eq_ok.mp hp
  obtain ⟨statements, s₂, right⟩ := reads_of_parse hq imports
  by_cases none_ : second = []
  · subst none_
    have alone : Reads (.ofLimit limit) .empty (.ofTokens []) .empty (.ofTokens []) := .done rfl
    have nothing := congrArg Prod.fst (right.readBody_eq.symm.trans alone.readBody_eq)
    simp only [Draft.empty, Draft.mk.injEq] at nothing
    obtain ⟨-, body, defaultExport, exports, -⟩ := nothing
    rw [body, defaultExport, exports, ← start]
    simpa using hp
  · let m : Sequel := ⟨(Cursor.ofTokens second).rest, (Cursor.ofTokens second).stop⟩
    have fresh : m.Fresh := ⟨fresh_of_reads right (.inl rfl), fresh_of_reads right (.inr rfl)⟩
    have composes : Grammar.Composes m (.ofLimit limit) :=
      Grammar.composes_ofLevels fresh limit (limit + 1)
    have ends : s₁.before m = { Cursor.ofTokens second with depth := s₁.depth } := by
      simp [Cursor.before, m, left.ended]
    obtain ⟨s₃, behind⟩ := (right.append (d := ⟨p.imports, p.body, p.defaultExport, p.exports, []⟩)
      one).at_depth s₁.depth
    rw [Draft.append_empty, ← ends] at behind
    obtain ⟨settled, whole⟩ := left.before composes behind
    obtain ⟨-, opening⟩ := readImports_before (m := m) (d := .empty) (s := .ofTokens first) rfl
      left.keeps.2.symm settled statements
    rw [← Cursor.ofTokens_append (fun t mem => endless t (List.mem_append_left _ mem)) none_]
      at opening
    refine parse_eq_ok.mpr ⟨rfl, s₃, ?_⟩
    have both : Draft.afterImports (first ++ second)
        = ((Draft.afterImports first).1, (Draft.afterImports first).2.before m) := opening
    rw [both]
    simpa [Draft.append] using whole

theorem parse_append_default_second :
    let first :=
      (Scan.ofText "import d from \"b\"; public int x = d; if (x) \x7b x = 2; \x7d").tokens.dropLast
    let second :=
      (Scan.ofText "x = 3; default func f(): void \x7b \x7d public class C \x7b \x7d").tokens.dropLast
    ∃ p q, (∀ t ∈ first ++ second, t.kind ≠ .eof) ∧ parse nestingLimit first = .ok p ∧
      parse nestingLimit second = .ok q ∧ q.imports = [] ∧ p.defaultExport = none ∧
      q.defaultExport = some 1 ∧ q.exports = [2] ∧ p.body.length = 2 ∧
      parse nestingLimit (first ++ second) =
        .ok ⟨p.imports, p.body ++ q.body, some 3, p.exports ++ [4], .start⟩ := by
  intro first second
  have endless : ∀ t ∈ first ++ second, t.kind ≠ .eof := by decide +kernel
  have left : (parse nestingLimit first).toOption.map
      (fun p => (p.defaultExport, p.body.length)) = some (none, 2) := by
    decide +kernel
  have right : (parse nestingLimit second).toOption.map
      (fun q => (q.imports, q.defaultExport, q.exports)) = some ([], some 1, [2]) := by
    decide +kernel
  cases hp : parse nestingLimit first with
  | error e => simp [hp, Except.toOption] at left
  | ok p =>
      cases hq : parse nestingLimit second with
      | error e => simp [hq, Except.toOption] at right
      | ok q =>
          simp only [hp, hq, Except.toOption, Option.map_some, Option.some.injEq, Prod.mk.injEq]
            at left right
          refine ⟨p, q, endless, rfl, rfl, right.1, left.1, right.2.1, right.2.2, left.2, ?_⟩
          have both := parse_append endless hp hq right.1 (.inl left.1)
          simpa [left, right] using both

end Program

end ScriptFront
