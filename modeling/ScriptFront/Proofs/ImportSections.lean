import ScriptFront.Proofs.EndOfFile

/-!
The imports that open a program, one by one. An import is read up to its semicolon at most, whatever
stands behind it, and fails in front of the semicolon if it fails at all. If no brace stands between
and no word at which statements resume, reading then goes on right behind the semicolon, so that
such an import leaves one fault of its own and nothing else.
-/

namespace ScriptFront

/-- The outcome of a parser that ends at a cursor. -/
def endAt {α : Type} (r : Except SyntaxError α) (s : Cursor) : EStateM.Result SyntaxError Cursor α :=
  match r with
  | .ok a => .ok a s
  | .error e => .error e s

/-- Tokens without a semicolon, and a semicolon. -/
structure Terminated (before : List Token) (closer : Token) : Prop where
  inside : ∀ t ∈ before, t.kind ≠ .semicolon
  closes : closer.kind = .semicolon

namespace Terminated

variable {before left : List Token} {closer : Token}

theorem suffix (h : Terminated before closer) (later : left <:+ before) : Terminated left closer :=
  ⟨fun t mem => h.inside t (later.subset mem), h.closes⟩

theorem tail {t : Token} (h : Terminated (t :: before) closer) : Terminated before closer :=
  h.suffix (List.suffix_cons t before)

end Terminated

namespace Parser

variable {α β : Type} {p : Parser α} {f : α → Parser β} {k : TokenKind}

/-- In front of a semicolon a parser ends alike whatever is behind the semicolon, and stays in front. -/
def Kept (p : Parser α) : Prop :=
  ∀ before closer, Terminated before closer → ∃ r left, left <:+ before ∧ ∀ rest stop depth,
    p ⟨before ++ closer :: rest, stop, depth⟩ = endAt r ⟨left ++ closer :: rest, stop, depth⟩

/-- A parser that ends right behind a semicolon, or fails in front of it. -/
def Closes (p : Parser α) : Prop :=
  ∀ before closer, Terminated before closer →
    (∃ a, ∀ rest stop depth,
      p ⟨before ++ closer :: rest, stop, depth⟩ = .ok a ⟨rest, stop, depth⟩) ∨
    ∃ e left, left <:+ before ∧ ∀ rest stop depth,
      p ⟨before ++ closer :: rest, stop, depth⟩ = .error e ⟨left ++ closer :: rest, stop, depth⟩

theorem kept_pure (a : α) : Kept (pure a : Parser α) := fun before _ _ =>
  ⟨.ok a, before, List.suffix_rfl, fun _ _ _ => rfl⟩

theorem Kept.bind (hp : Kept p) (hf : ∀ a, Kept (f a)) : Kept (p >>= f) := by
  intro before closer ends
  obtain ⟨r, left, later, run⟩ := hp before closer ends
  cases r with
  | error e =>
      refine ⟨.error e, left, later, fun rest stop depth => ?_⟩
      change EStateM.bind p f _ = _
      rw [EStateM.bind, run]
      rfl
  | ok a =>
      obtain ⟨r, left', later', run'⟩ := hf a left closer (ends.suffix later)
      refine ⟨r, left', later'.trans later, fun rest stop depth => ?_⟩
      change EStateM.bind p f _ = _
      rw [EStateM.bind, run]
      exact run' rest stop depth

theorem Kept.closes (hp : Kept p) (hf : ∀ a, Closes (f a)) : Closes (p >>= f) := by
  intro before closer ends
  obtain ⟨r, left, later, run⟩ := hp before closer ends
  cases r with
  | error e =>
      refine .inr ⟨e, left, later, fun rest stop depth => ?_⟩
      change EStateM.bind p f _ = _
      rw [EStateM.bind, run]
      rfl
  | ok a =>
      have same (rest : List Token) (stop : Ending) (depth : Nat) :
          (p >>= f) ⟨before ++ closer :: rest, stop, depth⟩
            = f a ⟨left ++ closer :: rest, stop, depth⟩ := by
        change EStateM.bind p f _ = _
        rw [EStateM.bind, run]
        rfl
      rcases hf a left closer (ends.suffix later) with ⟨b, run'⟩ | ⟨e, left', later', run'⟩
      · exact .inl ⟨b, fun rest stop depth => (same rest stop depth).trans (run' rest stop depth)⟩
      · exact .inr ⟨e, left', later'.trans later, fun rest stop depth =>
          (same rest stop depth).trans (run' rest stop depth)⟩

theorem kept_peek : Kept peek := by
  intro before closer ends
  cases before with
  | nil => exact ⟨.ok closer, [], List.suffix_rfl, fun _ _ _ => rfl⟩
  | cons t before => exact ⟨.ok t, t :: before, List.suffix_rfl, fun _ _ _ => rfl⟩

theorem kept_check (k : TokenKind) : Kept (check k) :=
  kept_peek.bind fun t => kept_pure (t.kind == k)

theorem kept_unexpected (t : Token) (expected : String) : Kept (unexpected t expected : Parser α) :=
  fun before _ _ => ⟨.error _, before, List.suffix_rfl, fun _ _ _ => rfl⟩

theorem kept_accept (other : (k == .semicolon) = false) : Kept (accept k) := by
  intro before closer ends
  cases before with
  | nil =>
      refine ⟨.ok false, [], List.suffix_rfl, fun rest stop depth => refused ?_⟩
      change ¬ (closer.kind == k)
      rw [ends.closes, BEq.comm, other]
      exact Bool.false_ne_true
  | cons t before =>
      by_cases here : t.kind == k
      · exact ⟨.ok true, before, List.suffix_cons t before, fun _ _ _ => accepted here⟩
      · exact ⟨.ok false, t :: before, List.suffix_rfl, fun _ _ _ => refused here⟩

theorem kept_expect (other : (k == .semicolon) = false) (expected : String) :
    Kept (expect k expected) := by
  intro before closer ends
  cases before with
  | nil =>
      refine ⟨.error ⟨.unexpected closer expected, closer.location⟩, [], List.suffix_rfl,
        fun rest stop depth => if_neg ?_⟩
      change ¬ (closer.kind == k)
      rw [ends.closes, BEq.comm, other]
      exact Bool.false_ne_true
  | cons t before =>
      by_cases here : t.kind == k
      · exact ⟨.ok t, before, List.suffix_cons t before, fun _ _ _ => if_pos here⟩
      · exact ⟨.error ⟨.unexpected t expected, t.location⟩, t :: before, List.suffix_rfl,
          fun _ _ _ => if_neg here⟩

theorem kept_name (expected : String) : Kept (name expected) :=
  (kept_expect rfl _).bind fun _ => kept_pure _

theorem closes_semicolon (expected : String) (a : α) :
    Closes (do let _ ← expect .semicolon expected; return a) := by
  intro before closer ends
  cases before with
  | nil =>
      refine .inl ⟨a, fun rest stop depth => bind_eq_ok.mpr ⟨closer, _, if_pos ?_, rfl⟩⟩
      exact beq_iff_eq.mpr ends.closes
  | cons t before =>
      refine .inr ⟨⟨.unexpected t expected, t.location⟩, t :: before, List.suffix_rfl,
        fun rest stop depth => ?_⟩
      have other : ¬ (t.kind == .semicolon) := fun here =>
        ends.inside t (List.mem_cons_self ..) (beq_iff_eq.mp here)
      have fails : expect .semicolon expected ⟨t :: before ++ closer :: rest, stop, depth⟩
          = .error ⟨.unexpected t expected, t.location⟩
            ⟨t :: before ++ closer :: rest, stop, depth⟩ := if_neg other
      change EStateM.bind _ _ _ = _
      rw [EStateM.bind, fails]

theorem kept_iterate {step : α → Parser (ForInStep α)} (h : ∀ a, Kept (step a)) (a : α) :
    Kept (iterate step a) := by
  intro before closer ends
  induction hn : before.length using Nat.strongRecOn generalizing before a with
  | ind n ih =>
      obtain ⟨r, left, later, run⟩ := h a before closer ends
      match r with
      | .error e =>
          exact ⟨.error e, left, later, fun rest stop depth =>
            iterate_of_error (run rest stop depth)⟩
      | .ok (.done b) =>
          exact ⟨.ok b, left, later, fun rest stop depth => iterate_of_done (run rest stop depth)⟩
      | .ok (.yield b) =>
          by_cases shorter : left.length < before.length
          · obtain ⟨r, left', later', run'⟩ :=
              ih left.length (hn ▸ shorter) b left (ends.suffix later) rfl
            refine ⟨r, left', later'.trans later, fun rest stop depth => ?_⟩
            rw [iterate_of_round (run rest stop depth) (by simpa using shorter)]
            exact run' rest stop depth
          · refine ⟨.ok b, left, later, fun rest stop depth => ?_⟩
            rw [iterate_of_yield (run rest stop depth)]
            exact if_neg (by simpa using shorter)

end Parser
namespace Grammar

open ScriptFront.Parser

theorem kept_specifierStep (specifiers : List ImportSpecifier) :
    Kept (specifierStep specifiers) := by
  have specifier : Kept importSpecifier := by
    refine (kept_name _).bind fun imported => (kept_accept rfl).bind fun renamed => ?_
    split
    · exact (kept_name _).bind fun binding => kept_pure _
    · exact kept_pure _
  refine (kept_check _).bind fun closed => ?_
  split
  · exact kept_pure _
  · refine specifier.bind fun specifier => (kept_accept rfl).bind fun more => ?_
    split
    · exact kept_pure _
    · exact kept_pure _

theorem kept_importDefault : Kept importDefault := by
  refine (kept_check _).bind fun named => ?_
  split
  · refine (kept_name _).bind fun ident => (kept_accept rfl).bind fun comma => ?_
    split
    · refine kept_peek.bind fun t => ?_
      split
      · exact (kept_unexpected _ _).bind fun _ => kept_pure _
      · exact kept_pure _
    · exact kept_pure _
  · exact kept_pure _

theorem kept_importClause : Kept importClause := by
  refine (kept_accept rfl).bind fun wildcard => ?_
  split
  · exact kept_pure _
  · refine kept_importDefault.bind fun whole => (kept_accept rfl).bind fun opened => ?_
    extract_lets next
    have rest (named : List ImportSpecifier) : Kept (next named) := by
      dsimp only [next]
      split
      · exact kept_peek.bind fun t => (kept_unexpected _ _).bind fun _ => kept_pure _
      · exact kept_pure _
    split
    · refine Kept.bind ?_ rest
      exact (kept_iterate kept_specifierStep []).bind fun specifiers =>
        (kept_expect rfl _).bind fun _ => kept_pure _
    · exact rest []

theorem closes_importDeclaration : Closes importDeclaration := by
  refine (kept_expect rfl _).closes fun opener => (kept_accept rfl).closes fun isNative => ?_
  refine kept_importClause.closes fun clause => (kept_expect rfl _).closes fun _ => ?_
  exact (kept_expect rfl _).closes fun source => closes_semicolon _ _

end Grammar

/-! ### Where reading goes on -/

section Resumption

variable {before left : List Token} {closer previous : Token}

/-- Neither a brace nor a word at which statements resume. -/
def Token.Plain (t : Token) : Prop := braceDelta t = 0 ∧ resumesStatement t.kind = false

theorem foldl_braceDelta (plain : ∀ t ∈ before, t.Plain) (depth : Int) :
    before.foldl (fun depth t => depth + braceDelta t) depth = depth := by
  induction before generalizing depth with
  | nil => rfl
  | cons t before ih =>
      obtain ⟨here, rest⟩ := List.forall_mem_cons.mp plain
      rw [List.foldl_cons, here.1, Int.add_zero]
      exact ih rest depth

/-- Behind tokens without a brace, reading goes on behind the next semicolon. -/
theorem skipToStatement_terminated (ends : Terminated left closer) (plain : ∀ t ∈ left, t.Plain)
    (open_ : previous.kind ≠ .semicolon ∧ previous.kind ≠ .closeCurly) (rest : List Token) :
    skipToStatement 0 previous (left ++ closer :: rest) = rest := by
  have goes {previous t : Token} (open_ : previous.kind ≠ .semicolon ∧ previous.kind ≠ .closeCurly)
      (quiet : resumesStatement t.kind = false) : ¬ ((0 : Int) ≤ 0 ∧ (previous.kind = .semicolon ∨
        previous.kind = .closeCurly ∨ resumesStatement t.kind = true)) := by
    rintro ⟨-, ended | ended | resumes⟩
    · exact open_.1 ended
    · exact open_.2 ended
    · exact Bool.false_ne_true (quiet.symm.trans resumes)
  induction left generalizing previous with
  | nil =>
      have delta : (0 : Int) + braceDelta closer = 0 := by
        simp only [braceDelta, ends.closes, Int.add_zero]
      have quiet : resumesStatement closer.kind = false := by
        rw [ends.closes]
        rfl
      rw [List.nil_append, skipToStatement, if_neg (goes open_ quiet), delta]
      cases rest with
      | nil => rfl
      | cons t rest => exact if_pos ⟨Int.le_refl 0, .inl ends.closes⟩
  | cons t left ih =>
      obtain ⟨here, later⟩ := List.forall_mem_cons.mp plain
      rw [List.cons_append, skipToStatement, if_neg (goes open_ here.2), here.1, Int.add_zero]
      refine ih ends.tail later ⟨ends.inside t (List.mem_cons_self ..), fun closes => ?_⟩
      have delta := here.1
      simp [braceDelta, closes] at delta

theorem Token.Plain.open_ (plain : previous.Plain) (inside : previous.kind ≠ .semicolon) :
    previous.kind ≠ .semicolon ∧ previous.kind ≠ .closeCurly := by
  refine ⟨inside, fun closes => ?_⟩
  have delta := plain.1
  simp [braceDelta, closes] at delta

theorem resume_terminated (ends : Terminated before closer) (plain : ∀ t ∈ before, t.Plain)
    (later : left <:+ before) (some_ : before ≠ []) (rest : List Token) :
    resume (before ++ closer :: rest) (left ++ closer :: rest) = rest := by
  obtain ⟨skipped, rfl⟩ := later
  have first : (skipped ++ left ++ closer :: rest).take
      ((skipped ++ left ++ closer :: rest).length - (left ++ closer :: rest).length) = skipped := by
    rw [List.append_assoc]
    simp
  have closed := ends.suffix (List.suffix_append skipped left)
  obtain ⟨plain, plain'⟩ := List.forall_mem_append.mp plain
  unfold resume
  rw [first]
  rcases List.eq_nil_or_concat skipped with rfl | ⟨init, t, rfl⟩
  · obtain ⟨t, left, rfl⟩ := List.exists_cons_of_ne_nil some_
    obtain ⟨here, rest'⟩ := List.forall_mem_cons.mp plain'
    simp only [List.getLast?_nil, List.cons_append, here.1, List.foldl_nil, Int.add_zero]
    exact skipToStatement_terminated closed.tail rest'
      (here.open_ (closed.inside t (List.mem_cons_self ..))) rest
  · have last : t ∈ init.concat t ++ left := by simp
    dsimp only
    rw [foldl_braceDelta plain, List.concat_eq_append, List.getLast?_concat]
    refine skipToStatement_terminated closed plain' ?_ rest
    exact (plain t (by simp)).open_ (ends.inside t last)

end Resumption

/-! ### One import after the other -/

/-- What an import gives if it is all that there is to read. -/
def readAlone (ts : List Token) : Except SyntaxError ImportDeclaration :=
  match Grammar.importDeclaration (.ofTokens ts) with
  | .ok i _ => .ok i
  | .error e _ => .error e

/-- The tokens of an import: the word for it and what follows up to a semicolon. -/
def ImportText (ts : List Token) : Prop :=
  ∃ before closer, ts = before ++ [closer] ∧ Terminated before closer ∧
    (∀ t ∈ before, t.kind ≠ .eof) ∧ ∃ opener ∈ before.head?, opener.isKeyword .kwImport = true

/-- An import that is read as such, or has nothing in it that hides its end. -/
def Recoverable (ts : List Token) : Prop :=
  (∃ i, readAlone ts = .ok i) ∨ ∀ t ∈ ts, t.Plain

/-- The fault in what an import gives. -/
def fault? : Except SyntaxError ImportDeclaration → Option SyntaxError
  | .ok _ => none
  | .error e => some e

/-- Adds what an import gives. -/
def Draft.record (d : Draft) : Except SyntaxError ImportDeclaration → Draft
  | .ok i => { d with imports := d.imports ++ [i] }
  | .error e => d.addError e

theorem Cursor.ofTokens_endless {ts : List Token} (endless : ∀ t ∈ ts, t.kind ≠ .eof) :
    ofTokens ts = ⟨ts, (ofTokens ts).stop, 0⟩ := by
  have all : ts.takeWhile (fun t => t.kind != .eof) = ts :=
    List.takeWhile_eq_self_iff.mpr fun t mem => bne_iff_ne.mpr (endless t mem)
  simp only [ofTokens, all]

/-- One import of several is read as if it were alone, and the others behind it. -/
theorem readImports_append {ts : List Token} (text : ImportText ts) (recovers : Recoverable ts)
    (d : Draft) (rest : List Token) (stop : Ending) (depth : Nat) :
    readImports d ⟨ts ++ rest, stop, depth⟩
      = readImports (d.record (readAlone ts)) ⟨rest, stop, 0⟩ := by
  obtain ⟨before, closer, rfl, ends, endless, opener, first, opens⟩ := text
  have alone : Cursor.ofTokens (before ++ [closer])
      = ⟨before ++ closer :: [], (Cursor.ofTokens (before ++ [closer])).stop, 0⟩ := by
    refine Cursor.ofTokens_endless (List.forall_mem_append.mpr ⟨endless, ?_⟩)
    exact List.forall_mem_singleton.mpr (by rw [ends.closes]; exact nofun)
  have here : (⟨before ++ [closer] ++ rest, stop, depth⟩ : Cursor).peek = opener := by
    obtain ⟨more, rfl⟩ := List.head?_eq_some_iff.mp first
    rfl
  have some_ : before ≠ [] := by
    rintro rfl
    exact nomatch first
  rw [readImports_eq, here, if_pos opens, List.append_assoc, List.singleton_append]
  rcases Grammar.closes_importDeclaration before closer ends with
    ⟨i, run⟩ | ⟨e, left, later, run⟩
  · have read : readImport d ⟨before ++ closer :: rest, stop, 0⟩
        = .ok { d with imports := d.imports ++ [i] } ⟨rest, stop, 0⟩ :=
      Parser.bind_of_ok (run rest stop 0)
    have own : readAlone (before ++ [closer]) = .ok i := by
      rw [readAlone, alone, run]
    rw [own]
    change readImports (settle d _ (readImport d ⟨before ++ closer :: rest, stop, 0⟩)).1
      (settle d _ (readImport d ⟨before ++ closer :: rest, stop, 0⟩)).2 = _
    rw [read]
    rfl
  · have read : readImport d ⟨before ++ closer :: rest, stop, 0⟩
        = .error e ⟨left ++ closer :: rest, stop, 0⟩ := by
      change EStateM.bind _ _ _ = _
      rw [EStateM.bind, run]
    have own : readAlone (before ++ [closer]) = .error e := by
      rw [readAlone, alone, run]
    have plain : ∀ t ∈ before, t.Plain := by
      rcases recovers with ⟨i, ok⟩ | plain
      · exact nomatch own.symm.trans ok
      · exact fun t mem => plain t (List.mem_append_left _ mem)
    rw [own]
    change readImports (settle d _ (readImport d ⟨before ++ closer :: rest, stop, 0⟩)).1
      (settle d _ (readImport d ⟨before ++ closer :: rest, stop, 0⟩)).2 = _
    rw [read]
    simp only [settle, resume_terminated ends plain later some_]
    rfl

theorem Draft.foldl_record (rs : List (Except SyntaxError ImportDeclaration)) (d : Draft) :
    rs.foldl record d = { d with
      imports := d.imports ++ rs.filterMap Except.toOption
      errors := d.errors ++ rs.filterMap fault? } := by
  induction rs generalizing d with
  | nil => simp
  | cons r rs ih =>
      rw [List.foldl_cons, ih]
      cases r with
      | ok i => simp [record, List.filterMap_cons, Except.toOption, fault?]
      | error e => simp [record, addError, List.filterMap_cons, Except.toOption, fault?]

/-- The imports that open a program give what each of them gives alone. -/
theorem readImports_texts {texts : List (List Token)} {rest : List Token}
    (imports : ∀ ts ∈ texts, ImportText ts ∧ Recoverable ts)
    (last : ∀ t ∈ rest.head?, t.isKeyword .kwImport = false) (d : Draft) (stop : Ending) :
    readImports d ⟨texts.flatten ++ rest, stop, 0⟩
      = ((texts.map readAlone).foldl Draft.record d, ⟨rest, stop, 0⟩) := by
  induction texts generalizing d with
  | nil =>
      rw [readImports_eq, if_neg]
      · rfl
      · cases rest with
        | nil => exact Bool.false_ne_true
        | cons t rest =>
            change ¬ t.isKeyword .kwImport
            rw [last t rfl]
            exact Bool.false_ne_true
  | cons ts texts ih =>
      obtain ⟨⟨text, recovers⟩, imports⟩ := List.forall_mem_cons.mp imports
      rw [List.flatten_cons, List.append_assoc, readImports_append text recovers]
      exact ih imports _

end ScriptFront
