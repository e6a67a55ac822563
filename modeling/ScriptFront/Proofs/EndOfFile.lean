import ScriptFront.Phase.Reading
import ScriptFront.Proofs.Concatenation
import ScriptFront.Proofs.ForwardGrammar

/-!
The end of file ends a program wherever it stands. Every loop of the parse reads a token in each
round, so that the parse gets to the first end of file and stays there; it records no more than
there are tokens in front of it, and does not depend on what is behind it.
-/

namespace ScriptFront

open ScriptFront.Parser

/-- Every loop of a level, and of the programs read with it, reads a token in each round. -/
structure Grammar.Progresses (g : Grammar) : Prop where
  typeList : Advances (itemStep g.typeExpr)
  expressionList : Advances (itemStep g.expression)
  nameList : ∀ expected, Advances (itemStep (name expected))
  brackets : Advances arrayStep
  intersections : Advances (intersectionStep g)
  unions : Advances (unionStep g)
  params : Advances (paramStep g)
  path : Advances pathStep
  operators : Advances (chainStep g)
  suffixes : Advances (suffixStep g)
  properties : Advances (propertyStep g)
  arms : Advances (armStep g)
  modifiers : Advances modifierStep
  fields : Advances (fieldStep g)
  members : ∀ className, Advances (memberStep g className)
  statements : ∀ stop, Advances (statementStep g stop)
  elifs : Advances (elifStep g)
  handlers : Advances (catchStep g)
  alternatives : Advances (alternativeStep g)
  switchCases : Advances (caseStep g)
  specifiers : Advances specifierStep
  imports : ∀ d s, s.peek.isKeyword .kwImport = true →
    (settle d s (readImport d { s with depth := 0 })).2.rest.length < s.rest.length
  body : ∀ d s, s.atEnd = false → (readStep g d s).2.rest.length < s.rest.length

/--
A cursor stands on an index of a token list: the tokens from there on are those left to read, the
end of file, and what is behind it.
-/
def Cursor.StandsOn (s : Cursor) (ts : List Token) (i : Nat) : Prop :=
  ∃ e, e.kind = .eof ∧ e.location = s.stop.location ∧
    (closed ts).drop i = s.rest ++ e :: s.stop.behind

namespace Cursor

variable {s s' : Cursor} {ts : List Token} {i : Nat}

theorem StandsOn.within (h : s.StandsOn ts i) (later : s'.Within s) :
    s'.StandsOn ts (i + (s.rest.length - s'.rest.length)) := by
  obtain ⟨e, ends, location, rest⟩ := h
  obtain ⟨read, split⟩ := later.suffix
  refine ⟨e, ends, by rw [later.stop, location], ?_⟩
  have length : s.rest.length - s'.rest.length = read.length := by simp [← split]
  rw [length, ← List.drop_drop, rest, ← split, List.append_assoc, List.drop_left, later.stop]

theorem closed_cons (t : Token) (ts : List Token) :
    closed (t :: ts) = t :: (closed (t :: ts)).tail := by
  unfold closed
  split
  · rfl
  · rfl

theorem ofTokens_endOfFile {before : List Token} (clean : ∀ t ∈ before, t.kind ≠ .eof) {e : Token}
    (ends : e.kind = .eof) (us : List Token) :
    ofTokens (before ++ e :: us) = ⟨before, ⟨e.location, (closed (e :: us)).tail⟩, 0⟩ := by
  have all : ∀ t ∈ before, (t.kind != .eof) = true := fun t mem => bne_iff_ne.mpr (clean t mem)
  have stops : (e.kind != .eof) = false := by simp [ends]
  have rest : (before ++ e :: us).takeWhile (fun t => t.kind != .eof) = before := by
    rw [List.takeWhile_append_of_pos all, List.takeWhile_cons_of_neg (by simp [ends]),
      List.append_nil]
  have found : (before ++ e :: us).find? (fun t => t.kind == .eof) = some e := by
    have none_ : before.find? (fun t => t.kind == .eof) = none := by simpa using clean
    rw [List.find?_append, none_, Option.none_or, List.find?_cons_of_pos (by simp [ends])]
  have behind : ((closed (before ++ e :: us)).dropWhile fun t => t.kind != .eof).tail
      = (closed (e :: us)).tail := by
    rw [closed_append before (List.cons_ne_nil e us), List.dropWhile_append_of_pos all,
      closed_cons, List.dropWhile_cons_of_neg (by simp [ends]), List.tail_cons]
  simp only [ofTokens, rest, found, behind]

theorem standsOn_ofTokens {before : List Token} (clean : ∀ t ∈ before, t.kind ≠ .eof) {e : Token}
    (ends : e.kind = .eof) (us : List Token) :
    (ofTokens (before ++ e :: us)).StandsOn (before ++ e :: us) 0 := by
  rw [ofTokens_endOfFile clean ends]
  refine ⟨e, ends, rfl, ?_⟩
  rw [List.drop_zero, closed_append before (List.cons_ne_nil e us), closed_cons, List.tail_cons]

end Cursor

/-! ### Rounds of the top level -/

theorem suffix_skipToStatement (depth : Int) (previous : Token) (ts : List Token) :
    skipToStatement depth previous ts <:+ ts := by
  induction ts generalizing depth previous with
  | nil => exact List.suffix_rfl
  | cons t ts ih =>
      simp only [skipToStatement]
      split
      · exact List.suffix_rfl
      · exact (ih _ _).trans (List.suffix_cons t ts)

/-- Where reading resumes, at least one token of the faulty statement is skipped. -/
theorem resume_suffix {start rest : List Token} (suffix : rest <:+ start) (more : start ≠ []) :
    resume start rest <:+ start ∧ (resume start rest).length < start.length := by
  obtain ⟨skipped, rfl⟩ := suffix
  have first : (skipped ++ rest).take ((skipped ++ rest).length - rest.length) = skipped := by simp
  unfold resume
  rw [first]
  rcases List.eq_nil_or_concat skipped with rfl | ⟨init, t, rfl⟩
  · obtain ⟨t, ts, rfl⟩ := List.exists_cons_of_ne_nil more
    have later := suffix_skipToStatement (0 + braceDelta t) t ts
    exact ⟨later.trans (List.suffix_cons t ts), Nat.lt_succ_of_le later.length_le⟩
  · dsimp only
    rw [List.concat_eq_append, List.getLast?_concat]
    dsimp only
    have later := suffix_skipToStatement
      ((init ++ [t]).foldl (fun depth t => depth + braceDelta t) 0) t rest
    refine ⟨later.trans (List.suffix_append _ _), ?_⟩
    have length := later.length_le
    simp only [List.length_append, List.length_singleton]
    omega

/-- How much is recorded of a program. -/
def Draft.size (d : Draft) : Nat := d.imports.length + d.body.length + d.errors.length

theorem Draft.size_addError (d : Draft) (e : SyntaxError) : (d.addError e).size = d.size + 1 := by
  simp [size, addError, Nat.add_assoc]

theorem Draft.size_addStatement {d d' : Draft} {s : Statement} (h : d.addStatement s = .ok d') :
    d'.size = d.size + 1 := by
  simp only [addStatement] at h
  split at h
  · cases h
  · cases h
    simp only [size, List.length_append, List.length_singleton]
    omega

/-- A later draft and cursor, with no more on record than there are tokens read in between. -/
structure Grows (d : Draft) (s : Cursor) (d' : Draft) (s' : Cursor) : Prop where
  within : s'.Within s
  paid : d'.size + s'.rest.length ≤ d.size + s.rest.length

variable {us : List Token} {g : Grammar} {d d' d'' : Draft} {s s' s'' : Cursor} {p : Parser Draft}

theorem Grows.refl (d : Draft) (s : Cursor) : Grows d s d s := ⟨.refl s, Nat.le_refl _⟩

theorem Grows.trans (near : Grows d s d' s') (far : Grows d' s' d'' s'') : Grows d s d'' s'' :=
  ⟨far.within.trans near.within, Nat.le_trans far.paid near.paid⟩

theorem settle_trailing (h : Consumes us p { s with depth := 0 }) :
    settle d (s.trailing us) (p { s.trailing us with depth := 0 })
      = ((settle d s (p { s with depth := 0 })).1,
        (settle d s (p { s with depth := 0 })).2.trailing us) := by
  change Stops us _ _ _ (p { s.trailing us with depth := 0 }) at h
  generalize p { s with depth := 0 } = x at h ⊢
  generalize p { s.trailing us with depth := 0 } = y at h ⊢
  cases h with
  | read _ _ => rfl
  | failed _ => rfl

/-- A step that reads a token and records one thing at most, or fails and is put on record. -/
theorem grows_settle (h : Consumes [] p { s with depth := 0 }) (more : s.rest ≠ [])
    (one : ∀ d' s', p { s with depth := 0 } = .ok d' s' → d'.size ≤ d.size + 1) :
    Grows d s (settle d s (p { s with depth := 0 })).1 (settle d s (p { s with depth := 0 })).2 ∧
      (settle d s (p { s with depth := 0 })).2.rest.length < s.rest.length := by
  change Stops [] _ _ _ (p (Cursor.trailing { s with depth := 0 } [])) at h
  generalize p { s with depth := 0 } = x at h one ⊢
  generalize p (Cursor.trailing { s with depth := 0 } []) = y at h
  cases h with
  | @read d' s' within shorter =>
      have less : s'.rest.length < s.rest.length := shorter trivial
      have size := one d' s' rfl
      refine ⟨⟨⟨within.suffix, within.stop⟩, ?_⟩, less⟩
      change d'.size + s'.rest.length ≤ _
      omega
  | @failed e s' within =>
      obtain ⟨suffix, less⟩ := resume_suffix within.suffix more
      refine ⟨⟨⟨suffix, within.stop⟩, ?_⟩, less⟩
      change (d.addError e).size + (resume s.rest s'.rest).length ≤ _
      rw [Draft.size_addError]
      change (resume s.rest s'.rest).length < s.rest.length at less
      omega

theorem consumes_readImport (d : Draft) (s : Cursor) : Consumes us (readImport d) s :=
  (Grammar.consumes_importDeclaration s).bind fun _ _ => inside_pure _

theorem grows_readImport (opens : s.peek.isKeyword .kwImport = true) :
    Grows d s (settle d s (readImport d { s with depth := 0 })).1
        (settle d s (readImport d { s with depth := 0 })).2 ∧
      (settle d s (readImport d { s with depth := 0 })).2.rest.length < s.rest.length := by
  have more : s.rest ≠ [] := Cursor.rest_ne_nil fun ended => by
    simp [Token.isKeyword, ended] at opens
  refine grows_settle (consumes_readImport d _) more fun d' s' run => ?_
  obtain ⟨i, rfl⟩ := imports_readImport run
  simp only [Draft.size, List.length_append, List.length_singleton]
  omega

theorem consumes_readStatement (h : Grammar.GoesForward us g) (d : Draft) (s : Cursor) :
    Consumes us (readStatement g d) s := by
  refine forward_peek ?_
  extract_lets next
  have rest : ∀ r s, Consumes us (next r) s := by
    refine fun _ s => (h.statement s).bind fun statement s => ?_
    split
    · exact inside_pure _
    · exact .failed (.refl s)
  split
  · exact (forward_broken _ _).bind rest
  · exact rest () s

theorem grows_readStep (h : Grammar.GoesForward [] g) (more : s.atEnd = false) :
    Grows d s (readStep g d s).1 (readStep g d s).2 ∧
      (readStep g d s).2.rest.length < s.rest.length := by
  unfold readStep
  split
  · next stray =>
      have less : s.advance.rest.length < s.rest.length :=
        Cursor.length_advance (by rw [stray]; decide)
      exact ⟨⟨s.within_advance, Nat.add_le_add_left (Nat.le_of_lt less) _⟩, less⟩
  · refine grows_settle (consumes_readStatement h d _) ?_ fun d' s' run => ?_
    · simpa [Cursor.atEnd] using more
    · obtain ⟨_, _, _, added⟩ := readStatement_eq_ok.mp run
      exact Nat.le_of_eq (Draft.size_addStatement added)

theorem readStep_trailing (h : Grammar.GoesForward us g) :
    readStep g d (s.trailing us) = ((readStep g d s).1, (readStep g d s).2.trailing us) := by
  unfold readStep
  rw [Cursor.peek_trailing]
  split
  · rfl
  · exact settle_trailing (consumes_readStatement h d _)

/-! ### The loops of the top level -/

theorem readImports_eq (d : Draft) (s : Cursor) : readImports d s =
    if s.peek.isKeyword .kwImport then
      readImports (settle d s (readImport d { s with depth := 0 })).1
        (settle d s (readImport d { s with depth := 0 })).2
    else (d, s) := by
  rw [readImports]
  split
  · next opens => exact if_pos (grows_readImport opens).2
  · rfl

theorem readBody_eq (h : Grammar.GoesForward [] g) (d : Draft) (s : Cursor) : readBody g d s =
    if s.atEnd then (d, s) else readBody g (readStep g d s).1 (readStep g d s).2 := by
  rw [readBody]
  split
  · rfl
  · next more => exact if_pos (grows_readStep h (Bool.eq_false_iff.mpr more)).2

theorem grows_readImports (d : Draft) (s : Cursor) :
    Grows d s (readImports d s).1 (readImports d s).2 := by
  induction hn : s.rest.length using Nat.strongRecOn generalizing d s with
  | ind n ih =>
      rw [readImports_eq]
      split
      · next opens =>
          obtain ⟨grows, less⟩ := grows_readImport (d := d) opens
          exact grows.trans (ih _ (hn ▸ less) _ _ rfl)
      · exact .refl d s

theorem readImports_trailing (d : Draft) (s : Cursor) (us : List Token) :
    readImports d (s.trailing us) = ((readImports d s).1, (readImports d s).2.trailing us) := by
  induction hn : s.rest.length using Nat.strongRecOn generalizing d s with
  | ind n ih =>
      rw [readImports_eq, readImports_eq d s, Cursor.peek_trailing]
      split
      · next opens =>
          rw [settle_trailing (consumes_readImport d _)]
          exact ih _ (hn ▸ (grows_readImport opens).2) _ _ rfl
      · rfl

theorem grows_readBody (h : Grammar.GoesForward [] g) (d : Draft) (s : Cursor) :
    Grows d s (readBody g d s).1 (readBody g d s).2 ∧ (readBody g d s).2.rest = [] := by
  induction hn : s.rest.length using Nat.strongRecOn generalizing d s with
  | ind n ih =>
      rw [readBody_eq h]
      split
      · next ended => exact ⟨.refl d s, List.isEmpty_iff.mp ended⟩
      · next more =>
          obtain ⟨grows, less⟩ := grows_readStep (d := d) h (Bool.eq_false_iff.mpr more)
          obtain ⟨later, ended⟩ := ih _ (hn ▸ less) _ (readStep g d s).2 rfl
          exact ⟨grows.trans later, ended⟩

theorem readBody_trailing (h : ∀ us, Grammar.GoesForward us g) (d : Draft) (s : Cursor)
    (us : List Token) :
    readBody g d (s.trailing us) = ((readBody g d s).1, (readBody g d s).2.trailing us) := by
  induction hn : s.rest.length using Nat.strongRecOn generalizing d s with
  | ind n ih =>
      rw [readBody_eq (h []), readBody_eq (h []) d s]
      change (if s.atEnd then _ else _) = _
      split
      · rfl
      · next more =>
          rw [readStep_trailing (h us)]
          exact ih _ (hn ▸ (grows_readStep (h []) (Bool.eq_false_iff.mpr more)).2) _ _ rfl

theorem Grammar.GoesForward.progresses (h : GoesForward [] g) : g.Progresses where
  typeList := advances_of (forward_itemStep h.typeExpr)
  expressionList := advances_of (forward_itemStep fun s => (h.expression s).inside)
  nameList _ := advances_of (forward_itemStep fun _ => (consumes_name _).inside)
  brackets := advances_of forward_arrayStep
  intersections := advances_of (forward_intersectionStep h.typeExpr)
  unions := advances_of (forward_unionStep h.typeExpr)
  params := advances_of (forward_paramStep h.typeExpr)
  path := advances_of forward_pathStep
  operators := advances_of (forward_chainStep h)
  suffixes := advances_of (forward_suffixStep h)
  properties := advances_of (forward_propertyStep h)
  arms := advances_of (forward_armStep h)
  modifiers := advances_of forward_modifierStep
  fields := advances_of (forward_fieldStep h)
  members className := advances_of (forward_memberStep h className)
  statements stop := advances_of (forward_statementStep h stop)
  elifs := advances_of (forward_elifStep h)
  handlers := advances_of (forward_catchStep h)
  alternatives := advances_of (forward_alternativeStep h)
  switchCases := advances_of (forward_caseStep h)
  specifiers := advances_of forward_specifierStep
  imports _ _ opens := (grows_readImport opens).2
  body _ _ more := (grows_readStep h more).2

/-! ### Programs -/

theorem Draft.read_trailing (limit : Nat) {ts ts' : List Token}
    (same : Cursor.ofTokens ts' = (Cursor.ofTokens ts).trailing us) :
    Draft.read (.ofLimit limit) ts'
      = ((Draft.read (.ofLimit limit) ts).1, (Draft.read (.ofLimit limit) ts).2.trailing us) := by
  have forward : ∀ us, Grammar.GoesForward us (.ofLimit limit) := fun us =>
    Grammar.goesForward_ofLevels limit (limit + 1)
  unfold Draft.read
  rw [same, readImports_trailing]
  exact readBody_trailing forward _ _ us

theorem Draft.grows_read (limit : Nat) (ts : List Token) :
    Grows .empty (.ofTokens ts) (Draft.read (.ofLimit limit) ts).1
        (Draft.read (.ofLimit limit) ts).2 ∧
      (Draft.read (.ofLimit limit) ts).2.rest = [] := by
  obtain ⟨body, ended⟩ := grows_readBody (Grammar.goesForward_ofLevels limit (limit + 1))
    (readImports .empty (.ofTokens ts)).1 (readImports .empty (.ofTokens ts)).2
  exact ⟨(grows_readImports .empty (.ofTokens ts)).trans body, ended⟩

/-- The tokens up to the first end of file are those in front of it, and the end of file. -/
theorem exists_endOfFile {ts : List Token} {k : Nat}
    (first : ts.findIdx? (·.kind == .eof) = some k) :
    ∃ before e, ts.take (k + 1) = before ++ [e] ∧ before.length = k ∧ e.kind = .eof ∧
      ∀ t ∈ before, t.kind ≠ .eof := by
  obtain ⟨less, ends, clean⟩ := List.findIdx?_eq_some_iff_getElem.mp first
  refine ⟨ts.take k, ts[k], List.take_succ_eq_append_getElem less, List.length_take_of_le less.le,
    beq_iff_eq.mp ends, fun t mem => ?_⟩
  obtain ⟨i, inside, rfl⟩ := List.mem_take_iff_getElem.mp mem
  simpa using clean i (by omega)

namespace Program

/--
Only the tokens up to the first end of file matter. Whatever is behind it, a program is read alike,
with the same diagnostics; the parse ends on the end of file, every round of its loops having read a
token, and no more is recorded than there are tokens in front.
-/
theorem parse_endOfFile (limit : Nat) (file : Path) {ts : List Token} {k : Nat}
    (first : ts.findIdx? (·.kind == .eof) = some k) (us : List Token) :
    let tokens := ts.take (k + 1) ++ us
    let r := Draft.read (.ofLimit limit) tokens
    parse limit tokens = parse limit (ts.take (k + 1)) ∧
      parseTokens file tokens = parseTokens file (ts.take (k + 1)) ∧
      r.2.rest = [] ∧ r.2.StandsOn tokens k ∧
      r.1.imports.length + r.1.body.length + r.1.errors.length ≤ k ∧
      ∀ n, (Grammar.ofLevels limit n).Progresses := by
  intro tokens r
  obtain ⟨before, e, kept, length, ends, clean⟩ := exists_endOfFile first
  have all : tokens = before ++ e :: us := by
    change ts.take (k + 1) ++ us = _
    rw [kept, List.append_assoc, List.singleton_append]
  have alike : Cursor.ofTokens tokens
      = (Cursor.ofTokens (ts.take (k + 1))).trailing (Cursor.closed (e :: us)).tail := by
    rw [all, kept, Cursor.ofTokens_endOfFile clean ends, Cursor.ofTokens_endOfFile clean ends]
    rfl
  have same : ∀ limit, parse limit tokens = parse limit (ts.take (k + 1)) := fun limit => by
    simp only [parse, Draft.read_trailing limit alike]
  obtain ⟨grows, ended⟩ := Draft.grows_read limit tokens
  have stands : (Cursor.ofTokens tokens).StandsOn tokens 0 := by
    rw [all]
    exact Cursor.standsOn_ofTokens clean ends us
  have start : (Cursor.ofTokens tokens).rest.length = k := by
    rw [all, Cursor.ofTokens_endOfFile clean ends, length]
  refine ⟨same limit, ?_, ended, ?_, ?_, fun n => ?_⟩
  · rw [parseTokens, parseTokens, same]
  · simpa [start, ended, r] using stands.within grows.within
  · simpa [start, ended, r, Draft.size, Draft.empty] using grows.paid
  · exact (Grammar.goesForward_ofLevels limit n).progresses

/-- What is behind a misplaced end of file does not make a call of the last name. -/
theorem parse_endOfFile_misplaced :
    let ts := (Scan.ofText "import * from \"m\"; f<").tokens ++ (Scan.ofText "T>(1);").tokens
    let r := Draft.read (.ofLimit nestingLimit) ts
    ts.findIdx? (·.kind == .eof) = some 7 ∧
      parse nestingLimit ts = parse nestingLimit (ts.take 8) ∧ r.2.StandsOn ts 7 ∧
      r.1.imports.length = 1 ∧ r.1.errors.length = 1 := by
  intro ts r
  have first : ts.findIdx? (·.kind == .eof) = some 7 := by decide +kernel
  have read := parse_endOfFile nestingLimit default first (ts.drop 8)
  rw [List.take_append_drop] at read
  refine ⟨first, read.1, read.2.2.2.1, ?_, ?_⟩
  · decide +kernel
  · decide +kernel

end Program
end ScriptFront
