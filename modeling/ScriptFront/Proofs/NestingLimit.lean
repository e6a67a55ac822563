import ScriptFront.Grammar.Program
import ScriptFront.Proofs.LimitedStatements
import ScriptFront.Proofs.MisledStatements

/-!
What the nesting limit changes. A limit that is reported may hide anything, and one that is met only
while a declaration is looked for ahead makes the test answer no: then an expression is read where a
declaration stands. Nothing else depends on the limit.
-/

namespace ScriptFront

open ScriptFront.Parser

/-- More levels than the tokens ahead can fill with a type. -/
def Cursor.room (s : Cursor) : Nat := 4 * s.rest.length + 1

/-- Whether a type, however deeply it is nested, and a name are next. -/
def Cursor.declares (s : Cursor) : Bool :=
  match Grammar.typeAndName (Grammar.ofLevels (s.depth + s.room) (s.room + 1)).typeExpr s with
  | .ok answer _ => answer
  | .error _ _ => false

namespace Grammar

/-- A test ahead that reports the limit where it would answer no to a declaration that is there. -/
def heeding (limit : Nat) (test : Parser Bool) : Parser Bool := fun s =>
  match test s with
  | .ok answer _ => .ok answer s
  | .error e s' =>
    if e.fault = .recursionLimit limit ∧ s.declares = true then .error e s' else .ok false s

/-- The grammar that never takes a declaration for an expression for want of levels. -/
def watchful (limit : Nat) : Nat → Grammar
  | 0 => bottom limit
  | n + 1 =>
    { (watchful limit n).above with
      declares := heeding limit (typeAndName (ofLevels limit (n + 1)).typeExpr) }

theorem limit_ofLevels (limit n : Nat) : (ofLevels limit n).limit = limit := by
  induction n with
  | zero => rfl
  | succ n ih => exact ih

theorem limit_watchful (limit n : Nat) : (watchful limit n).limit = limit := by
  induction n with
  | zero => rfl
  | succ n ih => exact ih

variable {limit limit' budget depth n n' : Nat}

theorem gains_typeExpr (more : limit ≤ limit') (within : depth ≤ limit)
    (levels : limit < depth + n) (levels' : limit' < depth + n') :
    Gains ⟨limit, budget, depth⟩ 1 (fun _ => 0) (ofLevels limit n).typeExpr
      (ofLevels limit' n').typeExpr := by
  induction n generalizing depth n' with
  | zero => omega
  | succ n ih =>
      cases n' with
      | zero => omega
      | succ n' =>
          refine gains_nested (limit_ofLevels limit n) (by rw [limit_ofLevels]; exact more) ?_
          intro (room : depth < limit)
          exact gains_unionType (@ih (depth + 1) n' room (by omega) (by omega))

/-- With enough levels the test ahead gives the answer that it gives without a limit. -/
theorem foresee_typeAndName {s : Cursor} (enough : s.depth + s.room ≤ limit)
    (levels : limit < s.depth + n) :
    foresee (typeAndName (ofLevels limit n).typeExpr) s = .ok s.declares s := by
  have far : Gains ⟨s.depth + s.room, s.depth + s.room, s.depth⟩ 1 (fun _ => 0)
      (typeAndName (ofLevels (s.depth + s.room) (s.room + 1)).typeExpr)
      (typeAndName (ofLevels limit n).typeExpr) :=
    gains_typeAndName (gains_typeExpr enough (by omega) (by omega) levels)
  have ends := far 1 s (Nat.le_refl 1) rfl (by simp only [Cursor.room]; omega)
  unfold foresee Cursor.declares
  generalize typeAndName (ofLevels (s.depth + s.room) (s.room + 1)).typeExpr s = x at ends ⊢
  generalize typeAndName (ofLevels limit n).typeExpr s = y at ends ⊢
  cases ends with
  | limited _ short => exact absurd short (Nat.lt_irrefl _)
  | failed _ => rfl
  | read _ _ => rfl

theorem foresee_of_error {test : Parser Bool} {s s' : Cursor} {e : SyntaxError}
    (h : test s = .error e s') : foresee test s = .ok false s := by
  unfold foresee
  rw [h]

theorem gains_heeding {b : Bounds} {test test' : Parser Bool}
    (h : Gains b 1 (fun _ => 0) test test')
    (alike : ∀ s e s', s.depth = b.depth → s.depth + s.room ≤ b.budget → s.declares = false →
      test s = .error e s' → foresee test' s = .ok false s) :
    Gains b 1 (fun _ => 0) (heeding b.limit test) (foresee test') := by
  refine .of fun credit s enough depth paid => ?_
  have ends := h credit s enough depth paid
  have no := alike s
  unfold heeding
  unfold foresee at no ⊢
  generalize test s = x at ends no ⊢
  generalize test' s = y at ends no ⊢
  cases ends with
  | failed fault =>
      simp only [fault, false_and, if_false]
      exact .read depth (by omega)
  | read _ _ => exact .read depth (by omega)
  | @limited e s' y fault short =>
      dsimp only
      cases declares : s.declares with
      | true =>
          rw [if_pos ⟨fault, rfl⟩]
          exact .limited fault short
      | false =>
          rw [if_neg (by simp), no e s' depth (by simp only [Cursor.room]; omega) declares rfl]
          exact .read depth (by omega)

/-- The watchful grammar reads like the limited one, and like those with room for all tokens. -/
theorem limited_watchful (within : depth ≤ limit) (levels : limit < depth + n)
    (levels' : limit' < depth + n') (more : limit ≤ limit')
    (other : limit' = limit ∧ n' = n ∨ budget ≤ limit') :
    Limited ⟨limit, budget, depth⟩ (watchful limit n) (ofLevels limit' n') := by
  induction n generalizing depth n' with
  | zero => omega
  | succ n ih =>
      cases n' with
      | zero => omega
      | succ n' =>
          refine Limited.above (limit_watchful limit n) (by rw [limit_ofLevels]; exact more) ?_ ?_
          · intro (room : depth < limit)
            exact @ih (depth + 1) n' room (by omega) (by omega) (by omega)
          · refine gains_heeding (gains_typeAndName (gains_typeExpr more within levels levels')) ?_
            intro s e s' reached paid no failed
            rcases other with ⟨rfl, same⟩ | enough
            · cases same
              exact foresee_of_error failed
            · have far := foresee_typeAndName (Nat.le_trans paid enough)
                (show limit' < s.depth + (n' + 1) by rw [reached]; exact levels')
              rw [no] at far
              exact far

/-- The limited grammar differs from the watchful one only in how it reads statements. -/
theorem ofLevels_eq_misled (limit n : Nat) :
    ofLevels limit n = (watchful limit n).misled (ofLevels limit n) := by
  induction n with
  | zero => rfl
  | succ n ih =>
      calc (ofLevels limit n).above
        _ = ((watchful limit n).misled (ofLevels limit n)).above := congrArg above ih
        _ = (watchful limit (n + 1)).misled ((watchful limit n).misled (ofLevels limit n)).above :=
          above_misled _ _ _
        _ = (watchful limit (n + 1)).misled (ofLevels limit n).above := by rw [← ih]

/-- The test ahead is misled where it would report the limit if it were heeding. -/
theorem departs_heeding {b : Bounds} {test test' : Parser Bool}
    (h : Gains b 1 (fun _ => 0) test test')
    (far : ∀ s, s.depth = b.depth → s.depth + s.room ≤ b.budget →
      foresee test' s = .ok s.declares s) :
    Departs b 1 (· ≠ ·) (heeding b.limit test) (foresee test) (foresee test') := by
  refine .of fun credit s enough depth paid => ?_
  have ends := h credit s enough depth paid
  have answer := far s depth (by simp only [Cursor.room]; omega)
  unfold heeding
  unfold foresee at answer ⊢
  generalize test s = x at ends answer ⊢
  generalize test' s = y at ends answer ⊢
  cases ends with
  | failed fault =>
      simp only [fault, false_and, if_false]
      exact .read depth (by omega)
  | read _ _ => exact .read depth (by omega)
  | @limited e s' y fault short =>
      rw [answer]
      dsimp only
      cases declares : s.declares with
      | true =>
          rw [if_pos ⟨fault, rfl⟩]
          refine .misled ?_
          intro a s₁ a' s₂ no yes
          cases no
          cases yes
          exact Bool.false_ne_true
      | false =>
          rw [if_neg (by simp)]
          exact .read depth (by omega)

/-- Where the watchful grammar reports the limit, the limited one reads other statements. -/
theorem misleads_watchful (within : depth ≤ limit) (levels : limit < depth + n)
    (levels' : limit' < depth + n') (more : limit ≤ limit') (enough : budget ≤ limit') :
    Misleads ⟨limit, budget, depth⟩ (watchful limit n) (ofLevels limit n) (ofLevels limit' n') := by
  induction n generalizing depth n' with
  | zero => omega
  | succ n ih =>
      cases n' with
      | zero => omega
      | succ n' =>
          have limited := limited_watchful within levels levels' more (.inr enough)
          have above := Misleads.above limited (l := ofLevels limit n)
            (limit_watchful limit n) (by rw [limit_ofLevels]; exact more)
            (fun room : depth < limit => @ih (depth + 1) n' room (by omega) (by omega))
            (departs_heeding (gains_typeAndName (gains_typeExpr more within levels levels')) ?_)
          · rw [← ofLevels_eq_misled] at above
            exact above
          · intro s reached paid
            exact foresee_typeAndName (Nat.le_trans paid enough)
              (show limit' < s.depth + (n' + 1) by rw [reached]; exact levels')

end Grammar

/-! ### Programs -/

namespace Draft

theorem fault_of_addStatement {d : Draft} {s : Statement} {e : SyntaxError}
    (h : d.addStatement s = .error e) (n : Nat) : e.fault ≠ .recursionLimit n := by
  unfold addStatement at h
  split at h
  · cases h
    simp
  · cases h

theorem errors_addStatement {d d' : Draft} {s : Statement} (h : d.addStatement s = .ok d') :
    d'.errors = d.errors := by
  unfold addStatement at h
  split at h
  · cases h
  · cases h
    rfl

theorem body_addStatement {d d' : Draft} {s : Statement} (h : d.addStatement s = .ok d') :
    d'.body = d.body ++ [s] := by
  unfold addStatement at h
  split at h
  · cases h
  · cases h
    rfl

/-- What reading on leaves as it is. -/
structure Extends (d d' : Draft) : Prop where
  errors : d.errors <+: d'.errors
  body : d.body <+: d'.body

theorem Extends.refl (d : Draft) : d.Extends d := ⟨List.prefix_rfl, List.prefix_rfl⟩

theorem Extends.trans {d d' d'' : Draft} (h : d.Extends d') (h' : d'.Extends d'') : d.Extends d'' :=
  ⟨h.errors.trans h'.errors, h.body.trans h'.body⟩

theorem extends_addStatement {d d' : Draft} {s : Statement} (h : d.addStatement s = .ok d') :
    d.Extends d' where
  errors := errors_addStatement h ▸ List.prefix_rfl
  body := by
    rw [body_addStatement h]
    exact List.prefix_append _ _

theorem extends_addError (d : Draft) (e : SyntaxError) : d.Extends (d.addError e) :=
  ⟨List.prefix_append _ _, List.prefix_rfl⟩

/-- Two drafts of which at most one is without errors, or whose bodies remain different. -/
def Differs (d d' : Draft) : Prop :=
  d.errors ≠ [] ∨ d'.errors ≠ [] ∨ Parser.Apart List.IsPrefix d.body d'.body

theorem Differs.extends {d d' later later' : Draft} (h : d.Differs d') (ext : d.Extends later)
    (ext' : d'.Extends later') : later.Differs later' := by
  rcases h with some | some | ways
  · exact .inl fun none => some (List.prefix_nil.mp (none ▸ ext.errors))
  · exact .inr (.inl fun none => some (List.prefix_nil.mp (none ▸ ext'.errors)))
  · exact .inr (.inr fun body far far' => ways body (ext.body.trans far) (ext'.body.trans far'))

/-- The nesting limit was met and reported. -/
def MeetsLimit (d : Draft) (limit : Nat) : Prop := ∃ e ∈ d.errors, e.fault = .recursionLimit limit

end Draft

theorem gains_readStatement {b : Bounds} {l g : Grammar} (h : Grammar.Limited b l g) (d : Draft) :
    Gains b 4 (fun _ => 0) (readStatement l d) (readStatement g d) := by
  refine .of fun credit s enough => peek_bind ?_
  extract_lets next next'
  have tail : ∀ r, Follows b credit (fun _ => credit + 0) s (next r) (next' r) := by
    intro r
    refine h.statement.bind enough fun statement s => ?_
    split
    · exact follows_pure (by omega)
    · next e rejected => exact fun _ _ => .failed (Draft.fault_of_addStatement rejected)
  split
  · exact broken_bind
  · exact tail ()

theorem extends_readStatement (g : Grammar) (d : Draft) : Yields d.Extends (readStatement g d) := by
  refine yields_bind fun t => ?_
  extract_lets next
  have tail : ∀ r, Yields d.Extends (next r) := by
    refine fun r => yields_bind fun s => ?_
    split
    · next added => exact yields_pure (Draft.extends_addStatement added)
    · exact fun _ _ _ run => nomatch run
  split
  · exact yields_bind fun _ => tail ()
  · exact tail ()

theorem extends_readStep (g : Grammar) (d : Draft) (s : Cursor) :
    d.Extends (readStep g d s).1 := by
  unfold readStep
  split
  · exact .refl d
  · unfold settle
    split
    · next d' s' read => exact extends_readStatement g d _ _ _ read
    · exact d.extends_addError _

/-- Reading on loses nothing. -/
theorem extends_readBody (g : Grammar) (d : Draft) (s : Cursor) :
    d.Extends (readBody g d s).1 := by
  induction hn : s.rest.length using Nat.strongRecOn generalizing d s with
  | ind n ih =>
      have step := extends_readStep g d s
      rw [readBody]
      split
      · exact .refl d
      · dsimp only
        split
        · next shorter => exact step.trans (ih _ (hn ▸ shorter) _ _ rfl)
        · exact step

theorem readStep_extends (g : Grammar) (d : Draft) {s : Cursor} (h : s.atEnd ≠ true) :
    (readStep g d s).1.Extends (readBody g d s).1 := by
  rw [readBody, if_neg h]
  dsimp only
  split
  · exact extends_readBody g _ _
  · exact .refl _

theorem Draft.MeetsLimit.extends {limit : Nat} {d d' : Draft} (h : d.MeetsLimit limit)
    (ext : d.Extends d') : d'.MeetsLimit limit :=
  h.imp fun _ ⟨reported, fault⟩ => ⟨ext.errors.subset reported, fault⟩

/-- A statement is read alike with two grammars, unless the limited one meets its limit. -/
theorem readStep_limited {limit budget : Nat} {l g : Grammar}
    (h : Grammar.Limited ⟨limit, budget, 0⟩ l g) (d : Draft) (s : Cursor)
    (enough : 4 * s.rest.length + 4 ≤ budget) :
    (readStep l d s).1.MeetsLimit limit ∧ limit < budget ∨ readStep l d s = readStep g d s := by
  unfold readStep
  split
  · exact .inr rfl
  · have ends := gains_readStatement h d 4 { s with depth := 0 } (Nat.le_refl 4) rfl
      (by simp only; omega)
    generalize readStatement l d { s with depth := 0 } = x at ends ⊢
    generalize readStatement g d { s with depth := 0 } = y at ends ⊢
    cases ends with
    | @limited e s' y fault short =>
        exact .inl ⟨⟨e, by simp [settle, Draft.addError], fault⟩, short⟩
    | failed _ => exact .inr rfl
    | read _ _ => exact .inr rfl

/-- A body is read alike with two grammars, unless the limited one meets its limit. -/
theorem readBody_limited {limit budget : Nat} {l g : Grammar}
    (h : Grammar.Limited ⟨limit, budget, 0⟩ l g) (d : Draft) (s : Cursor)
    (enough : 4 * s.rest.length + 4 ≤ budget) :
    (readBody l d s).1.MeetsLimit limit ∧ limit < budget ∨ readBody l d s = readBody g d s := by
  induction hn : s.rest.length using Nat.strongRecOn generalizing d s with
  | ind n ih =>
      by_cases ended : s.atEnd = true
      · refine .inr ?_
        rw [readBody, readBody, if_pos ended, if_pos ended]
      · rcases readStep_limited h d s enough with ⟨met, short⟩ | same
        · exact .inl ⟨met.extends (readStep_extends l d ended), short⟩
        · rw [readBody, readBody, if_neg ended, if_neg ended, same]
          dsimp only
          split
          · next shorter => exact ih _ (hn ▸ shorter) _ _ (by omega) rfl
          · exact .inr rfl

theorem departs_readStatement {b : Bounds} {w l g : Grammar} (h : Grammar.Misleads b w l g)
    (d : Draft) :
    Departs b 4 (fun d d' => Apart List.IsPrefix d.body d'.body) (readStatement w d)
      (readStatement (w.misled l) d) (readStatement g d) := by
  refine .of fun credit s enough => .peek ?_
  extract_lets next next' next''
  have tail : ∀ r, Parts b credit (fun _ => credit)
      (fun d d' => Apart List.IsPrefix d.body d'.body) s (next r) (next' r) (next'' r) := by
    intro r
    refine h.statement.bind enough (fun statement s => ?_)
      (fun statement d' => d'.body = d.body ++ [statement]) (fun statement => ?_) ?_
    · split
      · exact parts_pure (by omega)
      · exact fun _ _ => .failed
    · split
      · next added => exact keeps_pure (Draft.body_addStatement added)
      · exact ⟨fun _ _ _ run => (nomatch run), fun _ _ _ run => (nomatch run)⟩
    · intro statement statement' d₁ d₂ ne body body'
      rw [body, body']
      exact apart_append ne
  split
  · exact fun _ _ => .failed
  · exact tail ()

/-- A statement is read alike with all grammars, if the limit is not met and does not mislead. -/
theorem readStep_misled {limit budget : Nat} {w l g : Grammar}
    (h : Grammar.Misleads ⟨limit, budget, 0⟩ w l g) (d : Draft) (s : Cursor)
    (enough : 4 * s.rest.length + 4 ≤ budget) :
    (readStep (w.misled l) d s).1.MeetsLimit limit ∨
      (readStep (w.misled l) d s).1.Differs (readStep g d s).1 ∨
      readStep w d s = readStep (w.misled l) d s ∧
        readStep (w.misled l) d s = readStep g d s := by
  unfold readStep
  split
  · exact .inr (.inr ⟨rfl, rfl⟩)
  · have ends := departs_readStatement h d 4 { s with depth := 0 } (Nat.le_refl 4) rfl
      (by simp only; omega)
    generalize readStatement w d { s with depth := 0 } = x at ends ⊢
    generalize readStatement (w.misled l) d { s with depth := 0 } = y at ends ⊢
    generalize readStatement g d { s with depth := 0 } = z at ends ⊢
    cases ends with
    | @limited x e s' z fault => exact .inl ⟨e, by simp [settle, Draft.addError], fault⟩
    | failed => exact .inr (.inr ⟨rfl, rfl⟩)
    | read _ _ => exact .inr (.inr ⟨rfl, rfl⟩)
    | misled stray =>
        refine .inr (.inl ?_)
        cases y with
        | error e s₁ => exact .inl (by simp [settle, Draft.addError])
        | ok d₁ s₁ =>
            cases z with
            | error e s₂ => exact .inr (.inl (by simp [settle, Draft.addError]))
            | ok d₂ s₂ => exact .inr (.inr (stray d₁ s₁ d₂ s₂ rfl rfl))

/-- A body is read alike with all grammars, if the limit is not met and does not mislead. -/
theorem readBody_misled {limit budget : Nat} {w l g : Grammar}
    (h : Grammar.Misleads ⟨limit, budget, 0⟩ w l g) (d : Draft) (s : Cursor)
    (enough : 4 * s.rest.length + 4 ≤ budget) :
    (readBody (w.misled l) d s).1.MeetsLimit limit ∨
      (readBody (w.misled l) d s).1.Differs (readBody g d s).1 ∨
      readBody w d s = readBody (w.misled l) d s := by
  induction hn : s.rest.length using Nat.strongRecOn generalizing d s with
  | ind n ih =>
      by_cases ended : s.atEnd = true
      · refine .inr (.inr ?_)
        rw [readBody, readBody, if_pos ended, if_pos ended]
      · rcases readStep_misled h d s enough with met | differs | ⟨same, same'⟩
        · exact .inl (met.extends (readStep_extends _ d ended))
        · refine .inr (.inl (differs.extends ?_ (readStep_extends g d ended)))
          exact readStep_extends _ d ended
        · rw [readBody, readBody, readBody, if_neg ended, if_neg ended, if_neg ended, same, same']
          dsimp only
          split
          · next shorter => exact ih _ (hn ▸ shorter) _ _ (by omega) rfl
          · exact .inr (.inr rfl)

/-- The state in which the statements of a program are read, after its imports. -/
def Draft.afterImports (tokens : List Token) : Draft × Cursor :=
  readImports .empty (.ofTokens tokens)

namespace Program

/-- More levels than the statements of a program can fill. -/
def levels (tokens : List Token) : Nat := 4 * (Draft.afterImports tokens).2.rest.length + 4

/-- Reads a program without a nesting limit. -/
def parseUnlimited (tokens : List Token) : Except (List SyntaxError) Program :=
  parse (levels tokens) tokens

/-- What a program is found to be with the grammar that is watchful. -/
def watched (limit : Nat) (tokens : List Token) : Draft :=
  (Draft.read (.watchful limit (limit + 1)) tokens).1

theorem read_watchful {limit limit' : Nat} (tokens : List Token) (more : limit ≤ limit')
    (other : limit' = limit ∨ levels tokens ≤ limit') :
    (watched limit tokens).MeetsLimit limit ∧ limit < levels tokens ∨
      watched limit tokens = (Draft.read (.ofLimit limit') tokens).1 := by
  have limited : Grammar.Limited ⟨limit, levels tokens, 0⟩ (.watchful limit (limit + 1))
      (.ofLimit limit') := by
    refine Grammar.limited_watchful (Nat.zero_le _) (by omega) (by omega) more ?_
    rcases other with rfl | other
    · exact .inl ⟨rfl, rfl⟩
    · exact .inr other
  rcases readBody_limited limited (Draft.afterImports tokens).1 (Draft.afterImports tokens).2
    (Nat.le_refl _) with met | same
  · exact .inl met
  · exact .inr (congrArg Prod.fst same)

/-- More levels than a program can fill change nothing. -/
theorem parse_of_levels {limit : Nat} {tokens : List Token} (enough : levels tokens ≤ limit) :
    parse limit tokens = parseUnlimited tokens := by
  have same : (Draft.read (.ofLimit limit) tokens).1
      = (Draft.read (.ofLimit (levels tokens)) tokens).1 := by
    rcases read_watchful tokens enough (.inr enough) with ⟨_, short⟩ | far
    · exact absurd short (Nat.lt_irrefl _)
    · rcases read_watchful tokens (Nat.le_refl (levels tokens)) (.inl rfl) with ⟨_, short⟩ | near
      · exact absurd short (Nat.lt_irrefl _)
      · exact far.symm.trans near
  unfold parseUnlimited parse
  rw [same]

/-- A program is rejected because the nesting limit was met. -/
def ReportsLimit (limit : Nat) (tokens : List Token) : Prop :=
  ∃ errors, parse limit tokens = .error errors ∧ ∃ e ∈ errors, e.fault = .recursionLimit limit

/--
The nesting limit is met only while a declaration that is there is looked for ahead, so that it is
not reported and an expression is read instead.
-/
def Misled (limit : Nat) (tokens : List Token) : Prop :=
  (watched limit tokens).MeetsLimit limit ∧ ¬ ReportsLimit limit tokens

theorem reportsLimit_of_meetsLimit {limit : Nat} {tokens : List Token}
    (h : (Draft.read (.ofLimit limit) tokens).1.MeetsLimit limit) : ReportsLimit limit tokens := by
  refine ⟨_, ?_, h⟩
  obtain ⟨e, reported, _⟩ := h
  unfold parse
  rw [if_neg]
  exact fun none => List.ne_nil_of_mem reported (List.isEmpty_iff.mp none)

theorem eq_of_parse_ok {limit : Nat} {tokens : List Token} {p : Program}
    (h : parse limit tokens = .ok p) :
    (Draft.read (.ofLimit limit) tokens).1.errors = [] ∧
      (Draft.read (.ofLimit limit) tokens).1.body = p.body := by
  unfold parse at h
  dsimp only at h
  split at h
  · next none =>
      cases h
      exact ⟨List.isEmpty_iff.mp none, rfl⟩
  · cases h

/-- What is misled is read as something else than without a limit. -/
theorem Misled.differs {limit : Nat} {tokens : List Token} (h : Misled limit tokens) :
    (Draft.read (.ofLimit limit) tokens).1.Differs
      (Draft.read (.ofLimit (levels tokens)) tokens).1 := by
  obtain ⟨met, silent⟩ := h
  -- A limit that leaves room for all tokens is met by nothing.
  have short : limit < levels tokens := by
    rcases read_watchful tokens (Nat.le_refl limit) (.inl rfl) with ⟨_, short⟩ | same
    · exact short
    · exact absurd (reportsLimit_of_meetsLimit (same ▸ met)) silent
  have misleads : Grammar.Misleads ⟨limit, levels tokens, 0⟩ (.watchful limit (limit + 1))
      (.ofLimit limit) (.ofLimit (levels tokens)) :=
    Grammar.misleads_watchful (Nat.zero_le _) (by omega) (by omega) (by omega) (Nat.le_refl _)
  have ways := readBody_misled misleads (Draft.afterImports tokens).1 (Draft.afterImports tokens).2
    (Nat.le_refl _)
  rw [Grammar.ofLimit, ← Grammar.ofLevels_eq_misled] at ways
  rcases ways with reported | differs | same
  · exact absurd (reportsLimit_of_meetsLimit reported) silent
  · exact differs
  · exact absurd (reportsLimit_of_meetsLimit ((congrArg Prod.fst same) ▸ met)) silent

theorem Misled.ne {limit : Nat} {tokens : List Token} {p : Program} (h : Misled limit tokens)
    (accepted : parse limit tokens = .ok p) : parseUnlimited tokens ≠ .ok p := by
  intro accepted'
  obtain ⟨none, body⟩ := eq_of_parse_ok accepted
  obtain ⟨none', body'⟩ := eq_of_parse_ok accepted'
  rcases h.differs with some | some | ways
  · exact some none
  · exact some none'
  · rw [body, body'] at ways
    exact ways p.body List.prefix_rfl List.prefix_rfl

/-- A limit that is not met is not seen. -/
theorem parse_of_not_misled {limit : Nat} {tokens : List Token} (h : ¬ Misled limit tokens)
    (silent : ¬ ReportsLimit limit tokens) : parse limit tokens = parseUnlimited tokens := by
  have unmet : ¬ (watched limit tokens).MeetsLimit limit := fun met => h ⟨met, silent⟩
  have near : watched limit tokens = (Draft.read (.ofLimit limit) tokens).1 :=
    (read_watchful tokens (Nat.le_refl limit) (.inl rfl)).resolve_left fun h => unmet h.1
  rcases Nat.le_total (levels tokens) limit with enough | short
  · exact parse_of_levels enough
  · have far : watched limit tokens = (Draft.read (.ofLimit (levels tokens)) tokens).1 :=
      (read_watchful tokens short (.inr (Nat.le_refl _))).resolve_left fun h => unmet h.1
    unfold parseUnlimited parse
    rw [← near, ← far]

/--
A nesting limit is reported, or it does not matter, or it misleads the test for a declaration. The
parse without a limit is the one with any limit that is large enough. Where one of the two parses
yields a program, being misled is all that can go wrong, and it always does.
-/
theorem parse_limited (limit : Nat) (tokens : List Token) :
    (∀ more, levels tokens ≤ more → parse more tokens = parseUnlimited tokens) ∧
      (ReportsLimit limit tokens ∨ parse limit tokens = parseUnlimited tokens ∨
        Misled limit tokens) ∧
      ∀ p, parse limit tokens = .ok p ∨ parseUnlimited tokens = .ok p →
        (Misled limit tokens ↔
          ¬ (ReportsLimit limit tokens ∨ parse limit tokens = parseUnlimited tokens)) := by
  refine ⟨fun more enough => parse_of_levels enough, ?_, fun p accepted => ⟨fun misled => ?_, ?_⟩⟩
  · by_cases reported : ReportsLimit limit tokens
    · exact .inl reported
    · by_cases misled : Misled limit tokens
      · exact .inr (.inr misled)
      · exact .inr (.inl (parse_of_not_misled misled reported))
  · rintro (reported | same)
    · exact misled.2 reported
    · rcases accepted with accepted | accepted
      · exact misled.ne accepted (same ▸ accepted)
      · exact misled.ne (same.trans accepted) accepted
  · intro neither
    by_cases misled : Misled limit tokens
    · exact misled
    · have same := parse_of_not_misled misled fun reported => neither (.inl reported)
      exact absurd (.inr same) neither

-- With seven levels what declares `x` is accepted as a comparison, in which nothing is declared.
example :
    let tokens := (Scan.ofText "A<B<C<D<E<(F)>>>[]>> x;").tokens
    let names (r : Except (List SyntaxError) Program) :=
      r.toOption.map fun p => p.body.flatMap fun s => s.declaredNames.map (·.text)
    names (parseUnlimited tokens) = some ["x"] ∧ names (parse 7 tokens) = some [] := by
  decide +kernel

end Program
end ScriptFront
