import ScriptFront.Grammar.Level

/-!
Parsers in front of more tokens. What a parser leaves ends with a semicolon or a closing brace as
long as it is inside a statement; then no decision of it reaches past this token, and more tokens
behind the ones it was given change nothing. What the parsers read is left open.
-/

namespace ScriptFront

/-- The tokens that a statement may end with. -/
def TokenKind.closes : TokenKind → Bool
  | .semicolon | .closeCurly => true
  | _ => false

theorem TokenKind.closes_iff {k : TokenKind} :
    k.closes = true ↔ k = .semicolon ∨ k = .closeCurly := by
  cases k <;> simp [closes]

/-- Tokens that end like a statement. -/
def Enclosed (ts : List Token) : Prop := ∃ init t, ts = init ++ [t] ∧ t.kind.closes = true

/-- No tokens, or tokens that end like a statement. -/
def Settled (ts : List Token) : Prop := ts = [] ∨ Enclosed ts

theorem Enclosed.ne_nil {ts : List Token} (h : Enclosed ts) : ts ≠ [] := by
  obtain ⟨init, t, rfl, _⟩ := h
  simp

theorem Enclosed.append (init : List Token) {ts : List Token} (h : Enclosed ts) :
    Enclosed (init ++ ts) := by
  obtain ⟨us, t, rfl, closes⟩ := h
  exact ⟨init ++ us, t, by simp, closes⟩

theorem Enclosed.of_suffix {ts us : List Token} (h : Enclosed ts) (suffix : ts <:+ us) :
    Enclosed us := by
  obtain ⟨init, rfl⟩ := suffix
  exact h.append init

/-- What follows the tokens that a parser was given, up to the position of the end of file. -/
structure Sequel where
  tokens : List Token
  stop : Ending

/-- The cursor at the tokens that follow. -/
def Sequel.start (m : Sequel) : Cursor := ⟨m.tokens, m.stop, 0⟩

namespace Cursor

variable {s s' : Cursor} {m : Sequel}

/-- The cursor in front of more tokens. -/
def before (s : Cursor) (m : Sequel) : Cursor := ⟨s.rest ++ m.tokens, m.stop, s.depth⟩

theorem peekAt_before {n : Nat} (h : n < s.rest.length) (m : Sequel) :
    (s.before m).peekAt n = s.peekAt n := by
  simp only [peekAt, before, List.getElem?_append_left h, List.getElem?_eq_getElem h,
    Option.getD_some]

theorem peek_before (h : s.rest ≠ []) (m : Sequel) : (s.before m).peek = s.peek :=
  peekAt_before (List.length_pos_iff.mpr h) m

theorem peek_before_nil (h : s.rest = []) (m : Sequel) : (s.before m).peek = m.start.peek := by
  simp [peek, peekAt, before, Sequel.start, h]

theorem atEnd_before (h : s.rest ≠ []) (m : Sequel) : (s.before m).atEnd = s.atEnd := by
  have more := List.append_ne_nil_of_left_ne_nil h m.tokens
  rw [atEnd, atEnd, before, List.isEmpty_eq_false_iff.mpr more, List.isEmpty_eq_false_iff.mpr h]

theorem advance_before (h : s.rest ≠ []) (m : Sequel) :
    (s.before m).advance = s.advance.before m := by
  simp [advance, before, List.tail_append_of_ne_nil h]

theorem suffix_advance (s : Cursor) : s.advance.rest <:+ s.rest := List.tail_suffix s.rest

theorem rest_of_peek (h : s.peek.kind ≠ .eof) : s.rest = s.peek :: s.advance.rest := by
  obtain ⟨rest, stop, depth⟩ := s
  cases rest with
  | nil => exact absurd rfl h
  | cons t ts => rfl

theorem rest_ne_nil (h : s.peek.kind ≠ .eof) : s.rest ≠ [] :=
  fun none_ => List.cons_ne_nil _ _ ((rest_of_peek h).symm.trans none_)

theorem peekAt_advance (h : s.rest ≠ []) (n : Nat) : s.advance.peekAt n = s.peekAt (n + 1) := by
  obtain ⟨t, ts, rest⟩ := List.exists_cons_of_ne_nil h
  simp [peekAt, advance, rest]

/-- Tokens that close nothing are not the last ones. -/
theorem length_of_opens (h : Enclosed s.rest) {n : Nat}
    (opens : ∀ i < n, (s.peekAt i).kind.closes = false) : n < s.rest.length := by
  obtain ⟨init, t, rest, closes⟩ := h
  refine Nat.lt_of_not_le fun long => ?_
  have last : s.peekAt init.length = t := by simp [peekAt, rest]
  have open_ := opens init.length (by simp [rest] at long; omega)
  rw [last, closes] at open_
  exact Bool.false_ne_true open_.symm

theorem length_of_open (h : Enclosed s.rest) (opens : s.peek.kind.closes = false) :
    1 < s.rest.length :=
  length_of_opens h fun i less => by rwa [Nat.lt_one_iff.mp less]

theorem enclosed_advance (h : Enclosed s.rest) (opens : s.peek.kind.closes = false) :
    Enclosed s.advance.rest := by
  obtain ⟨init, t, rest, closes⟩ := h
  obtain ⟨ts, stop, depth⟩ := s
  cases rest
  cases init with
  | nil => exact absurd (opens.symm.trans closes) Bool.false_ne_true
  | cons u us => exact ⟨us, t, rfl, closes⟩

/-- The tokens between two cursors end like a statement. -/
def Closes (s s' : Cursor) : Prop :=
  ∃ init t, s.rest = init ++ t :: s'.rest ∧ t.kind.closes = true

theorem Closes.suffix (h : s.Closes s') : s'.rest <:+ s.rest := by
  obtain ⟨init, t, rest, _⟩ := h
  exact ⟨init ++ [t], by simp [rest]⟩

theorem Closes.of_suffix {s₀ : Cursor} (suffix : s.rest <:+ s₀.rest) (h : s.Closes s') :
    s₀.Closes s' := by
  obtain ⟨init, t, rest, closes⟩ := h
  obtain ⟨us, rest₀⟩ := suffix
  exact ⟨us ++ init, t, by rw [← rest₀, rest, List.append_assoc], closes⟩

/-- What closes a statement and what comes after it close one together. -/
theorem Closes.trans {s₁ : Cursor} (h : s.Closes s₁) (h' : s'.rest = s₁.rest ∨ s₁.Closes s') :
    s.Closes s' := by
  cases h' with
  | inl same =>
      obtain ⟨init, t, rest, closes⟩ := h
      exact ⟨init, t, by rw [rest, same], closes⟩
  | inr closes => exact closes.of_suffix h.suffix

theorem Closes.enclosed (h : s.Closes s') (settled : Settled s'.rest) : Enclosed s.rest := by
  obtain ⟨init, t, rest, closes⟩ := h
  cases settled with
  | inl done => exact ⟨init, t, by rw [rest, done], closes⟩
  | inr enclosed =>
      rw [rest]
      exact (enclosed.append [t]).append init

end Cursor

namespace Parser

variable {α β : Type}

/-- The outcome of a parser in front of more tokens. -/
def before (m : Sequel) : EStateM.Result SyntaxError Cursor α → EStateM.Result SyntaxError Cursor α
  | .ok a s => .ok a (s.before m)
  | .error e s => .error e (s.before m)

/-- A parser that reads the same with more tokens at the end, unless it gets there. -/
def Local (m : Sequel) (p : Parser α) : Prop :=
  ∀ s a s', p s = .ok a s' →
    s'.rest <:+ s.rest ∧ (Enclosed s'.rest → p (s.before m) = .ok a (s'.before m))

/-- From a cursor on, a parser neither reads a last token nor looks past it. -/
def Sure (m : Sequel) (s : Cursor) (p : Parser α) : Prop :=
  (∀ a s', p s = .ok a s' → s'.rest <:+ s.rest) ∧
    (Enclosed s.rest →
      p (s.before m) = before m (p s) ∧ ∀ a s', p s = .ok a s' → Enclosed s'.rest)

/-- A parser that reads up to a token that closes a statement and does not look further. -/
def Whole (m : Sequel) (p : Parser α) : Prop :=
  ∀ s a s', p s = .ok a s' →
    s.Closes s' ∧ (Settled s'.rest → p (s.before m) = .ok a (s'.before m))

/-- A parser that reads nothing, or else up to a token that closes a statement. -/
def Tail (m : Sequel) (p : Parser α) : Prop :=
  ∀ s a s', p s = .ok a s' →
    (s'.rest = s.rest ∨ s.Closes s') ∧ (Settled s'.rest → p (s.before m) = .ok a (s'.before m))

variable {m : Sequel} {s : Cursor} {p : Parser α} {f : α → Parser β}

theorem bind_eq_ok {b : β} {s' : Cursor} :
    (p >>= f) s = .ok b s' ↔ ∃ a s₁, p s = .ok a s₁ ∧ f a s₁ = .ok b s' := by
  change EStateM.bind p f s = _ ↔ _
  cases run : p s with
  | error e s₁ => simp [EStateM.bind, run]
  | ok a s₁ =>
      simp only [EStateM.bind, run]
      constructor
      · exact fun next => ⟨a, s₁, rfl, next⟩
      · rintro ⟨_, _, ⟨⟩, next⟩
        exact next

theorem bind_of_ok {a : α} {s₁ : Cursor} (h : p s = .ok a s₁) : (p >>= f) s = f a s₁ := by
  change EStateM.bind p f s = _
  simp only [EStateM.bind, h]

theorem iterate_of_error {step : α → Parser (ForInStep α)} {a : α} {e : SyntaxError} {s' : Cursor}
    (h : step a s = .error e s') : iterate step a s = .error e s' := by
  rw [iterate, h]

theorem iterate_of_done {step : α → Parser (ForInStep α)} {a b : α} {s' : Cursor}
    (h : step a s = .ok (.done b) s') : iterate step a s = .ok b s' := by
  rw [iterate, h]

theorem iterate_of_yield {step : α → Parser (ForInStep α)} {a b : α} {s' : Cursor}
    (h : step a s = .ok (.yield b) s') :
    iterate step a s =
      if s'.rest.length < s.rest.length then iterate step b s' else .ok b s' := by
  rw [iterate, h]

/-- A round that has read a token is followed by the others. -/
theorem iterate_of_round {step : α → Parser (ForInStep α)} {a b : α} {s' : Cursor}
    (h : step a s = .ok (.yield b) s') (shorter : s'.rest.length < s.rest.length) :
    iterate step a s = iterate step b s' :=
  (iterate_of_yield h).trans (if_pos shorter)

/-! ### Local parsers -/

theorem local_pure (a : α) : Local m (pure a : Parser α) := by
  intro s a' s' run
  cases run
  exact ⟨List.suffix_rfl, fun _ => rfl⟩

theorem Local.bind (hp : Local m p) (hf : ∀ a, Local m (f a)) : Local m (p >>= f) := by
  intro s b s' run
  obtain ⟨a, s₁, first, second⟩ := bind_eq_ok.mp run
  have near := hp s a s₁ first
  have far := hf a s₁ b s' second
  refine ⟨far.1.trans near.1, fun enclosed => bind_eq_ok.mpr ⟨a, s₁.before m, ?_, far.2 enclosed⟩⟩
  exact near.2 (enclosed.of_suffix far.1)

theorem Local.map (hp : Local m p) (g : α → β) : Local m (g <$> p) := by
  rw [map_eq_pure_bind]
  exact hp.bind fun a => local_pure (g a)

theorem local_fail (fault : SyntaxFault) (place : Location) :
    Local m (fail fault place : Parser α) := fun _ _ _ run => nomatch run

theorem local_broken (rule : GrammarRule) (place : Location) :
    Local m (broken rule place : Parser α) := local_fail _ _

theorem local_unexpected (t : Token) (expected : String) :
    Local m (unexpected t expected : Parser α) := local_fail _ _

/-- A look at the tokens ahead that what comes after the last token does not change. -/
theorem local_get {f : Cursor → Parser β} (same : ∀ s, Enclosed s.rest → f (s.before m) = f s)
    (h : ∀ c, Local m (f c)) : Local m (get >>= f) := by
  intro s b s' run
  have there := h s s b s' run
  refine ⟨there.1, fun enclosed => ?_⟩
  change f (s.before m) (s.before m) = _
  rw [same s (enclosed.of_suffix there.1)]
  exact there.2 enclosed

theorem local_peekAt {n : Nat} {f : Token → Token → Parser β}
    (same : ∀ s : Cursor, Enclosed s.rest →
      f s.peek ((s.before m).peekAt n) = f s.peek (s.peekAt n))
    (h : ∀ t u, Local m (f t u)) : Local m (peek >>= fun t => peekAt n >>= f t) := by
  refine local_get (f := fun s => f s.peek (s.peekAt n)) (fun s enclosed => ?_) fun c => h _ _
  rw [Cursor.peek_before enclosed.ne_nil, same s enclosed]

theorem local_peek : Local m peek := by
  intro s a s' run
  cases run
  exact ⟨List.suffix_rfl, fun enclosed => by rw [peek, Cursor.peek_before enclosed.ne_nil]⟩

theorem local_here : Local m here := by
  intro s a s' run
  cases run
  exact ⟨List.suffix_rfl, fun enclosed => by rw [here, Cursor.peek_before enclosed.ne_nil]⟩

theorem local_check (k : TokenKind) : Local m (check k) := by
  intro s a s' run
  cases run
  exact ⟨List.suffix_rfl, fun enclosed => by rw [check, Cursor.peek_before enclosed.ne_nil]⟩

theorem local_atEnd : Local m atEnd := by
  intro s a s' run
  cases run
  exact ⟨List.suffix_rfl, fun enclosed => by rw [atEnd, Cursor.atEnd_before enclosed.ne_nil]⟩

theorem local_advance : Local m advance := by
  intro s a s' run
  cases run
  refine ⟨s.suffix_advance, fun enclosed => ?_⟩
  have more := (enclosed.of_suffix s.suffix_advance).ne_nil
  rw [advance, Cursor.peek_before more, Cursor.advance_before more]

theorem local_advances (n : Nat) :
    Local m (modify (Nat.repeat Cursor.advance n) : Parser Unit) := by
  have run : ∀ n (s : Cursor), (Nat.repeat Cursor.advance n s).rest <:+ s.rest ∧
      (Enclosed (Nat.repeat Cursor.advance n s).rest →
        Nat.repeat Cursor.advance n (s.before m) = (Nat.repeat Cursor.advance n s).before m) := by
    intro n s
    induction n with
    | zero => exact ⟨List.suffix_rfl, fun _ => rfl⟩
    | succ n ih =>
        have last := (Nat.repeat Cursor.advance n s).suffix_advance
        refine ⟨last.trans ih.1, fun enclosed => ?_⟩
        have more := enclosed.of_suffix last
        simp only [Nat.repeat, ih.2 more, Cursor.advance_before more.ne_nil]
  intro s a s' read
  cases read
  exact ⟨(run n s).1, fun enclosed => congrArg (EStateM.Result.ok _) ((run n s).2 enclosed)⟩

theorem local_accept (k : TokenKind) : Local m (accept k) := by
  intro s a s' run
  by_cases next : s.peek.kind == k
  · simp only [accept, next, if_true] at run
    cases run
    refine ⟨s.suffix_advance, fun enclosed => ?_⟩
    have more := (enclosed.of_suffix s.suffix_advance).ne_nil
    simp only [accept, Cursor.peek_before more, next, if_true, Cursor.advance_before more]
  · simp only [accept, next] at run
    cases run
    refine ⟨List.suffix_rfl, fun enclosed => ?_⟩
    simp [accept, Cursor.peek_before enclosed.ne_nil, next]

theorem local_expect (k : TokenKind) (expected : String) : Local m (expect k expected) := by
  intro s a s' run
  by_cases next : s.peek.kind == k
  · simp only [expect, next, if_true] at run
    cases run
    refine ⟨s.suffix_advance, fun enclosed => ?_⟩
    have more := (enclosed.of_suffix s.suffix_advance).ne_nil
    simp only [expect, Cursor.peek_before more, next, if_true, Cursor.advance_before more]
  · simp [expect, next] at run

theorem local_name (expected : String) : Local m (name expected) :=
  (local_expect _ _).bind fun _ => local_pure _

theorem local_nested (limit : Nat) (hp : Local m p) : Local m (nested limit p) := by
  intro s a s' run
  by_cases reached : limit ≤ s.depth
  · simp [nested, reached] at run
  · simp only [nested, reached, if_false] at run
    cases read : p { s with depth := s.depth + 1 } with
    | error e s₁ => simp [read] at run
    | ok b s₁ =>
        simp only [read] at run
        cases run
        have inside := hp _ _ _ read
        refine ⟨inside.1, fun enclosed => ?_⟩
        have same := inside.2 enclosed
        simp only [Cursor.before] at same
        simp only [nested, Cursor.before, reached, if_false, same]

/-- The answer of a test on the tokens ahead. -/
def foreseen (test : Parser Bool) (s : Cursor) : Bool :=
  match test s with
  | .ok answer _ => answer
  | .error _ _ => false

theorem foresee_eq (test : Parser Bool) (s : Cursor) :
    foresee test s = .ok (foreseen test s) s := by
  cases run : test s <;> simp only [foresee, foreseen, run]

theorem Sure.foreseen {test : Parser Bool} (h : Sure m s test) (enclosed : Enclosed s.rest) :
    foreseen test (s.before m) = foreseen test s := by
  have same := (h.2 enclosed).1
  cases run : test s <;> simp only [Parser.foreseen, same, run, before]

/-- A test ahead has the same answer wherever it could not look past the last token. -/
theorem local_foresee {test : Parser Bool} (h : ∀ s, Sure m s test) : Local m (foresee test) := by
  intro s a s' run
  rw [foresee_eq] at run
  cases run
  exact ⟨List.suffix_rfl, fun enclosed => by rw [foresee_eq, (h s).foreseen enclosed]⟩

/-- A test ahead that counts only where a token of a kind is next. -/
theorem local_check_foresee {k : TokenKind} {test : Parser Bool} {f : Bool → Bool → Parser β}
    (h : ∀ s, s.peek.kind = k → Sure m s test) (same : ∀ b c, f false b = f false c)
    (hf : ∀ a b, Local m (f a b)) : Local m (check k >>= fun a => foresee test >>= f a) := by
  have eq : (check k >>= fun a => foresee test >>= f a)
      = get >>= fun s => f (s.peek.kind == k) (foreseen test s) := by
    funext s
    change EStateM.bind (foresee test) _ s = _
    simp only [EStateM.bind, foresee_eq]
    rfl
  rw [eq]
  refine local_get (fun s enclosed => ?_) fun c => hf _ _
  rw [Cursor.peek_before enclosed.ne_nil]
  by_cases next : s.peek.kind = k
  · rw [(h s next).foreseen enclosed]
  · rw [beq_eq_false_iff_ne.mpr next]
    exact same _ _

theorem local_iterate {step : α → Parser (ForInStep α)} (h : ∀ a, Local m (step a)) (a : α) :
    Local m (iterate step a) := by
  intro s c s' run
  induction hn : s.rest.length using Nat.strongRecOn generalizing a s with
  | ind n ih =>
      cases first : step a s with
      | error e s₁ => exact nomatch (iterate_of_error first).symm.trans run
      | ok r s₁ =>
          have near := h a s r s₁ first
          cases r with
          | done b =>
              rw [iterate_of_done first] at run
              cases run
              exact ⟨near.1, fun enclosed => iterate_of_done (near.2 enclosed)⟩
          | yield b =>
              rw [iterate_of_yield first] at run
              by_cases shorter : s₁.rest.length < s.rest.length
              · rw [if_pos shorter] at run
                have far := ih _ (hn ▸ shorter) b s₁ run rfl
                refine ⟨far.1.trans near.1, fun enclosed => ?_⟩
                rw [iterate_of_yield (near.2 (enclosed.of_suffix far.1)), if_pos]
                · exact far.2 enclosed
                · simpa [Cursor.before] using shorter
              · rw [if_neg shorter] at run
                cases run
                refine ⟨near.1, fun enclosed => ?_⟩
                rw [iterate_of_yield (near.2 enclosed), if_neg]
                simpa [Cursor.before] using shorter

theorem local_commaSeparated (hp : Local m p) : Local m (commaSeparated p) := by
  refine hp.bind fun first => (local_iterate (fun as => ?_) []).bind fun others => local_pure _
  refine (local_accept _).bind fun comma => ?_
  split
  · exact hp.bind fun a => local_pure _
  · exact local_pure _

/-! ### Parsers that never read a last token -/

theorem sure_of_ok (a : α) (s₁ : Cursor) (run : p s = .ok a s₁) (suffix : s₁.rest <:+ s.rest)
    (same : Enclosed s.rest → p (s.before m) = .ok a (s₁.before m))
    (inside : Enclosed s.rest → Enclosed s₁.rest) : Sure m s p := by
  refine ⟨fun a' s' other => ?_, fun enclosed => ⟨?_, fun a' s' other => ?_⟩⟩
  · cases run.symm.trans other
    exact suffix
  · rw [run, same enclosed, before]
  · cases run.symm.trans other
    exact inside enclosed

theorem sure_of_error (e : SyntaxError) (s₁ : Cursor) (run : p s = .error e s₁)
    (same : Enclosed s.rest → p (s.before m) = .error e (s₁.before m)) : Sure m s p := by
  refine ⟨fun a' s' other => ?_, fun enclosed => ⟨?_, fun a' s' other => ?_⟩⟩
  · cases run.symm.trans other
  · rw [run, same enclosed, before]
  · cases run.symm.trans other

theorem Sure.of_ok {a : α} {s₁ : Cursor} (h : Sure m s p) (run : p s = .ok a s₁)
    (enclosed : Enclosed s.rest) : p (s.before m) = .ok a (s₁.before m) := by
  rw [(h.2 enclosed).1, run, before]

theorem Sure.of_error {e : SyntaxError} {s₁ : Cursor} (h : Sure m s p) (run : p s = .error e s₁)
    (enclosed : Enclosed s.rest) : p (s.before m) = .error e (s₁.before m) := by
  rw [(h.2 enclosed).1, run, before]

theorem Sure.local_ (h : ∀ s, Sure m s p) : Local m p := by
  intro s a s' run
  have suffix := (h s).1 a s' run
  exact ⟨suffix, fun enclosed => (h s).of_ok run (enclosed.of_suffix suffix)⟩

theorem sure_pure (a : α) : Sure m s (pure a : Parser α) :=
  sure_of_ok a s rfl List.suffix_rfl (fun _ => rfl) id

theorem Sure.and_then (hp : Sure m s p) (hf : ∀ a s₁, p s = .ok a s₁ → Sure m s₁ (f a)) :
    Sure m s (p >>= f) := by
  cases first : p s with
  | error e s₁ =>
      refine sure_of_error e s₁ ?_ fun enclosed => ?_
      · change EStateM.bind p f s = _
        simp only [EStateM.bind, first]
      · change EStateM.bind p f (s.before m) = _
        simp only [EStateM.bind, hp.of_error first enclosed]
  | ok a s₁ =>
      have next := hf a s₁ first
      have inside := fun enclosed => (hp.2 enclosed).2 a s₁ first
      have rest : (p >>= f) s = f a s₁ := by
        change EStateM.bind p f s = _
        simp only [EStateM.bind, first]
      have rest' : Enclosed s.rest → (p >>= f) (s.before m) = f a (s₁.before m) := by
        intro enclosed
        change EStateM.bind p f (s.before m) = _
        simp only [EStateM.bind, hp.of_ok first enclosed]
      cases second : f a s₁ with
      | error e s₂ =>
          refine sure_of_error e s₂ (rest.trans second) fun enclosed => ?_
          exact (rest' enclosed).trans (next.of_error second (inside enclosed))
      | ok b s₂ =>
          refine sure_of_ok b s₂ (rest.trans second) ?_ (fun enclosed => ?_) fun enclosed => ?_
          · exact (next.1 b s₂ second).trans (hp.1 a s₁ first)
          · exact (rest' enclosed).trans (next.of_ok second (inside enclosed))
          · exact (next.2 (inside enclosed)).2 b s₂ second

theorem Sure.bind (hp : Sure m s p) (hf : ∀ a s₁, Sure m s₁ (f a)) : Sure m s (p >>= f) :=
  hp.and_then fun a s₁ _ => hf a s₁

theorem sure_unexpected (t : Token) (expected : String) :
    Sure m s (unexpected t expected : Parser α) :=
  sure_of_error _ s rfl fun _ => rfl

theorem sure_peek {f : Token → Parser β} (h : Sure m s (f s.peek)) : Sure m s (peek >>= f) := by
  refine ⟨h.1, fun enclosed => ⟨?_, (h.2 enclosed).2⟩⟩
  change f (s.before m).peek (s.before m) = _
  rw [Cursor.peek_before enclosed.ne_nil]
  exact (h.2 enclosed).1

theorem sure_check {k : TokenKind} {f : Bool → Parser β}
    (h : Sure m s (f (s.peek.kind == k))) : Sure m s (check k >>= f) :=
  sure_peek (f := fun t => f (t.kind == k)) h

theorem sure_peekAt {n : Nat} {f : Token → Parser β}
    (same : Enclosed s.rest → f ((s.before m).peekAt n) = f (s.peekAt n))
    (h : Sure m s (f (s.peekAt n))) : Sure m s (peekAt n >>= f) := by
  refine ⟨h.1, fun enclosed => ⟨?_, (h.2 enclosed).2⟩⟩
  change f ((s.before m).peekAt n) (s.before m) = _
  rw [same enclosed]
  exact (h.2 enclosed).1

theorem sure_advance (opens : s.peek.kind.closes = false) : Sure m s advance := by
  refine sure_of_ok s.peek s.advance rfl s.suffix_advance (fun enclosed => ?_) fun enclosed => ?_
  · simp only [advance, Cursor.peek_before enclosed.ne_nil, Cursor.advance_before enclosed.ne_nil]
  · exact Cursor.enclosed_advance enclosed opens

theorem sure_accept {k : TokenKind} (opens : k.closes = false) : Sure m s (accept k) := by
  by_cases next : s.peek.kind == k
  · refine sure_of_ok true s.advance ?_ s.suffix_advance (fun enclosed => ?_) ?_
    · simp only [accept, next, if_true]
    · simp only [accept, Cursor.peek_before enclosed.ne_nil, next, if_true,
        Cursor.advance_before enclosed.ne_nil]
    · exact fun enclosed => Cursor.enclosed_advance enclosed (by rw [beq_iff_eq.mp next, opens])
  · refine sure_of_ok false s ?_ List.suffix_rfl (fun enclosed => ?_) id
    · simp [accept, next]
    · simp [accept, Cursor.peek_before enclosed.ne_nil, next]

theorem sure_expect {k : TokenKind} (opens : k.closes = false) (expected : String) :
    Sure m s (expect k expected) := by
  by_cases next : s.peek.kind == k
  · refine sure_of_ok s.peek s.advance ?_ s.suffix_advance (fun enclosed => ?_) ?_
    · simp only [expect, next, if_true]
    · simp only [expect, Cursor.peek_before enclosed.ne_nil, next, if_true,
        Cursor.advance_before enclosed.ne_nil]
    · exact fun enclosed => Cursor.enclosed_advance enclosed (by rw [beq_iff_eq.mp next, opens])
  · refine sure_of_error ⟨.unexpected s.peek expected, s.peek.location⟩ s ?_
      fun enclosed => ?_
    · simp [expect, next]
    · simp [expect, Cursor.peek_before enclosed.ne_nil, next]

theorem sure_name (expected : String) : Sure m s (name expected) :=
  (sure_expect rfl _).bind fun _ _ => sure_pure _

theorem sure_nested (limit : Nat) (hp : ∀ s, Sure m s p) : Sure m s (nested limit p) := by
  by_cases reached : limit ≤ s.depth
  · refine sure_of_error ⟨.recursionLimit limit, s.peek.location⟩ s ?_
      fun enclosed => ?_
    · simp only [nested, reached, if_true]
    · have next := Cursor.peek_before enclosed.ne_nil m
      simp only [nested, Cursor.before, reached, if_true] at next ⊢
      rw [next]
  · have inside := hp { s with depth := s.depth + 1 }
    cases read : p { s with depth := s.depth + 1 } with
    | error e s₁ =>
        refine sure_of_error e { s₁ with depth := s₁.depth - 1 } ?_ fun enclosed => ?_
        · simp only [nested, reached, if_false, read]
        · have same := inside.of_error read enclosed
          simp only [Cursor.before] at same
          simp only [nested, Cursor.before, reached, if_false, same]
    | ok b s₁ =>
        refine sure_of_ok b { s₁ with depth := s₁.depth - 1 } ?_ ?_
          (fun enclosed => ?_) fun enclosed => ?_
        · simp only [nested, reached, if_false, read]
        · exact inside.1 b s₁ read
        · have same := inside.of_ok read enclosed
          simp only [Cursor.before] at same
          simp only [nested, Cursor.before, reached, if_false, same]
        · exact (inside.2 enclosed).2 b s₁ read

theorem sure_iterate {step : α → Parser (ForInStep α)} (h : ∀ a s, Sure m s (step a)) (a : α)
    (s : Cursor) : Sure m s (iterate step a) := by
  induction hn : s.rest.length using Nat.strongRecOn generalizing a s with
  | ind n ih =>
      cases first : step a s with
      | error e s₁ =>
          refine sure_of_error e s₁ (iterate_of_error first) fun enclosed => ?_
          exact iterate_of_error ((h a s).of_error first enclosed)
      | ok r s₁ =>
          have suffix := (h a s).1 r s₁ first
          have same := (h a s).of_ok first
          have inside := fun enclosed => ((h a s).2 enclosed).2 r s₁ first
          cases r with
          | done b =>
              refine sure_of_ok b s₁ (iterate_of_done first) suffix (fun enclosed => ?_) inside
              exact iterate_of_done (same enclosed)
          | yield b =>
              have again := fun enclosed => iterate_of_yield (same enclosed)
              have length : (s₁.before m).rest.length < (s.before m).rest.length ↔
                  s₁.rest.length < s.rest.length := by simp [Cursor.before]
              simp only [length] at again
              by_cases shorter : s₁.rest.length < s.rest.length
              · have far := ih _ (hn ▸ shorter) b s₁ rfl
                simp only [shorter, if_true] at again
                have run := iterate_of_yield first
                rw [if_pos shorter] at run
                cases second : iterate step b s₁ with
                | error e s₂ =>
                    refine sure_of_error e s₂ (run.trans second) fun enclosed => ?_
                    exact (again enclosed).trans (far.of_error second (inside enclosed))
                | ok c s₂ =>
                    refine sure_of_ok c s₂ (run.trans second) ?_ (fun enclosed => ?_)
                      fun enclosed => ?_
                    · exact (far.1 c s₂ second).trans suffix
                    · exact (again enclosed).trans (far.of_ok second (inside enclosed))
                    · exact (far.2 (inside enclosed)).2 c s₂ second
              · simp only [shorter, if_false] at again
                have run := iterate_of_yield first
                rw [if_neg shorter] at run
                exact sure_of_ok b s₁ run suffix again inside

theorem sure_commaSeparated (hp : ∀ s, Sure m s p) : Sure m s (commaSeparated p) := by
  refine (hp s).bind fun first s => (sure_iterate (fun as s => ?_) [] s).bind fun others s => ?_
  · refine (sure_accept rfl).bind fun comma s => ?_
    split
    · exact (hp s).bind fun a s => sure_pure _
    · exact sure_pure _
  · exact sure_pure _

/-! ### Parsers of whole statements -/

theorem Whole.local_ (hp : Whole m p) : Local m p := fun s a s' run =>
  ⟨(hp s a s' run).1.suffix, fun enclosed => (hp s a s' run).2 (.inr enclosed)⟩

theorem tail_pure (a : α) : Tail m (pure a : Parser α) := by
  intro s a' s' run
  cases run
  exact ⟨.inl rfl, fun _ => rfl⟩

theorem settled_of_tail {s s' : Cursor} (h : s'.rest = s.rest ∨ s.Closes s')
    (settled : Settled s'.rest) : Settled s.rest := by
  cases h with
  | inl same => exact same ▸ settled
  | inr closes => exact .inr (closes.enclosed settled)

theorem whole_expect {k : TokenKind} (closes : k.closes = true) (expected : String) :
    Whole m (expect k expected) := by
  intro s a s' run
  by_cases next : s.peek.kind == k
  · simp only [expect, next, if_true] at run
    cases run
    have kind := beq_iff_eq.mp next
    have rest : s.rest = s.peek :: s.advance.rest := by
      apply Cursor.rest_of_peek
      rw [kind]
      rintro rfl
      exact Bool.false_ne_true closes
    have more : s.rest ≠ [] := by simp [rest]
    refine ⟨⟨[], s.peek, rest, by rw [kind, closes]⟩, fun _ => ?_⟩
    simp only [expect, Cursor.peek_before more, next, if_true, Cursor.advance_before more]
  · simp [expect, next] at run

theorem whole_fail (fault : SyntaxFault) (place : Location) :
    Whole m (fail fault place : Parser α) := fun _ _ _ run => nomatch run

theorem Local.bind_whole (hp : Local m p) (hf : ∀ a, Whole m (f a)) : Whole m (p >>= f) := by
  intro s b s' run
  obtain ⟨a, s₁, first, second⟩ := bind_eq_ok.mp run
  have near := hp s a s₁ first
  have far := hf a s₁ b s' second
  refine ⟨far.1.of_suffix near.1, fun settled => ?_⟩
  exact bind_eq_ok.mpr ⟨a, s₁.before m, near.2 (far.1.enclosed settled), far.2 settled⟩

theorem Whole.bind (hp : Whole m p) (hf : ∀ a, Tail m (f a)) : Whole m (p >>= f) := by
  intro s b s' run
  obtain ⟨a, s₁, first, second⟩ := bind_eq_ok.mp run
  have near := hp s a s₁ first
  have far := hf a s₁ b s' second
  refine ⟨near.1.trans far.1, fun settled => ?_⟩
  exact bind_eq_ok.mpr ⟨a, s₁.before m, near.2 (settled_of_tail far.1 settled), far.2 settled⟩

theorem Whole.map (hp : Whole m p) (g : α → β) : Whole m (g <$> p) := by
  rw [map_eq_pure_bind]
  exact hp.bind fun a => tail_pure (g a)

theorem Tail.bind (hp : Tail m p) (hf : ∀ a, Tail m (f a)) : Tail m (p >>= f) := by
  intro s b s' run
  obtain ⟨a, s₁, first, second⟩ := bind_eq_ok.mp run
  have near := hp s a s₁ first
  have far := hf a s₁ b s' second
  constructor
  · cases near.1 with
    | inl same => exact far.1.imp same.subst fun closes => closes.of_suffix (same ▸ List.suffix_rfl)
    | inr closes => exact .inr (closes.trans far.1)
  · intro settled
    exact bind_eq_ok.mpr ⟨a, s₁.before m, near.2 (settled_of_tail far.1 settled), far.2 settled⟩

theorem whole_nested (limit : Nat) (hp : Whole m p) : Whole m (nested limit p) := by
  intro s a s' run
  by_cases reached : limit ≤ s.depth
  · simp [nested, reached] at run
  · simp only [nested, reached, if_false] at run
    cases read : p { s with depth := s.depth + 1 } with
    | error e s₁ => simp [read] at run
    | ok b s₁ =>
        simp only [read] at run
        cases run
        have inside := hp _ _ _ read
        refine ⟨inside.1, fun settled => ?_⟩
        have same := inside.2 settled
        simp only [Cursor.before] at same
        simp only [nested, Cursor.before, reached, if_false, same]

theorem tail_iterate {step : α → Parser (ForInStep α)} (h : ∀ a, Tail m (step a)) (a : α) :
    Tail m (iterate step a) := by
  intro s c s' run
  induction hn : s.rest.length using Nat.strongRecOn generalizing a s with
  | ind n ih =>
      cases first : step a s with
      | error e s₁ => exact nomatch (iterate_of_error first).symm.trans run
      | ok r s₁ =>
          have near := h a s r s₁ first
          cases r with
          | done b =>
              rw [iterate_of_done first] at run
              cases run
              exact ⟨near.1, fun settled => iterate_of_done (near.2 settled)⟩
          | yield b =>
              rw [iterate_of_yield first] at run
              by_cases shorter : s₁.rest.length < s.rest.length
              · rw [if_pos shorter] at run
                have far := ih _ (hn ▸ shorter) b s₁ run rfl
                have closes : s.Closes s₁ :=
                  near.1.resolve_left fun same => by simp [same] at shorter
                refine ⟨.inr (closes.trans far.1), fun settled => ?_⟩
                rw [iterate_of_yield (near.2 (settled_of_tail far.1 settled)), if_pos]
                · exact far.2 settled
                · simpa [Cursor.before] using shorter
              · rw [if_neg shorter] at run
                cases run
                refine ⟨near.1, fun settled => ?_⟩
                rw [iterate_of_yield (near.2 settled), if_neg]
                simpa [Cursor.before] using shorter

/-- A token that what follows cannot start with opens one more part, or else there is none. -/
theorem tail_peek {look : Token → Bool} {f : Token → Parser β} {g : Parser β}
    (absent : look m.start.peek = false)
    (yes : ∀ t, Whole m (f t)) (no : Tail m g) :
    Tail m (peek >>= fun t => if look t then f t else g) := by
  intro s b s' run
  change (if look s.peek then f s.peek else g) s = _ at run
  change _ ∧ (_ → (if look (s.before m).peek then f (s.before m).peek else g) (s.before m) = _)
  by_cases found : look s.peek
  · rw [if_pos found] at run
    have here := yes s.peek s b s' run
    refine ⟨.inr here.1, fun settled => ?_⟩
    rw [Cursor.peek_before (here.1.enclosed settled).ne_nil, if_pos found]
    exact here.2 settled
  · rw [if_neg found] at run
    have here := no s b s' run
    refine ⟨here.1, fun settled => ?_⟩
    have missing : look (s.before m).peek = false := by
      by_cases done : s.rest = []
      · rw [Cursor.peek_before_nil done, absent]
      · rw [Cursor.peek_before done, Bool.eq_false_iff.mpr found]
    rw [missing, if_neg Bool.false_ne_true]
    exact here.2 settled

theorem tail_accept {k : TokenKind} {f : Bool → Parser β}
    (absent : m.start.peek.kind ≠ k) (yes : Whole m (f true)) (no : Tail m (f false)) :
    Tail m (accept k >>= f) := by
  have eq : (accept k >>= f) =
      peek >>= fun t => if t.kind == k then advance >>= fun _ => f true else f false := by
    funext s
    change EStateM.bind (accept k) f s =
      (if s.peek.kind == k then advance >>= fun _ => f true else f false) s
    by_cases next : s.peek.kind == k
    · simp only [EStateM.bind, accept, next, if_true]
      rfl
    · simp [EStateM.bind, accept, next]
  rw [eq]
  refine tail_peek ?_ (fun t => local_advance.bind_whole fun _ => yes) no
  exact beq_eq_false_iff_ne.mpr absent

end Parser
end ScriptFront
