import ScriptFront.Proofs.LocalReading

/-!
Parsers go forward and stop in front of the end of file. Whatever stands behind the end of file, a
parser ends alike and leaves a part of the tokens that it was given; and where a token is due, it
has read one. A loop whose rounds all read a token does not need the guard that ends it otherwise.
What the parsers read is left open.
-/

namespace ScriptFront

namespace Cursor

variable {s s' s'' : Cursor} {us : List Token}

/-- The cursor with other tokens behind its end of file. -/
def trailing (s : Cursor) (us : List Token) : Cursor :=
  { s with stop := { s.stop with behind := us } }

theorem peekAt_trailing {n : Nat} (h : n ≤ s.rest.length) (us : List Token) :
    (s.trailing us).peekAt n = s.peekAt n := by
  cases Nat.lt_or_eq_of_le h with
  | inl less => simp only [peekAt, trailing, List.getElem?_eq_getElem less, Option.getD_some]
  | inr last => simp [peekAt, trailing, last, Ending.peekAt]

theorem peek_trailing (s : Cursor) (us : List Token) : (s.trailing us).peek = s.peek :=
  peekAt_trailing (Nat.zero_le _) us

/-- The tokens up to one that is not the end of file are in front of it. -/
theorem length_of_kinds {n : Nat} (h : ∀ i < n, (s.peekAt i).kind ≠ .eof) : n ≤ s.rest.length := by
  refine Nat.le_of_not_lt fun short => h s.rest.length short ?_
  simp [peekAt, Ending.peekAt, Token.endOfFile]

/-- A cursor with a part of the tokens that another one has left. -/
structure Within (s' s : Cursor) : Prop where
  suffix : s'.rest <:+ s.rest
  stop : s'.stop = s.stop

theorem Within.refl (s : Cursor) : s.Within s := ⟨List.suffix_rfl, rfl⟩

theorem Within.trans (far : s''.Within s') (near : s'.Within s) : s''.Within s :=
  ⟨far.suffix.trans near.suffix, far.stop.trans near.stop⟩

theorem Within.length (h : s'.Within s) : s'.rest.length ≤ s.rest.length := h.suffix.length_le

theorem within_advance (s : Cursor) : s.advance.Within s := ⟨s.suffix_advance, rfl⟩

theorem length_advance (h : s.peek.kind ≠ .eof) : s.advance.rest.length < s.rest.length := by
  rw [rest_of_peek h]
  exact Nat.lt_succ_self _

theorem length_advance_of_kind {k : TokenKind} (next : s.peek.kind == k)
    (token : (k == .eof) = false) : s.advance.rest.length < s.rest.length :=
  length_advance (by rwa [beq_iff_eq.mp next, ← beq_eq_false_iff_ne])

end Cursor

namespace Parser

variable {α β : Type}

/--
How a parser ends from a cursor on, and how it does if other tokens stand behind the end of file.
Both outcomes have the same value or fault.
-/
inductive Stops (us : List Token) (due : α → Prop) (s : Cursor) :
    EStateM.Result SyntaxError Cursor α → EStateM.Result SyntaxError Cursor α → Prop
  | read {a s'} : s'.Within s → (due a → s'.rest.length < s.rest.length) →
      Stops us due s (.ok a s') (.ok a (s'.trailing us))
  | failed {e s'} : s'.Within s → Stops us due s (.error e s') (.error e (s'.trailing us))

/-- From a cursor on, a parser goes forward, by a token at least where what it yields is due one. -/
def Forward (us : List Token) (due : α → Prop) (p : Parser α) (s : Cursor) : Prop :=
  Stops us due s (p s) (p (s.trailing us))

/-- A parser that stays where it is or goes forward. -/
abbrev Inside (us : List Token) (p : Parser α) (s : Cursor) : Prop :=
  Forward us (fun _ => False) p s

/-- A parser that reads a token unless it fails. -/
abbrev Consumes (us : List Token) (p : Parser α) (s : Cursor) : Prop :=
  Forward us (fun _ => True) p s

/-- Whether a loop has another round. -/
def GoesOn : ForInStep α → Prop
  | .yield _ => True
  | .done _ => False

/-- A step of a loop that reads a token if there is another round. -/
def Advances (step : α → Parser (ForInStep α)) : Prop :=
  ∀ a s b s', step a s = .ok (.yield b) s' → s'.rest.length < s.rest.length

variable {us : List Token} {due : α → Prop} {owed : β → Prop} {s : Cursor} {p : Parser α}
  {f : α → Parser β} {k : TokenKind}

theorem Stops.length {a : α} {s' : Cursor} {y : EStateM.Result SyntaxError Cursor α}
    (h : Stops us due s (.ok a s') y) (a_due : due a) : s'.rest.length < s.rest.length := by
  cases h with
  | read _ shorter => exact shorter a_due

/-- What stays in front of the end of file from one cursor on does so from an earlier one. -/
theorem Stops.after {s' : Cursor} {x y : EStateM.Result SyntaxError Cursor α}
    (h : Stops us due s' x y) (within : s'.Within s) : Stops us due s x y := by
  cases h with
  | read far paid =>
      exact .read (far.trans within) fun a_due => Nat.lt_of_lt_of_le (paid a_due) within.length
  | failed far => exact .failed (far.trans within)

theorem Forward.length {a : α} {s' : Cursor} (h : Forward us due p s) (run : p s = .ok a s')
    (a_due : due a) : s'.rest.length < s.rest.length := by
  rw [Forward, run] at h
  exact h.length a_due

theorem Forward.mono {due' : α → Prop} (h : Forward us due p s) (less : ∀ a, due' a → due a) :
    Forward us due' p s := by
  change Stops us due s (p s) (p (s.trailing us)) at h
  change Stops us due' s (p s) (p (s.trailing us))
  generalize p s = x at h ⊢
  generalize p (s.trailing us) = y at h ⊢
  cases h with
  | read within shorter => exact .read within fun a_due => shorter (less _ a_due)
  | failed within => exact .failed within

theorem Forward.inside (h : Forward us due p s) : Inside us p s := h.mono fun _ => False.elim

/-- What the first parser has paid, the second one need not. -/
theorem Forward.and_then (hp : Forward us due p s)
    (hf : ∀ a s', p s = .ok a s' → Forward us (fun b => owed b ∧ ¬ due a) (f a) s') :
    Forward us owed (p >>= f) s := by
  change Stops us due s (p s) (p (s.trailing us)) at hp
  change Stops us owed s (EStateM.bind p f s) (EStateM.bind p f (s.trailing us))
  simp only [EStateM.bind]
  generalize p s = x at hp hf ⊢
  generalize p (s.trailing us) = y at hp ⊢
  cases hp with
  | failed within => exact .failed within
  | @read a s' near first =>
      have second : Stops us _ s' (f a s') (f a (s'.trailing us)) := hf a s' rfl
      dsimp only
      generalize f a s' = x at second ⊢
      generalize f a (s'.trailing us) = y at second ⊢
      cases second with
      | failed far => exact .failed (far.trans near)
      | @read b s'' far paid =>
          refine .read (far.trans near) fun b_owed => ?_
          by_cases a_due : due a
          · exact Nat.lt_of_le_of_lt far.length (first a_due)
          · exact Nat.lt_of_lt_of_le (paid ⟨b_owed, a_due⟩) near.length

theorem Forward.bind (hp : Inside us p s) (hf : ∀ a s, Forward us owed (f a) s) :
    Forward us owed (p >>= f) s :=
  hp.and_then fun a s' _ => (hf a s').mono fun _ => And.left

theorem Consumes.bind (hp : Consumes us p s) (hf : ∀ a s, Inside us (f a) s) :
    Forward us owed (p >>= f) s :=
  Forward.and_then hp fun a s' _ => (hf a s').mono fun _ h => h.2 trivial

theorem inside_pure (a : α) : Inside us (pure a : Parser α) s := .read (.refl s) False.elim

theorem forward_done (a : α) : Forward us GoesOn (pure (.done a) : Parser (ForInStep α)) s :=
  .read (.refl s) False.elim

theorem Forward.map (hp : Inside us p s) (g : α → β) : Inside us (g <$> p) s := by
  rw [map_eq_pure_bind]
  exact hp.bind fun a s => inside_pure (g a)

theorem forward_fail (fault : SyntaxFault) (place : Location) :
    Forward us due (fail fault place : Parser α) s := .failed (.refl s)

theorem forward_broken (rule : GrammarRule) (place : Location) :
    Forward us due (broken rule place : Parser α) s := forward_fail _ _

theorem forward_unexpected (t : Token) (expected : String) :
    Forward us due (unexpected t expected : Parser α) s := forward_fail _ _

/-! ### Looks ahead -/

/-- A look at the tokens ahead that ends at the end of file. -/
theorem forward_get {f : Cursor → Parser β} (same : f (s.trailing us) = f s)
    (h : Forward us owed (f s) s) : Forward us owed (get >>= f) s := by
  change Stops us owed s (f s s) (f (s.trailing us) (s.trailing us))
  rw [same]
  exact h

theorem forward_peek {f : Token → Parser β} (h : Forward us owed (f s.peek) s) :
    Forward us owed (peek >>= f) s :=
  forward_get (f := fun s => f s.peek) (by rw [Cursor.peek_trailing]) h

theorem forward_peekAt {n : Nat} {f : Token → Parser β}
    (same : f ((s.trailing us).peekAt n) = f (s.peekAt n))
    (h : Forward us owed (f (s.peekAt n)) s) : Forward us owed (peekAt n >>= f) s :=
  forward_get (f := fun s => f (s.peekAt n)) same h

theorem forward_here {f : Location → Parser β} (h : Forward us owed (f s.peek.location) s) :
    Forward us owed (here >>= f) s :=
  forward_peek (f := fun t => f t.location) h

theorem forward_atEnd {f : Bool → Parser β} (h : Forward us owed (f s.atEnd) s) :
    Forward us owed (atEnd >>= f) s :=
  forward_get (f := fun s => f s.atEnd) rfl h

theorem forward_check {f : Bool → Parser β}
    (h : Forward us owed (f (s.peek.kind == k)) s) : Forward us owed (check k >>= f) s :=
  forward_peek (f := fun t => f (t.kind == k)) h

theorem inside_check (k : TokenKind) : Inside us (check k) s :=
  forward_check (f := pure) (inside_pure _)

theorem inside_foresee {test : Parser Bool} (h : Inside us test s) :
    Inside us (foresee test) s := by
  change Stops us _ s (test s) (test (s.trailing us)) at h
  change Stops us _ s (foresee test s) (foresee test (s.trailing us))
  simp only [foresee]
  generalize test s = x at h ⊢
  generalize test (s.trailing us) = y at h ⊢
  cases h with
  | read _ _ => exact .read (.refl s) False.elim
  | failed _ => exact .read (.refl s) False.elim

/-! ### Tokens -/

theorem forward_of_ok {a : α} {s' : Cursor} (run : p s = .ok a s')
    (same : p (s.trailing us) = .ok a (s'.trailing us)) (within : s'.Within s)
    (paid : due a → s'.rest.length < s.rest.length) : Forward us due p s := by
  change Stops us due s (p s) (p (s.trailing us))
  rw [run, same]
  exact .read within paid

theorem advance_trailing : advance (s.trailing us) = .ok s.peek (s.advance.trailing us) :=
  congrArg (EStateM.Result.ok · (s.advance.trailing us)) (Cursor.peek_trailing s us)

theorem inside_advance : Inside us advance s :=
  forward_of_ok rfl advance_trailing s.within_advance False.elim

theorem consumes_advance (h : s.peek.kind ≠ .eof) : Consumes us advance s :=
  forward_of_ok rfl advance_trailing s.within_advance fun _ => Cursor.length_advance h

theorem inside_advances (n : Nat) :
    Inside us (modify (Nat.repeat Cursor.advance n) : Parser Unit) s := by
  have run : (Nat.repeat Cursor.advance n s).Within s ∧ Nat.repeat Cursor.advance n (s.trailing us)
      = (Nat.repeat Cursor.advance n s).trailing us := by
    induction n with
    | zero => exact ⟨.refl s, rfl⟩
    | succ n ih => exact ⟨(Cursor.within_advance _).trans ih.1, congrArg Cursor.advance ih.2⟩
  change Stops us _ s (.ok () _) (.ok () (Nat.repeat Cursor.advance n (s.trailing us)))
  rw [run.2]
  exact .read run.1 False.elim

/-- Reading the token at hand leads on to one of two ways; only the first has read a token. -/
theorem forward_advance {f : Token → Parser β}
    (more : ∀ t s, t.kind ≠ .eof → Inside us (f t) s)
    (ended : ∀ t s, t.kind = .eof → Forward us owed (f t) s) :
    Forward us owed (advance >>= f) s := by
  by_cases kind : s.peek.kind = .eof
  · refine inside_advance.and_then fun t s' run => ?_
    cases run
    exact (ended s.peek s.advance kind).mono fun _ => And.left
  · refine (consumes_advance kind).and_then fun t s' run => ?_
    cases run
    exact (more s.peek s.advance kind).mono fun _ h => h.2 trivial

theorem accepted (next : s.peek.kind == k) : accept k s = .ok true s.advance := if_pos next

theorem refused (next : ¬ s.peek.kind == k) : accept k s = .ok false s := if_neg next

/-- A token that is read has been paid for. -/
theorem forward_accept_true (token : (k == .eof) = false) : Forward us (· = true) (accept k) s := by
  by_cases next : s.peek.kind == k
  · refine forward_of_ok (accepted next) (accepted ?_) s.within_advance fun _ =>
      Cursor.length_advance_of_kind next token
    rwa [Cursor.peek_trailing]
  · refine forward_of_ok (refused next) (refused ?_) (.refl s) nofun
    rwa [Cursor.peek_trailing]

theorem inside_accept (k : TokenKind) : Inside us (accept k) s := by
  by_cases next : s.peek.kind == k
  · refine forward_of_ok (accepted next) (accepted ?_) s.within_advance False.elim
    rwa [Cursor.peek_trailing]
  · refine forward_of_ok (refused next) (refused ?_) (.refl s) False.elim
    rwa [Cursor.peek_trailing]

theorem forward_accept {f : Bool → Parser β} (token : (k == .eof) = false)
    (yes : ∀ s, Inside us (f true) s) (no : Forward us owed (f false) s) :
    Forward us owed (accept k >>= f) s := by
  refine (forward_accept_true token).and_then fun b s' run => ?_
  by_cases next : s.peek.kind == k
  · cases (accepted next).symm.trans run
    exact (yes s.advance).mono fun _ h => h.2 rfl
  · cases (refused next).symm.trans run
    exact no.mono fun _ => And.left

theorem consumes_expect (token : (k == .eof) = false) (expected : String) :
    Consumes us (expect k expected) s := by
  change Stops us _ s (expect k expected s) (expect k expected (s.trailing us))
  simp only [expect, Cursor.peek_trailing]
  split
  · next found =>
      exact .read s.within_advance fun _ => Cursor.length_advance_of_kind found token
  · exact .failed (.refl s)

theorem consumes_name (expected : String) : Consumes us (name expected) s :=
  (consumes_expect rfl _).bind fun _ _ => inside_pure _

/-! ### Levels and loops -/

theorem forward_nested (limit : Nat) (hp : ∀ s, Forward us due p s) :
    Forward us due (nested limit p) s := by
  change Stops us due s (nested limit p s) (nested limit p (s.trailing us))
  have depth : (s.trailing us).depth = s.depth := rfl
  simp only [nested, Cursor.peek_trailing, depth]
  split
  · exact .failed (.refl s)
  · have inside : Stops us due _ (p { s with depth := s.depth + 1 })
        (p { s.trailing us with depth := s.depth + 1 }) := hp { s with depth := s.depth + 1 }
    generalize p { s with depth := s.depth + 1 } = x at inside ⊢
    generalize p { s.trailing us with depth := s.depth + 1 } = y at inside ⊢
    cases inside with
    | read within shorter => exact .read ⟨within.suffix, within.stop⟩ shorter
    | failed within => exact .failed ⟨within.suffix, within.stop⟩

theorem advances_of {step : α → Parser (ForInStep α)}
    (h : ∀ a s, Forward [] GoesOn (step a) s) : Advances step :=
  fun a s _ _ run => (h a s).length run trivial

theorem inside_iterate {step : α → Parser (ForInStep α)}
    (h : ∀ a s, Forward us GoesOn (step a) s) (a : α) : Inside us (iterate step a) s := by
  induction hn : s.rest.length using Nat.strongRecOn generalizing a s with
  | ind n ih =>
      have first : Stops us GoesOn s (step a s) (step a (s.trailing us)) := h a s
      change Stops us _ s (iterate step a s) (iterate step a (s.trailing us))
      generalize run : step a s = x at first
      generalize run' : step a (s.trailing us) = y at first
      cases first with
      | @failed e s' within =>
          rw [iterate_of_error run, iterate_of_error run']
          exact .failed within
      | @read r s' within shorter =>
          cases r with
          | done b =>
              rw [iterate_of_done run, iterate_of_done run']
              exact .read within False.elim
          | yield b =>
              have less := shorter trivial
              have again : iterate step a s = iterate step b s' :=
                iterate_of_round run less
              have again' : iterate step a (s.trailing us) = iterate step b (s'.trailing us) :=
                iterate_of_round run' less
              rw [again, again']
              exact (ih _ (hn ▸ less) b rfl).after within

theorem forward_itemStep (hp : ∀ s, Inside us p s) (as : List α) (s : Cursor) :
    Forward us GoesOn (itemStep p as) s :=
  forward_accept rfl (fun s => (hp s).bind fun _ _ => inside_pure _) (forward_done _)

theorem inside_commaSeparated (hp : ∀ s, Inside us p s) : Inside us (commaSeparated p) s :=
  (hp s).bind fun _ _ => (inside_iterate (forward_itemStep hp) []).bind fun _ _ => inside_pure _

end Parser
end ScriptFront
