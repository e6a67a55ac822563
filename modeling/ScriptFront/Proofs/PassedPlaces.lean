import ScriptFront.Proofs.ForwardReading

/-!
The places of the tokens that a parser passes. What a parser yields is put beside the places that
were passed so far, so that of two constructs that are read one after the other each keeps to the
places of its own tokens. What is said of a construct and its places is left open.
-/

namespace ScriptFront

/-- The places of the tokens that are left. -/
def Cursor.places (s : Cursor) : List Location := s.rest.map (·.location)

theorem Cursor.places_of_peek {s : Cursor} (h : s.peek.kind ≠ .eof) :
    s.places = s.peek.location :: s.advance.places := by
  rw [places, rest_of_peek h, List.map_cons]
  rfl

/-- The next token that is passed is the next token. -/
theorem Cursor.location_peek {s : Cursor} {l : Location} {ls : List Location}
    (h : s.places = l :: ls) : s.peek.location = l := by
  obtain ⟨rest, stop, depth⟩ := s
  cases rest with
  | nil => exact nomatch h
  | cons t ts => exact (List.cons.inj h).1

namespace Parser

variable {α β : Type}

/--
From a cursor on, a parser passes the places of some tokens and yields something that, with these
places behind those that were passed before, has a property.
-/
def Gathers (ls : List Location) (P : List Location → α → Prop) (p : Parser α) (s : Cursor) :
    Prop :=
  ∀ a s', p s = .ok a s' → ∃ new, s.places = new ++ s'.places ∧ P (ls ++ new) a

variable {ls : List Location} {P : List Location → α → Prop} {Q : List Location → β → Prop}
  {p : Parser α} {f : α → Parser β} {s : Cursor} {k : TokenKind} {expected : String}

theorem Gathers.bind (hp : Gathers [] P p s)
    (hf : ∀ a new s, P new a → Gathers (ls ++ new) Q (f a) s) : Gathers ls Q (p >>= f) s := by
  intro b s' run
  obtain ⟨a, s₁, first, second⟩ := bind_eq_ok.mp run
  obtain ⟨new, passed, ha⟩ := hp a s₁ first
  obtain ⟨more, passed', hb⟩ := hf a new s₁ ha b s' second
  exact ⟨new ++ more, by rw [passed, passed', List.append_assoc], by rwa [← List.append_assoc]⟩

/-- The places that were passed so far are those that the first parser starts behind. -/
theorem Gathers.and_then (hp : Gathers ls P p s) (hf : ∀ a ls s, P ls a → Gathers ls Q (f a) s) :
    Gathers ls Q (p >>= f) s := by
  refine Gathers.bind (P := fun new a => P (ls ++ new) a) (fun a s' run => ?_) fun a new s ha =>
    hf a _ s ha
  obtain ⟨new, passed, ha⟩ := hp a s' run
  exact ⟨new, passed, by rwa [List.nil_append]⟩

theorem gathers_pure {a : α} (h : P ls a) : Gathers ls P (pure a) s := by
  intro a' s' run
  cases run
  exact ⟨[], rfl, by rwa [List.append_nil]⟩

/-- What is read first may as well come behind something else. -/
theorem Gathers.behind {P' : List Location → α → Prop} (h : Gathers [] P p s)
    (le : ∀ new a, P new a → P' (ls ++ new) a) : Gathers ls P' p s := fun a s' run =>
  let ⟨new, passed, ha⟩ := h a s' run
  ⟨new, passed, le new a ha⟩

theorem Gathers.map {g : α → β} (hp : Gathers [] P p s)
    (h : ∀ new a, P new a → Q (ls ++ new) (g a)) : Gathers ls Q (g <$> p) s := by
  rw [map_eq_pure_bind]
  exact hp.bind fun a new s ha => gathers_pure (h new a ha)

theorem gathers_fail (fault : SyntaxFault) (place : Location) :
    Gathers ls P (fail fault place) s := fun _ _ run => nomatch run

/-- Nothing comes behind a fault. -/
theorem gathers_fail_bind (fault : SyntaxFault) (place : Location) {f : α → Parser β} :
    Gathers ls Q (fail fault place >>= f) s := fun _ _ run => nomatch run

/-- A parser that goes forward passes some places. -/
theorem Forward.gathers {due : α → Prop} (h : Forward [] due p s) :
    Gathers ls (fun _ _ => True) p s := by
  intro a s' run
  rw [Forward, run] at h
  generalize p (s.trailing []) = y at h
  cases h with
  | read within _ =>
      obtain ⟨ts, rest⟩ := within.suffix
      exact ⟨ts.map (·.location), by rw [Cursor.places, ← rest, List.map_append]; rfl, trivial⟩

/-- The first place that is passed is that of the next token. -/
theorem Gathers.starting (h : Gathers [] P p s) :
    Gathers [] (fun ls a => P ls a ∧ ∀ l more, ls = l :: more → l = s.peek.location) p s := by
  intro a s' run
  obtain ⟨new, passed, ha⟩ := h a s' run
  refine ⟨new, passed, ha, fun l more eq => ?_⟩
  rw [List.nil_append] at eq
  rw [eq] at passed
  exact (Cursor.location_peek passed).symm

/-! ### Looks ahead -/

theorem gathers_get {f : Cursor → Parser β} (h : Gathers ls Q (f s) s) :
    Gathers ls Q (get >>= f) s := h

theorem gathers_peek {f : Token → Parser β} (h : Gathers ls Q (f s.peek) s) :
    Gathers ls Q (peek >>= f) s := h

theorem gathers_peekAt {n : Nat} {f : Token → Parser β} (h : Gathers ls Q (f (s.peekAt n)) s) :
    Gathers ls Q (peekAt n >>= f) s := h

theorem gathers_here {f : Location → Parser β} (h : Gathers ls Q (f s.peek.location) s) :
    Gathers ls Q (here >>= f) s := h

theorem gathers_atEnd {f : Bool → Parser β} (h : Gathers ls Q (f s.atEnd) s) :
    Gathers ls Q (atEnd >>= f) s := h

theorem gathers_check {f : Bool → Parser β} (h : Gathers ls Q (f (s.peek.kind == k)) s) :
    Gathers ls Q (check k >>= f) s := h

theorem gathers_foresee (test : Parser Bool) :
    Gathers [] (fun ls _ => ls = []) (foresee test) s := by
  intro a s' run
  refine ⟨[], ?_, rfl⟩
  unfold foresee at run
  split at run <;> cases run <;> rfl

/-! ### Tokens -/

/-- A token other than the end of file is passed; whether the end of file is does not matter. -/
theorem gathers_advance {f : Token → Parser β}
    (h : ∀ new s', (s.peek.kind ≠ .eof → new = [s.peek.location]) →
      Gathers (ls ++ new) Q (f s.peek) s') : Gathers ls Q (advance >>= f) s := by
  refine Gathers.bind
    (P := fun new t => t = s.peek ∧ (s.peek.kind ≠ .eof → new = [s.peek.location])) ?_
    fun t new s' one => one.1 ▸ h new s' one.2
  intro t s' run
  cases run
  by_cases ended : s.peek.kind = .eof
  · obtain ⟨ts, rest⟩ := s.suffix_advance
    refine ⟨ts.map (·.location), ?_, rfl, fun h => absurd ended h⟩
    rw [Cursor.places, ← rest, List.map_append]
    rfl
  · exact ⟨[s.peek.location], Cursor.places_of_peek ended, rfl, fun _ => rfl⟩

/-- What is accepted is the next token. -/
theorem gathers_accept_next {f : Bool → Parser β} (token : (k == .eof) = false)
    (yes : ∀ s', Gathers (ls ++ [s.peek.location]) Q (f true) s')
    (no : Gathers ls Q (f false) s) : Gathers ls Q (accept k >>= f) s := by
  by_cases next : s.peek.kind == k
  · have more : s.peek.kind ≠ .eof := by
      rw [beq_iff_eq.mp next]
      exact beq_eq_false_iff_ne.mp token
    refine Gathers.bind (P := fun new b => b = true ∧ new = [s.peek.location]) ?_ ?_
    · intro b s' run
      cases (accepted next).symm.trans run
      exact ⟨_, Cursor.places_of_peek more, rfl, rfl⟩
    · rintro b new s' ⟨rfl, rfl⟩
      exact yes s'
  · intro b s' run
    rw [bind_of_ok (refused next)] at run
    exact no b s' run

theorem gathers_accept {f : Bool → Parser β} (token : (k == .eof) = false)
    (yes : ∀ l s', Gathers (ls ++ [l]) Q (f true) s') (no : Gathers ls Q (f false) s) :
    Gathers ls Q (accept k >>= f) s :=
  gathers_accept_next token (yes _) no

/-- What is expected is the next token. -/
theorem gathers_expect_next {f : Token → Parser β} (token : (k == .eof) = false)
    (h : ∀ s', Gathers (ls ++ [s.peek.location]) Q (f s.peek) s') :
    Gathers ls Q (expect k expected >>= f) s := by
  refine Gathers.bind (P := fun new t => t = s.peek ∧ new = [s.peek.location]) ?_ ?_
  · intro t s' run
    unfold expect at run
    split at run
    · next found =>
        cases run
        refine ⟨_, Cursor.places_of_peek ?_, rfl, rfl⟩
        rw [beq_iff_eq.mp found]
        exact beq_eq_false_iff_ne.mp token
    · exact nomatch run
  · rintro t new s' ⟨rfl, rfl⟩
    exact h s'

theorem gathers_expect {f : Token → Parser β} (token : (k == .eof) = false)
    (h : ∀ t s', Gathers (ls ++ [t.location]) Q (f t) s') :
    Gathers ls Q (expect k expected >>= f) s :=
  gathers_expect_next token (h s.peek)

theorem gathers_name : Gathers [] (fun ls i => ls = [i.location]) (name expected) s :=
  gathers_expect rfl fun _ _ => gathers_pure rfl

/-! ### Levels and loops -/

theorem gathers_nested (limit : Nat) (h : ∀ s, Gathers ls P p s) :
    Gathers ls P (nested limit p) s := by
  intro a s' run
  unfold nested at run
  split at run
  · exact nomatch run
  · split at run
    · next s₁ read =>
        cases run
        exact h { s with depth := s.depth + 1 } a s₁ read
    · exact nomatch run

/-- What each round of a loop keeps up is kept up by the loop. -/
theorem gathers_iterate {I : List Location → α → Prop} {step : α → Parser (ForInStep α)}
    (h : ∀ ls a s, I ls a → Gathers ls (fun ls r => I ls r.value) (step a) s) {a : α}
    (start : I ls a) : Gathers ls I (iterate step a) s := by
  induction hn : s.rest.length using Nat.strongRecOn generalizing ls a s with
  | ind n ih =>
      intro c s' run
      cases first : step a s with
      | error e s₁ => exact nomatch (iterate_of_error first).symm.trans run
      | ok r s₁ =>
          obtain ⟨new, passed, kept⟩ := h ls a s start r s₁ first
          cases r with
          | done b =>
              cases (iterate_of_done first).symm.trans run
              exact ⟨new, passed, kept⟩
          | yield b =>
              rw [iterate_of_yield first] at run
              split at run
              · next shorter =>
                  obtain ⟨more, passed', kept'⟩ := ih _ (hn ▸ shorter) kept rfl c s' run
                  refine ⟨new ++ more, ?_, by rwa [← List.append_assoc]⟩
                  rw [passed, passed', List.append_assoc]
              · cases run
                exact ⟨new, passed, kept⟩

/-- Items that are read one after the other, with the commas between them. -/
theorem gathers_commaSeparated {I : List Location → List α → Prop} (hp : ∀ s, Gathers [] P p s)
    (one : ∀ new a, P new a → I new [a])
    (snoc : ∀ ls as l new a, I ls as → P new a → I (ls ++ [l] ++ new) (as ++ [a])) :
    Gathers [] I (commaSeparated p) s := by
  refine (hp s).bind fun first new s ha => ?_
  refine Gathers.bind (P := fun more others => I (new ++ more) (first :: others)) ?_ ?_
  · refine gathers_iterate (fun ls others s h => ?_) (by rw [List.append_nil]; exact one _ _ ha)
    refine gathers_accept rfl (fun l s => ?_) (gathers_pure h)
    refine (hp s).bind fun a new' s ha => gathers_pure ?_
    have all := snoc (new ++ ls) (first :: others) l new' a h ha
    rwa [List.append_assoc, List.append_assoc, ← List.append_assoc ls] at all
  · exact fun others more s h => gathers_pure h

end Parser
end ScriptFront
