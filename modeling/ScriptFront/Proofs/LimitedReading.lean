import ScriptFront.Grammar.Level

/-!
A parser that reads like another one until it meets its nesting limit. Every level and every node is
paid for: the tokens ahead are worth four levels each, and what is left of the credit after a
construct was read covers at least its height. So a limit that exceeds the budget is never met. What
the parsers read is left open.
-/

namespace ScriptFront
namespace Parser

/-- The nesting limit, what is there to pay for levels in all, and the depth that is reached. -/
structure Bounds where
  limit : Nat
  budget : Nat
  depth : Nat

/-- The bounds of what is read one level deeper. -/
def Bounds.deeper (b : Bounds) : Bounds := { b with depth := b.depth + 1 }

variable {α β : Type}

/-- How a limited parser may end beside another one. -/
inductive Ends (b : Bounds) (credit : Nat) (left : α → Nat) :
    EStateM.Result SyntaxError Cursor α → EStateM.Result SyntaxError Cursor α → Prop
  | limited {e s y} : e.fault = .recursionLimit b.limit → b.limit < b.budget →
      Ends b credit left (.error e s) y
  | failed {e s} : (∀ n, e.fault ≠ .recursionLimit n) →
      Ends b credit left (.error e s) (.error e s)
  | read {a s} : s.depth = b.depth → left a + 4 * s.rest.length ≤ credit →
      Ends b credit left (.ok a s) (.ok a s)

/--
From a cursor on, a limited parser does what another one does, unless it meets the limit. What it
reads and the credit that it starts with pay for what is left.
-/
def Follows (b : Bounds) (credit : Nat) (left : α → Nat) (s : Cursor) (p q : Parser α) : Prop :=
  s.depth = b.depth → b.depth + 4 * s.rest.length + credit ≤ b.budget →
    Ends b (credit + 4 * s.rest.length) left (p s) (q s)

/-- A parser follows another one from everywhere, and what it reads is worth a gain. -/
def Gains (b : Bounds) (need : Nat) (gain : α → Nat) (p q : Parser α) : Prop :=
  ∀ credit s, need ≤ credit → Follows b credit (fun a => credit + gain a) s p q

variable {b : Bounds} {credit need : Nat} {s : Cursor} {left : β → Nat} {gain : α → Nat}
  {p q : Parser α} {r r' : Parser β} {f g : α → Parser β}

/-- Credit is only a bound. -/
theorem Ends.more {x y : EStateM.Result SyntaxError Cursor β} {credit' : Nat}
    (h : Ends b credit left x y) (more : credit ≤ credit') : Ends b credit' left x y := by
  cases h with
  | limited fault short => exact .limited fault short
  | failed fault => exact .failed fault
  | read depth paid => exact .read depth (Nat.le_trans paid more)

theorem Ends.mono {x y : EStateM.Result SyntaxError Cursor α} {gained gained' : α → Nat}
    (h : Ends b credit gained x y) (less : ∀ a, gained' a ≤ gained a) :
    Ends b credit gained' x y := by
  cases h with
  | limited fault short => exact .limited fault short
  | failed fault => exact .failed fault
  | @read a s depth paid => exact .read depth (Nat.le_trans (Nat.add_le_add_right (less a) _) paid)

theorem follows_bind {gained : α → Nat} (h : Follows b credit gained s p q)
    (next : ∀ a s, Follows b (gained a) left s (f a) (g a)) :
    Follows b credit left s (p >>= f) (q >>= g) := by
  intro depth enough
  change Ends b _ left (EStateM.bind p f s) (EStateM.bind q g s)
  unfold EStateM.bind
  have ends := h depth enough
  generalize p s = x at ends ⊢
  generalize q s = y at ends ⊢
  cases ends with
  | limited fault short => exact .limited fault short
  | failed fault => exact .failed fault
  | @read a s' depth' paid =>
      exact (next a s' depth' (by omega)).more (by omega)

theorem follows_mono {gained : α → Nat} (h : Follows b credit gained s p q) {gained' : α → Nat}
    (less : ∀ a, gained' a ≤ gained a) : Follows b credit gained' s p q :=
  fun depth enough => (h depth enough).mono less

theorem follows_more {credit' : Nat} (h : Follows b credit left s r r') (more : credit ≤ credit') :
    Follows b credit' left s r r' :=
  fun depth enough => (h depth (by omega)).more (by omega)

theorem follows_pure {left : α → Nat} {a : α} (h : left a ≤ credit) :
    Follows b credit left s (pure a) (pure a) :=
  fun depth _ => .read depth (by omega)

theorem follows_pure_bind {a : α} (h : Follows b credit left s (f a) (g a)) :
    Follows b credit left s (pure a >>= f) (pure a >>= g) := h

theorem Gains.of (h : ∀ credit s, need ≤ credit →
    Follows b credit (fun a => credit + gain a) s p q) : Gains b need gain p q := h

theorem Gains.bind (h : Gains b need gain p q) (enough : need ≤ credit)
    (next : ∀ a s, Follows b (credit + gain a) left s (f a) (g a)) :
    Follows b credit left s (p >>= f) (q >>= g) :=
  follows_bind (h credit s enough) next

theorem Gains.last (h : Gains b need gain p q) (enough : need ≤ credit) {left : α → Nat}
    (paid : ∀ a, left a ≤ credit + gain a) : Follows b credit left s p q :=
  follows_mono (h credit s enough) paid

theorem Gains.some (h : Gains b need gain p q) :
    Gains b need (fun _ => 0) (Option.some <$> p) (Option.some <$> q) := by
  intro credit s enough
  rw [map_eq_pure_bind, map_eq_pure_bind]
  exact h.bind enough fun a s => follows_pure (Nat.le_add_right ..)

/-! ### Looking at tokens -/

theorem peek_bind {f g : Token → Parser β} (h : Follows b credit left s (f s.peek) (g s.peek)) :
    Follows b credit left s (peek >>= f) (peek >>= g) := h

theorem peekAt_bind {n : Nat} {f g : Token → Parser β}
    (h : Follows b credit left s (f (s.peekAt n)) (g (s.peekAt n))) :
    Follows b credit left s (peekAt n >>= f) (peekAt n >>= g) := h

theorem atEnd_bind {f g : Bool → Parser β} (h : Follows b credit left s (f s.atEnd) (g s.atEnd)) :
    Follows b credit left s (atEnd >>= f) (atEnd >>= g) := h

theorem here_bind {f g : Location → Parser β}
    (h : Follows b credit left s (f s.peek.location) (g s.peek.location)) :
    Follows b credit left s (here >>= f) (here >>= g) := h

theorem get_bind {f g : Cursor → Parser β} (h : Follows b credit left s (f s) (g s)) :
    Follows b credit left s (get >>= f) (get >>= g) := h

theorem check_bind {k : TokenKind} {f g : Bool → Parser β}
    (h : Follows b credit left s (f (s.peek.kind == k)) (g (s.peek.kind == k))) :
    Follows b credit left s (check k >>= f) (check k >>= g) := h

theorem checkKeyword_bind {k : Keyword} {f g : Bool → Parser β}
    (h : Follows b credit left s (f (s.peek.kind == .keyword k)) (g (s.peek.kind == .keyword k))) :
    Follows b credit left s (checkKeyword k >>= f) (checkKeyword k >>= g) := h

/-! ### Reading tokens -/

theorem length_advance_le (s : Cursor) : s.advance.rest.length ≤ s.rest.length := by
  simp [Cursor.advance]

/-- A token that is not the end of file is worth what it costs to go four levels deeper. -/
theorem length_advance {s : Cursor} (h : s.peek.kind ≠ .eof) :
    s.advance.rest.length + 1 = s.rest.length := by
  obtain ⟨rest, stop, depth⟩ := s
  cases rest with
  | nil => exact absurd rfl h
  | cons t ts => rfl

/-- Reading a token that is known not to be the end of file. -/
theorem advance_bind {f g : Token → Parser β} (h : s.peek.kind ≠ .eof)
    (next : Follows b (credit + 4) left s.advance (f s.peek) (g s.peek)) :
    Follows b credit left s (advance >>= f) (advance >>= g) := by
  intro depth enough
  have length := length_advance h
  have ends := next depth (by omega)
  rwa [show credit + 4 + 4 * s.advance.rest.length = credit + 4 * s.rest.length by omega] at ends

theorem advance_peek_bind {f g : Token → Parser β}
    (next : Follows b credit left s.advance (f s.peek) (g s.peek)) :
    Follows b credit left s (advance >>= f) (advance >>= g) := by
  intro depth enough
  have length := length_advance_le s
  exact (next depth (by omega)).more (by omega)

theorem gains_advance : Gains b 0 (fun _ => 0) advance advance := by
  refine .of fun credit s _ depth _ => ?_
  have length := length_advance_le s
  exact .read depth (by omega)

theorem advance_any_bind {f g : Token → Parser β}
    (next : ∀ t s, Follows b credit left s (f t) (g t)) :
    Follows b credit left s (advance >>= f) (advance >>= g) :=
  gains_advance.bind (Nat.zero_le _) next

theorem gains_advances (n : Nat) :
    Gains b 0 (fun _ => 0) (modify (Nat.repeat Cursor.advance n) : Parser Unit)
      (modify (Nat.repeat Cursor.advance n)) := by
  have run : ∀ n (s : Cursor), (Nat.repeat Cursor.advance n s).depth = s.depth ∧
      (Nat.repeat Cursor.advance n s).rest.length ≤ s.rest.length := by
    intro n s
    induction n with
    | zero => exact ⟨rfl, Nat.le_refl _⟩
    | succ n ih => exact ⟨ih.1, Nat.le_trans (length_advance_le _) ih.2⟩
  refine .of fun credit s _ depth enough => ?_
  have length := (run n s).2
  exact .read ((run n s).1.trans depth) (by omega)

theorem follows_fail {left : α → Nat} {fault : SyntaxFault} {place : Location}
    (h : ∀ n, fault ≠ .recursionLimit n) :
    Follows b credit left s (fail fault place) (fail fault place) :=
  fun _ _ => .failed h

theorem follows_broken {left : α → Nat} {rule : GrammarRule} {place : Location} :
    Follows b credit left s (broken rule place) (broken rule place) :=
  follows_fail fun _ h => by cases h

theorem follows_unexpected {left : α → Nat} {t : Token} {expected : String} :
    Follows b credit left s (unexpected t expected) (unexpected t expected) :=
  follows_fail fun _ h => by cases h

/-- What would come after a fault does not matter. -/
theorem fail_bind {fault : SyntaxFault} {place : Location} (h : ∀ n, fault ≠ .recursionLimit n) :
    Follows b credit left s (fail fault place >>= f) (fail fault place >>= g) :=
  fun _ _ => .failed h

theorem broken_bind {rule : GrammarRule} {place : Location} :
    Follows b credit left s (broken rule place >>= f) (broken rule place >>= g) :=
  fail_bind fun _ h => by cases h

theorem unexpected_bind {t : Token} {expected : String} :
    Follows b credit left s (unexpected t expected >>= f) (unexpected t expected >>= g) :=
  fail_bind fun _ h => by cases h

theorem accept_bind {k : TokenKind} (notEnd : k ≠ .eof) {f g : Bool → Parser β}
    (yes : Follows b (credit + 4) left s.advance (f true) (g true))
    (no : Follows b credit left s (f false) (g false)) :
    Follows b credit left s (accept k >>= f) (accept k >>= g) := by
  cases h : s.peek.kind == k with
  | false =>
      have run : ∀ f : Bool → Parser β, (accept k >>= f) s = f false s := fun f => by
        change EStateM.bind (accept k) f s = _
        simp [EStateM.bind, accept, h]
      intro depth enough
      rw [run, run]
      exact no depth enough
  | true =>
      have run : ∀ f : Bool → Parser β, (accept k >>= f) s = f true s.advance := fun f => by
        change EStateM.bind (accept k) f s = _
        simp [EStateM.bind, accept, h]
      have length := length_advance (s := s) (by rw [beq_iff_eq.mp h]; exact notEnd)
      intro depth enough
      rw [run, run]
      exact (yes depth (by omega)).more (by omega)

theorem gains_accept (k : TokenKind) : Gains b 0 (fun _ => 0) (accept k) (accept k) := by
  refine .of fun credit s _ depth enough => ?_
  have length := length_advance_le s
  unfold accept
  split
  · exact .read depth (by omega)
  · exact .read depth (by omega)

theorem gains_expect {k : TokenKind} (notEnd : k ≠ .eof) (expected : String) :
    Gains b 0 (fun _ => 4) (expect k expected) (expect k expected) := by
  refine .of fun credit s _ depth enough => ?_
  unfold expect
  split
  · next h =>
      have length := length_advance (s := s) (by rw [beq_iff_eq.mp h]; exact notEnd)
      exact .read depth (by omega)
  · exact .failed fun _ h => by cases h

theorem gains_expectKeyword (k : Keyword) (expected : String) :
    Gains b 0 (fun _ => 4) (expectKeyword k expected) (expectKeyword k expected) :=
  gains_expect (by simp) expected

theorem gains_name (expected : String) :
    Gains b 0 (fun _ => 4) (name expected) (name expected) :=
  .of fun _ _ enough =>
    (gains_expect (by simp) expected).bind enough fun _ _ => follows_pure (by omega)

/-- A test reads nothing and never fails. -/
theorem gains_foresee (test : Parser Bool) :
    Gains b 0 (fun _ => 0) (foresee test) (foresee test) := by
  refine .of fun credit s _ depth enough => ?_
  unfold foresee
  cases test s <;> exact .read depth (by omega)

/-! ### Levels, repetitions and nodes -/

/-- What is read one level deeper needs one level more. -/
theorem gains_nested {limit limit' : Nat} (same : limit = b.limit) (below : b.limit ≤ limit')
    (h : b.depth < b.limit → Gains b.deeper need gain p q) :
    Gains b (need + 1) gain (nested limit p) (nested limit' q) := by
  subst same
  intro credit s needed depth enough
  unfold nested
  by_cases reached : b.limit ≤ s.depth
  · rw [if_pos reached]
    exact .limited rfl (by omega)
  · rw [if_neg reached, if_neg (by omega)]
    have ends := h (by omega) (credit - 1) { s with depth := s.depth + 1 } (by omega)
      (by simp [depth, Bounds.deeper]) (by simp only [Bounds.deeper]; omega)
    generalize p { s with depth := s.depth + 1 } = x at ends ⊢
    generalize q { s with depth := s.depth + 1 } = y at ends ⊢
    cases ends with
    | limited fault short => exact .limited fault short
    | failed fault => exact .failed fault
    | @read a s' depth' paid =>
        simp only [Bounds.deeper] at depth'
        exact .read (by simp only; omega) (by simp only at paid ⊢; omega)

/-- Each step of a repetition leaves what the next one needs. -/
theorem follows_iterate {step step' : α → Parser (ForInStep α)} {w : α → Nat}
    (h : ∀ a s, Follows b (w a) (fun r => w r.value) s (step a) (step' a)) (a : α)
    (s : Cursor) : Follows b (w a) w s (iterate step a) (iterate step' a) := by
  induction hn : s.rest.length using Nat.strongRecOn generalizing a s with
  | ind n ih =>
      intro depth enough
      unfold iterate
      have ends := h a s depth enough
      generalize step a s = x at ends ⊢
      generalize step' a s = y at ends ⊢
      cases ends with
      | limited fault short => exact .limited fault short
      | failed fault => exact .failed fault
      | @read r s' depth' paid =>
          cases r with
          | done a' => exact .read depth' paid
          | yield a' =>
              dsimp only [ForInStep.value] at paid ⊢
              split
              · next shorter =>
                  exact (ih _ (hn ▸ shorter) a' s' rfl depth' (by omega)).more (by omega)
              · exact .read depth' paid

theorem gains_iterate {step step' : α → Parser (ForInStep α)}
    (h : ∀ a, Gains b need (fun _ => 0) (step a) (step' a)) (a : α) :
    Gains b need (fun _ => 0) (iterate step a) (iterate step' a) :=
  fun credit s enough => follows_iterate (w := fun _ => credit) (fun a s => h a credit s enough) a s

/-- What all items of a list are worth. -/
def total (gain : α → Nat) : List α → Nat
  | [] => 0
  | a :: as => gain a + total gain as

@[simp]
theorem total_nil : total gain [] = 0 := rfl

@[simp]
theorem total_cons (a : α) (as : List α) : total gain (a :: as) = gain a + total gain as := rfl

@[simp]
theorem total_append (as as' : List α) :
    total gain (as ++ as') = total gain as + total gain as' := by
  induction as with
  | nil => simp
  | cons a as ih => simp [ih, Nat.add_assoc]

theorem total_map (f : α → β) (gain : β → Nat) (as : List α) :
    total gain (as.map f) = total (fun a => gain (f a)) as := by
  induction as with
  | nil => rfl
  | cons a as ih => simp [ih]

theorem gains_commaSeparated (h : Gains b need gain p q) :
    Gains b need (fun as => total gain as) (commaSeparated p) (commaSeparated q) := by
  intro credit s enough
  refine h.bind enough fun first s => ?_
  refine follows_bind (follows_iterate (w := fun as : List α =>
    credit + gain first + total gain as) (fun as s => ?_) [] s) fun others s => ?_
  · refine accept_bind (by simp) ?_ ?_
    · refine h.bind (by omega) fun a s => follows_pure ?_
      simp [ForInStep.value]
      omega
    · exact follows_pure (by simp [ForInStep.value])
  · apply follows_pure
    simp
    omega

end Parser
end ScriptFront
