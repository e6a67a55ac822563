import ScriptFront.Proofs.LimitedReading

/-!
A parser that may be misled by its nesting limit, beside one that reports the limit there and one
that has none. The three read alike until the first one is misled, and from then on what it yields
is set apart from what the last one yields: no later step takes that back. Where each of them stands
after that is left open.
-/

namespace ScriptFront
namespace Parser

variable {α β : Type}

/-! ### What is yielded -/

/-- Whatever a parser yields has a property. -/
def Yields (P : α → Prop) (p : Parser α) : Prop := ∀ s a s', p s = .ok a s' → P a

/-- Whatever either of two parsers yields has a property. -/
def Keeps (P : α → Prop) (p q : Parser α) : Prop := Yields P p ∧ Yields P q

section Yields

variable {P : β → Prop} {p q : Parser α} {f g : α → Parser β}

theorem yields_pure {b : β} (h : P b) : Yields P (pure b) := by
  intro s a s' run
  cases run
  exact h

theorem yields_bind_of {Q : α → Prop} (first : Yields Q p) (h : ∀ a, Q a → Yields P (f a)) :
    Yields P (p >>= f) := by
  intro s b s' run
  change EStateM.bind p f s = .ok b s' at run
  unfold EStateM.bind at run
  split at run
  · next a s'' read => exact h a (first s a s'' read) s'' b s' run
  · cases run

theorem yields_bind (h : ∀ a, Yields P (f a)) : Yields P (p >>= f) :=
  yields_bind_of (Q := fun _ => True) (fun _ _ _ _ => trivial) fun a _ => h a

theorem yields_fail {fault : SyntaxFault} {place : Location} : Yields P (fail fault place) :=
  fun _ _ _ run => by cases run

theorem keeps_pure {b : β} (h : P b) : Keeps P (pure b) (pure b) := ⟨yields_pure h, yields_pure h⟩

theorem keeps_bind (h : ∀ a, Keeps P (f a) (g a)) : Keeps P (p >>= f) (q >>= g) :=
  ⟨yields_bind fun a => (h a).1, yields_bind fun a => (h a).2⟩

/-- What would come after a fault is not yielded. -/
theorem keeps_fail_bind {fault : SyntaxFault} {place : Location} :
    Keeps P (fail fault place >>= f) (fail fault place >>= g) :=
  ⟨fun _ _ _ run => (nomatch run), fun _ _ _ run => (nomatch run)⟩

/-- What every step of a repetition does to a value is done by the repetition. -/
theorem yields_iterate {grows : α → α → Prop}
    (trans : ∀ {a a' a''}, grows a a' → grows a' a'' → grows a a'')
    {step : α → Parser (ForInStep α)} (h : ∀ a, Yields (fun r => grows a r.value) (step a))
    (a : α) :
    Yields (grows a) (iterate step a) := by
  intro s c s' run
  induction hn : s.rest.length using Nat.strongRecOn generalizing a s with
  | ind n ih =>
      unfold iterate at run
      have first := h a s
      generalize step a s = x at first run
      cases x with
      | error e s₁ => cases run
      | ok r s₁ =>
          have grown := first r s₁ rfl
          cases r with
          | done a' =>
              cases run
              exact grown
          | yield a' =>
              dsimp only at run
              split at run
              · next shorter => exact trans grown (ih _ (hn ▸ shorter) a' s₁ run rfl)
              · cases run
                exact grown

/-- What a repetition yields has grown from what its first step yields. -/
theorem first_of_iterate {grows : α → α → Prop} (refl : ∀ a, grows a a)
    (trans : ∀ {a a' a''}, grows a a' → grows a' a'' → grows a a'')
    {step : α → Parser (ForInStep α)} (h : ∀ a, Yields (fun r => grows a r.value) (step a))
    (a c : α) (s s' : Cursor) (run : iterate step a s = .ok c s') :
    ∃ r s₁, step a s = .ok r s₁ ∧ grows r.value c := by
  unfold iterate at run
  split at run
  · cases run
  · next c' s₁ first =>
      cases run
      exact ⟨_, _, first, refl _⟩
  · next a' s₁ first =>
      refine ⟨_, _, first, ?_⟩
      split at run
      · have grown : Yields (grows a') (iterate step a') :=
          @yields_iterate α grows trans step h a'
        exact grown s₁ c s' run
      · cases run
        exact refl _

end Yields

/-! ### Ways apart -/

/-- How a watchful parser, one that may be misled and one without a limit may end. -/
inductive Parted (b : Bounds) (credit : Nat) (left : α → Nat) (apart : α → α → Prop) :
    EStateM.Result SyntaxError Cursor α → EStateM.Result SyntaxError Cursor α →
      EStateM.Result SyntaxError Cursor α → Prop
  | limited {x e s z} : e.fault = .recursionLimit b.limit →
      Parted b credit left apart x (.error e s) z
  | failed {e s} : Parted b credit left apart (.error e s) (.error e s) (.error e s)
  | read {a s} : s.depth = b.depth → left a + 4 * s.rest.length ≤ credit →
      Parted b credit left apart (.ok a s) (.ok a s) (.ok a s)
  | misled {e s y z} : (∀ a s a' s', y = .ok a s → z = .ok a' s' → apart a a') →
      Parted b credit left apart (.error e s) y z

/-- How the three parsers read from a cursor on. -/
def Parts (b : Bounds) (credit : Nat) (left : α → Nat) (apart : α → α → Prop) (s : Cursor)
    (u p q : Parser α) : Prop :=
  s.depth = b.depth → b.depth + 4 * s.rest.length + credit ≤ b.budget →
    Parted b (credit + 4 * s.rest.length) left apart (u s) (p s) (q s)

/-- How the three parsers read from everywhere. -/
def Departs (b : Bounds) (need : Nat) (apart : α → α → Prop) (u p q : Parser α) : Prop :=
  ∀ credit s, need ≤ credit → Parts b credit (fun _ => credit) apart s u p q

/-- Values that grow and have no continuation in common. -/
def Apart (grows : α → α → Prop) (a a' : α) : Prop := ∀ c, grows a c → ¬ grows a' c

variable {b : Bounds} {credit need : Nat} {s : Cursor} {left : β → Nat}
  {apart : α → α → Prop} {beyond : β → β → Prop}
  {u p q : Parser α} {r r' r'' : Parser β} {f f' f'' : α → Parser β}

theorem Parted.more {x y z : EStateM.Result SyntaxError Cursor β} {credit' : Nat}
    (h : Parted b credit left beyond x y z) (more : credit ≤ credit') :
    Parted b credit' left beyond x y z := by
  cases h with
  | limited fault => exact .limited fault
  | failed => exact .failed
  | read depth paid => exact .read depth (Nat.le_trans paid more)
  | misled stray => exact .misled stray

theorem Parts.more {credit' : Nat} (h : Parts b credit left beyond s r r' r'')
    (more : credit ≤ credit') : Parts b credit' left beyond s r r' r'' :=
  fun depth enough => (h depth (by omega)).more (by omega)

theorem Departs.of
    (h : ∀ credit s, need ≤ credit → Parts b credit (fun _ => credit) apart s u p q) :
    Departs b need apart u p q := h

theorem Departs.imp {apart' : α → α → Prop} (h : Departs b need apart u p q)
    (less : ∀ {a a'}, apart a a' → apart' a a') : Departs b need apart' u p q := by
  intro credit s enough depth paid
  have ends := h credit s enough depth paid
  generalize u s = x at ends ⊢
  generalize p s = y at ends ⊢
  generalize q s = z at ends ⊢
  cases ends with
  | limited fault => exact .limited fault
  | failed => exact .failed
  | read depth paid => exact .read depth paid
  | misled stray => exact .misled fun a s a' s' ha ha' => less (stray a s a' s' ha ha')

theorem Departs.last (h : Departs b need apart u p q) (enough : need ≤ credit) {left : α → Nat}
    (paid : ∀ a, left a ≤ credit) : Parts b credit left apart s u p q := by
  intro depth room
  have ends := h credit s enough depth room
  generalize u s = x at ends ⊢
  generalize p s = y at ends ⊢
  generalize q s = z at ends ⊢
  cases ends with
  | limited fault => exact .limited fault
  | failed => exact .failed
  | @read a s depth' paid' =>
      exact .read depth' (Nat.le_trans (Nat.add_le_add_right (paid a) _) paid')
  | misled stray => exact .misled stray

/-- What is read with one limit cannot mislead. -/
theorem Gains.parts {gain : α → Nat} (h : Gains b need gain p q) (enough : need ≤ credit)
    (next : ∀ a s, Parts b (credit + gain a) left beyond s (f a) (f' a) (f'' a)) :
    Parts b credit left beyond s (p >>= f) (p >>= f') (q >>= f'') := by
  intro depth paid
  change Parted b _ left beyond (EStateM.bind p f s) (EStateM.bind p f' s) (EStateM.bind q f'' s)
  unfold EStateM.bind
  have ends := h credit s enough depth paid
  generalize p s = x at ends ⊢
  generalize q s = y at ends ⊢
  cases ends with
  | limited fault _ => exact .limited fault
  | failed _ => exact .failed
  | @read a s' depth' paid' => exact (next a s' depth' (by omega)).more (by omega)

theorem Gains.departs {gain : α → Nat} (h : Gains b need gain p q) :
    Departs b need apart p p q := by
  intro credit s enough depth paid
  have ends := h credit s enough depth paid
  generalize p s = x at ends ⊢
  generalize q s = y at ends ⊢
  cases ends with
  | limited fault _ => exact .limited fault
  | failed _ => exact .failed
  | read depth' paid' => exact .read depth' (by omega)

/-- What follows keeps enough of two values that are apart for the outcomes to be apart. -/
theorem Departs.bind (h : Departs b need apart u p q) (enough : need ≤ credit)
    (next : ∀ a s, Parts b credit left beyond s (f a) (f' a) (f'' a))
    (keeping : α → β → Prop) (kept : ∀ a, Keeps (keeping a) (f' a) (f'' a))
    (separate : ∀ {a a' c c'}, apart a a' → keeping a c → keeping a' c' → beyond c c') :
    Parts b credit left beyond s (u >>= f) (p >>= f') (q >>= f'') := by
  intro depth paid
  change Parted b _ left beyond (EStateM.bind u f s) (EStateM.bind p f' s) (EStateM.bind q f'' s)
  unfold EStateM.bind
  have ends := h credit s enough depth paid
  generalize u s = x at ends ⊢
  generalize p s = y at ends ⊢
  generalize q s = z at ends ⊢
  cases ends with
  | limited fault => exact .limited fault
  | failed => exact .failed
  | @read a s' depth' paid' => exact (next a s' depth' (by omega)).more (by omega)
  | misled stray =>
      refine .misled fun c s₁ c' s₂ hc hc' => ?_
      split at hc
      · next a s₃ =>
          split at hc'
          · next a' s₄ =>
              exact separate (stray a s₃ a' s₄ rfl rfl) ((kept a).1 _ _ _ hc)
                ((kept a').2 _ _ _ hc')
          · cases hc'
      · cases hc

/-- Outcomes that determine a part of them differ if that part does. -/
theorem Departs.bind_ne (h : Departs b need (· ≠ ·) u p q) (enough : need ≤ credit)
    (next : ∀ a s, Parts b credit left (· ≠ ·) s (f a) (f' a) (f'' a))
    (keeping : α → β → Prop) (kept : ∀ a, Keeps (keeping a) (f' a) (f'' a))
    (unique : ∀ {a a' c}, keeping a c → keeping a' c → a = a') :
    Parts b credit left (· ≠ ·) s (u >>= f) (p >>= f') (q >>= f'') := by
  apply h.bind enough next keeping kept
  rintro a a' c c' ne keep keep' rfl
  exact ne (unique keep keep')

theorem parts_pure {c : β} (h : left c ≤ credit) :
    Parts b credit left beyond s (pure c) (pure c) (pure c) :=
  fun depth _ => .read depth (by omega)

theorem Departs.some (h : Departs b need (· ≠ ·) u p q) :
    Departs b need (· ≠ ·) (Option.some <$> u) (Option.some <$> p) (Option.some <$> q) := by
  intro credit s enough
  rw [map_eq_pure_bind, map_eq_pure_bind, map_eq_pure_bind]
  refine h.bind_ne enough (fun a s => parts_pure (Nat.le_refl _)) (fun a c => c = .some a)
    (fun a => keeps_pure rfl) ?_
  rintro a a' c rfl h
  exact Option.some.inj h

theorem Parts.peek {f f' f'' : Token → Parser β}
    (h : Parts b credit left beyond s (f s.peek) (f' s.peek) (f'' s.peek)) :
    Parts b credit left beyond s (peek >>= f) (peek >>= f') (peek >>= f'') := h

theorem Parts.atEnd {f f' f'' : Bool → Parser β}
    (h : Parts b credit left beyond s (f s.atEnd) (f' s.atEnd) (f'' s.atEnd)) :
    Parts b credit left beyond s (atEnd >>= f) (atEnd >>= f') (atEnd >>= f'') := h

theorem Parts.here {f f' f'' : Location → Parser β}
    (h : Parts b credit left beyond s (f s.peek.location) (f' s.peek.location)
      (f'' s.peek.location)) :
    Parts b credit left beyond s (here >>= f) (here >>= f') (here >>= f'') := h

theorem Parts.check {k : TokenKind} {f f' f'' : Bool → Parser β}
    (h : Parts b credit left beyond s (f (s.peek.kind == k)) (f' (s.peek.kind == k))
      (f'' (s.peek.kind == k))) :
    Parts b credit left beyond s (check k >>= f) (check k >>= f') (check k >>= f'') := h

/-- What is misled on a level is misled around it. -/
theorem departs_nested {limit limit' : Nat} (same : limit = b.limit) (below : b.limit ≤ limit')
    (h : b.depth < b.limit → Departs b.deeper need apart u p q) :
    Departs b (need + 1) apart (nested limit u) (nested limit p) (nested limit' q) := by
  subst same
  intro credit s needed depth enough
  unfold nested
  by_cases reached : b.limit ≤ s.depth
  · rw [if_pos reached, if_pos reached]
    exact .limited rfl
  · rw [if_neg reached, if_neg reached, if_neg (by omega)]
    have ends := h (by omega) (credit - 1) { s with depth := s.depth + 1 } (by omega)
      (by simp [depth, Bounds.deeper]) (by simp only [Bounds.deeper]; omega)
    generalize u { s with depth := s.depth + 1 } = x at ends ⊢
    generalize p { s with depth := s.depth + 1 } = y at ends ⊢
    generalize q { s with depth := s.depth + 1 } = z at ends ⊢
    cases ends with
    | limited fault => exact .limited fault
    | failed => exact .failed
    | @read a s' depth' paid =>
        simp only [Bounds.deeper] at depth'
        exact .read (by simp only; omega) (by simp only at paid ⊢; omega)
    | misled stray =>
        refine .misled fun a s₁ a' s₂ ha ha' => ?_
        split at ha
        · next a₁ s₃ =>
            split at ha'
            · next a₂ s₄ =>
                cases ha
                cases ha'
                exact stray _ _ _ _ rfl rfl
            · cases ha'
        · cases ha

/-- What a repetition has yielded apart stays apart while it grows. -/
theorem departs_iterate {grows : α → α → Prop} (refl : ∀ a, grows a a)
    (trans : ∀ {a a' a''}, grows a a' → grows a' a'' → grows a a'')
    {step step' step'' : α → Parser (ForInStep α)}
    (h : ∀ a, Departs b need (fun r r' => Apart grows r.value r'.value) (step a) (step' a)
      (step'' a))
    (kept : ∀ a, Keeps (fun r => grows a r.value) (step' a) (step'' a)) (a : α) :
    Departs b need (Apart grows) (iterate step a) (iterate step' a) (iterate step'' a) := by
  intro credit s enough
  induction hn : s.rest.length using Nat.strongRecOn generalizing a s with
  | ind n ih =>
      intro depth paid
      have ends := h a credit s enough depth paid
      have first := fun c => first_of_iterate refl trans (fun a => (kept a).1) a c s
      have first' := fun c => first_of_iterate refl trans (fun a => (kept a).2) a c s
      unfold iterate at first first' ⊢
      generalize step a s = x at ends ⊢
      generalize step' a s = y at ends first ⊢
      generalize step'' a s = z at ends first' ⊢
      cases ends with
      | limited fault => exact .limited fault
      | failed => exact .failed
      | @read r s' depth' paid' =>
          cases r with
          | done a' => exact .read depth' paid'
          | yield a' =>
              dsimp only
              split
              · next shorter =>
                  exact (ih _ (hn ▸ shorter) a' s' rfl depth' (by omega)).more (by omega)
              · exact .read depth' paid'
      | misled stray =>
          -- From the parting step on both values only grow.
          refine .misled fun c s₁ c' s₂ hc hc' d far far' => ?_
          obtain ⟨r, s₃, rfl, grown⟩ := first c s₁ hc
          obtain ⟨r', s₄, rfl, grown'⟩ := first' c' s₂ hc'
          exact stray r s₃ r' s₄ rfl rfl d (trans grown far) (trans grown' far')

theorem apart_append {as : List α} {a a' : α} (ne : a ≠ a') :
    Apart List.IsPrefix (as ++ [a]) (as ++ [a']) := by
  intro c first second
  have same := List.prefix_of_prefix_length_le first second (by simp)
  have := same.eq_of_length (by simp)
  simp at this
  exact ne this

/-- An item that is read apart sets the lists apart that it is appended to. -/
theorem Departs.append {γ : Type} (as : List γ) {left : ForInStep (List γ) → Nat}
    {f f' f'' : α → Parser (ForInStep (List γ))} (h : Departs b need (· ≠ ·) u p q)
    (enough : need ≤ credit) (item : α → γ) (inj : ∀ {a a'}, item a = item a' → a = a')
    (next : ∀ a s, Parts b credit left (fun r r' => Apart List.IsPrefix r.value r'.value) s
      (f a) (f' a) (f'' a))
    (kept : ∀ a, Keeps (fun r => r.value = as ++ [item a]) (f' a) (f'' a)) :
    Parts b credit left (fun r r' => Apart List.IsPrefix r.value r'.value) s
      (u >>= f) (p >>= f') (q >>= f'') := by
  apply h.bind enough next _ kept
  intro a a' r r' ne value value'
  rw [value, value']
  exact apart_append fun same => ne (inj same)

/-- Lists that are apart are different. -/
theorem Departs.ne_of_apart {u p q : Parser (List α)}
    (h : Departs b need (Apart List.IsPrefix) u p q) :
    Departs b need (· ≠ ·) u p q := by
  apply h.imp
  rintro as as' ways rfl
  exact ways as List.prefix_rfl List.prefix_rfl

theorem departs_iterate_append {step step' step'' : List α → Parser (ForInStep (List α))}
    (h : ∀ as, Departs b need (fun r r' => Apart List.IsPrefix r.value r'.value)
      (step as) (step' as) (step'' as))
    (kept : ∀ as, Keeps (fun r => as <+: r.value) (step' as) (step'' as)) (as : List α) :
    Departs b need (· ≠ ·) (iterate step as) (iterate step' as) (iterate step'' as) :=
  (departs_iterate (fun _ => List.prefix_rfl) (fun h h' => h.trans h') h kept as).ne_of_apart

end Parser
end ScriptFront
