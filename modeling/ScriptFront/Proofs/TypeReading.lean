import ScriptFront.Grammar.WrittenType
import ScriptFront.Proofs.ForwardReading
import ScriptFront.Proofs.NestingLimit

/-!
What is read as a type is a written type, and each written type is read that is not nested too
deeply and that the next tokens cannot carry on. Reading is followed rule by rule: where the tokens
of a rule have been read, the reader of the layer is in the midst of its loop, with the type so far.
-/

namespace ScriptFront

variable {ts us : List Token} {t : TypeExpr} {layer : TypeLayer} {n d : Nat} {s s' : Cursor}
  {stop : Ending}

/-! ### Written types -/

theorem Written.ne_nil (h : Written layer n ts t) : ts ≠ [] := by
  induction h with
  | element _ ih | member _ ih | side _ ih => exact ih
  | _ => simp

theorem length_lt_cons_append (token : Token) (ts : List Token) :
    us.length < (token :: ts ++ us).length := by
  simp only [List.cons_append, List.length_cons, List.length_append]
  omega

/-- Brackets that fit in some levels fit in more. -/
theorem Written.mono (h : Written layer n ts t) {m : Nat} (le : n ≤ m) : Written layer m ts t := by
  induction h generalizing m with
  | builtIn kind isType => exact .builtIn kind isType
  | void kind => exact .void kind
  | infer kind => exact .infer kind
  | null kind => exact .null kind
  | undefined kind => exact .undefined kind
  | name named => exact .name named
  | firstArgument named opens _ ih =>
      obtain ⟨m, rfl⟩ := Nat.exists_eq_add_of_le' le
      exact .firstArgument named opens (ih (Nat.le_add_left _ m))
  | nextArgument _ isComma _ ih ih' =>
      obtain ⟨m, rfl⟩ := Nat.exists_eq_add_of_le' le
      exact .nextArgument (ih le) isComma (ih' (Nat.le_add_left _ m))
  | reference _ closes ih => exact .reference (ih le) closes
  | group opens _ closes ih =>
      obtain ⟨m, rfl⟩ := Nat.exists_eq_add_of_le' le
      exact .group opens (ih (Nat.le_add_left _ m)) closes
  | element _ ih => exact .element (ih le)
  | array _ opens closes ih => exact .array (ih le) opens closes
  | member _ ih => exact .member (ih le)
  | intersection _ joins _ ih ih' => exact .intersection (ih le) joins (ih' le)
  | side _ ih => exact .side (ih le)
  | union _ joins _ ih ih' => exact .union (ih le) joins (ih' le)

/-- A reference that is still open has an argument. -/
theorem Written.exists_argument (h : Written .openReference n ts t) :
    ∃ name first others place, t = ⟨.reference name (first :: others), place⟩ := by
  generalize open_ : TypeLayer.openReference = layer at h
  induction h with
  | firstArgument => exact ⟨_, _, _, _, rfl⟩
  | nextArgument _ _ _ ih =>
      obtain ⟨_, _, _, _, ⟨⟩⟩ := ih rfl
      exact ⟨_, _, _, _, rfl⟩
  | _ => cases open_

/-- Each name around a written type takes one more level of brackets. -/
theorem Written.around (h : Written .union n ts t) (bs : List ArgumentBrackets) :
    Written .union (n + bs.length) (ArgumentBrackets.around bs ts) (t.argumentOf bs) := by
  induction bs with
  | nil => simpa [ArgumentBrackets.around, TypeExpr.argumentOf] using h
  | cons b bs ih =>
      have reference := Written.reference (.firstArgument b.named b.opens ih) b.closes
      have tokens : ArgumentBrackets.around (b :: bs) ts
          = b.name :: b.opener :: ArgumentBrackets.around bs ts ++ [b.closer] := by
        simp [ArgumentBrackets.around]
      rw [tokens]
      exact .side (.member (.element reference))

/-! ### Layers -/

/-- The layer of which the reader of a layer first reads a type. -/
def TypeLayer.inner : TypeLayer → TypeLayer
  | .openReference => .union
  | .base | .array => .base
  | .intersection => .array
  | .union => .intersection

/-- The tokens that can carry on a type of a layer. -/
def TypeLayer.joints : TypeLayer → List TokenKind
  | .base => [.leftArrow]
  | .array => [.leftArrow, .openSquare]
  | .intersection => [.leftArrow, .openSquare, .ampersand]
  | .union | .openReference => [.leftArrow, .openSquare, .ampersand, .pipe]

namespace Cursor

theorem unread_append (s : Cursor) (ts us : List Token) :
    s.unread (ts ++ us) = (s.unread us).unread ts := by
  simp only [unread, List.append_assoc]

theorem eq_unread_advance (h : s.peek.kind ≠ .eof) : s = s.advance.unread [s.peek] := by
  obtain ⟨rest, stop, d⟩ := s
  exact congrArg (Cursor.mk · stop d) (rest_of_peek h)

/--
Between two cursors there is a written type of one layer, which nothing carries on as a type of
another layer.
-/
def Passes (s : Cursor) (layer : TypeLayer) (n : Nat) (t : TypeExpr) (ends : TypeLayer)
    (s' : Cursor) : Prop :=
  ∃ ts, s = s'.unread ts ∧ Written layer n ts t ∧ ¬ s'.CarriesOn ts ends

theorem Passes.imp {layer' ends : TypeLayer} (h : s.Passes layer n t ends s')
    (grows : ∀ {ts}, Written layer n ts t → Written layer' n ts t) :
    s.Passes layer' n t ends s' := by
  obtain ⟨ts, start, written, closed⟩ := h
  exact ⟨ts, start, grows written, closed⟩

theorem Passes.depth {ends : TypeLayer} (h : s.Passes layer n t ends s') : s'.depth = s.depth := by
  obtain ⟨ts, rfl, _⟩ := h
  rfl

/-- What carries on the last of some tokens carries on all of them. -/
theorem CarriesOn.append (init : List Token) (some : us ≠ []) :
    s.CarriesOn (init ++ us) layer ↔ s.CarriesOn us layer := by
  have last : (init ++ us).getLast? = us.getLast? := by
    rw [List.getLast?_append, List.getLast?_eq_some_getLast some]
    rfl
  cases layer <;> simp only [CarriesOn, OpensArguments, last]

theorem CarriesOn.append_cons (init : List Token) (token : Token) (some : us ≠ []) :
    s.CarriesOn (init ++ token :: us) layer ↔ s.CarriesOn us layer := by
  rw [List.append_cons]
  exact CarriesOn.append _ some

theorem CarriesOn.of_inner (h : s.CarriesOn ts layer.inner) : s.CarriesOn ts layer := by
  cases layer <;> grind [CarriesOn, TypeLayer.inner]

theorem CarriesOn.kind_mem (h : s.CarriesOn ts layer) : s.peek.kind ∈ layer.joints := by
  cases layer <;> grind [CarriesOn, OpensArguments, OpensArray, TypeLayer.joints]

theorem not_carriesOn_next {token : Token} {k : TokenKind} (kind : token.kind = k)
    (other : k ∉ layer.joints) : ¬ CarriesOn ⟨token :: us, stop, d⟩ ts layer :=
  fun carries => other (kind ▸ carries.kind_mem)

/-- Two written types with a token between them make another one. -/
theorem Passes.join {layer' ends ends' : TypeLayer} {m : Nat} {l r : TypeExpr} {token : Token}
    {s₁ : Cursor} (left : s.Passes layer n l ends (s₁.unread [token]))
    (right : s₁.Passes layer' m r ends' s')
    (rule : ∀ {ts us}, Written layer n ts l → Written layer' m us r →
      Written layer n (ts ++ token :: us) t) :
    s.Passes layer n t ends' s' ∧ s'.rest.length < (s₁.unread [token]).rest.length := by
  obtain ⟨ts, rfl, written, _⟩ := left
  obtain ⟨us, rfl, written', closed⟩ := right
  refine ⟨⟨ts ++ token :: us, ?_, rule written written', ?_⟩, length_lt_cons_append token us⟩
  · rw [unread_append]
    rfl
  · exact mt (CarriesOn.append_cons ts token written'.ne_nil).mp closed

theorem not_opensArguments (init : List Token) {token : Token} {k : TokenKind}
    (kind : token.kind = k) (other : k ∉ [TokenKind.identifier, .nan]) :
    ¬ s.OpensArguments (init ++ [token]) := by
  rintro ⟨_, last, mem, named⟩
  rw [List.getLast?_concat] at mem
  cases mem
  rw [Token.isTypeName, kind, Bool.or_eq_true, beq_iff_eq, beq_iff_eq] at named
  exact other (by simpa using named)

end Cursor

/-! ### Tokens and rounds -/

namespace Parser

variable {α β : Type}

theorem bind_of_same {p q : Parser α} {f : α → Parser β} {s₁ : Cursor}
    (h : p s = q s₁) : (p >>= f) s = (q >>= f) s₁ := by
  change EStateM.bind p f s = EStateM.bind q f s₁
  simp only [EStateM.bind, h]

theorem expect_next {token : Token} {k : TokenKind} (kind : token.kind = k) (expected : String) :
    expect k expected ⟨token :: us, stop, d⟩ = .ok token ⟨us, stop, d⟩ :=
  if_pos (beq_iff_eq.mpr kind)

theorem accept_next {token : Token} {k : TokenKind} (kind : token.kind = k) :
    accept k ⟨token :: us, stop, d⟩ = .ok true ⟨us, stop, d⟩ :=
  if_pos (beq_iff_eq.mpr kind)

theorem check_next {token : Token} {k : TokenKind} (kind : token.kind = k) :
    check k ⟨token :: us, stop, d⟩ = .ok true ⟨token :: us, stop, d⟩ :=
  congrArg (EStateM.Result.ok · _) (beq_iff_eq.mpr kind)

theorem check_other {k : TokenKind} (kind : s.peek.kind ≠ k) : check k s = .ok false s :=
  congrArg (EStateM.Result.ok · _) (beq_eq_false_iff_ne.mpr kind)

theorem itemStep_next {p : Parser α} {as : List α} {a : α} {comma : Token} {s' : Cursor}
    (isComma : comma.kind = .comma) (item : p ⟨us, stop, d⟩ = .ok a s') :
    itemStep p as ⟨comma :: us, stop, d⟩ = .ok (.yield (as ++ [a])) s' :=
  (bind_of_ok (accept_next isComma)).trans (bind_of_ok item)

theorem itemStep_done {p : Parser α} {as : List α} (closed : s.peek.kind ≠ .comma) :
    itemStep p as s = .ok (.done as) s :=
  bind_of_ok (refused (mt beq_iff_eq.mp closed))

/-- Reading goes on in one of two ways, depending on whether a token of a kind is next. -/
theorem accept_bind_ok {k : TokenKind} {p q : Parser β} {b : β} (token : k ≠ .eof)
    (run : (accept k >>= fun found => if found then p else q) s = .ok b s') :
    (∃ t s₁, t.kind = k ∧ s = s₁.unread [t] ∧ p s₁ = .ok b s') ∨
      (s.peek.kind ≠ k ∧ q s = .ok b s') := by
  by_cases next : s.peek.kind = k
  · rw [bind_of_ok (accepted (beq_iff_eq.mpr next))] at run
    exact .inl ⟨_, _, next, Cursor.eq_unread_advance (next ▸ token), run⟩
  · rw [bind_of_ok (refused (mt beq_iff_eq.mp next))] at run
    exact .inr ⟨next, run⟩

theorem expect_ok {k : TokenKind} {expected : String} {t : Token} (token : k ≠ .eof)
    (run : expect k expected s = .ok t s') : t.kind = k ∧ s = s'.unread [t] := by
  by_cases next : s.peek.kind = k
  · rw [expect, if_pos (beq_iff_eq.mpr next)] at run
    cases run
    exact ⟨next, Cursor.eq_unread_advance (next ▸ token)⟩
  · rw [expect, if_neg (mt beq_iff_eq.mp next)] at run
    cases run

/-- What holds before each round of a loop whose rounds all read a token holds before the last. -/
theorem iterate_ok {step : α → Parser (ForInStep α)} {P : α → Cursor → Prop}
    (round : ∀ a s b s', P a s → step a s = .ok (.yield b) s' →
      P b s' ∧ s'.rest.length < s.rest.length) {a b : α} (start : P a s)
    (run : iterate step a s = .ok b s') :
    ∃ c s₁, P c s₁ ∧ step c s₁ = .ok (.done b) s' := by
  induction length : s.rest.length using Nat.strongRecOn generalizing a s with
  | ind _ ih =>
      subst length
      match first : step a s with
      | .error e s₁ =>
          rw [iterate_of_error first] at run
          cases run
      | .ok (.done c) s₁ =>
          rw [iterate_of_done first] at run
          cases run
          exact ⟨a, s, start, first⟩
      | .ok (.yield c) s₁ =>
          obtain ⟨kept, shorter⟩ := round a s c s₁ start first
          rw [iterate_of_round first shorter] at run
          exact ih _ shorter kept run rfl

theorem nested_eq_ok {limit : Nat} {p : Parser α} {a : α} :
    nested limit p s = .ok a s' ↔ s.depth < limit ∧
      ∃ s₁, p { s with depth := s.depth + 1 } = .ok a s₁ ∧
        s' = { s₁ with depth := s₁.depth - 1 } := by
  by_cases reached : limit ≤ s.depth
  · rw [nested, if_pos reached]
    constructor
    · intro run
      cases run
    · rintro ⟨below, _⟩
      exact absurd below (Nat.not_lt.mpr reached)
  · rw [nested, if_neg reached]
    cases p { s with depth := s.depth + 1 } with
    | error e s₁ =>
        constructor
        · intro run
          cases run
        · rintro ⟨_, _, read, _⟩
          cases read
    | ok b s₁ =>
        constructor
        · rintro ⟨⟩
          exact ⟨Nat.lt_of_not_le reached, s₁, rfl, rfl⟩
        · rintro ⟨_, _, ⟨⟩, rfl⟩
          rfl

end Parser

namespace Grammar

open ScriptFront.Parser

variable {g : Grammar}

/-! ### Rules of the reader -/

theorem baseType_name {token : Token} (named : token.isTypeName = true) :
    baseType g ⟨token :: us, stop, d⟩ = (do
      let generics ← optionalGenerics g
      return (⟨.reference token.lexeme generics, token.location⟩ : TypeExpr)) ⟨us, stop, d⟩ := by
  obtain ⟨kind, lexeme, place⟩ := token
  cases kind <;> first | rfl | cases named

theorem baseType_group {opener : Token} (opens : opener.kind = .openParen) :
    baseType g ⟨opener :: us, stop, d⟩ = (do
      let inner ← g.typeExpr
      let _ ← expect .closeParen "')' to close the type"
      return inner) ⟨us, stop, d⟩ := by
  obtain ⟨kind, lexeme, place⟩ := opener
  cases opens
  rfl

theorem optionalGenerics_none (closed : s.peek.kind ≠ .leftArrow) :
    optionalGenerics g s = .ok [] s := bind_of_ok (check_other closed)

theorem optionalGenerics_some {opener : Token} (opens : opener.kind = .leftArrow) :
    optionalGenerics g ⟨opener :: us, stop, d⟩ = (do
      let args ← commaSeparated g.typeExpr
      let _ ← expect .rightArrow "'>' to close the generic arguments"
      return args) ⟨us, stop, d⟩ :=
  (bind_of_ok (check_next opens)).trans (bind_of_ok (expect_next opens _))

theorem arrayStep_next {opener closer : Token} (opens : opener.kind = .openSquare)
    (closes : closer.kind = .closeSquare) :
    arrayStep t ⟨opener :: closer :: us, stop, d⟩
      = .ok (.yield ⟨.array t, t.location⟩) ⟨us, stop, d⟩ := by
  obtain ⟨_, lexeme, place⟩ := opener
  obtain ⟨_, lexeme', place'⟩ := closer
  cases opens
  cases closes
  rfl

theorem arrayStep_done (closed : ¬ s.OpensArray) : arrayStep t s = .ok (.done t) s := by
  refine congrFun (if_neg fun brackets => closed ?_) s
  obtain ⟨opens, closes⟩ := Bool.and_eq_true_iff.mp brackets
  exact ⟨beq_iff_eq.mp opens, beq_iff_eq.mp closes⟩

/-! ### Written types are read -/

/-- The reader of a layer. -/
def reader (g : Grammar) : TypeLayer → Parser TypeExpr
  | .openReference | .base => baseType g
  | .array => arrayType g
  | .intersection => intersectionType g
  | .union => unionType g

/-- What the reader of a layer still does when a type has been read. -/
def onward (g : Grammar) : TypeLayer → TypeExpr → Parser TypeExpr
  | .openReference, ⟨.reference name (first :: others), place⟩ => do
    let others ← iterate (itemStep g.typeExpr) others
    let _ ← expect .rightArrow "'>' to close the generic arguments"
    return ⟨.reference name (first :: others), place⟩
  | .openReference, t | .base, t => pure t
  | .array, t => iterate arrayStep t
  | .intersection, t => iterate (intersectionStep g) t
  | .union, t => iterate (unionStep g) t

/-- The reader of a layer is done with a type that nothing carries on. -/
theorem onward_done (closed : layer ≠ .openReference) (ends : ¬ s.CarriesOn ts layer) :
    onward g layer t s = .ok t s := by
  cases layer with
  | openReference => exact absurd rfl closed
  | base => rfl
  | array => exact iterate_of_done (arrayStep_done fun opens => ends (.inr opens))
  | intersection =>
      have other : s.peek.kind ≠ .ampersand := fun joins => ends (.inr (.inr joins))
      exact iterate_of_done (bind_of_ok (refused (mt beq_iff_eq.mp other)))
  | union =>
      have other : s.peek.kind ≠ .pipe := fun joins => ends (.inr (.inr (.inr joins)))
      exact iterate_of_done (bind_of_ok (refused (mt beq_iff_eq.mp other)))

/--
From a depth on, a parser reads the written types with brackets less than some levels deep, each up
to where nothing carries it on, and nothing else.
-/
def ReadsTypes (p : Parser TypeExpr) (room d : Nat) : Prop :=
  ∀ s t s', s.depth = d → (p s = .ok t s' ↔ ∃ n ts, n < room ∧ s = s'.unread ts ∧
    Written .union n ts t ∧ ¬ s'.CarriesOn ts .union)

theorem ReadsTypes.read {p : Parser TypeExpr} (h : ReadsTypes p (n + 1) d)
    (written : Written .union n ts t) (ends : ¬ Cursor.CarriesOn ⟨us, stop, d⟩ ts .union) :
    p ⟨ts ++ us, stop, d⟩ = .ok t ⟨us, stop, d⟩ :=
  (h _ t ⟨us, stop, d⟩ rfl).mpr ⟨n, ts, Nat.lt_succ_self n, rfl, written, ends⟩

theorem ReadsTypes.written {p : Parser TypeExpr} (h : ReadsTypes p n d) (depth : s.depth = d)
    (run : p s = .ok t s') : ∃ m, n = m + 1 ∧ s.Passes .union m t .union s' := by
  obtain ⟨m, ts, less, start, written, ends⟩ := (h _ _ _ depth).mp run
  obtain ⟨k, rfl⟩ := Nat.exists_eq_add_of_lt less
  exact ⟨m + k, rfl, ts, start, written.mono (Nat.le_add_right m k), ends⟩

/-- A type that nothing carries on has been read once what follows it has been reached. -/
theorem reader_of_reached (reached : ¬ Cursor.CarriesOn ⟨us, stop, d⟩ ts layer.inner →
      reader g layer ⟨ts ++ us, stop, d⟩ = onward g layer t ⟨us, stop, d⟩)
    (closed : layer ≠ .openReference) (ends : ¬ Cursor.CarriesOn ⟨us, stop, d⟩ ts layer) :
    reader g layer ⟨ts ++ us, stop, d⟩ = .ok t ⟨us, stop, d⟩ :=
  (reached (mt Cursor.CarriesOn.of_inner ends)).trans (onward_done closed ends)

/-- What follows a written type has been reached by the reader of its layer. -/
theorem reader_of_written (h : Written layer n ts t)
    (inner : ReadsTypes g.typeExpr n d)
    (ends : ¬ Cursor.CarriesOn ⟨us, stop, d⟩ ts layer.inner) :
    reader g layer ⟨ts ++ us, stop, d⟩ = onward g layer t ⟨us, stop, d⟩ := by
  induction h generalizing us with
  | @builtIn n token k kind isType =>
      obtain ⟨_, lexeme, place⟩ := token
      cases kind
      cases k <;> first | rfl | cases isType
  | @void n token kind | @infer n token kind | @null n token kind | @undefined n token kind =>
      obtain ⟨_, lexeme, place⟩ := token
      cases kind
      rfl
  | @name n token named =>
      have closed : (Cursor.mk us stop d).peek.kind ≠ .leftArrow :=
        fun opens => ends ⟨opens, token, rfl, named⟩
      exact (baseType_name named).trans (bind_of_ok (optionalGenerics_none closed))
  | @firstArgument n token opener ts a named opens written _ =>
      have ends' := mt (Cursor.CarriesOn.append [token, opener] written.ne_nil).mpr ends
      have first := inner.read written ends'
      have args : optionalGenerics g ⟨opener :: ts ++ us, stop, d⟩ = (do
          let others ← iterate (itemStep g.typeExpr) []
          let _ ← expect .rightArrow "'>' to close the generic arguments"
          return a :: others) ⟨us, stop, d⟩ := by
        refine (optionalGenerics_some opens).trans ?_
        simp only [commaSeparated, bind_assoc, pure_bind]
        exact bind_of_ok first
      refine (baseType_name named).trans ((bind_of_same args).trans ?_)
      simp only [bind_assoc, pure_bind]
      rfl
  | @nextArgument n ts name as place comma us' a written isComma argument ih _ =>
      obtain ⟨_, first, others, _, ⟨⟩⟩ := written.exists_argument
      have ends' := mt (Cursor.CarriesOn.append_cons ts comma argument.ne_nil).mpr ends
      have item := inner.read argument ends'
      have round : iterate (itemStep g.typeExpr) others ⟨comma :: us' ++ us, stop, d⟩
          = iterate (itemStep g.typeExpr) (others ++ [a]) ⟨us, stop, d⟩ :=
        iterate_of_round (itemStep_next isComma item) (length_lt_cons_append comma us')
      rw [List.append_assoc]
      refine (ih inner (Cursor.not_carriesOn_next isComma (by decide))).trans ?_
      exact bind_of_same round
  | @reference n ts t closer written closes ih =>
      obtain ⟨_, first, others, _, rfl⟩ := written.exists_argument
      rw [List.append_assoc]
      refine (ih inner (Cursor.not_carriesOn_next closes (by decide))).trans ?_
      have other : (Cursor.mk (closer :: us) stop d).peek.kind ≠ .comma := by
        change closer.kind ≠ _
        rw [closes]
        decide
      have last : iterate (itemStep g.typeExpr) others ⟨closer :: us, stop, d⟩
          = .ok others ⟨closer :: us, stop, d⟩ := iterate_of_done (itemStep_done other)
      exact (bind_of_ok last).trans (bind_of_ok (expect_next closes _))
  | @group n opener ts t closer opens written closes _ =>
      have ends' : ¬ Cursor.CarriesOn ⟨closer :: us, stop, d⟩ ts .union :=
        Cursor.not_carriesOn_next closes (by decide)
      have content := inner.read written ends'
      rw [List.cons_append, List.cons_append, List.append_assoc]
      refine (baseType_group opens).trans ?_
      exact (bind_of_ok content).trans (bind_of_ok (expect_next closes _))
  | element written ih => exact bind_of_same (ih inner ends)
  | @array n ts t opener closer written opens closes ih =>
      rw [List.append_assoc]
      refine (ih inner (Cursor.not_carriesOn_next opens (by decide))).trans ?_
      exact iterate_of_round (arrayStep_next opens closes) (length_lt_cons_append opener [closer])
  | member written ih =>
      exact bind_of_ok (reader_of_reached (ih inner) nofun ends)
  | @intersection n ts l ampersand us' r written joins right ih ih' =>
      have ends' := mt (Cursor.CarriesOn.append_cons ts ampersand right.ne_nil).mpr ends
      have next := reader_of_reached (ih' inner) nofun ends'
      rw [List.append_assoc]
      refine (ih inner (Cursor.not_carriesOn_next joins (by decide))).trans ?_
      exact iterate_of_round ((bind_of_ok (accept_next joins)).trans (bind_of_ok next))
        (length_lt_cons_append ampersand us')
  | side written ih =>
      exact bind_of_ok (reader_of_reached (ih inner) nofun ends)
  | @union n ts l pipe us' r written joins right ih ih' =>
      have ends' := mt (Cursor.CarriesOn.append_cons ts pipe right.ne_nil).mpr ends
      have next := reader_of_reached (ih' inner) nofun ends'
      rw [List.append_assoc]
      refine (ih inner (Cursor.not_carriesOn_next joins (by decide))).trans ?_
      exact iterate_of_round ((bind_of_ok (accept_next joins)).trans (bind_of_ok next))
        (length_lt_cons_append pipe us')

/-! ### What is read is written -/

theorem arrayStep_ok {r : ForInStep TypeExpr} (run : arrayStep t s = .ok r s') :
    (∃ opener closer, opener.kind = .openSquare ∧ closer.kind = .closeSquare ∧
      s = s'.unread [opener, closer] ∧ r = .yield ⟨.array t, t.location⟩) ∨
      (¬ s.OpensArray ∧ r = .done t ∧ s' = s) := by
  by_cases opens : s.OpensArray
  · have opener : s.peek.kind ≠ .eof := by
      rw [opens.1]
      decide
    have closer : s.advance.peek.kind = .closeSquare :=
      (congrArg Token.kind (Cursor.peekAt_advance (Cursor.rest_ne_nil opener) 0)).trans opens.2
    have start : s = s.advance.advance.unread [s.peek, s.advance.peek] := by
      have behind := Cursor.eq_unread_advance (s := s.advance) (by rw [closer]; decide)
      exact (Cursor.eq_unread_advance opener).trans (congrArg (Cursor.unread · [s.peek]) behind)
    have step : arrayStep t s = .ok (.yield ⟨.array t, t.location⟩) s.advance.advance := by
      conv => lhs; rw [start]
      exact arrayStep_next opens.1 closer
    cases step.symm.trans run
    exact .inl ⟨_, _, opens.1, closer, start, rfl⟩
  · cases (arrayStep_done opens).symm.trans run
    exact .inr ⟨opens, rfl, rfl⟩

/-- The rounds of a layer's loop. -/
theorem passes_loop {step : TypeExpr → Parser (ForInStep TypeExpr)} {s₁ : Cursor} {t' : TypeExpr}
    (first : s.Passes layer n t layer.inner s₁) (run : iterate step t s₁ = .ok t' s')
    (round : ∀ t s₁ t' s₂, s.Passes layer n t layer.inner s₁ → step t s₁ = .ok (.yield t') s₂ →
      s.Passes layer n t' layer.inner s₂ ∧ s₂.rest.length < s₁.rest.length)
    (last : ∀ t s₁ t' s₂, step t s₁ = .ok (.done t') s₂ →
      t' = t ∧ s₂ = s₁ ∧ ∀ ts, s₁.CarriesOn ts layer → s₁.CarriesOn ts layer.inner) :
    s.Passes layer n t' layer s' := by
  obtain ⟨_, _, ⟨ts, start, written, ends⟩, done⟩ := iterate_ok round first run
  obtain ⟨rfl, rfl, carries⟩ := last _ _ _ _ done
  exact ⟨ts, start, written, mt (carries ts) ends⟩

theorem optionalGenerics_ok {args : List TypeExpr} (opens : s.peek.kind = .leftArrow)
    (run : optionalGenerics g s = .ok args s') :
    ∃ opener s₁, opener.kind = .leftArrow ∧ s = s₁.unread [opener] ∧ (do
      let args ← commaSeparated g.typeExpr
      let _ ← expect .rightArrow "'>' to close the generic arguments"
      return args) s₁ = .ok args s' := by
  have start := Cursor.eq_unread_advance (s := s) (by rw [opens]; decide)
  rw [start] at run
  exact ⟨_, _, opens, start, (optionalGenerics_some opens).symm.trans run⟩

/-- A base type is one token, or what a name or a parenthesis begins. -/
theorem baseType_ok {token : Token} (n : Nat)
    (run : baseType g ⟨token :: us, stop, d⟩ = .ok t s') :
    (∃ k, token.kind = k ∧ k ∉ [.identifier, .nan] ∧ Written .base n [token] t ∧
        s' = ⟨us, stop, d⟩) ∨
      (token.isTypeName = true ∧ ∃ args, optionalGenerics g ⟨us, stop, d⟩ = .ok args s' ∧
        t = ⟨.reference token.lexeme args, token.location⟩) ∨
      (token.kind = .openParen ∧ ∃ s₁ closer, g.typeExpr ⟨us, stop, d⟩ = .ok t s₁ ∧
        closer.kind = .closeParen ∧ s₁ = s'.unread [closer]) := by
  by_cases named : token.isTypeName = true
  · rw [baseType_name named] at run
    obtain ⟨args, _, read, ⟨⟩⟩ := bind_eq_ok.mp run
    exact .inr (.inl ⟨named, args, read, rfl⟩)
  obtain ⟨kind, lexeme, place⟩ := token
  cases kind with
  | null =>
      cases run
      exact .inl ⟨_, rfl, by simp, .null rfl, rfl⟩
  | undefined =>
      cases run
      exact .inl ⟨_, rfl, by simp, .undefined rfl, rfl⟩
  | identifier | nan => exact absurd rfl named
  | openParen =>
      rw [baseType_group rfl] at run
      obtain ⟨t, s₁, read, run⟩ := bind_eq_ok.mp run
      obtain ⟨closer, _, closed, ⟨⟩⟩ := bind_eq_ok.mp run
      obtain ⟨closes, start⟩ := expect_ok (by decide) closed
      exact .inr (.inr ⟨rfl, s₁, closer, read, closes, start⟩)
  | keyword k =>
      cases k with
      | kwVoid =>
          cases run
          exact .inl ⟨_, rfl, by simp, .void rfl, rfl⟩
      | kwInfer =>
          cases run
          exact .inl ⟨_, rfl, by simp, .infer rfl, rfl⟩
      | kwInt | kwFloat | kwChar | kwBool =>
          cases run
          exact .inl ⟨_, rfl, by simp, .builtIn rfl rfl, rfl⟩
      | _ => cases run
  | _ => cases run

variable (inner : ReadsTypes g.typeExpr n d) (depth : s.depth = d)
include inner depth

/-- One more argument is read. -/
theorem passes_argument {name : String} {first : TypeExpr} {others others' : List TypeExpr}
    {place : Location} {s₁ s₂ : Cursor}
    (passes : s.Passes .openReference n ⟨.reference name (first :: others), place⟩ .union s₁)
    (step : itemStep g.typeExpr others s₁ = .ok (.yield others') s₂) :
    s.Passes .openReference n ⟨.reference name (first :: others'), place⟩ .union s₂ ∧
      s₂.rest.length < s₁.rest.length := by
  have next := accept_bind_ok (by decide) step
  obtain ⟨comma, s₃, isComma, rfl, more⟩ | ⟨_, ⟨⟩⟩ := next
  obtain ⟨argument, _, read, ⟨⟩⟩ := bind_eq_ok.mp more
  obtain ⟨n, rfl, another⟩ := inner.written (s := s₃) (passes.depth.trans depth) read
  exact passes.join another fun list last => .nextArgument list isComma last

/-- The arguments of a name are read. -/
theorem passes_arguments {token : Token} {s₁ : Cursor} {args : List TypeExpr}
    (named : token.isTypeName = true) (start : s = s₁.unread [token])
    (run : optionalGenerics g s₁ = .ok args s') :
    s.Passes .base n ⟨.reference token.lexeme args, token.location⟩ .base s' := by
  by_cases opens : s₁.peek.kind = .leftArrow
  · obtain ⟨opener, s₂, kind, rfl, bracketed⟩ := optionalGenerics_ok opens run
    obtain ⟨_, s₃, list, closing⟩ := bind_eq_ok.mp bracketed
    obtain ⟨first, s₄, read, more⟩ := bind_eq_ok.mp list
    obtain ⟨others, _, loop, ⟨⟩⟩ := bind_eq_ok.mp more
    obtain ⟨closer, _, closed, ⟨⟩⟩ := bind_eq_ok.mp closing
    obtain ⟨closes, rfl⟩ := expect_ok (by decide) closed
    have depth₂ : s₂.depth = d := (congrArg Cursor.depth start).symm.trans depth
    obtain ⟨n, rfl, ts, rfl, written, ends⟩ := inner.written depth₂ read
    have begins : s.Passes .openReference (n + 1) ⟨.reference token.lexeme [first], token.location⟩
        .union s₄ := by
      refine ⟨token :: opener :: ts, start, .firstArgument named kind written, ?_⟩
      exact mt (Cursor.CarriesOn.append [token, opener] written.ne_nil).mp ends
    obtain ⟨_, _, ⟨us, start, written, _⟩, last⟩ := iterate_ok
      (fun _ _ _ _ passes step => passes_argument inner depth passes step) begins loop
    have ended := accept_bind_ok (by decide) last
    obtain ⟨_, _, _, _, more⟩ | ⟨_, ⟨⟩⟩ := ended
    · obtain ⟨_, _, _, ⟨⟩⟩ := bind_eq_ok.mp more
    · refine ⟨us ++ [closer], ?_, .reference written closes,
        Cursor.not_opensArguments us closes (by decide)⟩
      rw [start, Cursor.unread_append]
  · cases (optionalGenerics_none opens).symm.trans run
    exact ⟨[token], start, .name named, fun carries => opens carries.1⟩

theorem passes_baseType (run : baseType g s = .ok t s') : s.Passes .base n t .base s' := by
  obtain ⟨rest, stop, _⟩ := s
  cases depth
  cases rest with
  | nil => cases run
  | cons token us =>
      obtain ⟨k, kind, other, written, rfl⟩ | ⟨named, args, read, rfl⟩ |
        ⟨opens, s₁, closer, read, closes, rfl⟩ := baseType_ok n run
      · exact ⟨[token], rfl, written, Cursor.not_opensArguments [] kind other⟩
      · exact passes_arguments inner rfl named rfl read
      · obtain ⟨n, rfl, ts, start, written, _⟩ := inner.written (s := ⟨us, stop, _⟩) rfl read
        refine ⟨token :: ts ++ [closer], ?_, .group opens written closes,
          Cursor.not_opensArguments (token :: ts) closes (by decide)⟩
        rw [Cursor.unread_append]
        exact congrArg (Cursor.unread · [token]) start

theorem passes_arrayType (run : arrayType g s = .ok t s') : s.Passes .array n t .array s' := by
  obtain ⟨first, s₁, read, run⟩ := bind_eq_ok.mp run
  refine passes_loop ((passes_baseType inner depth read).imp .element) run ?_ ?_
  · rintro t s₁ t' s₂ ⟨ts, start, written, ends⟩ step
    obtain ⟨opener, closer, opens, closes, rfl, ⟨⟩⟩ | ⟨_, ⟨⟩, _⟩ := arrayStep_ok step
    refine ⟨⟨ts ++ [opener, closer], ?_, .array written opens closes, ?_⟩, ?_⟩
    · rw [start, Cursor.unread_append]
    · rw [List.append_cons]
      exact Cursor.not_opensArguments (ts ++ [opener]) closes (by decide)
    · exact length_lt_cons_append opener [closer]
  · intro t s₁ t' s₂ step
    obtain ⟨_, _, _, _, _, ⟨⟩⟩ | ⟨closed, ⟨⟩, rfl⟩ := arrayStep_ok step
    exact ⟨rfl, rfl, fun ts carries => carries.resolve_right closed⟩

theorem passes_intersectionType (run : intersectionType g s = .ok t s') :
    s.Passes .intersection n t .intersection s' := by
  obtain ⟨first, s₁, read, run⟩ := bind_eq_ok.mp run
  refine passes_loop ((passes_arrayType inner depth read).imp .member) run ?_ ?_
  · intro t s₁ t' s₂ passes step
    have next := accept_bind_ok (by decide) step
    obtain ⟨ampersand, s₃, joins, rfl, joined⟩ | ⟨_, ⟨⟩⟩ := next
    obtain ⟨right, _, read, ⟨⟩⟩ := bind_eq_ok.mp joined
    have another := passes_arrayType (s := s₃) inner (passes.depth.trans depth) read
    exact passes.join another fun left right => .intersection left joins right
  · intro t s₁ t' s₂ step
    have next := accept_bind_ok (by decide) step
    obtain ⟨_, _, _, _, joined⟩ | ⟨other, ⟨⟩⟩ := next
    · obtain ⟨_, _, _, ⟨⟩⟩ := bind_eq_ok.mp joined
    · exact ⟨rfl, rfl, fun ts carries => (or_assoc.mpr carries).resolve_right other⟩

theorem passes_unionType (run : unionType g s = .ok t s') : s.Passes .union n t .union s' := by
  obtain ⟨first, s₁, read, run⟩ := bind_eq_ok.mp run
  refine passes_loop ((passes_intersectionType inner depth read).imp .side) run ?_ ?_
  · intro t s₁ t' s₂ passes step
    have next := accept_bind_ok (by decide) step
    obtain ⟨pipe, s₃, joins, rfl, joined⟩ | ⟨_, ⟨⟩⟩ := next
    obtain ⟨right, _, read, ⟨⟩⟩ := bind_eq_ok.mp joined
    have another := passes_intersectionType (s := s₃) inner (passes.depth.trans depth) read
    exact passes.join another fun left right => .union left joins right
  · intro t s₁ t' s₂ step
    have next := accept_bind_ok (by decide) step
    obtain ⟨_, _, _, _, joined⟩ | ⟨other, ⟨⟩⟩ := next
    · obtain ⟨_, _, _, ⟨⟩⟩ := bind_eq_ok.mp joined
    · refine ⟨rfl, rfl, fun ts carries => ?_⟩
      exact (carries.imp_right or_assoc.mpr |> or_assoc.mpr).resolve_right other

theorem unionType_reads :
    unionType g s = .ok t s' ↔ s.Passes .union n t .union s' := by
  refine ⟨passes_unionType inner depth, ?_⟩
  rintro ⟨ts, rfl, written, ends⟩
  obtain ⟨us, stop, _⟩ := s'
  cases depth
  exact reader_of_reached (reader_of_written written inner) nofun ends

omit inner depth

/-! ### Levels -/

/-- The brackets around a type are one level more than those in it. -/
theorem readsTypes_nested {limit : Nat} (inner : ReadsTypes g.typeExpr (limit - (d + 1)) (d + 1)) :
    ReadsTypes (nested limit (unionType g)) (limit - d) d := by
  rintro s t s' rfl
  constructor
  · intro run
    obtain ⟨below, s₁, read, rfl⟩ := nested_eq_ok.mp run
    obtain ⟨ts, start, written, ends⟩ := passes_unionType inner rfl read
    have lowered := congrArg (fun c : Cursor => { c with depth := c.depth - 1 }) start
    exact ⟨limit - (s.depth + 1), ts, by omega, lowered, written, ends⟩
  · rintro ⟨n, ts, less, rfl, written, ends⟩
    have written' := written.mono (show n ≤ limit - ((s'.unread ts).depth + 1) by omega)
    exact nested_eq_ok.mpr ⟨by omega, { s' with depth := s'.depth + 1 },
      (unionType_reads inner rfl).mpr ⟨ts, rfl, written', ends⟩, rfl⟩

theorem readsTypes_typeExpr {limit levels : Nat} (enough : limit < levels + d) :
    ReadsTypes (ofLevels limit levels).typeExpr (limit - d) d := by
  induction levels generalizing d with
  | zero =>
      intro s t s' _
      refine ⟨nofun, ?_⟩
      rintro ⟨n, _, less, _⟩
      omega
  | succ levels ih =>
      change ReadsTypes (nested (ofLevels limit levels).limit _) _ _
      rw [limit_ofLevels]
      exact readsTypes_nested (ih (by omega))

/--
What is read as a type are the written types with brackets that fit in the depth left, each up to
where nothing carries it on. Arguments inside arguments close on as many angle brackets next to each
other as there are names. There are enough levels wherever a program has a type: `ofLimit` starts
with one more than the limit, and each level down is one deeper.
-/
theorem typeExpr_reads_written {limit levels : Nat} (s : Cursor)
    (enough : limit < levels + s.depth) :
    (∀ t s', (ofLevels limit levels).typeExpr s = .ok t s' ↔
      ∃ n ts, n + s.depth < limit ∧ s = s'.unread ts ∧ Written .union n ts t ∧
        ¬ s'.CarriesOn ts .union) ∧
      ∀ bs n ts t s', n + bs.length + s.depth < limit → Written .union n ts t →
        s = s'.unread (ArgumentBrackets.around bs ts) →
        ¬ s'.CarriesOn (ArgumentBrackets.around bs ts) .union →
        (ofLevels limit levels).typeExpr s = .ok (t.argumentOf bs) s' := by
  have reads := readsTypes_typeExpr enough
  have exact_ : ∀ t s', (ofLevels limit levels).typeExpr s = .ok t s' ↔
      ∃ n ts, n + s.depth < limit ∧ s = s'.unread ts ∧ Written .union n ts t ∧
        ¬ s'.CarriesOn ts .union := by
    intro t s'
    refine (reads s t s' rfl).trans (exists_congr fun n => exists_congr fun ts => ?_)
    rw [Nat.lt_sub_iff_add_lt]
  refine ⟨exact_, fun bs n ts t s' room written start ends => (exact_ _ _).mpr ?_⟩
  exact ⟨_, _, room, start, written.around bs, ends⟩

theorem typeExpr_reads_adjacent_brackets :
    let g := ofLimit nestingLimit
    let s := Cursor.ofTokens (Scan.ofText "A<B<C<D>>>[] | E & F x").tokens
    let b (name : String) : ArgumentBrackets :=
      ⟨⟨.identifier, name, .start⟩, ⟨.leftArrow, "<", .start⟩, ⟨.rightArrow, ">", .start⟩,
        rfl, rfl, rfl⟩
    let d : Token := ⟨.identifier, "D", .start⟩
    let s₁ : Cursor := ⟨[⟨.identifier, "x", .start⟩], ⟨.start, []⟩, 0⟩
    nestingLimit < nestingLimit + 1 + s.depth ∧
      (∃ t s' n ts, g.typeExpr s = .ok t s' ∧ s'.rest.length = 1 ∧ n + s.depth < nestingLimit ∧
        s = s'.unread ts ∧ Written .union n ts t ∧ ¬ s'.CarriesOn ts .union) ∧
      g.typeExpr (s₁.unread (ArgumentBrackets.around [b "A", b "B", b "C"] [d]))
        = .ok ((TypeExpr.named "D" .start).argumentOf [b "A", b "B", b "C"]) s₁ := by
  intro g s b d s₁
  refine ⟨Nat.lt_add_right _ (Nat.lt_succ_self _), ?_, ?_⟩
  · have length : (match g.typeExpr s with
        | .ok _ s' => s'.rest.length
        | .error _ _ => 0) = 1 := by
      decide +kernel
    split at length
    · next t s' run =>
        have enough : nestingLimit < nestingLimit + 1 + s.depth :=
          Nat.lt_add_right _ (Nat.lt_succ_self _)
        obtain ⟨n, ts, written⟩ := ((typeExpr_reads_written s enough).1 t s').mp run
        exact ⟨t, s', n, ts, run, length, written⟩
    · cases length
  · have written : Written .union 0 [d] (.named "D" .start) :=
      .side (.member (.element (.name rfl)))
    exact (typeExpr_reads_written _ (by decide)).2 _ 0 _ _ s₁ (by decide) written rfl
      fun carries => absurd carries.kind_mem (by decide)

end Grammar
end ScriptFront
