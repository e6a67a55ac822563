import ScriptFront.Proofs.ScatteredStatements
import ScriptFront.Proofs.VisitedStatements
import ScriptFront.Proofs.WellFormedPrograms

/-!
The arms of switches that take every value. A default case is one, and so is a case with the word for
the default case among its alternatives. A parse counts the default cases only: it lets one pass, and
any number of cases with such an alternative. The arms of a match are all counted.
-/

namespace ScriptFront

/--
An alternative of a case is written behind the word for a case or a bar, and takes every value exactly
if it is the word for the default case.
-/
def Pattern.Labels (ts : List Token) (q : Pattern) : Prop :=
  ∃ before word, [before, word] <:+: ts ∧ (before.kind = .keyword .kwCase ∨ before.kind = .pipe) ∧
    word.location = q.location ∧ (q.isWildcard = true ↔ word.kind = .keyword .kwDefault)

/-- A default case stands at the word for it, which is its only pattern. -/
def SwitchCase.Defaults (ts : List Token) (d : SwitchCase) : Prop :=
  d.patterns = [⟨.wildcard, d.location⟩] ∧
    ∃ word ∈ ts, word.kind = .keyword .kwDefault ∧ word.location = d.location

/-- A statement whose cases, if it is a switch, are labelled with the tokens of a list. -/
def StatementForm.Labelled (ts : List Token) (form : StatementForm) : Prop :=
  (∀ c ∈ form.switchCases, ∀ q ∈ c.patterns, q.Labels ts) ∧
    ∀ d ∈ form.switchDefault, d.Defaults ts

/-- Outlines whose statements all are labelled. -/
def Labelled (ts : List Token) (os : List Outline) : Prop :=
  ∀ s ∈ statementsOf os, s.form.Labelled ts

section Labelled

variable {ts ts' : List Token} {os os' : List Outline}

theorem Labelled.mono (h : Labelled ts os) (sub : ts <:+: ts') : Labelled ts' os := by
  intro s mem
  obtain ⟨labels, defaults⟩ := h s mem
  constructor
  · intro c hc q hq
    obtain ⟨before, word, pair, rest⟩ := labels c hc q hq
    exact ⟨before, word, pair.trans sub, rest⟩
  · intro d hd
    obtain ⟨single, word, written, rest⟩ := defaults d hd
    exact ⟨single, word, sub.subset written, rest⟩

theorem labelled_nil (ts : List Token) : Labelled ts [] := nofun

theorem labelled_append : Labelled ts (os ++ os') ↔ Labelled ts os ∧ Labelled ts os' := by
  simp only [Labelled, statementsOf_append, List.forall_mem_append]

theorem labelled_cons {o : Outline} : Labelled ts (o :: os) ↔ Labelled ts [o] ∧ Labelled ts os :=
  @labelled_append ts [o] os

theorem labelled_of_nil (h : statementsOf os = []) : Labelled ts os := by
  rw [Labelled, h]
  exact nofun

theorem labelled_expression (ts : List Token) (e : Expr) : Labelled ts [e.outline] :=
  labelled_of_nil ((statementsOf_single _).trans (e.all_parts ofParts_statement).statements)

theorem labelled_optionalExpr (ts : List Token) : ∀ e : Option Expr, Labelled ts (optionalExpr e)
  | none => labelled_nil ts
  | some e => labelled_expression ts e

theorem labelled_types (ts : List Token) (types : List TypeExpr) :
    Labelled ts (types.map TypeExpr.outline) :=
  labelled_of_nil (allOf_map.mpr fun t _ => t.all_parts ofParts_statement.type).statements

theorem labelled_params (ts : List Token) (ps : List Param) :
    Labelled ts (ps.map Param.outline) :=
  labelled_of_nil (AllOf.statements (allOf_map.mpr fun p _ =>
    ⟨rfl, p.type.all_parts ofParts_statement.type, trivial⟩))

theorem labelled_signature (ts : List Token) (sig : Signature) : Labelled ts sig.outlines :=
  labelled_append.mpr ⟨labelled_params ts sig.params, labelled_types ts [sig.returns]⟩

theorem Labelled.node {root : Node} (h : Labelled ts os) (other : root.statement? = none) :
    Labelled ts [.node root os] := by
  rwa [Labelled, statementsOf_node other]

/-- A form that is labelled, as are the statements below it. -/
structure StatementForm.LabelledThroughout (ts : List Token) (form : StatementForm) : Prop where
  own : form.Labelled ts
  below : ScriptFront.Labelled ts form.outlines

namespace StatementForm.LabelledThroughout

variable {form : StatementForm}

/-- Forms other than switches have no cases. -/
theorem plain (below : ScriptFront.Labelled ts form.outlines) (cases : form.switchCases = [])
    (otherwise : form.switchDefault = none) : form.LabelledThroughout ts := by
  refine ⟨⟨?_, ?_⟩, below⟩
  · rw [cases]
    exact nofun
  · rw [otherwise]
    exact nofun

theorem outline (h : form.LabelledThroughout ts) (place : Location) :
    ScriptFront.Labelled ts [(⟨form, place⟩ : Statement).outline] := by
  rw [ScriptFront.Labelled, statementsOf_statement]
  exact List.forall_mem_cons.mpr ⟨h.own, h.below⟩

end StatementForm.LabelledThroughout

end Labelled

namespace Parser

variable {α β : Type} {ts : List Token} {P : β → Prop} {Q : α → Prop} {p : Parser α}
  {f : α → Parser β} {due : α → Prop} {s : Cursor} {k : TokenKind}

/-- From some last tokens of a list on, a parser stays in the list and yields what has a property. -/
def YieldsIn (ts : List Token) (P : α → Prop) (p : Parser α) (s : Cursor) : Prop :=
  s.rest <:+ ts → ∀ a s', p s = .ok a s' → s'.rest <:+ ts ∧ P a

theorem Forward.yieldsIn (h : Forward [] due p s) : YieldsIn ts (fun _ => True) p s := by
  intro inside a s' run
  rw [Forward, run] at h
  generalize p (s.trailing []) = y at h
  cases h with
  | read within _ => exact ⟨within.suffix.trans inside, trivial⟩

theorem YieldsIn.bind (hp : YieldsIn ts Q p s) (hf : ∀ a s, Q a → YieldsIn ts P (f a) s) :
    YieldsIn ts P (p >>= f) s := by
  intro inside b s' run
  obtain ⟨a, s₁, first, second⟩ := bind_eq_ok.mp run
  obtain ⟨later, ha⟩ := hp inside a s₁ first
  exact hf a s₁ ha later b s' second

/-- What a parser that goes forward yields is left open. -/
theorem Forward.before (hp : Forward [] due p s) (hf : ∀ a s, YieldsIn ts P (f a) s) :
    YieldsIn ts P (p >>= f) s :=
  (hp.yieldsIn).bind fun a s _ => hf a s

theorem yieldsIn_pure {b : β} (h : P b) : YieldsIn ts P (pure b) s := by
  intro inside _ _ run
  cases run
  exact ⟨inside, h⟩

theorem yieldsIn_fail (fault : SyntaxFault) (place : Location) : YieldsIn ts P (fail fault place) s :=
  fun _ _ _ run => nomatch run

theorem yieldsIn_fail_bind (fault : SyntaxFault) (place : Location) :
    YieldsIn ts P (fail fault place >>= f) s := fun _ _ _ run => nomatch run

theorem YieldsIn.map {g : α → β} (hp : YieldsIn ts (fun a => P (g a)) p s) :
    YieldsIn ts P (g <$> p) s := by
  rw [map_eq_pure_bind]
  exact hp.bind fun _ _ => yieldsIn_pure

theorem behind_peek (token : (k == .eof) = false) (found : s.peek.kind == k) (inside : s.rest <:+ ts) :
    s.peek :: s.advance.rest <:+ ts := by
  have kind := beq_iff_eq.mp found
  rwa [Cursor.rest_of_peek (by rwa [kind, ← beq_eq_false_iff_ne])] at inside

/-- A token that is read stands in the list in front of what is read next. -/
theorem yieldsIn_expect {expected : String} {f : Token → Parser β} (token : (k == .eof) = false)
    (h : ∀ t s, t.kind = k → t :: s.rest <:+ ts → YieldsIn ts P (f t) s) :
    YieldsIn ts P (expect k expected >>= f) s := by
  intro inside b s' run
  obtain ⟨t, s₁, first, second⟩ := bind_eq_ok.mp run
  simp only [expect] at first
  split at first
  · next found =>
      cases first
      have behind := behind_peek token found inside
      exact h _ _ (beq_iff_eq.mp found) behind ((List.suffix_cons _ _).trans behind) b s' second
  · cases first

theorem yieldsIn_accept {f : Bool → Parser β} (token : (k == .eof) = false)
    (yes : ∀ s', s.peek.kind = k → s.peek :: s'.rest <:+ ts → YieldsIn ts P (f true) s')
    (no : YieldsIn ts P (f false) s) : YieldsIn ts P (accept k >>= f) s := by
  intro inside b s' run
  obtain ⟨t, s₁, first, second⟩ := bind_eq_ok.mp run
  by_cases found : s.peek.kind == k
  · cases (accepted found).symm.trans first
    have behind := behind_peek token found inside
    exact yes _ (beq_iff_eq.mp found) behind ((List.suffix_cons _ _).trans behind) b s' second
  · cases (refused found).symm.trans first
    exact no inside b s' second

theorem yieldsIn_nested (limit : Nat) {p : Parser β} (hp : ∀ s, YieldsIn ts P p s) :
    YieldsIn ts P (nested limit p) s := by
  intro inside b s' run
  simp only [nested] at run
  split at run
  · cases run
  · split at run
    · next a s₁ read =>
        cases run
        exact hp { s with depth := s.depth + 1 } inside _ s₁ read
    · cases run

theorem yieldsIn_iterate {step : α → Parser (ForInStep α)} {a : α}
    (h : ∀ a s, Q a → YieldsIn ts (fun r => Q r.value) (step a) s) (ha : Q a) :
    YieldsIn ts Q (iterate step a) s := by
  intro inside b s' run
  induction hn : s.rest.length using Nat.strongRecOn generalizing a s with
  | ind n ih =>
      rw [iterate] at run
      split at run
      · cases run
      · next first =>
          cases run
          exact h a s ha inside _ _ first
      · next c s₁ first =>
          obtain ⟨later, hc⟩ := h a s ha inside _ _ first
          split at run
          · next shorter => exact ih _ (hn ▸ shorter) hc later run rfl
          · cases run
            exact ⟨later, hc⟩

theorem yieldsIn_peek {f : Token → Parser β} (h : YieldsIn ts P (f s.peek) s) :
    YieldsIn ts P (peek >>= f) s := h

theorem yieldsIn_atEnd {f : Bool → Parser β} (h : YieldsIn ts P (f s.atEnd) s) :
    YieldsIn ts P (atEnd >>= f) s := h

theorem yieldsIn_here {f : Location → Parser β} (h : YieldsIn ts P (f s.peek.location) s) :
    YieldsIn ts P (here >>= f) s := h

end Parser

namespace Grammar

open ScriptFront.Parser

/-- The parsers of a level go forward and yield labelled statements, as long as tokens are from a list. -/
structure Labels (ts : List Token) (g : Grammar) : Prop where
  forward : GoesForward [] g
  statement : ∀ s, YieldsIn ts (fun st => Labelled ts [st.outline]) g.statement s
  block : ∀ s, YieldsIn ts (fun b => Labelled ts [b.outline]) g.block s

variable {ts : List Token} {g : Grammar} (h : Labels ts g)

/-! ### Labels of cases -/

theorem simple_numberPattern : Yields (fun form => form.isWildcard = false) numberPattern := by
  refine yields_bind fun first => yields_bind fun ranged => ?_
  split
  · exact yields_bind fun last => yields_pure rfl
  · exact yields_pure rfl

/-- Only the word for the default case is read as an alternative that takes every value. -/
theorem wildcard_simplePattern (s : Cursor) :
    YieldsIn ts (fun form => s.peek.kind ≠ .eof ∧
      (form.isWildcard = true ↔ s.peek.kind = .keyword .kwDefault)) simplePattern s := by
  have other {k : TokenKind} (token : k ≠ .eof) (named : k ≠ .keyword .kwDefault)
      {form : PatternForm} (plain : form.isWildcard = false) :
      k ≠ .eof ∧ (form.isWildcard = true ↔ k = .keyword .kwDefault) := by
    refine ⟨token, iff_of_false ?_ named⟩
    rw [plain]
    exact Bool.false_ne_true
  have number {k : TokenKind} (token : k ≠ .eof) (named : k ≠ .keyword .kwDefault) :
      YieldsIn ts (fun form => k ≠ .eof ∧ (form.isWildcard = true ↔ k = .keyword .kwDefault))
        numberPattern s := fun inside form s' run =>
    ⟨((inside_numberPattern s).yieldsIn inside form s' run).1,
      other token named (simple_numberPattern _ _ _ run)⟩
  have leaf {k : TokenKind} (token : k ≠ .eof) (named : k ≠ .keyword .kwDefault)
      {form : PatternForm} (plain : form.isWildcard = false) (s : Cursor) :
      YieldsIn ts (fun form => k ≠ .eof ∧ (form.isWildcard = true ↔ k = .keyword .kwDefault))
        (pure form) s := yieldsIn_pure (other token named plain)
  refine yieldsIn_peek ?_
  split
  case h_1 kind =>
    rw [kind]
    exact inside_advance.before fun _ _ => yieldsIn_pure ⟨nofun, iff_of_true rfl rfl⟩
  case h_2 kind =>
    rw [kind]
    refine inside_advance.before fun _ _ => (consumes_name _).before fun _ => ?_
    exact leaf (by decide) (by decide) (by rfl)
  case h_3 kind | h_4 kind => exact kind ▸ number (by decide) (by decide)
  case h_5 kind | h_6 kind | h_7 kind =>
    rw [kind]
    exact inside_advance.before fun _ => leaf (by decide) (by decide) (by rfl)
  case h_8 kind =>
    rw [kind]
    refine inside_advance.before fun _ s => (inside_memberPath _ s).before fun path s => ?_
    split
    · exact leaf (by decide) (by decide) (by rfl) s
    · exact leaf (by decide) (by decide) (by rfl) s
  case h_9 => exact yieldsIn_fail _ _

/-- An alternative is read behind the word or bar in front of it. -/
theorem labels_pattern {before : Token} {s : Cursor}
    (opens : before.kind = .keyword .kwCase ∨ before.kind = .pipe) (behind : before :: s.rest <:+ ts) :
    YieldsIn ts (Pattern.Labels ts) (pattern g false) s := by
  refine yieldsIn_here ((wildcard_simplePattern s).bind fun form s' ⟨token, wildcard⟩ => ?_)
  rw [Cursor.rest_of_peek token] at behind
  have pair : [before, s.peek] <:+: ts :=
    (List.prefix_append [before, s.peek] _).isInfix.trans behind.isInfix
  exact yieldsIn_pure ⟨before, s.peek, pair, opens, rfl, wildcard⟩

include h

/-! ### Declarations -/

theorem labels_initializer (s : Cursor) :
    YieldsIn ts (fun init => Labelled ts (optionalExpr init)) (initializer g) s :=
  fun inside init s' run =>
    ⟨((inside_initializer h.forward s).yieldsIn inside init s' run).1, labelled_optionalExpr ts init⟩

theorem labels_varGroup (ms : Modifiers) (s : Cursor) :
    YieldsIn ts (fun d => (StatementForm.varGroup d).LabelledThroughout ts) (varGroup g ms) s :=
  fun inside d s' run =>
    have parts : Labelled ts (StatementForm.varGroup d).outlines :=
      labelled_append.mpr ⟨labelled_types ts [d.type], labelled_optionalExpr ts d.init⟩
    ⟨((inside_varGroup h.forward ms s).yieldsIn inside d s' run).1, .plain parts rfl rfl⟩

theorem labels_function (ms : Modifiers) (s : Cursor) :
    YieldsIn ts (fun d => (StatementForm.function d).LabelledThroughout ts) (function g ms) s := by
  refine (consumes_expect rfl _).before fun _ s => (consumes_name _).before fun ident s => ?_
  refine (consumes_signature h.forward.typeExpr s).before fun sig s => ?_
  refine (h.block s).bind fun body s hbody => yieldsIn_pure (.plain ?_ rfl rfl)
  exact labelled_append.mpr ⟨labelled_signature ts sig, hbody⟩

theorem labels_structType (ms : Modifiers) (s : Cursor) :
    YieldsIn ts (fun d => (StatementForm.structType d).LabelledThroughout ts) (structType g ms) s := by
  intro inside d s' run
  refine ⟨((consumes_structType h.forward ms s).yieldsIn inside d s' run).1, .plain ?_ rfl rfl⟩
  have fields : d.fields.map (·.type.outline) = (d.fields.map (·.type)).map TypeExpr.outline := by
    rw [List.map_map]
    rfl
  rw [StatementForm.outlines, fields]
  exact labelled_types ts _

/-! ### Class bodies -/

theorem labels_operatorMember (s : Cursor) :
    YieldsIn ts (fun form => Labelled ts form.outlines) (operatorMember g) s := by
  refine inside_advance.before fun t s => ?_
  split
  · refine (inside_genericParams s).before fun generics s => ?_
    refine (consumes_params h.forward.typeExpr s).before fun ps s => ?_
    split
    · exact yieldsIn_fail _ _
    · refine (consumes_returnType h.forward.typeExpr s).before fun returns s => ?_
      refine (h.block s).bind fun body s hbody => yieldsIn_pure ?_
      exact labelled_append.mpr ⟨labelled_signature ts ⟨generics, ps, returns⟩, hbody⟩
  · exact yieldsIn_fail _ _

theorem labels_constructorMember (s : Cursor) :
    YieldsIn ts (fun form => Labelled ts form.outlines) (constructorMember g) s := by
  refine (consumes_params h.forward.typeExpr s).before fun ps s => ?_
  refine (inside_check _).before fun typed s => ?_
  split
  · exact yieldsIn_here (yieldsIn_fail _ _)
  · refine (h.block s).bind fun body s hbody => yieldsIn_pure ?_
    exact labelled_append.mpr ⟨labelled_params ts ps, hbody⟩

theorem labels_methodMember (className : String) (ms : Modifiers) (place : Location) (s : Cursor) :
    YieldsIn ts (fun form => Labelled ts form.outlines) (methodMember g className ms place) s := by
  refine (inside_reject _ _ _).before fun _ s => (consumes_name _).before fun ident s => ?_
  split
  · exact (inside_reject _ _ _).before fun _ s => labels_constructorMember h s
  · refine (consumes_signature h.forward.typeExpr s).before fun sig s => ?_
    refine (h.block s).bind fun body s hbody => yieldsIn_pure ?_
    exact labelled_append.mpr ⟨labelled_signature ts sig, hbody⟩

theorem labels_propertyMember (s : Cursor) :
    YieldsIn ts (fun form => Labelled ts form.outlines) (propertyMember g) s := by
  refine (h.forward.typeExpr s).before fun type s => (consumes_name _).before fun ident s => ?_
  refine (labels_initializer h s).bind fun init s hinit => ?_
  refine (consumes_expect rfl _).before fun _ s => yieldsIn_pure ?_
  exact labelled_cons.mpr ⟨labelled_types ts [type], hinit⟩

theorem labels_member (className : String) (s : Cursor) :
    YieldsIn ts (fun m => Labelled ts [m.outline]) (member g className) s := by
  refine yieldsIn_here ((inside_modifiers s).before fun ms s' => ?_)
  refine (inside_check _).before fun named s' => (inside_foreseesMethod s').before fun method s' => ?_
  split
  · refine (inside_reject _ _ _).before fun _ s' => ?_
    exact (labels_operatorMember h s').bind fun form s' hform => yieldsIn_pure (hform.node rfl)
  · split
    · exact (labels_methodMember h className ms _ s').bind fun form s' hform =>
        yieldsIn_pure (hform.node rfl)
    · exact (labels_propertyMember h s').bind fun form s' hform => yieldsIn_pure (hform.node rfl)

theorem labels_members (className : String) (s : Cursor) :
    YieldsIn ts (fun ms => Labelled ts (memberOutlines ms)) (members g className) s := by
  refine yieldsIn_iterate (fun ms s hms => ?_) (labelled_nil ts)
  refine (inside_check _).before fun closed s => yieldsIn_atEnd ?_
  split
  · exact yieldsIn_pure hms
  · refine (inside_accept _).before fun stray s => ?_
    split
    · exact yieldsIn_pure hms
    · refine (labels_member h className s).bind fun m s hm => ?_
      have all : Labelled ts (memberOutlines (ms ++ [m])) := by
        rw [memberOutlines_append]
        exact labelled_append.mpr ⟨hms, hm⟩
      split
      · exact yieldsIn_fail_bind _ _
      · exact yieldsIn_pure all

theorem labels_classType (ms : Modifiers) (s : Cursor) :
    YieldsIn ts (fun d => (StatementForm.classType d).LabelledThroughout ts) (classType g ms) s := by
  refine (consumes_expect rfl _).before fun _ s => (consumes_name _).before fun ident s => ?_
  refine (inside_genericParams s).before fun generics s => ?_
  refine (inside_accept _).before fun extending s => ?_
  extract_lets rest
  have rest_labels (superclass : Option TypeExpr) (s : Cursor) :
      YieldsIn ts (fun d => (StatementForm.classType d).LabelledThroughout ts)
        (rest superclass) s := by
    refine (inside_accept _).before fun implementing s => ?_
    extract_lets body
    have body_labels (interfaces : List TypeExpr) (s : Cursor) :
        YieldsIn ts (fun d => (StatementForm.classType d).LabelledThroughout ts)
          (body interfaces) s := by
      refine (consumes_expect rfl _).before fun _ s => ?_
      refine (labels_members h _ s).bind fun members s hmembers => ?_
      refine (consumes_expect rfl _).before fun _ s => yieldsIn_pure (.plain ?_ rfl rfl)
      rw [StatementForm.outlines, typeOutlines_eq]
      refine labelled_append.mpr ⟨labelled_append.mpr ⟨labelled_types ts _, ?_⟩, hmembers⟩
      exact labelled_types ts interfaces
    split
    · exact (inside_commaSeparated h.forward.typeExpr).before body_labels
    · exact body_labels [] s
  split
  · exact ((h.forward.typeExpr s).map some).before rest_labels
  · exact rest_labels none s

theorem labels_declaration (s : Cursor) :
    YieldsIn ts (fun st => Labelled ts [st.outline]) (declaration g) s := by
  refine yieldsIn_here ((inside_modifiers s).before fun ms s' => yieldsIn_peek ?_)
  split
  · exact (labels_function h ms s').bind fun d _ hd => yieldsIn_pure (hd.outline _)
  · exact (labels_classType h ms s').bind fun d _ hd => yieldsIn_pure (hd.outline _)
  · exact (labels_structType h ms s').bind fun d _ hd => yieldsIn_pure (hd.outline _)
  · refine (labels_varGroup h ms s').bind fun d _ hd => ?_
    exact (consumes_expect rfl _).before fun _ _ => yieldsIn_pure (hd.outline _)

/-! ### Statements -/

theorem labels_simple (s : Cursor) :
    YieldsIn ts (fun st => Labelled ts [st.outline]) (simple g) s := by
  have assigned (target value : Expr) (place : Location) :
      Labelled ts [(⟨.assignment target value, place⟩ : Statement).outline] := by
    refine StatementForm.LabelledThroughout.outline (.plain ?_ rfl rfl) place
    exact labelled_cons.mpr ⟨labelled_expression ts target, labelled_expression ts value⟩
  refine yieldsIn_here ((h.forward.expression s).before fun target s' => yieldsIn_peek ?_)
  split
  · have whole : (StatementForm.expression target).LabelledThroughout ts :=
      .plain (labelled_expression ts target) rfl rfl
    exact yieldsIn_pure (whole.outline _)
  · refine inside_advance.before fun operator s' => ?_
    split
    · refine (h.forward.expression s').before fun right s' => ?_
      split
      · exact (inside_node _ _).before fun value _ => yieldsIn_pure (assigned target value _)
      · exact yieldsIn_pure (assigned target right _)
    · exact yieldsIn_fail _ _

theorem labels_terminated (s : Cursor) :
    YieldsIn ts (fun st => Labelled ts [st.outline]) (terminated g) s :=
  (labels_simple h s).bind fun _ _ hst =>
    (consumes_expect rfl _).before fun _ _ => yieldsIn_pure hst

theorem labels_statementsUntil (stop : TokenKind → Bool) (s : Cursor) :
    YieldsIn ts (fun body => Labelled ts (statementOutlines body)) (statementsUntil g stop) s := by
  refine yieldsIn_iterate (fun body s hbody => ?_) (labelled_nil ts)
  refine yieldsIn_peek (yieldsIn_atEnd ?_)
  split
  · exact yieldsIn_pure hbody
  · refine (inside_accept _).before fun stray s => ?_
    split
    · exact yieldsIn_pure hbody
    · refine (h.statement s).bind fun st s hst => yieldsIn_pure ?_
      rw [ForInStep.value, statementOutlines_append]
      exact labelled_append.mpr ⟨hbody, hst⟩

theorem labels_blockForm (s : Cursor) :
    YieldsIn ts (fun b => Labelled ts [b.outline]) (blockForm g) s := by
  refine (consumes_expect rfl _).before fun opener s => ?_
  refine (labels_statementsUntil h _ s).bind fun body s hbody => ?_
  exact (consumes_expect rfl _).before fun _ s => yieldsIn_pure (hbody.node rfl)

theorem labels_ifForm (s : Cursor) :
    YieldsIn ts (StatementForm.LabelledThroughout ts) (ifForm g) s := by
  refine (consumes_expect rfl _).before fun _ s => (h.forward.expression s).before fun test s => ?_
  refine (h.block s).bind fun body s hbody => ?_
  refine YieldsIn.bind (Q := fun elifs => Labelled ts (elifOutlines elifs))
    (yieldsIn_iterate (fun elifs s helifs => yieldsIn_peek ?_) (labelled_nil ts))
    fun elifs s helifs => ?_
  · split
    · refine inside_advance.before fun _ s => (h.forward.expression s).before fun test s => ?_
      refine (h.block s).bind fun body s hbody => yieldsIn_pure ?_
      rw [ForInStep.value, elifOutlines_append]
      refine labelled_append.mpr ⟨helifs, labelled_cons.mpr ⟨?_, hbody⟩⟩
      exact labelled_expression ts test
    · exact yieldsIn_pure helifs
  · have whole (otherwise : Option Block) (s : Cursor)
        (hotherwise : Labelled ts (optionalBlock otherwise)) :
        YieldsIn ts (StatementForm.LabelledThroughout ts)
          (pure (.conditional test body elifs otherwise)) s := by
      refine yieldsIn_pure (.plain ?_ rfl rfl)
      refine labelled_cons.mpr ⟨labelled_expression ts test, labelled_cons.mpr ⟨hbody, ?_⟩⟩
      exact labelled_append.mpr ⟨helifs, hotherwise⟩
    refine (inside_accept _).before fun else_ s => ?_
    split
    · exact (YieldsIn.map (P := fun b => Labelled ts (optionalBlock b)) (h.block s)).bind whole
    · exact whole none s (labelled_nil ts)

theorem labels_whileForm (s : Cursor) :
    YieldsIn ts (StatementForm.LabelledThroughout ts) (whileForm g) s := by
  refine (consumes_expect rfl _).before fun _ s => (h.forward.expression s).before fun test s => ?_
  refine (h.block s).bind fun body s hbody => yieldsIn_pure (.plain ?_ rfl rfl)
  exact labelled_cons.mpr ⟨labelled_expression ts test, hbody⟩

theorem labels_forInit (s : Cursor) :
    YieldsIn ts (fun st => Labelled ts [st.outline]) (forInit g) s := by
  refine yieldsIn_here ((inside_startsVariable h.forward s).before fun declares s' => ?_)
  split
  · exact (labels_varGroup h _ s').bind fun d _ hd => yieldsIn_pure (hd.outline _)
  · exact labels_simple h s'

theorem labels_forForm (s : Cursor) :
    YieldsIn ts (StatementForm.LabelledThroughout ts) (forForm g) s := by
  refine (consumes_expect rfl _).before fun _ s => (consumes_expect rfl _).before fun _ s => ?_
  refine (inside_check _).before fun noInit s => ?_
  extract_lets afterInit
  have init_labels (init : Option Statement) (s : Cursor)
      (hinit : Labelled ts (optionalStatement init)) :
      YieldsIn ts (StatementForm.LabelledThroughout ts) (afterInit init) s := by
    refine (consumes_expect rfl _).before fun _ s => (inside_check _).before fun noTest s => ?_
    extract_lets afterTest
    have test_labels (test : Option Expr) (s : Cursor) :
        YieldsIn ts (StatementForm.LabelledThroughout ts) (afterTest test) s := by
      refine (consumes_expect rfl _).before fun _ s => (inside_check _).before fun noUpdate s => ?_
      extract_lets afterUpdate
      have update_labels (update : Option Statement) (s : Cursor)
          (hupdate : Labelled ts (optionalStatement update)) :
          YieldsIn ts (StatementForm.LabelledThroughout ts) (afterUpdate update) s := by
        refine (consumes_expect rfl _).before fun _ s => ?_
        refine (h.block s).bind fun body s hbody => yieldsIn_pure (.plain ?_ rfl rfl)
        refine labelled_append.mpr ⟨labelled_append.mpr ⟨?_, hupdate⟩, hbody⟩
        exact labelled_append.mpr ⟨hinit, labelled_optionalExpr ts test⟩
      split
      · exact update_labels none s (labelled_nil ts)
      · exact (YieldsIn.map (P := fun u => Labelled ts (optionalStatement u))
          (labels_simple h s)).bind update_labels
    split
    · exact test_labels none s
    · exact ((h.forward.expression s).inside.map some).before test_labels
  split
  · exact init_labels none s (labelled_nil ts)
  · exact (YieldsIn.map (P := fun i => Labelled ts (optionalStatement i))
      (labels_forInit h s)).bind init_labels

theorem labels_tryForm (s : Cursor) :
    YieldsIn ts (StatementForm.LabelledThroughout ts) (tryForm g) s := by
  refine (consumes_expect rfl _).before fun _ s => (h.block s).bind fun body s hbody => ?_
  refine YieldsIn.bind (Q := fun handlers => Labelled ts (catchOutlines handlers))
    (yieldsIn_iterate (fun handlers s hhandlers => yieldsIn_peek ?_) (labelled_nil ts))
    fun handlers s hhandlers => ?_
  · split
    · refine inside_advance.before fun _ s => (consumes_expect rfl _).before fun _ s => ?_
      refine (h.forward.typeExpr s).before fun type s => (consumes_name _).before fun ident s => ?_
      refine (consumes_expect rfl _).before fun _ s => ?_
      refine (h.block s).bind fun body s hbody => yieldsIn_pure ?_
      rw [ForInStep.value, catchOutlines_append]
      refine labelled_append.mpr ⟨hhandlers, labelled_cons.mpr ⟨?_, hbody⟩⟩
      exact labelled_types ts [type]
    · exact yieldsIn_pure hhandlers
  · extract_lets next
    split
    · exact yieldsIn_here (yieldsIn_fail_bind _ _)
    · refine (consumes_expect rfl _).before fun opener s => ?_
      refine (h.block s).bind fun last s hlast => yieldsIn_pure (.plain ?_ rfl rfl)
      exact labelled_cons.mpr ⟨hbody, labelled_append.mpr ⟨hhandlers, hlast⟩⟩

/-! ### Switches -/

theorem labels_caseBody (s : Cursor) :
    YieldsIn ts (fun body => Labelled ts (statementOutlines body)) (caseBody g) s := by
  refine yieldsIn_here ((inside_check _).before fun opened s' => ?_)
  split
  · refine (h.block s').bind fun body s' hbody => yieldsIn_pure ?_
    have whole : (StatementForm.block body).LabelledThroughout ts := .plain hbody rfl rfl
    exact whole.outline _
  · exact labels_statementsUntil h _ s'

/-- The cases that are read so far are labelled, as are the statements in them. -/
structure LabelledCases (ts : List Token) (cases : Cases) : Prop where
  labels : ∀ c ∈ cases.1, ∀ q ∈ c.patterns, q.Labels ts
  defaults : ∀ d ∈ cases.2, d.Defaults ts
  below : Labelled ts (caseOutlines cases.1 ++ optionalCase cases.2)

omit h in
theorem labelled_case {patterns : List Pattern} {body : List Statement}
    (hbody : Labelled ts (statementOutlines body)) :
    Labelled ts (patterns.map Pattern.outline ++ statementOutlines body) :=
  labelled_append.mpr ⟨labelled_of_nil (statementsOf_patterns patterns), hbody⟩

omit h in
theorem labels_alternatives (s : Cursor) :
    YieldsIn ts (fun ps => ∀ q ∈ ps, q.Labels ts) (iterate (alternativeStep g) []) s := by
  refine yieldsIn_iterate (fun ps s hps => ?_) nofun
  refine yieldsIn_accept rfl (fun s' kind behind => ?_) (yieldsIn_pure hps)
  refine (labels_pattern (.inr kind) behind).bind fun q s hq => yieldsIn_pure ?_
  exact List.forall_mem_append.mpr ⟨hps, List.forall_mem_singleton.mpr hq⟩

theorem labels_caseStep (cases : Cases) (s : Cursor) (hcases : LabelledCases ts cases) :
    YieldsIn ts (fun r => LabelledCases ts r.value) (caseStep g cases) s := by
  obtain ⟨cases, otherwise⟩ := cases
  obtain ⟨below, default_⟩ := labelled_append.mp hcases.below
  refine (inside_check _).before fun closed s => yieldsIn_atEnd ?_
  split
  · exact yieldsIn_pure hcases
  · refine yieldsIn_here (yieldsIn_accept rfl (fun s' kind behind => ?_) ?_)
    · rw [if_pos rfl]
      dsimp only
      have word : ∃ word ∈ ts, word.kind = .keyword .kwDefault ∧ word.location = s.peek.location :=
        ⟨s.peek, behind.subset (List.mem_cons_self ..), kind, rfl⟩
      have tail (s' : Cursor) : YieldsIn ts (fun r => LabelledCases ts r.value) (do
          let _ ← expect .colon "':' after default"
          let body ← caseBody g
          return ForInStep.yield
            (cases, some (⟨[⟨.wildcard, s.peek.location⟩], body, s.peek.location⟩ : SwitchCase)))
          s' := by
        refine (consumes_expect rfl _).before fun _ s' => ?_
        refine (labels_caseBody h s').bind fun body s' hbody => yieldsIn_pure ?_
        refine ⟨hcases.labels, ?_, labelled_append.mpr ⟨below, labelled_case hbody⟩⟩
        rintro d ⟨⟩
        exact ⟨rfl, word⟩
      split
      · exact yieldsIn_fail_bind _ _
      · exact tail s'
    · rw [if_neg Bool.false_ne_true]
      refine yieldsIn_expect rfl fun t s' kind behind => ?_
      refine (labels_pattern (.inl kind) behind).bind fun first s' hfirst => ?_
      refine (labels_alternatives s').bind fun others s' hothers => ?_
      refine (consumes_expect rfl _).before fun _ s' => ?_
      refine (labels_caseBody h s').bind fun body s' hbody => yieldsIn_pure ?_
      have labels := List.forall_mem_cons.mpr ⟨hfirst, hothers⟩
      refine ⟨List.forall_mem_append.mpr ⟨hcases.labels, List.forall_mem_singleton.mpr labels⟩,
        hcases.defaults, labelled_append.mpr ⟨?_, default_⟩⟩
      rw [ForInStep.value, caseOutlines_append]
      exact labelled_append.mpr ⟨below, labelled_append.mpr ⟨labelled_case hbody, labelled_nil ts⟩⟩

omit h in
theorem labelledCases_nil (ts : List Token) : LabelledCases ts ([], none) :=
  ⟨nofun, nofun, labelled_nil ts⟩

theorem labels_switchForm (s : Cursor) :
    YieldsIn ts (StatementForm.LabelledThroughout ts) (switchForm g) s := by
  refine (consumes_expect rfl _).before fun _ s => (h.forward.expression s).before fun value s => ?_
  refine (consumes_expect rfl _).before fun _ s => ?_
  refine (yieldsIn_iterate (labels_caseStep h) (labelledCases_nil ts)).bind
    fun cases s hcases => ?_
  refine (consumes_expect rfl _).before fun _ s => yieldsIn_pure ⟨⟨hcases.labels, hcases.defaults⟩, ?_⟩
  exact labelled_cons.mpr ⟨labelled_expression ts value, hcases.below⟩

/-! ### All statements -/

theorem labels_returnForm (s : Cursor) :
    YieldsIn ts (StatementForm.LabelledThroughout ts) (returnForm g) s := by
  refine inside_advance.before fun _ s => (inside_check _).before fun empty s => ?_
  extract_lets next
  have next_labels (value : Option Expr) (s : Cursor) :
      YieldsIn ts (StatementForm.LabelledThroughout ts) (next value) s := by
    refine (consumes_expect rfl _).before fun _ s => yieldsIn_pure (.plain ?_ rfl rfl)
    exact labelled_optionalExpr ts value
  split
  · exact next_labels none s
  · exact ((h.forward.expression s).inside.map some).before next_labels

theorem labels_throwForm (s : Cursor) :
    YieldsIn ts (StatementForm.LabelledThroughout ts) (throwForm g) s := by
  refine inside_advance.before fun _ s => (h.forward.expression s).before fun value s => ?_
  split
  · refine (consumes_expect rfl _).before fun _ s => yieldsIn_pure (.plain ?_ rfl rfl)
    exact labelled_expression ts value
  · exact yieldsIn_fail _ _

omit h in
theorem labels_jump {form : StatementForm} (whole : form.LabelledThroughout ts) (s : Cursor) :
    YieldsIn ts (StatementForm.LabelledThroughout ts) (jump form) s :=
  inside_advance.before fun _ _ => (consumes_expect rfl _).before fun _ _ => yieldsIn_pure whole

theorem labels_keywordStatement (t : Token) (k : Keyword) (s : Cursor) :
    YieldsIn ts (fun st => Labelled ts [st.outline]) (keywordStatement g t k) s := by
  have located {form : Parser StatementForm}
      (hform : YieldsIn ts (StatementForm.LabelledThroughout ts) form s) :
      YieldsIn ts (fun st => Labelled ts [st.outline])
        (do return (⟨← form, t.location⟩ : Statement)) s :=
    hform.bind fun form s whole => yieldsIn_pure (whole.outline t.location)
  simp only [keywordStatement]
  split
  case h_1 => exact located (labels_ifForm h s)
  case h_2 => exact located (labels_whileForm h s)
  case h_3 => exact located (labels_forForm h s)
  case h_4 => exact located (labels_tryForm h s)
  case h_5 => exact located (labels_switchForm h s)
  case h_6 => exact located (labels_returnForm h s)
  case h_7 | h_8 => exact located (labels_jump (.plain (labelled_nil ts) rfl rfl) s)
  case h_9 => exact located (labels_throwForm h s)
  case h_10 | h_11 | h_12 | h_13 | h_14 => exact labels_declaration h s
  case h_15 | h_16 | h_17 | h_18 => exact labels_terminated h s
  case h_19 =>
    split
    · exact labels_declaration h s
    · exact yieldsIn_fail _ _

theorem labels_statementForm (s : Cursor) :
    YieldsIn ts (fun st => Labelled ts [st.outline]) (statementForm g) s := by
  refine yieldsIn_peek ?_
  split
  · refine (h.block s).bind fun body s' hbody => yieldsIn_pure ?_
    have whole : (StatementForm.block body).LabelledThroughout ts := .plain hbody rfl rfl
    exact whole.outline _
  · exact labels_keywordStatement h _ _ s
  · refine (h.forward.declares s).before fun declares s' => ?_
    split
    · exact labels_declaration h s'
    · exact labels_terminated h s'
  · exact labels_terminated h s

/-! ### Levels -/

theorem labels_above : Labels ts g.above where
  forward := goesForward_above h.forward
  statement _ := yieldsIn_nested _ (labels_statementForm h)
  block _ := yieldsIn_nested _ (labels_blockForm h)

omit h

theorem labels_ofLevels (ts : List Token) (limit n : Nat) : Labels ts (ofLevels limit n) := by
  induction n with
  | zero =>
      exact {
        forward := goesForward_ofLevels limit 0
        statement := fun _ _ _ _ run => nomatch run
        block := fun _ _ _ _ run => nomatch run }
  | succ n ih => exact labels_above ih

end Grammar

/-! ### Programs -/

/-- The arms of a switch with an alternative that takes every value. -/
def StatementForm.wildcardArms (form : StatementForm) : List SwitchCase :=
  (form.switchCases ++ form.switchDefault.toList).filter (·.patterns.any Pattern.isWildcard)

theorem Reads.labelled {ts : List Token} {g : Grammar} (h : g.Labels ts) {d d' : Draft}
    {s s' : Cursor} (reads : Reads g d s d' s') (inside : s.rest <:+ ts)
    (hd : Labelled ts (d.body.map Statement.outline)) :
    Labelled ts (d'.body.map Statement.outline) := by
  induction reads with
  | done _ => exact hd
  | @stray d s d' s' _ _ ih => exact ih (s.suffix_advance.trans inside) hd
  | @statement d s d₁ s₁ d' s' _ _ first _ _ ih =>
      obtain ⟨_, st, read, added⟩ := readStatement_eq_ok.mp first
      obtain ⟨later, hst⟩ := h.statement { s with depth := 0 } inside st s₁ read
      refine ih later ?_
      rw [Draft.body_addStatement added, List.map_append]
      exact labelled_append.mpr ⟨hd, hst⟩

namespace Program

variable {limit : Nat} {tokens : List Token} {p : Program}

theorem labelled_of_parse (h : parse limit tokens = .ok p) : Labelled tokens [p.outline] := by
  obtain ⟨_, s, reads⟩ := parse_eq_ok.mp h
  have empty : (Draft.afterImports tokens).1.body = [] := (readImports_grows _ _).1
  have behind : (Draft.afterImports tokens).2.rest <:+ (Cursor.ofTokens tokens).rest :=
    (grows_readImports .empty (.ofTokens tokens)).within.suffix
  have start : Labelled (Cursor.ofTokens tokens).rest
      ((Draft.afterImports tokens).1.body.map Statement.outline) := by
    rw [empty]
    exact labelled_nil _
  have body := reads.labelled (Grammar.labels_ofLevels _ limit (limit + 1)) behind start
  have front : (Cursor.ofTokens tokens).rest <:+: tokens := (List.takeWhile_prefix _).isInfix
  have imports : Labelled tokens (p.imports.map ImportDeclaration.outline) :=
    labelled_of_nil (AllOf.statements (allOf_map.mpr fun _ _ => ⟨rfl, trivial⟩))
  exact (labelled_append.mpr ⟨imports, body.mono front⟩).node rfl

end Program

/-- Of arms no two of which have a property, one has it at most. -/
theorem countP_le_one {α : Type} {has : α → Bool} :
    ∀ {l : List α}, l.Pairwise (fun a b => ¬ (has a = true ∧ has b = true)) → l.countP has ≤ 1
  | [], _ => Nat.zero_le 1
  | a :: l, h => by
      obtain ⟨first, rest⟩ := List.pairwise_cons.mp h
      rw [List.countP_cons]
      split
      · next here =>
          have none_ : l.countP has = 0 := List.countP_eq_zero.mpr fun b mem there =>
            first b mem ⟨here, there⟩
          omega
      · exact countP_le_one rest

/-- A default case takes every value, so it counts among the arms that do. -/
theorem StatementForm.Labelled.length_wildcardArms {ts : List Token} {form : StatementForm}
    (h : form.Labelled ts) : form.wildcardArms.length
      = form.switchCases.countP (·.patterns.any Pattern.isWildcard)
        + form.switchDefault.toList.length := by
  have all : ∀ d ∈ form.switchDefault.toList, d.patterns.any Pattern.isWildcard = true := by
    intro d mem
    rw [(h.2 d (Option.mem_toList.mp mem)).1]
    rfl
  rw [wildcardArms, ← List.countP_eq_length_filter, List.countP_append,
    List.countP_eq_length.mpr all]

namespace Program

variable {limit : Nat} {tokens : List Token} {p : Program}

/--
Every match of a program that is read has one arm at most that takes every value. A switch has one
default case at most, whose only pattern takes every value, but an alternative of another case does
so as well if it is written as the word for the default case, behind the word for a case or a bar.
The arms of a switch that take every value are the default case and the cases with such an
alternative, so that only in a text where none is written there is one arm at most.
-/
theorem wildcard_arms (h : parse limit tokens = .ok p) :
    (∀ e, .expression e ∈ p.outline.walk Visit.everything → ∀ value arms,
      e.form = .match_ value arms → arms.countP (·.pattern.isWildcard) ≤ 1) ∧
    ∀ s ∈ p.visited,
      (∀ d ∈ s.form.switchDefault, d.Defaults tokens) ∧
      (∀ c ∈ s.form.switchCases, ∀ q ∈ c.patterns, q.Labels tokens) ∧
      s.form.wildcardArms.length
        = s.form.switchCases.countP (·.patterns.any Pattern.isWildcard)
          + s.form.switchDefault.toList.length ∧
      ((∀ before word, [before, word] <:+: tokens → word.kind = .keyword .kwDefault →
          before.kind ≠ .keyword .kwCase ∧ before.kind ≠ .pipe) →
        s.form.wildcardArms.length ≤ 1) := by
  refine ⟨fun e mem value arms form => ?_, fun s mem => ?_⟩
  · have kept := (Outline.All.forall_walk (built_of_parse h) _ mem).wellFormed
    rw [Node.WellFormed, form] at kept
    exact countP_le_one kept
  · rw [visited_eq] at mem
    have labelled := labelled_of_parse h s mem
    have count := labelled.length_wildcardArms
    refine ⟨labelled.2, labelled.1, count, fun none_ => ?_⟩
    have cases_ : s.form.switchCases.countP (·.patterns.any Pattern.isWildcard) = 0 := by
      refine List.countP_eq_zero.mpr fun c hc wild => ?_
      obtain ⟨q, hq, wild⟩ := List.any_eq_true.mp wild
      obtain ⟨before, word, pair, opens, -, iff⟩ := labelled.1 c hc q hq
      obtain ⟨noCase, noBar⟩ := none_ before word pair (iff.mp wild)
      exact opens.elim noCase noBar
    have one : s.form.switchDefault.toList.length ≤ 1 := by
      cases s.form.switchDefault with
      | none => exact Nat.zero_le 1
      | some d => exact Nat.le_refl 1
    omega

/-- Two default cases, one of which is written as an alternative. -/
theorem default_beside_default_alternative :
    let tokens := (Scan.ofText "switch x \x7b case default: break; default: break; \x7d").tokens
    ∃ p, parse nestingLimit tokens = .ok p ∧
      p.visited.map (·.form.wildcardArms.length) = [2, 0, 0] ∧
      ∀ s ∈ p.visited, s.form.wildcardArms.length
        = s.form.switchCases.countP (·.patterns.any Pattern.isWildcard)
          + s.form.switchDefault.toList.length := by
  intro tokens
  have counts : (parse nestingLimit tokens).toOption.map
      (·.visited.map (·.form.wildcardArms.length)) = some [2, 0, 0] := by
    decide +kernel
  cases h : parse nestingLimit tokens with
  | error e => simp [h, Except.toOption] at counts
  | ok p =>
      refine ⟨p, rfl, ?_, fun s mem => ((wildcard_arms h).2 s mem).2.2.1⟩
      simpa [h, Except.toOption] using counts

end Program
end ScriptFront
