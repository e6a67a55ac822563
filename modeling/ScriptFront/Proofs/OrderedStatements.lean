import ScriptFront.Proofs.ScatteredStatements
import ScriptFront.Proofs.VisitedStatements

/-!
Statements, class members and whole programs that are read have their statements in the order of the
tokens, but for those in front of which a default case is put off. A statement stands at its first
token and all that it is made of behind it. A program is visited in the order of its text exactly if
all its default cases are the last ones.
-/

namespace ScriptFront

/-- Outlines in order behind the first of some places. -/
def Behind (ls : List Location) (os : List Outline) : Prop :=
  ∃ l more, ls = l :: more ∧ InOrder more os

/-- A form of statements that can stand at the first of some places. -/
def StatementForm.Follows (ls : List Location) (form : StatementForm) : Prop :=
  ∃ l more, ls = l :: more ∧ InOrder ls [(⟨form, l⟩ : Statement).outline]

section Behind

variable {ls ls' : List Location} {os os' : List Outline} {form : StatementForm}

namespace Behind

theorem start (l : Location) : Behind [l] [] := ⟨l, [], rfl, inOrder_nil []⟩

/-- What needs no places can stand behind any. -/
theorem of_nil (some_ : ls ≠ []) (h : InOrder [] os) : Behind ls os := by
  obtain ⟨l, more, rfl⟩ := List.exists_cons_of_ne_nil some_
  exact ⟨l, more, rfl, h.mono (List.nil_sublist more)⟩

theorem closed (l : Location) (h : InOrder [] os) : Behind (ls ++ [l]) os :=
  of_nil (List.append_ne_nil_of_right_ne_nil ls (List.cons_ne_nil l [])) h

theorem inOrder (h : Behind ls os) : InOrder ls os := by
  obtain ⟨l, more, rfl, parts⟩ := h
  exact parts.after [l]

theorem part (h : Behind ls os) (h' : InOrder ls' os') : Behind (ls ++ ls') (os ++ os') := by
  obtain ⟨l, more, rfl, parts⟩ := h
  exact ⟨l, more ++ ls', rfl, parts.append h'⟩

theorem before (h : Behind ls os) (last : List Location) : Behind (ls ++ last) os := by
  obtain ⟨l, more, rfl, parts⟩ := h
  exact ⟨l, more ++ last, rfl, parts.before last⟩

theorem after (h : Behind ls os) (first : List Location) : Behind (first ++ ls) os := by
  cases first with
  | nil => exact h
  | cons l more => exact ⟨l, more ++ ls, rfl, h.inOrder.after more⟩

theorem follows (h : Behind ls form.outlines) (none_ : form.switchDefault = none) :
    form.Follows ls := by
  obtain ⟨l, more, rfl, parts⟩ := h
  exact ⟨l, more, rfl, parts.statement none_⟩

end Behind

/-- A statement is in order at the first of its places. -/
theorem StatementForm.Follows.stands (h : form.Follows ls) {place : Location}
    (first : ∀ l more, ls = l :: more → l = place) :
    InOrder ls [(⟨form, place⟩ : Statement).outline] := by
  obtain ⟨l, more, rfl, parts⟩ := h
  rwa [← first l more rfl]

end Behind

/-! ### Parts without statements -/

section Parts

variable (ls : List Location)

theorem inOrder_optionalExpr : ∀ e : Option Expr, InOrder ls (optionalExpr e)
  | none => inOrder_nil ls
  | some e => inOrder_expression ls e

theorem inOrder_type (t : TypeExpr) : InOrder ls [t.outline] := inOrder_types ls [t]

theorem inOrder_params (ps : List Param) : InOrder ls (ps.map Param.outline) :=
  inOrder_of_nil (AllOf.statements (allOf_map.mpr fun p _ =>
    ⟨rfl, p.type.all_parts ofParts_statement.type, trivial⟩))

theorem inOrder_signature (sig : Signature) : InOrder ls sig.outlines :=
  (inOrder_params [] sig.params).append (inOrder_type ls sig.returns)

end Parts

namespace Grammar

open ScriptFront.Parser

/--
The parsers of a level yield statements that are in order at the places that they pass, and blocks
behind the first of them.
-/
structure Orders (g : Grammar) : Prop where
  scatters : Scatters g
  statement : ∀ s, Gathers [] (fun ls st => InOrder ls [st.outline]) g.statement s
  block : ∀ s, Gathers [] (fun ls b => Behind ls [b.outline]) g.block s

variable {g : Grammar} {s : Cursor} {ls : List Location}

/-- What is read from the next token on stands there. -/
theorem gathers_standing {p : Parser Statement}
    (h : Gathers [] (fun ls st => (∀ l more, ls = l :: more → l = s.peek.location) →
      InOrder ls [st.outline]) p s) :
    Gathers [] (fun ls st => InOrder ls [st.outline]) p s :=
  h.starting.behind fun _ _ both => both.1 both.2

variable (h : Orders g)

include h

/-! ### Declarations -/

theorem ordered_block (s : Cursor) : Gathers [] (fun ls b => InOrder ls [b.outline]) g.block s :=
  (h.block s).behind fun _ _ => Behind.inOrder

theorem ordered_varGroup (ms : Modifiers) (s : Cursor) :
    Gathers [] (fun ls d => Behind ls (StatementForm.varGroup d).outlines) (varGroup g ms) s :=
  (gathers_varGroup h.scatters ms s).behind fun _ d plain => Behind.of_nil plain.some_
    ((inOrder_type [] d.type).append (inOrder_optionalExpr [] d.init))

theorem ordered_function (ms : Modifiers) (s : Cursor) :
    Gathers [] (fun ls d => Behind ls (StatementForm.function d).outlines) (function g ms) s := by
  refine gathers_expect rfl fun word s => gathers_name.bind fun ident new s _ => ?_
  refine (gathers_signature h.scatters.typeExpr s).bind fun sig more s _ => ?_
  refine (ordered_block h s).bind fun body last s hbody => gathers_pure ?_
  have head := ((Behind.start word.location).before new).part (inOrder_signature more sig)
  exact head.part hbody

theorem ordered_structType (ms : Modifiers) (s : Cursor) :
    Gathers [] (fun ls d => Behind ls (StatementForm.structType d).outlines) (structType g ms) s :=
  (gathers_structType h.scatters ms s).behind fun ls d opened => by
    have fields : d.fields.map (·.type.outline) = (d.fields.map (·.type)).map TypeExpr.outline := by
      rw [List.map_map]
      rfl
    obtain ⟨l, more, rfl, _⟩ := opened
    refine Behind.of_nil (List.cons_ne_nil l more) ?_
    rw [StatementForm.outlines, fields]
    exact inOrder_types [] _

/-! ### Class bodies -/

theorem ordered_operatorMember (s : Cursor) :
    Gathers [] (fun ls form => InOrder ls form.outlines) (operatorMember g) s := by
  refine gathers_advance fun new s _ => ?_
  split
  · refine (gathers_genericParams s).bind fun generics more s _ => ?_
    refine (gathers_params h.scatters.typeExpr s).bind fun ps last s _ => ?_
    split
    · exact gathers_fail _ _
    · refine (gathers_returnType h.scatters.typeExpr s).bind fun returns type s _ => ?_
      refine (ordered_block h s).bind fun body end_ s hbody => gathers_pure ?_
      exact (inOrder_signature _ ⟨generics, ps, returns⟩).append hbody
  · exact gathers_fail _ _

theorem ordered_constructorMember (s : Cursor) :
    Gathers [] (fun ls form => InOrder ls form.outlines) (constructorMember g) s := by
  refine (gathers_params h.scatters.typeExpr s).bind fun ps new s _ => gathers_check ?_
  split
  · exact gathers_here (gathers_fail _ _)
  · exact (ordered_block h s).bind fun body more s hbody =>
      gathers_pure ((inOrder_params _ ps).append hbody)

theorem ordered_methodMember (className : String) (ms : Modifiers) (place : Location) (s : Cursor) :
    Gathers [] (fun ls form => InOrder ls form.outlines)
      (methodMember g className ms place) s := by
  refine (inside_reject _ _ _).gathers.bind fun _ _ s _ => gathers_name.bind fun ident new s _ => ?_
  split
  · refine (inside_reject _ _ _).gathers.bind fun _ _ s _ => ?_
    exact (ordered_constructorMember h s).behind fun new form hform => hform.after _
  · refine (gathers_signature h.scatters.typeExpr s).bind fun sig more s _ => ?_
    exact (ordered_block h s).bind fun body last s hbody =>
      gathers_pure ((inOrder_signature _ sig).append hbody)

theorem ordered_propertyMember (s : Cursor) :
    Gathers [] (fun ls form => InOrder ls form.outlines) (propertyMember g) s := by
  refine (h.scatters.typeExpr s).bind fun type new s _ => gathers_name.bind fun ident more s _ => ?_
  refine (gathers_initializer h.scatters s).bind fun init last s _ => ?_
  refine gathers_expect rfl fun closer s => gathers_pure ?_
  exact (inOrder_type _ type).append (inOrder_optionalExpr [closer.location] init)

theorem ordered_member (className : String) (s : Cursor) :
    Gathers [] (fun ls m => InOrder ls [m.outline]) (member g className) s := by
  refine gathers_here ((inside_modifiers s).gathers.bind fun ms new s' _ => ?_)
  refine gathers_check ((gathers_foresee _).bind fun method none_ s' _ => ?_)
  split
  · refine (inside_reject _ _ _).gathers.bind fun _ _ s' _ => ?_
    exact (ordered_operatorMember h s').bind fun form more s hform =>
      gathers_pure ((hform.node rfl).after _)
  · split
    · exact (ordered_methodMember h className ms _ s').bind fun form more s hform =>
        gathers_pure ((hform.node rfl).after _)
    · exact (ordered_propertyMember h s').bind fun form more s hform =>
        gathers_pure ((hform.node rfl).after _)

theorem ordered_members (className : String) (s : Cursor) :
    Gathers [] (fun ls ms => InOrder ls (memberOutlines ms)) (members g className) s := by
  refine gathers_iterate (fun ls ms s hms => ?_) (inOrder_nil _)
  refine gathers_check (gathers_atEnd ?_)
  split
  · exact gathers_pure hms
  · refine gathers_accept rfl (fun l s => gathers_pure (hms.before [l])) ?_
    refine (ordered_member h className s).bind fun m new s hm => ?_
    have all : InOrder (ls ++ new) (memberOutlines (ms ++ [m])) := by
      rw [memberOutlines_append]
      exact hms.append hm
    split
    · exact gathers_fail_bind _ _
    · exact gathers_pure all

theorem ordered_classType (ms : Modifiers) (s : Cursor) :
    Gathers [] (fun ls d => Behind ls (StatementForm.classType d).outlines) (classType g ms) s := by
  refine gathers_expect rfl fun word s => gathers_name.bind fun ident new s _ => ?_
  refine (gathers_genericParams s).bind fun generics more s _ => ?_
  refine (inside_accept _).gathers.bind fun extending colon s _ => ?_
  have head := (((Behind.start word.location).before new).before more).before colon
  rw [List.nil_append]
  generalize [word.location] ++ new ++ more ++ colon = ls at head ⊢
  extract_lets rest
  have rest_behind (superclass : Option TypeExpr) (new : List Location) (s : Cursor) (_ : True) :
      Gathers (ls ++ new) (fun ls d => Behind ls (StatementForm.classType d).outlines)
        (rest superclass) s := by
    refine (inside_accept _).gathers.bind fun implementing comma s _ => ?_
    have head := (head.part (inOrder_types new superclass.toList)).before comma
    generalize ls ++ new ++ comma = ls at head ⊢
    extract_lets body
    have body_behind (interfaces : List TypeExpr) (new : List Location) (s : Cursor) (_ : True) :
        Gathers (ls ++ new) (fun ls d => Behind ls (StatementForm.classType d).outlines)
          (body interfaces) s := by
      refine gathers_expect rfl fun opener s => ?_
      refine (ordered_members h _ s).bind fun members last s hmembers => ?_
      refine gathers_expect rfl fun closer s => gathers_pure ?_
      have types : InOrder new (typeOutlines interfaces) := by
        rw [typeOutlines_eq]
        exact inOrder_types new interfaces
      have all := ((head.part types).before [opener.location]).part hmembers
      exact all.before [closer.location]
    split
    · exact (gathers_types h.scatters.typeExpr).bind fun ts new s _ => body_behind ts new s trivial
    · exact (gathers_pure trivial).bind body_behind
  split
  · exact (gathers_superclass h.scatters s).bind fun t new s _ => rest_behind t new s trivial
  · exact (gathers_pure trivial).bind rest_behind

theorem ordered_declaration (s : Cursor) :
    Gathers [] (fun ls st => InOrder ls [st.outline]) (declaration g) s := by
  refine gathers_standing (gathers_here ?_)
  refine (inside_modifiers s).gathers.bind fun ms new s' _ => gathers_peek ?_
  split
  · exact (ordered_function h ms s').bind fun d more s hd =>
      gathers_pure (StatementForm.Follows.stands ((hd.after _).follows rfl))
  · exact (ordered_classType h ms s').bind fun d more s hd =>
      gathers_pure (StatementForm.Follows.stands ((hd.after _).follows rfl))
  · exact (ordered_structType h ms s').bind fun d more s hd =>
      gathers_pure (StatementForm.Follows.stands ((hd.after _).follows rfl))
  · refine (ordered_varGroup h ms s').bind fun d more s hd => gathers_expect rfl fun closer s => ?_
    exact gathers_pure
      (StatementForm.Follows.stands (((hd.after _).before [closer.location]).follows rfl))

/-! ### Statements -/

theorem ordered_simple (s : Cursor) :
    Gathers [] (fun ls st => InOrder ls [st.outline]) (simple g) s := by
  refine gathers_standing (gathers_here ?_)
  refine (h.scatters.expression s).bind fun target new s' start => ?_
  have some_ : [] ++ new ≠ [] := List.ne_nil_of_mem start.2
  have parts (value : Expr) : InOrder [] (StatementForm.assignment target value).outlines :=
    (inOrder_expression [] target).append (inOrder_expression [] value)
  refine gathers_peek ?_
  split
  · refine gathers_pure (StatementForm.Follows.stands (Behind.follows ?_ rfl))
    exact Behind.of_nil some_ (inOrder_expression [] target)
  · refine gathers_advance fun operator s'' _ => ?_
    split
    · refine (h.scatters.expression s'').bind fun right more s'' _ => ?_
      have more_ : [] ++ new ++ operator ++ more ≠ [] :=
        List.append_ne_nil_of_left_ne_nil (List.append_ne_nil_of_left_ne_nil some_ _) _
      split
      · exact Gathers.and_then (P := fun ls _ => ls ≠ []) (gathers_node more_)
          fun value ls s some_ =>
            gathers_pure ((Behind.of_nil some_ (parts value)).follows rfl).stands
      · exact gathers_pure ((Behind.of_nil more_ (parts right)).follows rfl).stands
    · exact gathers_fail _ _

theorem ordered_terminated (s : Cursor) :
    Gathers [] (fun ls st => InOrder ls [st.outline]) (terminated g) s :=
  (ordered_simple h s).and_then fun _ _ _ hst =>
    gathers_expect rfl fun closer _ => gathers_pure (hst.before [closer.location])

theorem ordered_statementsUntil (stop : TokenKind → Bool) (s : Cursor) :
    Gathers [] (fun ls body => InOrder ls (statementOutlines body)) (statementsUntil g stop) s := by
  refine gathers_iterate (fun ls body s hbody => ?_) (inOrder_nil _)
  refine gathers_peek (gathers_atEnd ?_)
  split
  · exact gathers_pure hbody
  · refine gathers_accept rfl (fun l s => gathers_pure (hbody.before [l])) ?_
    refine (h.statement s).bind fun st new s hst => gathers_pure ?_
    change InOrder _ (statementOutlines (body ++ [st]))
    rw [statementOutlines_append]
    exact hbody.append hst

theorem ordered_blockForm (s : Cursor) :
    Gathers [] (fun ls b => Behind ls [b.outline]) (blockForm g) s := by
  refine gathers_expect rfl fun opener s => ?_
  refine (ordered_statementsUntil h _ s).bind fun body new s hbody => ?_
  refine gathers_expect rfl fun closer s => gathers_pure ?_
  exact ⟨_, _, rfl, (hbody.before [closer.location]).node rfl⟩

theorem ordered_elifStep (ls : List Location) (elifs : List ElifClause) (s : Cursor)
    (helifs : InOrder ls (elifOutlines elifs)) :
    Gathers ls (fun ls r => InOrder ls (elifOutlines r.value)) (elifStep g elifs) s := by
  refine gathers_peek ?_
  split
  · refine gathers_advance fun word s' _ =>
      (h.scatters.expression s').bind fun test new s' _ => ?_
    refine (ordered_block h s').bind fun body more s' hbody => gathers_pure ?_
    have clause := (inOrder_expression new test).append hbody
    change InOrder _ (elifOutlines (elifs ++ _))
    rw [elifOutlines_append, List.append_assoc]
    exact (helifs.before word).append clause
  · exact gathers_pure helifs

theorem ordered_ifForm (s : Cursor) : Gathers [] (fun ls form => form.Follows ls) (ifForm g) s := by
  refine gathers_expect rfl fun word s => (h.scatters.expression s).bind fun test new s _ => ?_
  refine (ordered_block h s).bind fun body more s hbody => ?_
  refine Gathers.bind (P := fun ls elifs => InOrder ls (elifOutlines elifs))
    (gathers_iterate (ordered_elifStep h) (inOrder_nil _)) fun elifs last s helifs => ?_
  have head := (((Behind.start word.location).part (inOrder_expression new test)).part hbody).part
    helifs
  rw [List.nil_append]
  generalize [word.location] ++ new ++ more ++ last = ls at head ⊢
  refine (inside_accept _).gathers.bind fun found otherwise s _ => ?_
  have whole (b : Option Block) (new : List Location) (s : Cursor)
      (hb : InOrder new (optionalBlock b)) :
      Gathers (ls ++ otherwise ++ new) (fun ls form => form.Follows ls)
        (pure (StatementForm.conditional test body elifs b)) s :=
    gathers_pure (((head.before otherwise).part hb).follows rfl)
  split
  · exact ((ordered_block h s).map (Q := fun ls b => InOrder ls (optionalBlock b))
      fun _ _ => id).bind whole
  · exact (gathers_pure (P := fun ls b => InOrder ls (optionalBlock b)) (inOrder_nil _)).bind whole

theorem ordered_whileForm (s : Cursor) :
    Gathers [] (fun ls form => form.Follows ls) (whileForm g) s := by
  refine gathers_expect rfl fun word s => (h.scatters.expression s).bind fun test new s _ => ?_
  refine (ordered_block h s).bind fun body more s hbody => gathers_pure ?_
  have head := (Behind.start word.location).part (inOrder_expression new test)
  exact (head.part hbody).follows rfl

theorem ordered_forInit (s : Cursor) :
    Gathers [] (fun ls st => InOrder ls [st.outline]) (forInit g) s := by
  refine gathers_standing (gathers_here ?_)
  refine (gathers_startsVariable h.scatters s).bind fun declares new s' nothing => ?_
  rw [nothing]
  split
  · exact (ordered_varGroup h _ s').bind fun d more s hd => gathers_pure (hd.follows rfl).stands
  · exact (ordered_simple h s').behind fun new st hst _ => hst

theorem ordered_forForm (s : Cursor) :
    Gathers [] (fun ls form => form.Follows ls) (forForm g) s := by
  refine gathers_expect rfl fun word s => gathers_expect rfl fun opener s => gathers_check ?_
  have head := (Behind.start word.location).before [opener.location]
  rw [List.nil_append]
  generalize [word.location] ++ [opener.location] = ls at head ⊢
  extract_lets afterInit
  have init (init : Option Statement) (new : List Location) (s : Cursor)
      (hinit : InOrder new (optionalStatement init)) :
      Gathers (ls ++ new) (fun ls form => form.Follows ls) (afterInit init) s := by
    refine gathers_expect rfl fun semicolon s => gathers_check ?_
    have head := (head.part hinit).before [semicolon.location]
    generalize ls ++ new ++ [semicolon.location] = ls at head ⊢
    extract_lets afterTest
    have test (test : Option Expr) (new : List Location) (s : Cursor) (_ : True) :
        Gathers (ls ++ new) (fun ls form => form.Follows ls) (afterTest test) s := by
      refine gathers_expect rfl fun semicolon s => gathers_check ?_
      have head := (head.part (inOrder_optionalExpr new test)).before [semicolon.location]
      generalize ls ++ new ++ [semicolon.location] = ls at head ⊢
      extract_lets afterUpdate
      have update (update : Option Statement) (new : List Location) (s : Cursor)
          (hupdate : InOrder new (optionalStatement update)) :
          Gathers (ls ++ new) (fun ls form => form.Follows ls) (afterUpdate update) s := by
        refine gathers_expect rfl fun closer s => ?_
        refine (ordered_block h s).bind fun body more s hbody => gathers_pure ?_
        exact (((head.part hupdate).before [closer.location]).part hbody).follows rfl
      split
      · exact (gathers_pure (P := fun ls u => InOrder ls (optionalStatement u))
          (inOrder_nil _)).bind update
      · exact ((ordered_simple h s).map fun _ _ hst => hst).bind update
    split
    · exact (gathers_pure trivial).bind test
    · exact (gathers_optionalExpr h.scatters s).bind fun t new s _ => test t new s trivial
  split
  · exact (gathers_pure (P := fun ls i => InOrder ls (optionalStatement i))
      (inOrder_nil _)).bind init
  · exact ((ordered_forInit h s).map fun _ _ hst => hst).bind init

theorem ordered_catchStep (ls : List Location) (handlers : List CatchClause) (s : Cursor)
    (hhandlers : InOrder ls (catchOutlines handlers)) :
    Gathers ls (fun ls r => InOrder ls (catchOutlines r.value)) (catchStep g handlers) s := by
  refine gathers_peek ?_
  split
  · refine gathers_advance fun word s' _ => gathers_expect rfl fun opener s' => ?_
    refine (h.scatters.typeExpr s').bind fun type new s' _ => ?_
    refine gathers_name.bind fun ident more s' _ => gathers_expect rfl fun closer s' => ?_
    refine (ordered_block h s').bind fun body last s' hbody => gathers_pure ?_
    have head := (((inOrder_type new type).before more).before [closer.location]).append hbody
    have all := ((hhandlers.before word).before [opener.location]).append head
    change InOrder _ (catchOutlines (handlers ++ _))
    rw [catchOutlines_append]
    simp only [List.append_assoc] at all ⊢
    exact all
  · exact gathers_pure hhandlers

theorem ordered_tryForm (s : Cursor) :
    Gathers [] (fun ls form => form.Follows ls) (tryForm g) s := by
  refine gathers_expect rfl fun word s => (ordered_block h s).bind fun body new s hbody => ?_
  refine Gathers.bind (P := fun ls handlers => InOrder ls (catchOutlines handlers))
    (gathers_iterate (ordered_catchStep h) (inOrder_nil _)) fun handlers more s hhandlers => ?_
  have head := ((Behind.start word.location).part hbody).part hhandlers
  rw [List.nil_append]
  generalize [word.location] ++ new ++ more = ls at head ⊢
  extract_lets next
  have rest (r : PUnit) (s : Cursor) :
      Gathers ls (fun ls form => form.Follows ls) (next r) s := by
    refine gathers_expect rfl fun opener s => ?_
    refine (ordered_block h s).bind fun last new s hlast => gathers_pure ?_
    exact ((head.before [opener.location]).part hlast).follows rfl
  split
  · exact gathers_here (gathers_fail_bind _ _)
  · exact rest ⟨⟩ s

/-! ### Switches -/

theorem ordered_caseBody (s : Cursor) :
    Gathers [] (fun ls body => InOrder ls (statementOutlines body)) (caseBody g) s := by
  refine gathers_here (gathers_check ?_)
  split
  · refine (h.block s).starting.bind fun body new s' started => gathers_pure ?_
    have whole : Behind new (StatementForm.block body).outlines := started.1
    exact (whole.follows rfl).stands started.2
  · exact ordered_statementsUntil h _ s

theorem ordered_caseStep (ls : List Location) (cases : Cases) (s : Cursor)
    (hcases : CasesInOrder ls cases.1 cases.2) :
    Gathers ls (fun ls r => CasesInOrder ls r.value.1 r.value.2) (caseStep g cases) s := by
  obtain ⟨cases, otherwise⟩ := cases
  -- A case stands at its first token, whichever tokens make up its label.
  have stands (patterns : List Pattern) {body : List Statement} {ls : List Location}
      (label : List Location) (hbody : InOrder ls (statementOutlines body)) :
      SwitchCase.Stands ([s.peek.location] ++ label ++ ls) ⟨patterns, body, s.peek.location⟩ :=
    ⟨List.mem_cons_self .., hbody.after _⟩
  refine gathers_check (gathers_atEnd ?_)
  split
  · exact gathers_pure hcases
  · refine gathers_here (gathers_accept_next rfl (fun s' => ?_) ?_)
    · rw [if_pos rfl]
      dsimp only
      cases otherwise with
      | some c => exact gathers_fail_bind _ _
      | none =>
          refine gathers_expect rfl fun colon s' => ?_
          refine (ordered_caseBody h s').bind fun body new s' hbody => gathers_pure ?_
          have all := hcases.default_ (stands [⟨.wildcard, s.peek.location⟩] [colon.location] hbody)
          simp only [← List.append_assoc] at all
          exact all
    · refine gathers_expect_next rfl fun s' => ?_
      refine (gathers_pattern h.scatters false s').bind fun first new s' _ => ?_
      refine Gathers.bind (P := fun _ _ => True)
        (gathers_iterate (fun ls ps s _ => ?_) trivial) fun others more s' _ => ?_
      · refine gathers_accept rfl (fun l s => ?_) (gathers_pure trivial)
        exact (gathers_pattern h.scatters false s).bind fun _ _ _ _ => gathers_pure trivial
      · refine gathers_expect rfl fun colon s' => ?_
        refine (ordered_caseBody h s').bind fun body last s' hbody => gathers_pure ?_
        have all := hcases.case (stands (first :: others) (new ++ more ++ [colon.location]) hbody)
        simp only [← List.append_assoc] at all
        exact all

theorem ordered_switchForm (s : Cursor) :
    Gathers [] (fun ls form => form.Follows ls) (switchForm g) s := by
  refine gathers_expect rfl fun word s => (h.scatters.expression s).bind fun value new s _ => ?_
  refine gathers_expect rfl fun opener s => ?_
  refine Gathers.bind (P := fun ls (cases : Cases) => CasesInOrder ls cases.1 cases.2)
    (gathers_iterate (ordered_caseStep h) (casesInOrder_nil _)) fun cases more s hcases => ?_
  refine gathers_expect rfl fun closer s => gathers_pure ⟨word.location, _, rfl, ?_⟩
  have inside : more.Sublist (new ++ [opener.location] ++ more ++ [closer.location]) :=
    (List.sublist_append_right ..).trans (List.sublist_append_left ..)
  exact (hcases.mono inside).switch value word.location

/-! ### All statements -/

theorem ordered_returnForm (s : Cursor) :
    Gathers [] (fun ls form => form.Follows ls) (returnForm g) s := by
  refine gathers_advance fun word s' _ => gathers_check ?_
  extract_lets next
  have close (value : Option Expr) (new : List Location) (s' : Cursor) (_ : True) :
      Gathers ([] ++ word ++ new) (fun ls form => form.Follows ls) (next value) s' := by
    refine gathers_expect rfl fun closer s' => gathers_pure (Behind.follows ?_ rfl)
    exact Behind.closed closer.location (inOrder_optionalExpr [] value)
  split
  · exact (gathers_pure trivial).bind close
  · exact (gathers_optionalExpr h.scatters s').bind fun value new s' _ => close value new s' trivial

theorem ordered_throwForm (s : Cursor) :
    Gathers [] (fun ls form => form.Follows ls) (throwForm g) s := by
  refine gathers_advance fun word s' _ =>
    (h.scatters.expression s').bind fun value new s' _ => ?_
  split
  · refine gathers_expect rfl fun closer s' => gathers_pure (Behind.follows ?_ rfl)
    exact Behind.closed closer.location (inOrder_expression [] value)
  · exact gathers_fail _ _

omit h in
theorem ordered_jump {form : StatementForm} (parts : form.outlines = [])
    (none_ : form.switchDefault = none) (s : Cursor) :
    Gathers [] (fun ls form => form.Follows ls) (jump form) s := by
  refine gathers_advance fun word s' _ => gathers_expect rfl fun closer s' => ?_
  refine gathers_pure (Behind.follows (Behind.closed closer.location ?_) none_)
  rw [parts]
  exact inOrder_nil []

theorem ordered_keywordStatement (k : Keyword) (s : Cursor) :
    Gathers [] (fun ls st => InOrder ls [st.outline]) (keywordStatement g s.peek k) s := by
  have located {form : Parser StatementForm}
      (hform : Gathers [] (fun ls form => form.Follows ls) form s) :
      Gathers [] (fun ls st => InOrder ls [st.outline])
        (do return (⟨← form, s.peek.location⟩ : Statement)) s :=
    gathers_standing (hform.bind fun form new s' follows => gathers_pure follows.stands)
  simp only [keywordStatement]
  split
  case h_1 => exact located (ordered_ifForm h s)
  case h_2 => exact located (ordered_whileForm h s)
  case h_3 => exact located (ordered_forForm h s)
  case h_4 => exact located (ordered_tryForm h s)
  case h_5 => exact located (ordered_switchForm h s)
  case h_6 => exact located (ordered_returnForm h s)
  case h_7 => exact located (ordered_jump rfl rfl s)
  case h_8 => exact located (ordered_jump rfl rfl s)
  case h_9 => exact located (ordered_throwForm h s)
  case h_19 =>
    split
    · exact ordered_declaration h s
    · exact gathers_fail _ _
  all_goals first
    | exact ordered_declaration h s
    | exact ordered_terminated h s

theorem ordered_statementForm (s : Cursor) :
    Gathers [] (fun ls st => InOrder ls [st.outline]) (statementForm g) s := by
  refine gathers_peek ?_
  split
  · refine gathers_standing ((h.block s).bind fun body new s' hbody => gathers_pure ?_)
    have whole : Behind new (StatementForm.block body).outlines := hbody
    exact (whole.follows rfl).stands
  · exact ordered_keywordStatement h _ s
  · refine (h.scatters.declares s).bind fun declares new s' nothing => ?_
    rw [nothing]
    split
    · exact ordered_declaration h s'
    · exact ordered_terminated h s'
  · exact ordered_terminated h s

/-! ### Levels -/

theorem orders_above : Orders g.above where
  scatters := scatters_above h.scatters
  statement _ := gathers_nested _ (ordered_statementForm h)
  block _ := gathers_nested _ (ordered_blockForm h)

omit h

theorem orders_ofLevels (limit n : Nat) : Orders (ofLevels limit n) := by
  induction n with
  | zero =>
      exact {
        scatters := scatters_ofLevels limit 0
        statement := fun _ _ _ run => nomatch run
        block := fun _ _ _ run => nomatch run }
  | succ n ih => exact orders_above ih

end Grammar

/-! ### Programs -/

theorem Reads.inOrder {g : Grammar} (h : g.Orders) {d d' : Draft} {s s' : Cursor}
    (reads : Reads g d s d' s') {ls : List Location}
    (hd : InOrder ls (d.body.map Statement.outline)) :
    InOrder (ls ++ s.places) (d'.body.map Statement.outline) := by
  refine reads.gathers (I := fun ls body => InOrder ls (body.map Statement.outline))
    h.statement (fun _ _ more hbody => hbody.before more) (fun _ _ _ _ hbody hst => ?_) hd
  rw [List.map_append]
  exact hbody.append hst

namespace Program

variable {limit : Nat} {tokens : List Token} {p : Program}

/-- A program that is read has its statements in the order of the tokens. -/
theorem inOrder_of_parse (h : parse limit tokens = .ok p) :
    InOrder (tokens.map (·.location)) [p.outline] := by
  obtain ⟨_, s, reads⟩ := parse_eq_ok.mp h
  have empty : (Draft.afterImports tokens).1.body = [] := (readImports_grows _ _).1
  have start : InOrder [] ((Draft.afterImports tokens).1.body.map Statement.outline) := by
    rw [empty]
    exact inOrder_nil []
  have body := reads.inOrder (Grammar.orders_ofLevels limit (limit + 1)) start
  have imports : InOrder [] (p.imports.map ImportDeclaration.outline) :=
    inOrder_of_nil (AllOf.statements (allOf_map.mpr fun _ _ => ⟨rfl, trivial⟩))
  -- The tokens behind the imports are some of the tokens in front of the end of file.
  have behind := (grows_readImports .empty (.ofTokens tokens)).within.suffix.sublist
  have sub := (behind.trans (List.takeWhile_sublist _)).map (·.location)
  exact ((imports.append body).mono sub).node rfl

/--
Of two statements of a program that is read, the one that is visited first stands first in the text,
unless it is in a case of a switch and the other one in a default case that is written in front of
this case. So the statements are visited in the order of the text exactly if no switch has a default
case with statements in front of a case with statements.
-/
theorem visited_in_text_order (h : parse limit tokens = .ok p)
    (rising : tokens.Pairwise (·.location.offset < ·.location.offset)) :
    (p.visited.Pairwise fun a b => a.location.offset ≠ b.location.offset ∧
        (b.location.offset < a.location.offset ↔ ∃ s ∈ p.visited, s.Overtakes a b)) ∧
      (p.visited.Pairwise (·.location.offset < ·.location.offset) ↔
        ∀ s ∈ p.visited, s.DefaultLast) := by
  have places : (tokens.map (·.location)).Pairwise (·.offset < ·.offset) :=
    List.pairwise_map.mpr rising
  rw [visited_eq]
  have order := inOrder_of_parse h
  exact ⟨order.pairwise_overtakes places, order.pairwise_lt_iff places⟩

/-- A default case in front of another case is visited behind it. -/
theorem visited_behind_early_default :
    let tokens := (Scan.ofText "switch x \x7b default: break; case 1: continue; \x7d").tokens
    tokens.Pairwise (·.location.offset < ·.location.offset) ∧
      ∃ p, parse nestingLimit tokens = .ok p ∧ p.visited.map (·.location.offset) = [0, 35, 20] ∧
        ∃ s ∈ p.visited, ¬ s.DefaultLast := by
  intro tokens
  have rising : tokens.Pairwise (·.location.offset < ·.location.offset) := by decide +kernel
  have offsets : (parse nestingLimit tokens).toOption.map (·.visited.map (·.location.offset))
      = some [0, 35, 20] := by
    decide +kernel
  refine ⟨rising, ?_⟩
  cases h : parse nestingLimit tokens with
  | error e => simp [h, Except.toOption] at offsets
  | ok p =>
      simp only [h, Except.toOption, Option.map_some, Option.some.injEq] at offsets
      refine ⟨p, rfl, offsets, ?_⟩
      by_contra none_
      have last : ∀ s ∈ p.visited, s.DefaultLast := fun s mem =>
        by_contra fun early => none_ ⟨s, mem, early⟩
      have sorted := List.pairwise_map.mpr ((visited_in_text_order h rising).2.mpr last)
      rw [offsets] at sorted
      revert sorted
      decide

end Program
end ScriptFront
