import ScriptFront.Proofs.BoundedTrees
import ScriptFront.Proofs.EndOfFile
import ScriptFront.Proofs.ScatteredExpressions

/-!
Statements, class members and whole programs that are read have their slots at the places of their
own tokens, no slot twice but for the repeats of their trees. A statement has a slot for its own at
its first token: either all that it is made of stands behind this token, or nothing that it is made
of can be unreachable.
-/

namespace ScriptFront

theorem memberOutlines_append (ms ms' : List ClassMember) :
    memberOutlines (ms ++ ms') = memberOutlines ms ++ memberOutlines ms' := by
  rw [memberOutlines_eq, memberOutlines_eq, memberOutlines_eq, List.map_append]

theorem statementOutlines_append (ss ss' : List Statement) :
    statementOutlines (ss ++ ss') = statementOutlines ss ++ statementOutlines ss' := by
  rw [statementOutlines_eq, statementOutlines_eq, statementOutlines_eq, List.map_append]

namespace Scattered

variable {ls : List Location}

theorem value {e : Expr} (h : e.Spread ls) : Scattered ls [e.valueSlot] [e.outline] :=
  h.1.cons h.2 (e.not_mem_slots _ rfl)

theorem member {ms : Modifiers} {form : MemberForm} (place : Location)
    (h : Scattered ls (form.nameSlots ++ form.slots) form.outlines) :
    Scattered ls [] [ClassMember.outline ⟨ms, form, place⟩] := node h

end Scattered

/-- A form that keeps to some places but the first. -/
def StatementForm.Opened (ls : List Location) (form : StatementForm) : Prop :=
  Trailing ls (form.aheadSlots ++ form.slots) form.outlines

/-- A statement keeps to some places if it stands at the first of them. -/
def Statement.Anchored (place : Location) (ls : List Location) (st : Statement) : Prop :=
  (∀ l more, ls = l :: more → l = place) → Scattered ls [] [st.outline]

theorem StatementForm.Opened.anchored {ls : List Location} {form : StatementForm}
    (h : form.Opened ls) (place : Location) : Statement.Anchored place ls ⟨form, place⟩ := by
  obtain ⟨l, more, rfl, parts⟩ := h
  intro first
  rw [first l more rfl]
  exact parts.statement_behind place

/-- Statements that start with one of their parts. None of these can be unreachable. -/
structure StatementForm.Plain (ls : List Location) (form : StatementForm) : Prop where
  parts : Scattered ls form.slots form.outlines
  some_ : ls ≠ []
  ahead : form.aheadSlots = []
  reached : ∀ place, (.unreachableCode, place) ∉ form.slots ++ slotsOf form.outlines

theorem StatementForm.Plain.anchored {ls : List Location} {form : StatementForm} (h : form.Plain ls)
    (place : Location) : Statement.Anchored place ls ⟨form, place⟩ := by
  obtain ⟨l, more, rfl⟩ := List.exists_cons_of_ne_nil h.some_
  intro first
  exact h.parts.statement_around h.ahead (first l more rfl ▸ List.mem_cons_self ..)
    (h.reached place)

theorem StatementForm.Plain.varGroup {ls : List Location} {d : VariableDeclaration}
    (parts : Scattered ls (StatementForm.varGroup d).slots (StatementForm.varGroup d).outlines)
    (some_ : ls ≠ []) : (StatementForm.varGroup d).Plain ls := by
  refine ⟨parts, some_, rfl, fun place mem => ?_⟩
  obtain ⟨ms, isConstant, type, names, init⟩ := d
  rcases List.mem_append.mp mem with own | below
  · simp [slots, Expr.valueSlot, Ident.slots, Ident.taken] at own
  · have outlines : (StatementForm.varGroup ⟨ms, isConstant, type, names, init⟩).outlines
        = [type.outline] ++ optionalExpr init := rfl
    rw [outlines, slotsOf_append] at below
    rcases List.mem_append.mp below with inType | inValue
    · exact type.not_mem_slots place (by decide) inType
    · cases init with
      | none => exact List.not_mem_nil inValue
      | some e => exact e.not_mem_slots place rfl inValue

theorem StatementForm.Plain.expression {ls : List Location} {e : Expr} (h : e.Spread ls) :
    (StatementForm.expression e).Plain ls := by
  refine ⟨h.1.cons h.2 (e.not_mem_slots _ rfl), List.ne_nil_of_mem h.2, rfl, fun place mem => ?_⟩
  rcases List.mem_cons.mp mem with eq | below
  · exact nomatch eq
  · exact e.not_mem_slots place rfl below

theorem StatementForm.Plain.assignment {ls ls' : List Location} {target value : Expr}
    (htarget : target.Spread ls) (hvalue : value.Spread ls') :
    (StatementForm.assignment target value).Plain (ls ++ ls') := by
  have parts := (htarget.1.write htarget.2).append (Scattered.value hvalue)
  refine ⟨parts, List.ne_nil_of_mem (List.mem_append_left _ htarget.2), rfl, fun place mem => ?_⟩
  have outlines : (StatementForm.assignment target value).outlines
      = [target.outline] ++ [value.outline] := rfl
  rw [outlines, slotsOf_append] at mem
  rcases List.mem_append.mp mem with own | below
  · rcases List.mem_append.mp own with write | ofValue
    · exact nomatch target.kind_of_writeSlot _ write
    · exact nomatch List.mem_singleton.mp ofValue
  · rcases List.mem_append.mp below with inTarget | inValue
    · exact target.not_mem_slots place rfl inTarget
    · exact value.not_mem_slots place rfl inValue

namespace Grammar

open ScriptFront.Parser

variable {g : Grammar} {s : Cursor} {ls : List Location}

theorem gathers_anchored {p : Parser Statement}
    (h : Gathers [] (Statement.Anchored s.peek.location) p s) :
    Gathers [] (fun ls st => Scattered ls [] [st.outline]) p s :=
  h.starting.behind fun _ _ both => both.1 both.2

variable (h : Scatters g)

include h

/-! ### Declarations -/

theorem gathers_block (s : Cursor) :
    Gathers [] (fun ls b => Scattered ls [] [b.outline]) g.block s :=
  (h.block s).behind fun _ _ => Trailing.scattered

theorem gathers_initializer (s : Cursor) :
    Gathers [] (fun ls init => Scattered ls (init.toList.map Expr.valueSlot) (optionalExpr init))
      (initializer g) s := by
  refine gathers_accept rfl (fun l s => ?_) (gathers_pure (scattered_nil _))
  exact (h.expression s).bind fun e new s he => gathers_pure ((Scattered.value he).after _)

theorem gathers_varGroup (ms : Modifiers) (s : Cursor) :
    Gathers [] (fun ls d => (StatementForm.varGroup d).Plain ls) (varGroup g ms) s := by
  refine (inside_accept _).gathers.bind fun isConstant new s _ => ?_
  refine (gathers_variableType h.typeExpr isConstant s).bind fun type more s htype => ?_
  refine (gathers_names _ (scattered_ident .unusedDeclaration nofun)).bind
    fun names last s hnames => ?_
  refine (gathers_initializer h s).bind fun init end_ s hinit => gathers_pure (.varGroup ?_ ?_)
  · have all := ((htype.after new).append hnames.1).append hinit
    exact all.mono fun x => Nat.le_of_eq (List.perm_append_comm.count_eq x)
  · exact List.append_ne_nil_of_left_ne_nil (List.append_ne_nil_of_right_ne_nil _ hnames.2) _

theorem gathers_function (ms : Modifiers) (s : Cursor) :
    Gathers [] (fun ls d => (StatementForm.function d).Opened ls) (function g ms) s := by
  refine gathers_expect rfl fun word s => gathers_name.bind fun ident new s hident => ?_
  refine (gathers_signature h.typeExpr s).bind fun sig more s hsig => ?_
  refine (gathers_block h s).bind fun body last s hbody => gathers_pure ?_
  rw [hident]
  exact (((Trailing.start _).append (scattered_taken ident)).append hsig).part hbody

theorem gathers_fieldStep (ls : List Location) (fields : List TypeField) (s : Cursor)
    (hfields : Scattered ls [] (fields.map (·.type.outline))) :
    Gathers ls (fun ls r => Scattered ls [] (r.value.map fun f => f.type.outline))
      (fieldStep g fields) s := by
  refine gathers_check (gathers_atEnd ?_)
  split
  · exact gathers_pure hfields
  · refine gathers_name.bind fun field new s _ => gathers_expect rfl fun colon s => ?_
    refine (h.typeExpr s).bind fun type more s htype => ?_
    have all : Scattered (ls ++ new ++ [colon.location] ++ more) []
        ((fields ++ [(⟨field, type, field.location⟩ : TypeField)]).map (·.type.outline)) := by
      rw [List.map_append]
      exact ((hfields.before new).before _).append htype.1
    refine gathers_accept rfl (fun l s => gathers_pure (all.before [l])) ?_
    exact gathers_accept rfl (fun l s => gathers_pure (all.before [l])) (gathers_pure all)

theorem gathers_structType (ms : Modifiers) (s : Cursor) :
    Gathers [] (fun ls d => (StatementForm.structType d).Opened ls) (structType g ms) s := by
  refine gathers_expect rfl fun word s => gathers_name.bind fun ident new s hident => ?_
  refine (gathers_genericParams s).bind fun generics more s hgenerics => ?_
  refine gathers_expect rfl fun opener s => ?_
  refine Gathers.bind (P := fun ls fields => Scattered ls [] (fields.map (·.type.outline)))
    (gathers_iterate (gathers_fieldStep h) (scattered_nil _)) fun fields last s hfields => ?_
  refine gathers_expect rfl fun closer s => gathers_pure ?_
  rw [hident]
  have names := ((Trailing.start word.location).append (scattered_taken ident)).append hgenerics
  exact ((names.before [opener.location]).part hfields).before [closer.location]

/-! ### Class bodies -/

theorem gathers_operatorMember (s : Cursor) :
    Gathers [] (fun ls form => Scattered ls (form.nameSlots ++ form.slots) form.outlines)
      (operatorMember g) s := by
  refine gathers_advance fun new s _ => ?_
  split
  · refine (gathers_genericParams s).bind fun generics more s hgenerics => ?_
    refine (gathers_params h.typeExpr s).bind fun ps last s hps => ?_
    split
    · exact gathers_fail _ _
    · refine (gathers_returnType h.typeExpr s).bind fun returns type s hreturns => ?_
      refine (gathers_block h s).bind fun body end_ s hbody => gathers_pure ?_
      exact (((hgenerics.after new).part hps).part hreturns).part hbody
  · exact gathers_fail _ _

theorem gathers_constructorMember (s : Cursor) :
    Gathers [] (fun ls form => Scattered ls (form.nameSlots ++ form.slots) form.outlines)
      (constructorMember g) s := by
  refine (gathers_params h.typeExpr s).bind fun ps new s hps => gathers_check ?_
  split
  · exact gathers_here (gathers_fail _ _)
  · exact (gathers_block h s).bind fun body more s hbody => gathers_pure (hps.append hbody)

theorem gathers_methodMember (className : String) (ms : Modifiers) (place : Location) (s : Cursor) :
    Gathers [] (fun ls form => Scattered ls (form.nameSlots ++ form.slots) form.outlines)
      (methodMember g className ms place) s := by
  refine (inside_reject _ _ _).gathers.bind fun _ none_ s _ => ?_
  refine gathers_name.bind fun ident new s hident => ?_
  rw [hident]
  split
  · refine (inside_reject _ _ _).gathers.bind fun _ _ s _ => ?_
    exact (gathers_constructorMember h s).behind fun new form hform => hform.after _
  · refine (gathers_signature h.typeExpr s).bind fun sig more s hsig => ?_
    refine (gathers_block h s).bind fun body last s hbody => gathers_pure ?_
    exact (((scattered_taken ident).after ([] ++ none_)).append hsig).part hbody

theorem gathers_propertyMember (s : Cursor) :
    Gathers [] (fun ls form => Scattered ls (form.nameSlots ++ form.slots) form.outlines)
      (propertyMember g) s := by
  refine (h.typeExpr s).bind fun type new s htype => gathers_name.bind fun ident more s hident => ?_
  rw [hident]
  refine (gathers_initializer h s).bind fun init last s hinit => ?_
  refine gathers_expect rfl fun closer s => gathers_pure ?_
  have name := htype.1.append (scattered_ident .unusedDeclaration nofun ident)
  exact (name.append hinit).before [closer.location]

theorem gathers_member (className : String) (s : Cursor) :
    Gathers [] (fun ls m => Scattered ls [] [m.outline]) (member g className) s := by
  refine gathers_here ((inside_modifiers s).gathers.bind fun ms new s' _ => ?_)
  refine gathers_check ((gathers_foresee _).bind fun method none_ s' _ => ?_)
  split
  · refine (inside_reject _ _ _).gathers.bind fun _ _ s' _ => ?_
    exact (gathers_operatorMember h s').bind fun form more s hform =>
      gathers_pure ((hform.member _).after _)
  · split
    · exact (gathers_methodMember h className ms _ s').bind fun form more s hform =>
        gathers_pure ((hform.member _).after _)
    · exact (gathers_propertyMember h s').bind fun form more s hform =>
        gathers_pure ((hform.member _).after _)

theorem gathers_members (className : String) (s : Cursor) :
    Gathers [] (fun ls ms => Scattered ls [] (memberOutlines ms)) (members g className) s := by
  refine gathers_iterate (fun ls ms s hms => ?_) (scattered_nil _)
  refine gathers_check (gathers_atEnd ?_)
  split
  · exact gathers_pure hms
  · refine gathers_accept rfl (fun l s => gathers_pure (hms.before [l])) ?_
    refine (gathers_member h className s).bind fun m new s hm => ?_
    have all : Scattered (ls ++ new) [] (memberOutlines (ms ++ [m])) := by
      rw [memberOutlines_append]
      exact hms.append hm
    split
    · exact gathers_fail_bind _ _
    · exact gathers_pure all

/-- What a class says of the class above it. -/
theorem gathers_superclass (s : Cursor) : Gathers [] (fun ls superclass =>
    Scattered ls (superclass.toList.map fun t => (.reference, t.location))
      (superclass.toList.map TypeExpr.outline)) (some <$> g.typeExpr) s := by
  exact (h.typeExpr s).map fun new t ht => ht.1.cons ht.2 (t.not_mem_slots _ nofun)

theorem gathers_classType (ms : Modifiers) (s : Cursor) :
    Gathers [] (fun ls d => (StatementForm.classType d).Opened ls) (classType g ms) s := by
  refine gathers_expect rfl fun word s => gathers_name.bind fun ident new s hident => ?_
  refine (gathers_genericParams s).bind fun generics more s hgenerics => ?_
  rw [hident, List.nil_append]
  refine (inside_accept _).gathers.bind fun extending colon s _ => ?_
  have names := (((Trailing.start word.location).append (scattered_taken ident)).append
    hgenerics).before colon
  generalize [word.location] ++ [ident.location] ++ more ++ colon = ls at names ⊢
  extract_lets rest
  have rest_opened (superclass : Option TypeExpr) (new : List Location) (s : Cursor)
      (hsuper : Scattered new (superclass.toList.map fun t => (.reference, t.location))
        (superclass.toList.map TypeExpr.outline)) :
      Gathers (ls ++ new) (fun ls d => (StatementForm.classType d).Opened ls)
        (rest superclass) s := by
    refine (inside_accept _).gathers.bind fun implementing comma s _ => ?_
    have head := (names.append hsuper).before comma
    generalize ls ++ new ++ comma = ls at head ⊢
    extract_lets body
    have body_opened (interfaces : List TypeExpr) (new : List Location) (s : Cursor)
        (hinterfaces : Scattered new [] (typeOutlines interfaces)) :
        Gathers (ls ++ new) (fun ls d => (StatementForm.classType d).Opened ls)
          (body interfaces) s := by
      refine gathers_expect rfl fun opener s => ?_
      refine (gathers_members h _ s).bind fun members last s hmembers => ?_
      refine gathers_expect rfl fun closer s => gathers_pure ?_
      have all := ((head.part hinterfaces).before [opener.location]).part hmembers
      exact all.before [closer.location]
    split
    · exact (gathers_types h.typeExpr).bind fun ts new s hts => body_opened ts new s hts
    · exact (gathers_pure (scattered_nil _)).bind fun ts new s hts => body_opened ts new s hts
  split
  · exact (gathers_superclass h s).bind fun t new s ht => rest_opened t new s ht
  · exact (gathers_pure (scattered_nil _)).bind fun t new s ht => rest_opened t new s ht

theorem gathers_declaration (s : Cursor) :
    Gathers [] (fun ls st => Scattered ls [] [st.outline]) (declaration g) s := by
  refine gathers_anchored (gathers_here ?_)
  refine (inside_modifiers s).gathers.bind fun ms new s' _ => gathers_peek ?_
  split
  · exact (gathers_function h ms s').bind fun d more s hd =>
      gathers_pure (StatementForm.Opened.anchored (hd.after _) _)
  · exact (gathers_classType h ms s').bind fun d more s hd =>
      gathers_pure (StatementForm.Opened.anchored (hd.after _) _)
  · exact (gathers_structType h ms s').bind fun d more s hd =>
      gathers_pure (StatementForm.Opened.anchored (hd.after _) _)
  · refine (gathers_varGroup h ms s').bind fun d more s hd => ?_
    refine gathers_expect rfl fun closer s => gathers_pure (StatementForm.Plain.anchored ?_ _)
    refine .varGroup ((hd.parts.after ([] ++ new)).before [closer.location]) ?_
    exact List.append_ne_nil_of_right_ne_nil _ (List.cons_ne_nil _ _)

/-! ### Statements -/

theorem gathers_simple (s : Cursor) :
    Gathers [] (fun ls st => Scattered ls [] [st.outline]) (simple g) s := by
  refine gathers_here ((h.expression s).starting.bind fun target new s' started => ?_)
  obtain ⟨htarget, first⟩ := started
  obtain ⟨l, rest, rfl⟩ := List.exists_cons_of_ne_nil (List.ne_nil_of_mem htarget.2)
  obtain rfl := first l rest rfl
  refine gathers_peek ?_
  split
  · exact gathers_pure ((StatementForm.Plain.expression htarget).anchored _ first)
  · next op assigns =>
      have token : s'.peek.kind ≠ .eof := fun kind => by
        rw [kind] at assigns
        exact nomatch assigns
      refine gathers_advance fun operator s'' passed => ?_
      rw [passed token]
      split
      · refine (h.expression s'').bind fun right more s'' hright => ?_
        split
        · refine Gathers.and_then (gathers_node ?_) fun _ _ _ => gathers_pure
          rw [List.append_assoc]
          exact htarget.1.compound s'.peek.location _ htarget.2 (List.mem_cons_self ..) hright.1
        · have plain := StatementForm.Plain.assignment (htarget.before [s'.peek.location]) hright
          exact gathers_pure (plain.anchored _ fun _ _ eq => (List.cons.inj eq).1.symm)
      · exact gathers_fail _ _

theorem gathers_terminated (s : Cursor) :
    Gathers [] (fun ls st => Scattered ls [] [st.outline]) (terminated g) s :=
  (gathers_simple h s).and_then fun _ _ _ hst =>
    gathers_expect rfl fun closer _ => gathers_pure (hst.before [closer.location])

theorem gathers_statementsUntil (stop : TokenKind → Bool) (s : Cursor) :
    Gathers [] (fun ls body => Scattered ls [] (statementOutlines body))
      (statementsUntil g stop) s := by
  refine gathers_iterate (fun ls body s hbody => ?_) (scattered_nil _)
  refine gathers_peek (gathers_atEnd ?_)
  split
  · exact gathers_pure hbody
  · refine gathers_accept rfl (fun l s => gathers_pure (hbody.before [l])) ?_
    refine (h.statement s).bind fun st new s hst => gathers_pure ?_
    change Scattered _ [] (statementOutlines (body ++ [st]))
    rw [statementOutlines_append]
    exact hbody.append hst

theorem gathers_blockForm (s : Cursor) :
    Gathers [] (fun ls b => Trailing ls [] [b.outline]) (blockForm g) s := by
  refine gathers_expect rfl fun opener s => ?_
  refine (gathers_statementsUntil h _ s).bind fun body new s hbody => ?_
  refine gathers_expect rfl fun closer s => gathers_pure ?_
  exact ⟨_, _, rfl, Scattered.node (hbody.before [closer.location])⟩

theorem gathers_elifStep (ls : List Location) (elifs : List ElifClause) (s : Cursor)
    (helifs : Scattered ls [] (elifOutlines elifs)) :
    Gathers ls (fun ls r => Scattered ls [] (elifOutlines r.value)) (elifStep g elifs) s := by
  refine gathers_peek ?_
  split
  · refine gathers_advance fun word s' _ => (h.expression s').bind fun test new s' htest => ?_
    refine (gathers_block h s').bind fun body more s' hbody => gathers_pure ?_
    have all := ((helifs.before word).append htest.1).append hbody
    rw [List.append_assoc (elifOutlines elifs)] at all
    change Scattered _ [] (elifOutlines (elifs ++ _))
    rw [elifOutlines_append]
    exact all
  · exact gathers_pure helifs

theorem gathers_optionalBlock (s : Cursor) :
    Gathers [] (fun ls b => Scattered ls [] (optionalBlock b)) (some <$> g.block) s :=
  (gathers_block h s).map fun _ _ => id

theorem gathers_optionalExpr (s : Cursor) :
    Gathers [] (fun ls e => Scattered ls [] (optionalExpr e)) (some <$> g.expression) s :=
  (h.expression s).map fun _ _ he => he.1

theorem gathers_ifForm (s : Cursor) :
    Gathers [] (fun ls form => form.Opened ls) (ifForm g) s := by
  refine gathers_expect rfl fun word s => (h.expression s).bind fun test new s htest => ?_
  refine (gathers_block h s).bind fun body more s hbody => ?_
  refine Gathers.bind (P := fun ls elifs => Scattered ls [] (elifOutlines elifs))
    (gathers_iterate (gathers_elifStep h) (scattered_nil _)) fun elifs last s helifs => ?_
  have parts := (((Trailing.start word.location).part htest.1).part hbody).part helifs
  rw [List.nil_append]
  generalize [word.location] ++ new ++ more ++ last = ls at parts ⊢
  refine (inside_accept _).gathers.bind fun found otherwise s _ => ?_
  split
  · exact (gathers_optionalBlock h s).bind fun b new s hb =>
      gathers_pure ((parts.before otherwise).part hb)
  · exact (gathers_pure (P := fun ls b => Scattered ls [] (optionalBlock b))
      (scattered_nil _)).bind fun b new s hb => gathers_pure ((parts.before otherwise).part hb)

theorem gathers_whileForm (s : Cursor) :
    Gathers [] (fun ls form => form.Opened ls) (whileForm g) s := by
  refine gathers_expect rfl fun word s => (h.expression s).bind fun test new s htest => ?_
  refine (gathers_block h s).bind fun body more s hbody => gathers_pure ?_
  exact ((Trailing.start word.location).part htest.1).part hbody

theorem gathers_startsVariable (s : Cursor) :
    Gathers [] (fun ls _ => ls = []) (startsVariable g) s := by
  refine gathers_peek ?_
  split
  · exact gathers_pure rfl
  · exact gathers_pure rfl
  · exact gathers_pure rfl
  · exact h.declares s
  · exact gathers_pure rfl

theorem gathers_forInit (s : Cursor) :
    Gathers [] (fun ls st => Scattered ls [] [st.outline]) (forInit g) s := by
  refine gathers_anchored (gathers_here ?_)
  refine (gathers_startsVariable h s).bind fun declares new s' nothing => ?_
  rw [nothing]
  split
  · exact (gathers_varGroup h _ s').bind fun d more s hd => gathers_pure (hd.anchored _)
  · exact (gathers_simple h s').behind fun new st hst _ => hst

theorem gathers_forForm (s : Cursor) :
    Gathers [] (fun ls form => form.Opened ls) (forForm g) s := by
  refine gathers_expect rfl fun word s => gathers_expect rfl fun opener s => gathers_check ?_
  have head := (Trailing.start word.location).before [opener.location]
  rw [List.nil_append]
  generalize [word.location] ++ [opener.location] = ls at head ⊢
  extract_lets afterInit
  have init (init : Option Statement) (new : List Location) (s : Cursor)
      (hinit : Scattered new [] (optionalStatement init)) :
      Gathers (ls ++ new) (fun ls form => form.Opened ls) (afterInit init) s := by
    refine gathers_expect rfl fun semicolon s => gathers_check ?_
    have head := (head.part hinit).before [semicolon.location]
    generalize ls ++ new ++ [semicolon.location] = ls at head ⊢
    extract_lets afterTest
    have test (test : Option Expr) (new : List Location) (s : Cursor)
        (htest : Scattered new [] (optionalExpr test)) :
        Gathers (ls ++ new) (fun ls form => form.Opened ls) (afterTest test) s := by
      refine gathers_expect rfl fun semicolon s => gathers_check ?_
      have head := (head.part htest).before [semicolon.location]
      generalize ls ++ new ++ [semicolon.location] = ls at head ⊢
      extract_lets afterUpdate
      have update (update : Option Statement) (new : List Location) (s : Cursor)
          (hupdate : Scattered new [] (optionalStatement update)) :
          Gathers (ls ++ new) (fun ls form => form.Opened ls) (afterUpdate update) s := by
        refine gathers_expect rfl fun closer s => ?_
        refine (gathers_block h s).bind fun body more s hbody => gathers_pure ?_
        exact ((head.part hupdate).before [closer.location]).part hbody
      split
      · exact (gathers_pure (scattered_nil _)).bind fun u new s hu => update u new s hu
      · exact ((gathers_simple h s).map fun _ _ hst => hst).bind fun u new s hu => update u new s hu
    split
    · exact (gathers_pure (scattered_nil _)).bind fun t new s ht => test t new s ht
    · exact (gathers_optionalExpr h s).bind fun t new s ht => test t new s ht
  split
  · exact (gathers_pure (scattered_nil _)).bind fun i new s hi => init i new s hi
  · exact ((gathers_forInit h s).map fun _ _ hst => hst).bind fun i new s hi => init i new s hi

/-- What the handlers of a `try` say keeps to some places. -/
def HandlersSpread (ls : List Location) (handlers : List CatchClause) : Prop :=
  Scattered ls (handlers.flatMap (·.name.slots .unusedDeclaration)) (catchOutlines handlers)

theorem gathers_catchStep (ls : List Location) (handlers : List CatchClause) (s : Cursor)
    (hhandlers : HandlersSpread ls handlers) :
    Gathers ls (fun ls r => HandlersSpread ls r.value) (catchStep g handlers) s := by
  refine gathers_peek ?_
  split
  · refine gathers_advance fun word s' _ => gathers_expect rfl fun opener s' => ?_
    refine (h.typeExpr s').bind fun type new s' htype => ?_
    refine gathers_name.bind fun ident more s' hident => gathers_expect rfl fun closer s' => ?_
    refine (gathers_block h s').bind fun body last s' hbody => gathers_pure ?_
    rw [hident]
    have name := scattered_ident .unusedDeclaration nofun ident
    have head := ((Scattered.before hhandlers word).before [opener.location]).part htype.1
    have all := ((head.append name).before [closer.location]).part hbody
    unfold HandlersSpread
    change Scattered _ ((handlers ++ _).flatMap _) (catchOutlines (handlers ++ _))
    rw [List.flatMap_append, catchOutlines_append, List.flatMap_singleton]
    simpa [catchOutlines] using all
  · exact gathers_pure hhandlers

theorem gathers_tryForm (s : Cursor) :
    Gathers [] (fun ls form => form.Opened ls) (tryForm g) s := by
  refine gathers_expect rfl fun word s => (gathers_block h s).bind fun body new s hbody => ?_
  refine Gathers.bind (P := HandlersSpread) (gathers_iterate (gathers_catchStep h)
    (scattered_nil _)) fun handlers more s hhandlers => ?_
  have head := ((Trailing.start word.location).part hbody).append hhandlers
  rw [List.nil_append]
  generalize [word.location] ++ new ++ more = ls at head ⊢
  extract_lets next
  have rest (r : PUnit) (s : Cursor) :
      Gathers ls (fun ls form => form.Opened ls) (next r) s := by
    refine gathers_expect rfl fun opener s => ?_
    refine (gathers_block h s).bind fun last new s hlast => gathers_pure ?_
    exact (head.before [opener.location]).part hlast
  split
  · exact gathers_here (gathers_fail_bind _ _)
  · exact rest ⟨⟩ s

theorem gathers_caseBody (s : Cursor) :
    Gathers [] (fun ls body => Scattered ls [] (statementOutlines body)) (caseBody g) s := by
  refine gathers_here (gathers_check ?_)
  split
  · refine (h.block s).starting.bind fun body new s' started => gathers_pure ?_
    obtain ⟨hbody, first⟩ := started
    have opened : (StatementForm.block body).Opened new := hbody
    exact opened.anchored _ first
  · exact gathers_statementsUntil h _ s

theorem gathers_alternativeStep (ls : List Location) (ps : List Pattern) (s : Cursor)
    (hps : Scattered ls [] (ps.map Pattern.outline)) :
    Gathers ls (fun ls r => Scattered ls [] (r.value.map Pattern.outline))
      (alternativeStep g ps) s := by
  refine gathers_accept rfl (fun l s => ?_) (gathers_pure hps)
  refine (gathers_pattern h false s).bind fun p new s hp => gathers_pure ?_
  change Scattered _ [] ((ps ++ [p]).map Pattern.outline)
  rw [List.map_append]
  exact (hps.before [l]).append hp

/-- The cases of a `switch` read so far keep to some places. -/
def CasesSpread (ls : List Location) (cases : Cases) : Prop :=
  Scattered ls [] (caseOutlines cases.1 ++ optionalCase cases.2)

omit h in
theorem CasesSpread.case {cases : List SwitchCase} {otherwise : Option SwitchCase}
    (hcases : CasesSpread ls (cases, otherwise)) {ls' : List Location} {c : SwitchCase}
    (hc : Scattered ls' [] (c.patterns.map Pattern.outline ++ statementOutlines c.body)) :
    CasesSpread (ls ++ ls') (cases ++ [c], otherwise) := by
  obtain ⟨patterns, body, place⟩ := c
  have one : caseOutlines [⟨patterns, body, place⟩]
      = patterns.map Pattern.outline ++ statementOutlines body := List.append_nil _
  refine (Scattered.part hcases hc).reorder ?_
  rw [caseOutlines_append, one, List.append_assoc, List.append_assoc]
  exact List.perm_append_comm.append_left _

omit h in
theorem CasesSpread.otherwise {cases : List SwitchCase} (hcases : CasesSpread ls (cases, none))
    {ls' : List Location} {c : SwitchCase}
    (hc : Scattered ls' [] (c.patterns.map Pattern.outline ++ statementOutlines c.body)) :
    CasesSpread (ls ++ ls') (cases, some c) := by
  obtain ⟨patterns, body, place⟩ := c
  have all := Scattered.part hcases hc
  rwa [optionalCase, List.append_nil] at all

theorem gathers_caseStep (ls : List Location) (cases : Cases) (s : Cursor)
    (hcases : CasesSpread ls cases) :
    Gathers ls (fun ls r => CasesSpread ls r.value) (caseStep g cases) s := by
  obtain ⟨cases, otherwise⟩ := cases
  refine gathers_check (gathers_atEnd ?_)
  split
  · exact gathers_pure hcases
  · refine gathers_here (gathers_accept rfl (fun l s' => ?_) ?_)
    · rw [if_pos rfl]
      dsimp only
      cases otherwise with
      | some c => exact gathers_fail_bind _ _
      | none =>
          refine gathers_expect rfl fun colon s' => ?_
          refine (gathers_caseBody h s').bind fun body new s' hbody => gathers_pure ?_
          have label : Scattered ([l] ++ [colon.location]) []
              [(⟨.wildcard, s.peek.location⟩ : Pattern).outline] :=
            Scattered.pattern (scattered_nil _)
          have all := hcases.otherwise
            (c := ⟨[⟨.wildcard, s.peek.location⟩], body, s.peek.location⟩) (label.part hbody)
          simp only [List.append_assoc] at all ⊢
          exact all
    · refine gathers_expect rfl fun word s' => ?_
      refine (gathers_pattern h false s').bind fun first new s' hfirst => ?_
      refine Gathers.bind (P := fun ls others => Scattered ls [] (others.map Pattern.outline))
        (gathers_iterate (gathers_alternativeStep h) (scattered_nil _))
        fun others more s' hothers => ?_
      refine gathers_expect rfl fun colon s' => ?_
      refine (gathers_caseBody h s').bind fun body last s' hbody => gathers_pure ?_
      have label := ((hfirst.after [word.location]).part hothers).before [colon.location]
      have all := hcases.case (c := ⟨first :: others, body, s.peek.location⟩) (label.part hbody)
      simp only [List.append_assoc] at all ⊢
      exact all

theorem gathers_switchForm (s : Cursor) :
    Gathers [] (fun ls form => form.Opened ls) (switchForm g) s := by
  refine gathers_expect rfl fun word s => (h.expression s).bind fun value new s hvalue => ?_
  refine gathers_expect rfl fun opener s => ?_
  refine Gathers.bind (P := CasesSpread) (gathers_iterate (gathers_caseStep h) (scattered_nil _))
    fun cases more s hcases => gathers_expect rfl fun closer s => gathers_pure ?_
  have head := ((Trailing.start word.location).part hvalue.1).before [opener.location]
  exact (head.part hcases).before [closer.location]

theorem gathers_returnForm (s : Cursor) (token : s.peek.kind ≠ .eof) :
    Gathers [] (fun ls form => form.Opened ls) (returnForm g) s := by
  refine gathers_advance fun new s' passed => gathers_check ?_
  rw [passed token]
  extract_lets next
  have close (value : Option Expr) (new : List Location) (s' : Cursor)
      (hvalue : Scattered new [] (optionalExpr value)) :
      Gathers ([] ++ [s.peek.location] ++ new) (fun ls form => form.Opened ls) (next value) s' :=
    gathers_expect rfl fun closer s' => gathers_pure
      (((Trailing.start s.peek.location).part hvalue).before [closer.location])
  split
  · exact (gathers_pure (scattered_nil _)).bind close
  · exact (gathers_optionalExpr h s').bind close

theorem gathers_throwForm (s : Cursor) (token : s.peek.kind ≠ .eof) :
    Gathers [] (fun ls form => form.Opened ls) (throwForm g) s := by
  refine gathers_advance fun new s' passed => (h.expression s').bind fun value more s' hvalue => ?_
  rw [passed token]
  split
  · refine gathers_expect rfl fun closer s' => gathers_pure ?_
    exact ((Trailing.start s.peek.location).part hvalue.1).before [closer.location]
  · exact gathers_fail _ _

omit h in
theorem gathers_jump {form : StatementForm} (own : form.aheadSlots ++ form.slots = [])
    (parts : form.outlines = []) (s : Cursor) (token : s.peek.kind ≠ .eof) :
    Gathers [] (fun ls form => form.Opened ls) (jump form) s := by
  refine gathers_advance fun new s' passed => gathers_expect rfl fun closer s' => gathers_pure ?_
  rw [passed token]
  unfold StatementForm.Opened
  rw [own, parts]
  exact (Trailing.start s.peek.location).before [closer.location]

theorem gathers_keywordStatement (k : Keyword) (s : Cursor) (kind : s.peek.kind = .keyword k) :
    Gathers [] (fun ls st => Scattered ls [] [st.outline]) (keywordStatement g s.peek k) s := by
  have token : s.peek.kind ≠ .eof := by
    rw [kind]
    nofun
  have located {form : Parser StatementForm}
      (hform : Gathers [] (fun ls form => form.Opened ls) form s) :
      Gathers [] (fun ls st => Scattered ls [] [st.outline])
        (do return (⟨← form, s.peek.location⟩ : Statement)) s :=
    gathers_anchored (hform.bind fun form new s' opened => gathers_pure (opened.anchored _))
  simp only [keywordStatement]
  split
  case h_1 => exact located (gathers_ifForm h s)
  case h_2 => exact located (gathers_whileForm h s)
  case h_3 => exact located (gathers_forForm h s)
  case h_4 => exact located (gathers_tryForm h s)
  case h_5 => exact located (gathers_switchForm h s)
  case h_6 => exact located (gathers_returnForm h s token)
  case h_7 => exact located (gathers_jump rfl rfl s token)
  case h_8 => exact located (gathers_jump rfl rfl s token)
  case h_9 => exact located (gathers_throwForm h s token)
  case h_19 =>
    split
    · exact gathers_declaration h s
    · exact gathers_fail _ _
  all_goals first
    | exact gathers_declaration h s
    | exact gathers_terminated h s

theorem gathers_statementForm (s : Cursor) :
    Gathers [] (fun ls st => Scattered ls [] [st.outline]) (statementForm g) s := by
  refine gathers_peek ?_
  split
  · refine gathers_anchored ((h.block s).bind fun body new s' hbody => gathers_pure ?_)
    have opened : (StatementForm.block body).Opened new := hbody
    exact opened.anchored _
  · next k kind => exact gathers_keywordStatement h k s kind
  · refine (h.declares s).bind fun declares new s' nothing => ?_
    rw [nothing]
    split
    · exact gathers_declaration h s'
    · exact gathers_terminated h s'
  · exact gathers_terminated h s

/-! ### Levels -/

theorem scatters_above : Scatters g.above where
  statement _ := gathers_nested _ (gathers_statementForm h)
  block _ := gathers_nested _ (gathers_blockForm h)
  expression _ := gathers_nested _ (gathers_conditional h)
  operand _ := gathers_nested _ (gathers_operandForm h)
  primary _ := gathers_nested _ (gathers_primaryForm h)
  typeExpr _ := gathers_nested _ (gathers_unionType h.typeExpr)
  declares _ := gathers_foresee _

omit h

theorem scatters_ofLevels (limit n : Nat) : Scatters (ofLevels limit n) := by
  induction n with
  | zero =>
      exact {
        statement := fun _ _ _ run => nomatch run
        block := fun _ _ _ run => nomatch run
        expression := fun _ _ _ run => nomatch run
        operand := fun _ _ _ run => nomatch run
        primary := fun _ _ _ run => nomatch run
        typeExpr := fun _ _ _ run => nomatch run
        declares := fun _ => gathers_pure rfl }
  | succ n ih => exact scatters_above ih

end Grammar

/-! ### Programs -/

/-- Imports have no slots in the tree. -/
theorem scattered_imports (ls : List Location) (is : List ImportDeclaration) :
    Scattered ls [] (is.map ImportDeclaration.outline) := by
  have none_ : slotsOf (is.map ImportDeclaration.outline) = [] := by
    rw [slotsOf_map]
    exact List.flatMap_eq_nil_iff.mpr fun _ _ => rfl
  refine ⟨fun x mem => ?_, fun _ x => ?_⟩
  · rw [none_] at mem
    exact nomatch mem
  · rw [none_]
    exact Nat.zero_le _

/-- What one more statement keeps up, at the places that it passes, is kept up by a whole body. -/
theorem Reads.gathers {g : Grammar} {P : List Location → Statement → Prop}
    {I : List Location → List Statement → Prop} (statement : ∀ s, Parser.Gathers [] P g.statement s)
    (before : ∀ ls body more, I ls body → I (ls ++ more) body)
    (snoc : ∀ ls body new st, I ls body → P new st → I (ls ++ new) (body ++ [st]))
    {d d' : Draft} {s s' : Cursor} (reads : Reads g d s d' s') {ls : List Location}
    (hd : I ls d.body) : I (ls ++ s.places) d'.body := by
  induction reads generalizing ls with
  | done _ => exact before _ _ _ hd
  | @stray d s d' s' here _ ih =>
      have passed := s.places_of_peek (by rw [here]; nofun)
      have rest := ih (before _ _ [s.peek.location] hd)
      rwa [List.append_assoc, List.singleton_append, ← passed] at rest
  | @statement d s d₁ s₁ d' s' _ _ first _ _ ih =>
      obtain ⟨_, st, read, added⟩ := readStatement_eq_ok.mp first
      obtain ⟨new, passed, hst⟩ := statement _ st s₁ read
      have body : I (ls ++ new) d₁.body := by
        rw [Draft.body_addStatement added]
        exact snoc _ _ _ _ hd hst
      have rest := ih body
      rwa [List.append_assoc, ← passed] at rest

theorem Reads.scattered {g : Grammar} (h : g.Scatters) {d d' : Draft} {s s' : Cursor}
    (reads : Reads g d s d' s') {ls : List Location}
    (hd : Scattered ls [] (d.body.map Statement.outline)) :
    Scattered (ls ++ s.places) [] (d'.body.map Statement.outline) := by
  refine reads.gathers (I := fun ls body => Scattered ls [] (body.map Statement.outline))
    h.statement (fun _ _ more hbody => hbody.before more) (fun _ _ _ _ hbody hst => ?_) hd
  rw [List.map_append]
  exact hbody.append hst

namespace Program

variable {limit : Nat} {tokens : List Token} {p : Program}

/-- A program that is read keeps to the places of its tokens. -/
theorem scattered_of_parse (h : parse limit tokens = .ok p) :
    Scattered (Cursor.ofTokens tokens).places [] [p.outline] := by
  obtain ⟨_, s, reads⟩ := parse_eq_ok.mp h
  have empty : (Draft.afterImports tokens).1.body = [] := (readImports_grows _ _).1
  have start : Scattered [] [] ((Draft.afterImports tokens).1.body.map Statement.outline) := by
    rw [empty]
    exact scattered_nil []
  have body := reads.scattered (Grammar.scatters_ofLevels limit (limit + 1)) start
  obtain ⟨passed, rest⟩ := (grows_readImports .empty (.ofTokens tokens)).within.suffix
  have imports : Scattered (passed.map (·.location)) [] (p.imports.map ImportDeclaration.outline) :=
    scattered_imports _ _
  have places : (Cursor.ofTokens tokens).places
      = passed.map (·.location) ++ (Draft.afterImports tokens).2.places := by
    rw [Cursor.places, ← rest, List.map_append]
    rfl
  rw [places]
  exact Scattered.node (imports.append body)

end Program
end ScriptFront
