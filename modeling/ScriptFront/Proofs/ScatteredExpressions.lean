import ScriptFront.Proofs.ForwardGrammar
import ScriptFront.Proofs.PassedPlaces
import ScriptFront.Proofs.RepeatedSlots

/-!
Types, patterns and expressions that are read have their slots at the places of their own tokens, no
slot twice but for calls in a chain. Each parser puts what it has read behind one another, so that
the parts of a node are apart as soon as the places of the tokens are.
-/

namespace ScriptFront

/-- A type that keeps to some places, and starts at one of them. -/
def TypeExpr.Spread (ls : List Location) (t : TypeExpr) : Prop :=
  Scattered ls [] [t.outline] ∧ t.location ∈ ls

/-- An expression that keeps to some places, and starts at one of them. -/
def Expr.Spread (ls : List Location) (e : Expr) : Prop :=
  Scattered ls [] [e.outline] ∧ e.location ∈ ls

namespace Scattered

variable {ls ls' : List Location} {place : Location}

theorem type {form : TypeForm} (h : Scattered ls (form.slots place) form.outlines) :
    Scattered ls [] [(⟨form, place⟩ : TypeExpr).outline] := node h

theorem pattern {form : PatternForm} (h : Scattered ls (form.slots place) form.outlines) :
    Scattered ls [] [(⟨form, place⟩ : Pattern).outline] := node h

theorem parameter {p : Param} (h : Scattered ls (p.name.slots .unusedParameter) [p.type.outline]) :
    Scattered ls [] [p.outline] := node h

end Scattered

theorem TypeExpr.Spread.before {ls : List Location} {t : TypeExpr} (h : t.Spread ls)
    (more : List Location) : t.Spread (ls ++ more) :=
  ⟨h.1.before more, List.mem_append_left _ h.2⟩

theorem Expr.Spread.before {ls : List Location} {e : Expr} (h : e.Spread ls)
    (more : List Location) : e.Spread (ls ++ more) :=
  ⟨h.1.before more, List.mem_append_left _ h.2⟩

theorem TypeExpr.Spread.union {ls ls' : List Location} {l r : TypeExpr} (hl : l.Spread ls)
    (hr : r.Spread ls') : (⟨.union l r, l.location⟩ : TypeExpr).Spread (ls ++ ls') :=
  ⟨(hl.1.append hr.1).type, List.mem_append_left _ hl.2⟩

theorem TypeExpr.Spread.intersection {ls ls' : List Location} {l r : TypeExpr} (hl : l.Spread ls)
    (hr : r.Spread ls') : (⟨.intersection l r, l.location⟩ : TypeExpr).Spread (ls ++ ls') :=
  ⟨(hl.1.append hr.1).type, List.mem_append_left _ hl.2⟩

theorem typeOutlines_append (ts ts' : List TypeExpr) :
    typeOutlines (ts ++ ts') = typeOutlines ts ++ typeOutlines ts' := by
  rw [typeOutlines_eq, typeOutlines_eq, typeOutlines_eq, List.map_append]

theorem exprOutlines_append (es es' : List Expr) :
    exprOutlines (es ++ es') = exprOutlines es ++ exprOutlines es' := by
  rw [exprOutlines_eq, exprOutlines_eq, exprOutlines_eq, List.map_append]

theorem propertyOutlines_append (ps ps' : List Property) :
    propertyOutlines (ps ++ ps') = propertyOutlines ps ++ propertyOutlines ps' := by
  rw [propertyOutlines_eq, propertyOutlines_eq, propertyOutlines_eq, List.map_append]

theorem armOutlines_append (arms arms' : List MatchArm) :
    armOutlines (arms ++ arms') = armOutlines arms ++ armOutlines arms' := by
  rw [armOutlines_eq, armOutlines_eq, armOutlines_eq, List.flatMap_append]

namespace Grammar

open ScriptFront.Parser

variable {g : Grammar} {s : Cursor} {ls : List Location}

/-! ### Types -/

section Types

variable (h : ∀ s, Gathers [] TypeExpr.Spread g.typeExpr s)

include h

theorem gathers_types : Gathers [] (fun ls ts => Scattered ls [] (typeOutlines ts))
    (commaSeparated g.typeExpr) s := by
  refine gathers_commaSeparated h (fun _ _ ht => ht.1) fun ls ts l new t hts ht => ?_
  rw [typeOutlines_append]
  exact (hts.before [l]).append ht.1

theorem gathers_genericArguments (s : Cursor) :
    Gathers [] (fun ls ts => Scattered ls [] (typeOutlines ts)) (genericArguments g) s := by
  refine gathers_expect rfl fun _ s => (gathers_types h).bind fun args new s hargs => ?_
  exact gathers_expect rfl fun _ s => gathers_pure ((hargs.after _).before _)

theorem gathers_optionalGenerics (s : Cursor) :
    Gathers [] (fun ls ts => Scattered ls [] (typeOutlines ts)) (optionalGenerics g) s := by
  refine gathers_check ?_
  split
  · exact gathers_genericArguments h s
  · exact gathers_pure (scattered_nil _)

theorem gathers_baseType (s : Cursor) : Gathers [] TypeExpr.Spread (baseType g) s := by
  refine gathers_peek ?_
  have one (form : TypeForm) (token : s.peek.kind ≠ .eof)
      (hform : Scattered [s.peek.location] (form.slots s.peek.location) form.outlines) :
      Gathers [] TypeExpr.Spread
        (do let _ ← advance; return (⟨form, s.peek.location⟩ : TypeExpr)) s := by
    refine gathers_advance fun new s' passed => gathers_pure ?_
    rw [passed token]
    exact ⟨hform.type, List.mem_singleton.mpr rfl⟩
  have reference : Scattered [s.peek.location] [(.unknownType, s.peek.location)] [] :=
    scattered_at (List.nodup_singleton _) (List.forall_mem_singleton.mpr rfl)
  have named (name : String) (token : s.peek.kind ≠ .eof) : Gathers [] TypeExpr.Spread (do
      let _ ← advance
      let generics ← optionalGenerics g
      return (⟨.reference name generics, s.peek.location⟩ : TypeExpr)) s := by
    refine gathers_advance fun new s' passed => ?_
    rw [passed token]
    refine (gathers_optionalGenerics h _).bind fun generics new s' hgenerics => gathers_pure ?_
    exact ⟨(reference.append hgenerics).type, List.mem_append_left _ (List.mem_singleton.mpr rfl)⟩
  dsimp only
  split
  · next kind => exact one _ (by rw [kind]; nofun) (scattered_nil _)
  · next kind => exact one _ (by rw [kind]; nofun) (scattered_nil _)
  · next kind =>
      split
      · exact one _ (by rw [kind]; nofun) reference
      · exact gathers_fail _ _
  · next kind => exact one _ (by rw [kind]; nofun) (scattered_nil _)
  · next kind => exact one _ (by rw [kind]; nofun) (scattered_nil _)
  · next kind => exact named _ (by rw [kind]; nofun)
  · next kind => exact named _ (by rw [kind]; nofun)
  · refine gathers_advance fun opened s _ => (h s).bind fun inner new s hinner => ?_
    refine gathers_expect rfl fun _ s => gathers_pure ?_
    exact ⟨(hinner.1.after _).before _,
      List.mem_append_left _ (List.mem_append_right _ hinner.2)⟩
  · exact gathers_fail _ _

omit h in
theorem gathers_arrayStep (ls : List Location) (t : TypeExpr) (s : Cursor) (ht : t.Spread ls) :
    Gathers ls (fun ls r => TypeExpr.Spread ls r.value) (arrayStep t) s := by
  refine gathers_check (gathers_peekAt ?_)
  split
  · refine gathers_advance fun _ s _ => gathers_advance fun _ s _ => gathers_pure ?_
    exact ⟨((ht.1.before _).before _).type,
      List.mem_append_left _ (List.mem_append_left _ ht.2)⟩
  · exact gathers_pure ht

theorem gathers_arrayType (s : Cursor) : Gathers [] TypeExpr.Spread (arrayType g) s :=
  (gathers_baseType h s).and_then fun _ _ _ ht => gathers_iterate gathers_arrayStep ht

theorem gathers_intersectionType (s : Cursor) :
    Gathers [] TypeExpr.Spread (intersectionType g) s := by
  refine (gathers_arrayType h s).and_then fun first ls s hfirst =>
    gathers_iterate (fun ls left s hleft => ?_) hfirst
  refine gathers_accept rfl (fun l s => ?_) (gathers_pure hleft)
  refine (gathers_arrayType h s).bind fun right new s hright => gathers_pure ?_
  exact (hleft.before [l]).intersection hright

theorem gathers_unionType (s : Cursor) : Gathers [] TypeExpr.Spread (unionType g) s := by
  refine (gathers_intersectionType h s).and_then fun first ls s hfirst =>
    gathers_iterate (fun ls left s hleft => ?_) hfirst
  refine gathers_accept rfl (fun l s => ?_) (gathers_pure hleft)
  refine (gathers_intersectionType h s).bind fun right new s hright => gathers_pure ?_
  exact (hleft.before [l]).union hright

omit h in
/-- Names that are read in a list, each with some slots. There is one at least. -/
theorem gathers_names (expected : String) {slots : Ident → List Slot}
    (hslots : ∀ i, Scattered [i.location] (slots i) []) :
    Gathers [] (fun ls is => Scattered ls (is.flatMap slots) [] ∧ ls ≠ [])
      (commaSeparated (name expected)) s := by
  refine gathers_commaSeparated (fun _ => gathers_name) ?_ ?_
  · rintro _ i rfl
    rw [List.flatMap_singleton]
    exact ⟨hslots i, List.cons_ne_nil _ _⟩
  · rintro ls is l _ i his rfl
    rw [List.flatMap_append, List.flatMap_singleton]
    exact ⟨(his.1.before [l]).append (hslots i), List.append_ne_nil_of_right_ne_nil _ nofun⟩

omit h in
theorem gathers_genericParams (s : Cursor) :
    Gathers [] (fun ls is => Scattered ls (is.map Ident.taken) []) genericParams s := by
  refine gathers_accept rfl (fun l s => ?_) (gathers_pure (scattered_nil _))
  refine (gathers_names _ scattered_taken).bind fun is new s his => ?_
  refine gathers_expect rfl fun _ s => gathers_pure ?_
  rw [List.map_eq_flatMap]
  exact (his.1.after _).before _

theorem gathers_param (s : Cursor) :
    Gathers [] (fun ls p => Scattered ls [] [p.outline]) (param g) s := by
  refine gathers_here ((inside_accept _).gathers.bind fun isRest dots s _ => ?_)
  refine gathers_name.bind fun ident new s hident => ?_
  refine gathers_expect rfl fun _ s => (h s).bind fun type more s htype => gathers_pure ?_
  rw [hident]
  have name := scattered_ident .unusedParameter nofun ident
  exact (((name.after _).before _).append htype.1).parameter

theorem gathers_params (s : Cursor) :
    Gathers [] (fun ls ps => Scattered ls [] (ps.map Param.outline)) (params g) s := by
  refine gathers_expect rfl fun _ s => ?_
  refine Gathers.and_then (P := fun ls ps => Scattered ls [] (ps.map Param.outline))
    (gathers_iterate (fun ls ps s hps => ?_) (scattered_nil _))
    fun ps ls s hps => gathers_expect rfl fun _ s => gathers_pure (hps.before _)
  refine gathers_check ?_
  extract_lets next
  have one : ∀ r s, Gathers ls
      (fun ls r => Scattered ls [] (r.value.map Param.outline)) (next r) s := by
    refine fun _ s => (gathers_param h s).bind fun p new s hp => ?_
    have more : Scattered (ls ++ new) [] ((ps ++ [p]).map Param.outline) := by
      rw [List.map_append]
      exact hps.append hp
    exact gathers_accept rfl (fun l s => gathers_pure (more.before [l])) (gathers_pure more)
  split
  · exact gathers_pure hps
  · split
    · split
      · exact gathers_fail_bind _ _
      · exact one () s
    · exact one () s

theorem gathers_variableType (isConstant : Bool) (s : Cursor) :
    Gathers [] (fun ls t => Scattered ls [] [t.outline]) (variableType g isConstant) s := by
  have infer (place : Location) (ls : List Location) :
      Scattered ls [] [(⟨.infer, place⟩ : TypeExpr).outline] :=
    Scattered.type (scattered_nil ls)
  refine gathers_peek (gathers_peekAt ?_)
  split
  · exact gathers_advance fun _ s _ => gathers_pure (infer _ _)
  · split
    · exact gathers_pure (infer _ _)
    · exact (h s).behind fun _ _ => And.left

theorem gathers_returnType (s : Cursor) :
    Gathers [] (fun ls t => Scattered ls [] [t.outline]) (returnType g) s := by
  exact gathers_expect rfl fun _ s => (h s).behind fun new t ht => ht.1.after _

theorem gathers_signature (s : Cursor) :
    Gathers [] (fun ls sig => Scattered ls (sig.generics.map Ident.taken) sig.outlines)
      (signature g) s := by
  refine (gathers_genericParams s).bind fun generics new s hgenerics => ?_
  refine (gathers_params h s).bind fun ps more s hps => ?_
  refine (gathers_returnType h s).bind fun returns last s hreturns => gathers_pure ?_
  have own := (hgenerics.append hps).append hreturns
  rwa [List.append_nil, List.append_nil] at own

end Types

/-! ### Patterns -/

theorem gathers_node {P : List Location → Expr → Prop} {form : ExprForm} {place : Location}
    (h : P ls (Expr.of form place)) : Gathers ls P (g.node form place) s := by
  unfold node
  dsimp only
  split
  · exact gathers_fail _ _
  · exact gathers_pure h

theorem gathers_numberPattern (s : Cursor) :
    Gathers [] (fun _ form => (∀ place, form.slots place = []) ∧ form.outlines = [])
      numberPattern s := by
  refine (consumes_signedNumber s).gathers.bind fun first _ s _ => ?_
  refine gathers_accept rfl (fun l s => ?_) (gathers_pure ⟨fun _ => rfl, rfl⟩)
  exact (consumes_signedNumber s).gathers.bind fun last _ s _ =>
    gathers_pure ⟨fun _ => rfl, rfl⟩

theorem gathers_simplePattern (s : Cursor) :
    Gathers [] (fun ls form => Scattered ls (form.slots s.peek.location) form.outlines)
      simplePattern s := by
  refine gathers_peek ?_
  have one (form : PatternForm) (own : form.slots s.peek.location = [])
      (parts : form.outlines = []) : Gathers []
        (fun ls form => Scattered ls (form.slots s.peek.location) form.outlines)
        (do let _ ← advance; return form) s := by
    refine gathers_advance fun new s' _ => gathers_pure ?_
    rw [own, parts]
    exact scattered_nil _
  have number : Gathers [] (fun ls form => Scattered ls (form.slots s.peek.location) form.outlines)
      numberPattern s := (gathers_numberPattern s).behind fun ls form plain => by
    rw [plain.1, plain.2]
    exact scattered_nil ls
  have reference : Scattered [s.peek.location] [(.reference, s.peek.location)] [] :=
    scattered_at (List.nodup_singleton _) (List.forall_mem_singleton.mpr rfl)
  split
  · exact one _ rfl rfl
  · next kind =>
      refine gathers_advance fun new s' passed => ?_
      rw [passed (by rw [kind]; nofun)]
      refine gathers_name.bind fun i more s' _ => gathers_pure ?_
      exact (scattered_ident .unusedDeclaration nofun ⟨_, s.peek.location⟩).before more
  · exact number
  · exact number
  · exact one _ rfl rfl
  · exact one _ rfl rfl
  · exact one _ rfl rfl
  · next kind =>
      refine gathers_advance fun new s' passed => ?_
      rw [passed (by rw [kind]; nofun)]
      refine (inside_memberPath _ s').gathers.bind fun path more s' _ => ?_
      split
      · exact gathers_pure (reference.before more)
      · exact gathers_pure (reference.before more)
  · exact gathers_fail _ _

/--
The parsers of a level keep what they yield to the places that they pass, and a block behind the
first of them. The test whether a declaration is next passes none.
-/
structure Scatters (g : Grammar) : Prop where
  statement : ∀ s, Gathers [] (fun ls st => Scattered ls [] [st.outline]) g.statement s
  block : ∀ s, Gathers [] (fun ls b => Trailing ls [] [b.outline]) g.block s
  expression : ∀ s, Gathers [] Expr.Spread g.expression s
  operand : ∀ s, Gathers [] Expr.Spread g.operand s
  primary : ∀ s, Gathers [] Expr.Spread g.primary s
  typeExpr : ∀ s, Gathers [] TypeExpr.Spread g.typeExpr s
  declares : ∀ s, Gathers [] (fun ls _ => ls = []) g.declares s

variable (h : Scatters g)

include h

theorem gathers_pattern (guards : Bool) (s : Cursor) :
    Gathers [] (fun ls p => Scattered ls [] [p.outline]) (pattern g guards) s := by
  refine gathers_here ((gathers_simplePattern s).bind fun form new s' hform => ?_)
  split
  · refine gathers_accept rfl (fun l s => ?_) (gathers_pure hform.pattern)
    refine (h.expression s).bind fun guard more s hguard => gathers_pure ?_
    exact ((hform.pattern.before [l]).append hguard.1).pattern
  · exact gathers_pure hform.pattern

/-! ### Chains of operands -/

/-- The operands of a chain in the order in which they are read. -/
def operands (c : Pending × Expr) : List Outline :=
  c.1.reverse.map (·.1.outline) ++ [c.2.outline]

/-- The operands of a chain keep to some places, and each starts at one of them. -/
structure ChainSpread (ls : List Location) (c : Pending × Expr) : Prop where
  parts : Scattered ls [] (operands c)
  waiting : ∀ w ∈ c.1, w.1.location ∈ ls
  last : c.2.location ∈ ls

namespace ChainSpread

omit h

variable {ls' : List Location} {pending : Pending} {left right e : Expr} {op : ChainOp}

theorem start (h : e.Spread ls) : ChainSpread ls ([], e) := ⟨h.1, nofun, h.2⟩

theorem spread (h : ChainSpread ls ([], e)) : e.Spread ls := ⟨h.parts, h.last⟩

theorem before (h : ChainSpread ls (pending, e)) (more : List Location) :
    ChainSpread (ls ++ more) (pending, e) where
  parts := h.parts.before more
  waiting w mem := List.mem_append_left _ (h.waiting w mem)
  last := List.mem_append_left _ h.last

/-- Joined operands keep the slots of both, and have none of their own. -/
theorem join (h : ChainSpread ls ((left, op) :: pending, right)) :
    ChainSpread ls (pending, Expr.of (op.join left right) left.location) := by
  have slots : slotsOf [(Expr.of (op.join left right) left.location).outline]
      = slotsOf [left.outline, right.outline] := by
    cases op <;> exact List.append_nil _
  have repeats : repeatsOf [(Expr.of (op.join left right) left.location).outline]
      = repeatsOf [left.outline, right.outline] := by
    cases op <;> exact List.append_nil _
  have parts : Scattered ls []
      (pending.reverse.map (·.1.outline) ++ [left.outline, right.outline]) := by
    simpa [operands] using h.parts
  obtain ⟨first, waiting⟩ := List.forall_mem_cons.mp h.waiting
  refine ⟨parts.same ?_ ?_, waiting, first⟩
  · rw [operands, slotsOf_append, slotsOf_append, slots]
  · rw [operands, repeatsOf_append, repeatsOf_append, repeats]

/-- So does a test. -/
theorem test {target : Expr} (quantifier : Quantifier) (h : ChainSpread ls (pending, e))
    (ht : Scattered ls' [] [target.outline]) :
    ChainSpread (ls ++ ls') (pending, Expr.of (.is e quantifier target) e.location) := by
  have slots : slotsOf [(Expr.of (.is e quantifier target) e.location).outline]
      = slotsOf ([e.outline] ++ [target.outline]) := List.append_nil _
  have repeats : repeatsOf [(Expr.of (.is e quantifier target) e.location).outline]
      = repeatsOf ([e.outline] ++ [target.outline]) := List.append_nil _
  have parts := h.parts.append ht
  rw [operands, List.append_assoc] at parts
  refine ⟨parts.same ?_ ?_, (h.before ls').waiting, (h.before ls').last⟩
  · rw [operands, slotsOf_append, slotsOf_append _ ([_] ++ [_]), slots]
  · rw [operands, repeatsOf_append, repeatsOf_append _ ([_] ++ [_]), repeats]

theorem push (h : ChainSpread ls (pending, left)) (he : e.Spread ls') :
    ChainSpread (ls ++ ls') ((left, op) :: pending, e) := by
  have waiting : ∀ w ∈ (left, op) :: pending, w.1.location ∈ ls ++ ls' :=
    List.forall_mem_cons.mpr ⟨(h.before ls').last, (h.before ls').waiting⟩
  refine ⟨?_, waiting, List.mem_append_right _ he.2⟩
  have operands_eq : operands ((left, op) :: pending, e)
      = operands (pending, left) ++ [e.outline] := by
    simp [operands]
  rw [operands_eq]
  exact h.parts.append he.1

end ChainSpread

omit h in
theorem gathers_fold (precedence : Nat) {pending : Pending} {right : Expr}
    (hc : ChainSpread ls (pending, right)) (s : Cursor) :
    Gathers ls (fun ls c => ChainSpread ls c ∧ (precedence = 0 → c.1 = []))
      (fold g precedence pending right) s := by
  induction pending generalizing ls right s with
  | nil => exact gathers_pure ⟨hc, fun _ => rfl⟩
  | cons first pending ih =>
      obtain ⟨left, op⟩ := first
      unfold fold
      split
      · exact Gathers.and_then (P := fun ls joined => ChainSpread ls (pending, joined))
          (gathers_node hc.join) fun joined ls s hjoined => ih hjoined s
      · next loose => exact gathers_pure ⟨hc, fun zero => absurd (zero ▸ Nat.zero_le _) loose⟩

theorem gathers_isTarget (s : Cursor) : Gathers [] Expr.Spread (isTarget g) s := by
  refine gathers_peek ?_
  split
  · refine gathers_name.bind fun i new s hi => gathers_pure ?_
    rw [hi]
    have own : Scattered [i.location]
        [(.reference, i.location), (.functionNotFound, i.location)] [] :=
      scattered_at (by simp) (by simp)
    exact ⟨own.expression, List.mem_singleton.mpr rfl⟩
  · exact h.primary s
  · exact gathers_fail _ _

theorem gathers_isTest {pending : Pending} {subject : Expr} (hc : ChainSpread ls (pending, subject))
    (s : Cursor) : Gathers ls (fun ls e => ChainSpread ls (pending, e)) (isTest g subject) s := by
  refine gathers_advance fun new s _ => ?_
  extract_lets next
  have rest : ∀ q s, Gathers (ls ++ new) (fun ls e => ChainSpread ls (pending, e)) (next q) s := by
    refine fun q s => gathers_expect rfl fun _ s => ?_
    refine (gathers_isTarget h s).bind fun target more s htarget => gathers_node ?_
    exact ((hc.before new).before _).test q htarget.1
  have found (q : Quantifier) (s : Cursor) :
      Gathers (ls ++ new) (fun ls e => ChainSpread ls (pending, e)) (pure q >>= next) s := rest q s
  split
  · exact found _ s
  · exact found _ s
  · exact found _ s
  · exact gathers_fail_bind _ _

theorem gathers_chainStep (ls : List Location) (c : Pending × Expr) (s : Cursor)
    (hc : ChainSpread ls c) :
    Gathers ls (fun ls r => ChainSpread ls r.value) (chainStep g c) s := by
  refine gathers_check ?_
  split
  · refine (gathers_fold isPrecedence hc s).and_then fun r ls s hr => ?_
    refine gathers_advance fun new s _ => ?_
    exact (gathers_isTest h (hr.1.before new) s).and_then fun e ls s he => gathers_pure he
  · refine gathers_get ?_
    split
    · exact gathers_pure hc
    · next op width _ =>
        refine (gathers_fold op.precedence hc s).and_then fun r ls s hr => ?_
        refine (inside_advances width).gathers.bind fun _ new s _ => ?_
        refine (h.operand s).bind fun e more s he => gathers_pure ?_
        exact (hr.1.before new).push he

theorem gathers_chain (s : Cursor) : Gathers [] Expr.Spread (chain g) s := by
  refine (h.operand s).and_then fun first ls s hfirst => ?_
  refine (gathers_iterate (gathers_chainStep h) (.start hfirst)).and_then fun c ls s hc => ?_
  refine (gathers_fold 0 hc s).and_then fun r ls s hr => gathers_pure ?_
  obtain ⟨spread, done⟩ := hr
  obtain ⟨pending, e⟩ := r
  cases done rfl
  exact spread.spread

theorem gathers_conditional (s : Cursor) : Gathers [] Expr.Spread (conditional g) s := by
  refine (gathers_chain h s).and_then fun test ls s htest => ?_
  refine gathers_accept rfl (fun l s => ?_) (gathers_pure htest)
  refine (h.expression s).bind fun yes new s hyes => gathers_expect rfl fun colon s => ?_
  refine (h.expression s).bind fun no more s hno => gathers_node ?_
  have start := (((htest.before [l]).before new).before [colon.location]).before more
  have parts := (((htest.1.before [l]).append hyes.1).before [colon.location]).append hno.1
  exact ⟨parts.expression, start.2⟩

/-! ### Operands -/

omit h in
theorem gathers_update {operator : Token} {before : Bool} {operand : Expr} {place : Location}
    (hoperand : operand.Spread ls) (start : place ∈ ls) :
    Gathers ls Expr.Spread (update g operator before operand place) s := by
  unfold update
  split
  · exact gathers_node ⟨(hoperand.1.write hoperand.2).expression, start⟩
  · exact gathers_fail _ _

theorem gathers_expressions : Gathers [] (fun ls es => Scattered ls [] (exprOutlines es))
    (commaSeparated g.expression) s := by
  refine gathers_commaSeparated h.expression (fun _ _ he => he.1) fun ls es l new e hes he => ?_
  rw [exprOutlines_append]
  exact (hes.before [l]).append he.1

theorem gathers_arguments (s : Cursor) :
    Gathers [] (fun ls es => Scattered ls [] (exprOutlines es)) (arguments g) s := by
  refine gathers_expect rfl fun opened s => gathers_check ?_
  extract_lets next
  have close : ∀ args new s, Scattered new [] (exprOutlines args) →
      Gathers ([] ++ [opened.location] ++ new) (fun ls es => Scattered ls [] (exprOutlines es))
        (next args) s := fun args new s hargs =>
    gathers_expect rfl fun _ s => gathers_pure ((hargs.after _).before _)
  split
  · exact (gathers_pure (scattered_nil _)).bind close
  · exact (gathers_expressions h).bind close

theorem gathers_suffixStep (ls : List Location) (e : Expr) (s : Cursor) (he : e.Spread ls) :
    Gathers ls (fun ls r => Expr.Spread ls r.value) (suffixStep g e) s := by
  have made {form : ExprForm} {ls : List Location} {s : Cursor}
      (hform : Expr.Spread ls (Expr.of form e.location)) :
      Gathers ls (fun ls r => Expr.Spread ls r.value)
        (do return ForInStep.yield (← g.node form e.location)) s :=
    Gathers.and_then (gathers_node hform) fun _ _ _ h => gathers_pure h
  have call {generics : List TypeExpr} {new : List Location} {s : Cursor}
      (hgenerics : Scattered new [] (typeOutlines generics)) :
      Gathers (ls ++ new) (fun ls r => Expr.Spread ls r.value) (do
        let args ← arguments g
        return ForInStep.yield (← g.node (.call e generics args) e.location)) s := by
    refine (gathers_arguments h s).bind fun args more s hargs => made ?_
    rw [List.append_assoc]
    exact ⟨he.1.call he.2 (hgenerics.append hargs), (he.before _).2⟩
  have updated : Gathers ls (fun ls r => Expr.Spread ls r.value) (do
      let operator ← advance
      return ForInStep.yield (← update g operator false e e.location)) s := by
    refine gathers_advance fun new s _ => ?_
    exact (gathers_update (he.before new) (he.before new).2).and_then fun _ _ _ h => gathers_pure h
  refine gathers_get ?_
  dsimp only
  split
  · refine gathers_advance fun new s _ => gathers_name.bind fun i more s _ => made ?_
    exact ⟨((he.before new).before more).1.expression, ((he.before new).before more).2⟩
  · refine gathers_advance fun new s _ => (h.expression s).bind fun index more s hindex => ?_
    refine gathers_expect rfl fun _ s => made ?_
    exact ⟨(((he.before new).1.append hindex.1).before _).expression,
      (((he.before new).before more).before _).2⟩
  · split
    · exact (gathers_genericArguments h.typeExpr s).bind fun _ _ _ hgenerics => call hgenerics
    · exact gathers_pure he
  · have none_ : Scattered [] [] (typeOutlines []) := scattered_nil []
    simpa only [List.append_nil] using call (s := s) none_
  · exact updated
  · exact updated
  · exact gathers_pure he

theorem gathers_suffixed (s : Cursor) : Gathers [] Expr.Spread (suffixed g) s :=
  (h.primary s).and_then fun _ _ _ he => gathers_iterate (gathers_suffixStep h) he

theorem gathers_operandForm (s : Cursor) : Gathers [] Expr.Spread (operandForm g) s := by
  have operator (form : Expr → ExprForm) (token : s.peek.kind ≠ .eof)
      (own : ∀ e, (form e).slots s.peek.location = [])
      (parts : ∀ e, (form e).outlines = [e.outline]) :
      Gathers [] Expr.Spread (do
        let _ ← advance
        g.node (form (← g.operand)) s.peek.location) s := by
    refine gathers_advance fun new s' passed => ?_
    rw [passed token]
    refine (h.operand s').bind fun e new s' he => gathers_node ?_
    refine ⟨Scattered.expression ?_, List.mem_append_left _ (List.mem_singleton.mpr rfl)⟩
    rw [own, parts]
    exact he.1.after _
  have updated (token : s.peek.kind ≠ .eof) : Gathers [] Expr.Spread (do
      let _ ← advance
      update g s.peek true (← g.operand) s.peek.location) s := by
    refine gathers_advance fun new s' passed => ?_
    rw [passed token]
    refine (h.operand s').bind fun e new s' he => gathers_update ?_ ?_
    · exact ⟨he.1.after _, List.mem_append_right _ he.2⟩
    · exact List.mem_append_left _ (List.mem_singleton.mpr rfl)
  refine gathers_peek ?_
  dsimp only
  split
  · next kind => exact operator _ (by rw [kind]; nofun) (fun _ => rfl) fun _ => rfl
  · next kind => exact operator _ (by rw [kind]; nofun) (fun _ => rfl) fun _ => rfl
  · next kind => exact operator _ (by rw [kind]; nofun) (fun _ => rfl) fun _ => rfl
  · next kind => exact updated (by rw [kind]; nofun)
  · next kind => exact updated (by rw [kind]; nofun)
  · next kind => exact operator _ (by rw [kind]; nofun) (fun _ => rfl) fun _ => rfl
  · exact gathers_suffixed h s

/-- A form that is read behind the first token of its expression, where the expression stands. -/
def Follows (place : Location) (ls : List Location) (form : ExprForm) : Prop :=
  Scattered (place :: ls) (form.slots place) form.outlines

theorem gathers_objectProperties (s : Cursor) :
    Gathers [] (fun ls ps => Scattered ls [] (propertyOutlines ps)) (objectProperties g) s := by
  refine Gathers.and_then (P := fun ls ps => Scattered ls [] (propertyOutlines ps))
    (gathers_iterate (fun ls ps s hps => ?_) (scattered_nil _))
    fun ps ls s hps => gathers_expect rfl fun _ s => gathers_pure (hps.before _)
  have one (t : Token) (new : List Location) (s : Cursor) : Gathers (ls ++ new)
      (fun ls r => Scattered ls [] (propertyOutlines r.value)) (do
        let _ ← expect .colon "':' after property name"
        let value ← g.expression
        let ps := ps ++ [(⟨⟨t.lexeme, t.location⟩, value, t.location⟩ : Property)]
        if ← accept .comma then return ForInStep.yield ps else return .done ps) s := by
    refine gathers_expect rfl fun colon s => (h.expression s).bind fun value more s hvalue => ?_
    have all : Scattered (ls ++ new ++ [colon.location] ++ more) []
        (propertyOutlines (ps ++ [⟨⟨t.lexeme, t.location⟩, value, t.location⟩])) := by
      rw [propertyOutlines_append]
      exact ((hps.before new).before _).append hvalue.1
    exact gathers_accept rfl (fun l s => gathers_pure (all.before [l])) (gathers_pure all)
  refine gathers_check ?_
  split
  · exact gathers_pure hps
  · refine gathers_advance fun new s' _ => ?_
    split
    · exact one s.peek new s'
    · exact one s.peek new s'
    · exact gathers_fail _ _

theorem gathers_newForm (place : Location) (s : Cursor) :
    Gathers [] (Follows place) (newForm g) s := by
  refine gathers_name.bind fun className new s hname => ?_
  refine (gathers_optionalGenerics h.typeExpr s).bind fun generics more s hgenerics => ?_
  refine (gathers_arguments h s).bind fun args last s hargs => gathers_pure ?_
  have call : Scattered [place] [(.argumentCountMismatch, place)] [] :=
    scattered_at (List.nodup_singleton _) (List.forall_mem_singleton.mpr rfl)
  have class_ : Scattered new [(.reference, className.location)] [] := by
    rw [hname]
    exact scattered_at (List.nodup_singleton _) (List.forall_mem_singleton.mpr rfl)
  have all := ((call.append class_).append hgenerics).append hargs
  refine all.mono fun x => Nat.le_of_eq ?_
  exact (List.Perm.swap _ _ []).count_eq x

theorem gathers_armStep (ls : List Location) (arms : List MatchArm) (s : Cursor)
    (harms : Scattered ls [] (armOutlines arms)) :
    Gathers ls (fun ls r => Scattered ls [] (armOutlines r.value)) (armStep g arms) s := by
  refine gathers_check (gathers_atEnd ?_)
  split
  · exact gathers_pure harms
  · refine (gathers_pattern h true s).bind fun p new s hp => ?_
    extract_lets next
    have rest : ∀ r s, Gathers (ls ++ new)
        (fun ls r => Scattered ls [] (armOutlines r.value)) (next r) s := by
      refine fun _ s => gathers_expect rfl fun arrow s => ?_
      refine (h.expression s).bind fun body more s hbody => ?_
      have all : Scattered (ls ++ new ++ [arrow.location] ++ more) []
          (armOutlines (arms ++ [⟨p, body, p.location⟩])) := by
        have parts := ((harms.append hp).before [arrow.location]).append hbody.1
        rw [armOutlines_append]
        rwa [List.append_assoc (armOutlines arms)] at parts
      refine gathers_accept rfl (fun l s => gathers_pure (all.before [l])) ?_
      exact gathers_accept rfl (fun l s => gathers_pure (all.before [l])) (gathers_pure all)
    split
    · exact gathers_fail_bind _ _
    · exact rest () s

theorem gathers_matchForm (place : Location) (s : Cursor) :
    Gathers [] (Follows place) (matchForm g) s := by
  refine (h.expression s).bind fun value new s hvalue => gathers_expect rfl fun opener s => ?_
  refine Gathers.bind (P := fun ls arms => Scattered ls [] (armOutlines arms))
    (gathers_iterate (gathers_armStep h) (scattered_nil _)) fun arms more s harms => ?_
  refine gathers_expect rfl fun closer s => gathers_pure ?_
  exact (((hvalue.1.before [opener.location]).append harms).before [closer.location]).after [place]

theorem gathers_arrayForm (place : Location) (s : Cursor) :
    Gathers [] (Follows place) (arrayForm g) s := by
  refine gathers_check ?_
  extract_lets next
  have close : ∀ items new s, Scattered new [] (exprOutlines items) →
      Gathers ([] ++ new) (Follows place) (next items) s := fun items new s hitems =>
    gathers_expect rfl fun closer s =>
      gathers_pure ((hitems.before [closer.location]).after [place])
  split
  · exact (gathers_pure (scattered_nil _)).bind close
  · exact (gathers_expressions h).bind close

theorem gathers_primaryForm (s : Cursor) : Gathers [] Expr.Spread (primaryForm g) s := by
  refine gathers_advance fun new s' passed => ?_
  have here : s.peek.location ∈ [s.peek.location] := List.mem_singleton.mpr rfl
  have one (form : ExprForm) (token : s.peek.kind ≠ .eof)
      (own : (form.slots s.peek.location).Nodup)
      (places : ∀ x ∈ form.slots s.peek.location, x.2 = s.peek.location)
      (parts : form.outlines = []) :
      Gathers ([] ++ new) Expr.Spread (g.node form s.peek.location) s' := by
    rw [passed token]
    refine gathers_node ⟨Scattered.expression ?_, here⟩
    rw [parts]
    exact scattered_at own places
  have composed {form : Parser ExprForm} (token : s.peek.kind ≠ .eof)
      (hform : Gathers [] (Follows s.peek.location) form s') :
      Gathers ([] ++ new) Expr.Spread (do g.node (← form) s.peek.location) s' := by
    rw [passed token]
    refine hform.bind fun form more s hparts => gathers_node ?_
    exact ⟨Scattered.expression hparts, List.mem_append_left more here⟩
  dsimp only
  split
  case h_1 kind =>
    refine (inside_numberValue s.peek (s := s')).gathers.bind fun v more s' _ => ?_
    rw [passed (by rw [kind]; nofun)]
    refine gathers_node ⟨Scattered.expression (scattered_nil _), List.mem_append_left more here⟩
  case h_9 kind => exact composed (by rw [kind]; nofun) (gathers_newForm h _ s')
  case h_10 kind => exact composed (by rw [kind]; nofun) (gathers_matchForm h _ s')
  case h_11 kind => exact composed (by rw [kind]; nofun) (gathers_arrayForm h _ s')
  case h_12 kind =>
    rw [passed (by rw [kind]; nofun)]
    refine (gathers_objectProperties h s').bind fun ps more s' hps => gathers_node ?_
    exact ⟨(hps.after [s.peek.location]).expression, List.mem_append_left more here⟩
  case h_13 kind =>
    refine (h.expression s').bind fun inner more s' hinner => ?_
    refine gathers_expect rfl fun _ s => gathers_pure ?_
    exact ⟨(hinner.1.after _).before _, List.mem_append_left _ (List.mem_append_right _ hinner.2)⟩
  case h_14 => exact gathers_fail _ _
  all_goals
    next kind =>
      exact one _ (by rw [kind]; nofun) (by simp [ExprForm.slots]) (by simp [ExprForm.slots]) rfl

end Grammar
end ScriptFront
