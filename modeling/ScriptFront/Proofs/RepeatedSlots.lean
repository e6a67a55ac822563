import ScriptFront.Proofs.ReportSlots

/-!
Slots that a tree has more than once. Two constructs have a slot in common only if they stand at one
place. The calls of a chain all stand where the chain starts; and the value of a compound assignment
starts with its target, so that the tree has the target twice. These slots are the repeats of a
tree. That there are no others is a matter of how trees are read, which is left open.
-/

namespace ScriptFront

/-- The slot of a call, if what is called has it as well. -/
def ExprForm.repeats (place : Location) : ExprForm → List Slot
  | .call callee _ _ =>
    if (.argumentCountMismatch, place) ∈ callee.outline.slots then [(.argumentCountMismatch, place)]
    else []
  | _ => []

/-- The slots of a target that the assigned value starts with. -/
def StatementForm.repeats : StatementForm → List Slot
  | .assignment target value =>
    match value.form with
    | .binary _ left _ => if left.location = target.location then left.outline.slots else []
    | _ => []
  | _ => []

/-- The slots that a tree has once more because of its root. -/
def Node.repeats : Node → List Slot
  | .statement s => s.form.repeats
  | .expression e => e.form.repeats e.location
  | _ => []

mutual

/-- The slots that a tree has more than once, each as often as it is repeated. -/
def Outline.repeats : Outline → List Slot
  | .node root children => root.repeats ++ repeatsOf children

def repeatsOf : List Outline → List Slot
  | [] => []
  | o :: os => o.repeats ++ repeatsOf os

end

theorem slotsOf_eq (os : List Outline) : slotsOf os = os.flatMap Outline.slots := by
  induction os with
  | nil => rfl
  | cons o os ih => rw [slotsOf, ih, List.flatMap_cons]

theorem repeatsOf_eq (os : List Outline) : repeatsOf os = os.flatMap Outline.repeats := by
  induction os with
  | nil => rfl
  | cons o os ih => rw [repeatsOf, ih, List.flatMap_cons]

theorem repeatsOf_append (os os' : List Outline) :
    repeatsOf (os ++ os') = repeatsOf os ++ repeatsOf os' := by
  rw [repeatsOf_eq, repeatsOf_eq, repeatsOf_eq, List.flatMap_append]

/-! ### Kinds of slots -/

mutual

theorem Outline.All.slots {P : Node → Prop} {Q : Slot → Prop} (h : ∀ n, P n → ∀ x ∈ n.slots, Q x) :
    ∀ {o : Outline}, o.All P → ∀ x ∈ o.slots, Q x
  | .node root _, all => List.forall_mem_append.mpr ⟨h root all.1, all.2.slots h⟩

theorem AllOf.slots {P : Node → Prop} {Q : Slot → Prop} (h : ∀ n, P n → ∀ x ∈ n.slots, Q x) :
    ∀ {os : List Outline}, AllOf P os → ∀ x ∈ slotsOf os, Q x
  | [], _ => nofun
  | _ :: _, all => List.forall_mem_append.mpr ⟨all.1.slots h, all.2.slots h⟩

end

/-- A property of all expressions, patterns and types. -/
structure OfParts (P : Node → Prop) : Prop where
  type : ∀ t, P (.type t)
  expression : ∀ e, P (.expression e)
  pattern : ∀ p, P (.pattern p)

section Parts

variable {P : Node → Prop}

mutual

/-- A written type is made of types. -/
theorem TypeExpr.all_parts (h : ∀ t, P (.type t)) : ∀ t : TypeExpr, t.outline.All P
  | ⟨form, _⟩ => ⟨h _, form.all_parts h⟩

theorem TypeForm.all_parts (h : ∀ t, P (.type t)) : ∀ form : TypeForm, AllOf P form.outlines
  | .reference _ generics => all_types h generics
  | .array t => ⟨t.all_parts h, trivial⟩
  | .union l r | .intersection l r => ⟨l.all_parts h, r.all_parts h, trivial⟩
  | .infer | .void | .null | .undefined => trivial

theorem all_types (h : ∀ t, P (.type t)) : ∀ ts : List TypeExpr, AllOf P (typeOutlines ts)
  | [] => trivial
  | t :: ts => ⟨t.all_parts h, all_types h ts⟩

end

mutual

/-- An expression is made of expressions, patterns and types. -/
theorem Expr.all_parts (h : OfParts P) : ∀ e : Expr, e.outline.All P
  | ⟨form, _, _⟩ => ⟨h.expression _, form.all_parts h⟩

theorem ExprForm.all_parts (h : OfParts P) : ∀ form : ExprForm, AllOf P form.outlines
  | .number .. | .string _ | .boolean _ | .null | .undefined | .nan | .identifier _ | .this =>
      trivial
  | .binary _ l r | .logical _ l r | .is l _ r => ⟨l.all_parts h, r.all_parts h, trivial⟩
  | .conditional t y n => ⟨t.all_parts h, y.all_parts h, n.all_parts h, trivial⟩
  | .unary _ e | .update _ _ e | .await e => ⟨e.all_parts h, trivial⟩
  | .call callee generics args =>
      ⟨callee.all_parts h, allOf_append.mpr ⟨all_types h.type generics, all_exprs h args⟩⟩
  | .member object _ false => ⟨object.all_parts h, trivial⟩
  | .member object property true => ⟨object.all_parts h, property.all_parts h, trivial⟩
  | .array items => all_exprs h items
  | .object properties => all_properties h properties
  | .new _ generics args => allOf_append.mpr ⟨all_types h.type generics, all_exprs h args⟩
  | .match_ value arms => ⟨value.all_parts h, all_arms h arms⟩

theorem all_exprs (h : OfParts P) : ∀ es : List Expr, AllOf P (exprOutlines es)
  | [] => trivial
  | e :: es => ⟨e.all_parts h, all_exprs h es⟩

theorem all_properties (h : OfParts P) : ∀ ps : List Property, AllOf P (propertyOutlines ps)
  | [] => trivial
  | ⟨_, value, _⟩ :: ps => ⟨value.all_parts h, all_properties h ps⟩

theorem all_arms (h : OfParts P) : ∀ arms : List MatchArm, AllOf P (armOutlines arms)
  | [] => trivial
  | ⟨pattern, body, _⟩ :: arms => ⟨pattern.all_parts h, body.all_parts h, all_arms h arms⟩

theorem Pattern.all_parts (h : OfParts P) : ∀ p : Pattern, p.outline.All P
  | ⟨form, _⟩ => ⟨h.pattern _, form.all_parts h⟩

theorem PatternForm.all_parts (h : OfParts P) : ∀ form : PatternForm, AllOf P form.outlines
  | .guarded pattern guard => ⟨pattern.all_parts h, guard.all_parts h, trivial⟩
  | .literal _ | .range .. | .identifier _ | .binding _ | .member _ | .wildcard => trivial

end

end Parts

/-- What is only ever said of a statement, or of a value that a statement uses. -/
def DiagnosticKind.isOfStatement : DiagnosticKind → Bool
  | type | unusedExpression | unreachableCode => true
  | _ => false

theorem TypeExpr.kind_of_slot (t : TypeExpr) : ∀ x ∈ t.outline.slots, x.1 = .unknownType := by
  refine (t.all_parts (P := fun n => ∀ x ∈ n.slots, x.1 = .unknownType) fun t => ?_).slots
    fun _ => id
  obtain ⟨form, place⟩ := t
  cases form <;> simp [Node.slots, TypeForm.slots]

theorem Expr.slot_not_of_statement (e : Expr) :
    ∀ x ∈ e.outline.slots, x.1.isOfStatement = false := by
  refine (e.all_parts (P := fun n => ∀ x ∈ n.slots, x.1.isOfStatement = false)
    ⟨fun t => ?type, fun e => ?expression, fun p => ?pattern⟩).slots fun _ => id
  case type =>
    obtain ⟨form, place⟩ := t
    cases form <;> simp [Node.slots, TypeForm.slots, DiagnosticKind.isOfStatement]
  case expression =>
    obtain ⟨form, place, height⟩ := e
    cases form with
    | update op before operand =>
        intro x mem
        simp only [Node.slots, ExprForm.slots, writeSlots] at mem
        split at mem
        · cases List.mem_singleton.mp mem
          rfl
        · exact absurd mem List.not_mem_nil
    | _ => simp [Node.slots, ExprForm.slots, DiagnosticKind.isOfStatement]
  case pattern =>
    obtain ⟨form, place⟩ := p
    cases form <;> simp [Node.slots, PatternForm.slots, Ident.slots, Ident.taken,
      DiagnosticKind.isOfStatement]

/-- What is only said of statements is said of no expression alone. -/
theorem Expr.not_mem_slots (e : Expr) {kind : DiagnosticKind} (place : Location)
    (statement : kind.isOfStatement = true) : (kind, place) ∉ slotsOf [e.outline] := by
  intro mem
  rw [slotsOf, slotsOf, List.append_nil] at mem
  have other : kind.isOfStatement = false := e.slot_not_of_statement _ mem
  exact Bool.noConfusion (statement.symm.trans other)

theorem TypeExpr.not_mem_slots (t : TypeExpr) {kind : DiagnosticKind} (place : Location)
    (other : kind ≠ .unknownType) : (kind, place) ∉ slotsOf [t.outline] := by
  intro mem
  rw [slotsOf, slotsOf, List.append_nil] at mem
  exact other (t.kind_of_slot _ mem)

theorem Expr.kind_of_writeSlot (target : Expr) :
    ∀ x ∈ target.writeSlots, x.1 = .invalidAssignment := by
  unfold writeSlots
  split <;> simp

/-- What can be refused as a target has nothing in it that could be. -/
theorem Expr.write_not_mem_of_guarded {target : Expr} (guarded : target.isGuarded = true)
    (place : Location) : (.invalidAssignment, place) ∉ target.outline.slots := by
  obtain ⟨form, here, height⟩ := target
  have direct {object : Expr} (h : Check.isDirect object = true) :
      (.invalidAssignment, place) ∉ object.outline.slots := by
    obtain ⟨form, there, height⟩ := object
    cases form <;>
      simp [Check.isDirect, outline, Outline.slots, Node.slots, ExprForm.slots, slotsOf,
        ExprForm.outlines] at h ⊢
  cases form with
  | identifier name =>
      simp [outline, Outline.slots, Node.slots, ExprForm.slots, slotsOf, ExprForm.outlines]
  | member object property computed =>
      cases computed with
      | true => exact absurd guarded Bool.false_ne_true
      | false =>
          simpa [outline, Outline.slots, Node.slots, ExprForm.slots, slotsOf, ExprForm.outlines]
            using direct guarded
  | _ => exact absurd guarded Bool.false_ne_true

/-! ### Slots at the places of tokens -/

/--
Some slots and trees keep to some places. Where no two of the places are the same, no slot is there
twice but for the repeats of the trees.
-/
structure Scattered (ls : List Location) (own : List Slot) (os : List Outline) : Prop where
  placed : ∀ x ∈ own ++ slotsOf os, x.2 ∈ ls
  single : ls.Nodup → ∀ x, (own ++ slotsOf os).count x ≤ 1 + (repeatsOf os).count x

theorem scattered_nil (ls : List Location) : Scattered ls [] [] :=
  ⟨nofun, fun _ _ => Nat.zero_le _⟩

/-- Different slots at one place. -/
theorem scattered_at {place : Location} {own : List Slot} (distinct : own.Nodup)
    (here : ∀ x ∈ own, x.2 = place) : Scattered [place] own [] := by
  rw [← List.append_nil own] at distinct here
  refine ⟨fun x mem => List.mem_singleton.mpr (here x mem), fun _ x => ?_⟩
  exact Nat.le_trans (List.nodup_iff_count_le_one.mp distinct x) (Nat.le_add_right ..)

theorem scattered_taken (i : Ident) : Scattered [i.location] [i.taken] [] :=
  scattered_at (List.nodup_singleton _) (List.forall_mem_singleton.mpr rfl)

theorem scattered_ident (unread : DiagnosticKind) (other : unread ≠ .redeclaration) (i : Ident) :
    Scattered [i.location] (i.slots unread) [] := by
  refine scattered_at ?_ (by simp [Ident.slots, Ident.taken])
  simpa [Ident.slots, Ident.taken] using other.symm

namespace Scattered

variable {ls ls' : List Location} {own own' : List Slot} {os os' : List Outline} {x : Slot}

/-- Places that are apart keep slots apart. -/
theorem append (h : Scattered ls own os) (h' : Scattered ls' own' os') :
    Scattered (ls ++ ls') (own ++ own') (os ++ os') := by
  have count (x : Slot) : (own ++ own' ++ slotsOf (os ++ os')).count x
      = (own ++ slotsOf os).count x + (own' ++ slotsOf os').count x := by
    simp only [slotsOf_append, List.count_append]
    omega
  refine ⟨fun x mem => ?_, fun distinct x => ?_⟩
  · have some_ := List.count_pos_iff.mpr mem
    rw [count] at some_
    by_cases here : x ∈ own ++ slotsOf os
    · exact List.mem_append_left _ (h.placed x here)
    · rw [List.count_eq_zero.mpr here, Nat.zero_add] at some_
      exact List.mem_append_right _ (h'.placed x (List.count_pos_iff.mp some_))
  · obtain ⟨first, second, apart⟩ := List.nodup_append.mp distinct
    have left := h.single first x
    have right := h'.single second x
    have repeats : (repeatsOf (os ++ os')).count x
        = (repeatsOf os).count x + (repeatsOf os').count x := by
      rw [repeatsOf_append, List.count_append]
    rw [count, repeats]
    by_cases here : x ∈ own ++ slotsOf os
    · have absent : (own' ++ slotsOf os').count x = 0 := List.count_eq_zero.mpr fun there =>
        apart _ (h.placed x here) _ (h'.placed x there) rfl
      omega
    · rw [List.count_eq_zero.mpr here]
      omega

theorem part (h : Scattered ls own os) (h' : Scattered ls' [] os') :
    Scattered (ls ++ ls') own (os ++ os') := by
  have all := h.append h'
  rwa [List.append_nil] at all

/-- Further places are left empty. -/
theorem before (h : Scattered ls own os) (more : List Location) :
    Scattered (ls ++ more) own os := by
  have all := h.append (scattered_nil more)
  rwa [List.append_nil, List.append_nil] at all

theorem after (more : List Location) (h : Scattered ls own os) : Scattered (more ++ ls) own os :=
  (scattered_nil more).append h

/-- Slots may be left out, or come in another order. -/
theorem mono (h : Scattered ls own os) (le : ∀ x, own'.count x ≤ own.count x) :
    Scattered ls own' os := by
  have less (x : Slot) : (own' ++ slotsOf os).count x ≤ (own ++ slotsOf os).count x := by
    rw [List.count_append, List.count_append]
    exact Nat.add_le_add_right (le x) _
  refine ⟨fun x mem => h.placed x ?_, fun distinct x => Nat.le_trans (less x) (h.single distinct x)⟩
  exact List.count_pos_iff.mp (Nat.lt_of_lt_of_le (List.count_pos_iff.mpr mem) (less x))

theorem same (h : Scattered ls own os) (slots : slotsOf os' = slotsOf os)
    (repeats : repeatsOf os' = repeatsOf os) : Scattered ls own os' := by
  refine ⟨?_, ?_⟩
  · rw [slots]
    exact h.placed
  · rw [slots, repeats]
    exact h.single

/-- Trees may come in another order. -/
theorem reorder (h : Scattered ls own os) (perm : os.Perm os') : Scattered ls own os' := by
  have slots (x : Slot) : (own ++ slotsOf os').count x = (own ++ slotsOf os).count x := by
    rw [List.count_append, List.count_append, slotsOf_eq, slotsOf_eq,
      (perm.flatMap_right Outline.slots).count_eq]
  have repeats (x : Slot) : (repeatsOf os').count x = (repeatsOf os).count x := by
    rw [repeatsOf_eq, repeatsOf_eq, (perm.flatMap_right Outline.repeats).count_eq]
  refine ⟨fun x mem => h.placed x ?_, fun distinct x => ?_⟩
  · rw [← List.count_pos_iff, slots] at mem
    exact List.count_pos_iff.mp mem
  · rw [slots, repeats]
    exact h.single distinct x

theorem cons (h : Scattered ls own os) (here : x.2 ∈ ls) (new : x ∉ own ++ slotsOf os) :
    Scattered ls (x :: own) os := by
  refine ⟨List.forall_mem_cons.mpr ⟨here, h.placed⟩, fun distinct y => ?_⟩
  have le := h.single distinct y
  rw [List.cons_append, List.count_cons]
  split
  · next same =>
      rw [← beq_iff_eq.mp same, List.count_eq_zero.mpr new]
      omega
  · exact le

/-- The slots of a root are those of its tree. -/
theorem node {root : Node} (h : Scattered ls root.slots os) : Scattered ls [] [.node root os] := by
  have slots : [] ++ slotsOf [.node root os] = root.slots ++ slotsOf os := List.append_nil _
  refine ⟨fun x mem => h.placed x (slots ▸ mem), fun distinct x => ?_⟩
  have le := h.single distinct x
  have repeats : (repeatsOf [.node root os]).count x
      = root.repeats.count x + (repeatsOf os).count x := by
    rw [repeatsOf, repeatsOf, List.append_nil, Outline.repeats, List.count_append]
  rw [slots, repeats]
  omega

end Scattered

/-- Some slots and trees keep to some places but the first. -/
def Trailing (ls : List Location) (own : List Slot) (os : List Outline) : Prop :=
  ∃ l more, ls = l :: more ∧ Scattered more own os

namespace Trailing

variable {ls ls' : List Location} {own own' : List Slot} {os os' : List Outline}

theorem start (l : Location) : Trailing [l] [] [] := ⟨l, [], rfl, scattered_nil []⟩

theorem scattered (h : Trailing ls own os) : Scattered ls own os := by
  obtain ⟨l, more, rfl, parts⟩ := h
  exact parts.after [l]

theorem append (h : Trailing ls own os) (h' : Scattered ls' own' os') :
    Trailing (ls ++ ls') (own ++ own') (os ++ os') := by
  obtain ⟨l, more, rfl, parts⟩ := h
  exact ⟨l, more ++ ls', rfl, parts.append h'⟩

theorem part (h : Trailing ls own os) (h' : Scattered ls' [] os') :
    Trailing (ls ++ ls') own (os ++ os') := by
  obtain ⟨l, more, rfl, parts⟩ := h
  exact ⟨l, more ++ ls', rfl, parts.part h'⟩

theorem before (h : Trailing ls own os) (last : List Location) : Trailing (ls ++ last) own os := by
  obtain ⟨l, more, rfl, parts⟩ := h
  exact ⟨l, more ++ last, rfl, parts.before last⟩

theorem after (h : Trailing ls own os) (first : List Location) :
    Trailing (first ++ ls) own os := by
  cases first with
  | nil => exact h
  | cons l first => exact ⟨l, first ++ ls, rfl, h.scattered.after first⟩

end Trailing

namespace Scattered

variable {ls ls' : List Location}

/-! ### Expressions -/

theorem expression {form : ExprForm} {place : Location}
    (h : Scattered ls (form.slots place) form.outlines) :
    Scattered ls [] [(Expr.of form place).outline] :=
  node h

theorem write {target : Expr} (h : Scattered ls [] [target.outline]) (here : target.location ∈ ls) :
    Scattered ls target.writeSlots [target.outline] := by
  unfold Expr.writeSlots
  split
  · next guarded =>
      refine h.cons here ?_
      rw [List.nil_append, slotsOf, slotsOf, List.append_nil]
      exact Expr.write_not_mem_of_guarded guarded _
  · exact h

/-- A call stands where what is called starts, and repeats what is said of a call there. -/
theorem call {callee : Expr} {generics : List TypeExpr} {args : List Expr}
    (h : Scattered ls [] [callee.outline]) (here : callee.location ∈ ls)
    (rest : Scattered ls' [] (typeOutlines generics ++ exprOutlines args)) :
    Scattered (ls ++ ls') []
      [(Expr.of (.call callee generics args) callee.location).outline] := by
  have slots : slotsOf [callee.outline] = callee.outline.slots := List.append_nil _
  by_cases known : (.argumentCountMismatch, callee.location) ∈ callee.outline.slots
  · have all := h.append rest
    have repeats : (ExprForm.call callee generics args).repeats callee.location
        = [(.argumentCountMismatch, callee.location)] := if_pos known
    have outline : (Expr.of (.call callee generics args) callee.location).outline
        = .node (.expression (Expr.of (.call callee generics args) callee.location))
          ([callee.outline] ++ (typeOutlines generics ++ exprOutlines args)) := rfl
    rw [outline]
    refine ⟨?_, fun distinct x => ?_⟩
    · rw [List.nil_append, slotsOf, slotsOf, List.append_nil]
      exact List.forall_mem_append.mpr
        ⟨List.forall_mem_singleton.mpr (List.mem_append_left _ here), all.placed⟩
    · have le := all.single distinct x
      rw [List.nil_append, List.nil_append] at le
      have own : (Node.expression (Expr.of (.call callee generics args) callee.location)).repeats
          = (Node.expression (Expr.of (.call callee generics args) callee.location)).slots :=
        repeats
      simp only [List.nil_append, slotsOf, repeatsOf, Outline.slots, Outline.repeats,
        List.append_nil, own, List.count_append]
      omega
  · have own : Scattered ls [(.argumentCountMismatch, callee.location)] [callee.outline] :=
      h.cons here (by rwa [List.nil_append, slots])
    exact expression (own.append rest)

/-! ### Statements -/

/-- What is said of a statement as such is said of its first token, in front of its parts. -/
theorem statement_behind {form : StatementForm} (place : Location)
    (h : Scattered ls (form.aheadSlots ++ form.slots) form.outlines) :
    Scattered (place :: ls) [] [Statement.outline ⟨form, place⟩] := by
  have first : Scattered [place] [(.unreachableCode, place)] [] :=
    scattered_at (List.nodup_singleton _) (List.forall_mem_singleton.mpr rfl)
  exact node (first.append h)

/-- Where a statement starts with one of its parts, no part is a statement. -/
theorem statement_around {form : StatementForm} {place : Location}
    (h : Scattered ls form.slots form.outlines) (ahead : form.aheadSlots = [])
    (here : place ∈ ls)
    (parts : (.unreachableCode, place) ∉ form.slots ++ slotsOf form.outlines) :
    Scattered ls [] [Statement.outline ⟨form, place⟩] := by
  refine node ?_
  have slots : (Node.statement ⟨form, place⟩).slots = (.unreachableCode, place) :: form.slots := by
    rw [Node.slots, ahead, List.nil_append]
  rw [slots]
  exact h.cons here parts

/-- A compound assignment has its target twice, and its value where its operator stands. -/
theorem compound {target right : Expr} {place : Location} (operator : Location) (op : BinaryOp)
    (h : Scattered ls [] [target.outline]) (here : target.location ∈ ls) (start : place ∈ ls)
    (rest : Scattered ls' [] [right.outline]) :
    Scattered (ls ++ ([operator] ++ ls')) [] [Statement.outline
      ⟨.assignment target (Expr.of (.binary op target right) operator), place⟩] := by
  let value : Expr := .of (.binary op target right) operator
  have slots : slotsOf [Statement.outline ⟨.assignment target value, place⟩]
      = (.unreachableCode, place) :: (target.writeSlots ++ [(.type, operator)])
        ++ (target.outline.slots ++ (target.outline.slots ++ right.outline.slots)) := by
    simp [slotsOf, value, Outline.slots, Statement.outline, Expr.of, Expr.outline, Node.slots,
      ExprForm.slots, ExprForm.outlines, StatementForm.outlines, StatementForm.slots,
      StatementForm.aheadSlots, Expr.valueSlot]
  have repeats : repeatsOf [Statement.outline ⟨.assignment target value, place⟩]
      = target.outline.slots
        ++ (target.outline.repeats ++ (target.outline.repeats ++ right.outline.repeats)) := by
    simp [repeatsOf, value, Outline.repeats, Statement.outline, Expr.of, Expr.outline,
      Node.repeats, StatementForm.repeats, ExprForm.repeats, ExprForm.outlines,
      StatementForm.outlines]
  have fits : Scattered [operator] [(.type, operator)] [] :=
    scattered_at (List.nodup_singleton _) (List.forall_mem_singleton.mpr rfl)
  have new : (.unreachableCode, place) ∉ target.writeSlots ++ slotsOf [target.outline] := by
    rw [List.mem_append, not_or]
    refine ⟨fun mem => ?_, target.not_mem_slots place rfl⟩
    cases target.kind_of_writeSlot _ mem
  -- With its target counted once, the statement is like one whose value is on the right.
  have once := ((h.write here).cons start new).append (fits.append rest)
  have parts : slotsOf ([target.outline] ++ ([] ++ [right.outline]))
      = target.outline.slots ++ right.outline.slots := by simp [slotsOf]
  have inner : repeatsOf ([target.outline] ++ ([] ++ [right.outline]))
      = target.outline.repeats ++ right.outline.repeats := by simp [repeatsOf]
  refine ⟨fun x mem => once.placed x ?_, fun distinct x => ?_⟩
  · rw [List.nil_append, slots] at mem
    rw [parts]
    simp only [List.mem_append, List.mem_cons] at mem ⊢
    tauto
  · have le := once.single distinct x
    rw [parts, inner] at le
    rw [List.nil_append, slots, repeats]
    simp only [List.count_append, List.count_cons, List.count_nil, List.cons_append,
      List.append_nil] at le ⊢
    omega

end Scattered

end ScriptFront
