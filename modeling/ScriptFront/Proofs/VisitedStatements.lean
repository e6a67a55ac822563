import ScriptFront.Proofs.BoundedTrees
import ScriptFront.Proofs.RepeatedSlots
import ScriptFront.Proofs.VisitedNodes
import ScriptFront.Tree.SourceOrder

/-!
The statements of outlines, against an order of places. A visitor that records statements receives
those of the outline. Two of them come in the order of their places, unless a switch has the first
one in a case and the second one in a default case that stands in front of this case. How trees get
their places is left open.
-/

namespace ScriptFront

/-! ### The statements of outlines -/

/-- The statement that a node is. -/
def Node.statement? : Node → Option Statement
  | .statement s => some s
  | _ => none

mutual

/-- The statements of an outline in the order of visit. -/
def Outline.statements : Outline → List Statement
  | .node root children => root.statement?.toList ++ statementsOf children

def statementsOf : List Outline → List Statement
  | [] => []
  | o :: os => o.statements ++ statementsOf os

end

theorem statementsOf_append (os os' : List Outline) :
    statementsOf (os ++ os') = statementsOf os ++ statementsOf os' := by
  induction os with
  | nil => rfl
  | cons o os ih => rw [List.cons_append, statementsOf, statementsOf, ih, List.append_assoc]

theorem statementsOf_single (o : Outline) : statementsOf [o] = o.statements := List.append_nil _

/-- A node that is no statement has the statements below it. -/
theorem statementsOf_node {root : Node} {os : List Outline} (other : root.statement? = none) :
    statementsOf [.node root os] = statementsOf os := by
  rw [statementsOf_single, Outline.statements, other]
  rfl

theorem statementsOf_statement (form : StatementForm) (place : Location) :
    statementsOf [(⟨form, place⟩ : Statement).outline]
      = ⟨form, place⟩ :: statementsOf form.outlines := by
  rw [statementsOf_single]
  rfl

mutual

theorem Outline.All.statements : ∀ {o : Outline}, o.All (·.statement? = none) → o.statements = []
  | .node _ _, h => by
      rw [Outline.statements, h.1, h.2.statements]
      rfl

theorem AllOf.statements :
    ∀ {os : List Outline}, AllOf (·.statement? = none) os → statementsOf os = []
  | [], _ => rfl
  | _ :: _, h => by
      rw [statementsOf, h.1.statements, h.2.statements]
      rfl

end

/-- Expressions, patterns and types are no statements. -/
theorem ofParts_statement : OfParts (·.statement? = none) :=
  ⟨fun _ => rfl, fun _ => rfl, fun _ => rfl⟩

namespace Visitor

mutual

theorem statements_run : ∀ (o : Outline) (log : List Statement),
    ((statements.visit o).run log).2 = log ++ o.statements
  | .node root os, log => by
      rw [visit, Outline.statements]
      cases root with
      | statement s =>
          change ((statements.visitAll os).run (log ++ [s])).2 = _
          rw [statements_runAll os, List.append_assoc]
          rfl
      | _ => exact statements_runAll os log

theorem statements_runAll : ∀ (os : List Outline) (log : List Statement),
    ((statements.visitAll os).run log).2 = log ++ statementsOf os
  | [], log => (List.append_nil log).symm
  | o :: os, log => by
      change ((statements.visitAll os).run ((statements.visit o).run log).2).2 = _
      rw [statements_run o, statements_runAll os, statementsOf, List.append_assoc]

end

end Visitor

theorem visitedIn_eq (ss : List Statement) :
    visitedIn ss = statementsOf (statementOutlines ss) := by
  rw [visitedIn, Visitor.visitStatements_eq, Visitor.statements_runAll, List.nil_append]

theorem Program.visited_eq (p : Program) : p.visited = statementsOf [p.outline] := by
  rw [visited, Visitor.visitProgram_eq, Visitor.statements_run, List.nil_append,
    statementsOf_single]

theorem statementsOf_patterns (ps : List Pattern) : statementsOf (ps.map Pattern.outline) = [] :=
  (allOf_map.mpr fun p _ => p.all_parts ofParts_statement).statements

theorem statementsOf_cases (cases : List SwitchCase) :
    statementsOf (caseOutlines cases) = cases.flatMap fun c => visitedIn c.body := by
  induction cases with
  | nil => rfl
  | cons c cases ih =>
      obtain ⟨patterns, body, place⟩ := c
      rw [caseOutlines, statementsOf_append, statementsOf_append, statementsOf_patterns, ih,
        List.flatMap_cons, visitedIn_eq]
      rfl

theorem statementsOf_default (d : SwitchCase) :
    statementsOf (optionalCase (some d)) = visitedIn d.body := by
  obtain ⟨patterns, body, place⟩ := d
  rw [optionalCase, statementsOf_append, statementsOf_patterns, visitedIn_eq]
  rfl

theorem statementsOf_switch (value : Expr) (cases : List SwitchCase) (d : SwitchCase)
    (place : Location) :
    statementsOf [(⟨.switch value cases (some d), place⟩ : Statement).outline]
      = ⟨.switch value cases (some d), place⟩
        :: (statementsOf (caseOutlines cases) ++ statementsOf (statementOutlines d.body)) := by
  rw [statementsOf_statement, StatementForm.outlines, statementsOf,
    (value.all_parts ofParts_statement).statements, statementsOf_append, statementsOf_default,
    visitedIn_eq, List.nil_append]

/-! ### Places one before the other -/

/-- A place comes before another one in a list of places. -/
def Precedes (ls : List Location) (x y : Location) : Prop := [x, y].Sublist ls

/-- The places of a case and of the statements in it. -/
def SwitchCase.places (c : SwitchCase) : List Location :=
  c.location :: (visitedIn c.body).map (·.location)

/-- A case comes before another one with all statements in it. -/
def SwitchCase.Precedes (ls : List Location) (c d : SwitchCase) : Prop :=
  ∀ x ∈ c.places, ∀ y ∈ d.places, ScriptFront.Precedes ls x y

section Precedes

variable {ls ls' : List Location} {x y : Location} {c d : SwitchCase}

theorem precedes_append (hx : x ∈ ls) (hy : y ∈ ls') : Precedes (ls ++ ls') x y :=
  (List.singleton_sublist.mpr hx).append (List.singleton_sublist.mpr hy)

theorem precedes_cons (hy : y ∈ ls) : Precedes (x :: ls) x y :=
  precedes_append (List.mem_singleton_self x) hy

theorem Precedes.mono (sub : ls.Sublist ls') (h : Precedes ls x y) : Precedes ls' x y := h.trans sub

theorem SwitchCase.Precedes.mono (sub : ls.Sublist ls') (h : c.Precedes ls d) : c.Precedes ls' d :=
  fun x hx y hy => (h x hx y hy).mono sub

theorem SwitchCase.precedes_append (hc : c.places ⊆ ls) (hd : d.places ⊆ ls') :
    c.Precedes (ls ++ ls') d := fun _ hx _ hy => ScriptFront.precedes_append (hc hx) (hd hy)

theorem SwitchCase.Precedes.location (h : c.Precedes ls d) :
    ScriptFront.Precedes ls c.location d.location :=
  h _ (List.mem_cons_self ..) _ (List.mem_cons_self ..)

theorem SwitchCase.Precedes.statements (h : c.Precedes ls d) {a b : Statement}
    (ha : a ∈ visitedIn c.body) (hb : b ∈ visitedIn d.body) :
    ScriptFront.Precedes ls a.location b.location :=
  h _ (List.mem_cons_of_mem _ (List.mem_map_of_mem ha)) _
    (List.mem_cons_of_mem _ (List.mem_map_of_mem hb))

end Precedes

namespace Statement

variable {ls ls' : List Location} {ss ss' : List Statement} {s a b : Statement}

/-- A switch has a statement in a case, and another one in a default case in front of it. -/
def Swaps (ls : List Location) (s a b : Statement) : Prop :=
  ∃ c ∈ s.form.switchCases, ∃ d ∈ s.form.switchDefault, d.Precedes ls c ∧
    a ∈ visitedIn c.body ∧ b ∈ visitedIn d.body

/-- The default case of a switch is visited behind the cases, and stands apart from them. -/
def Parted (ls : List Location) (ss : List Statement) (s : Statement) : Prop :=
  ∀ c ∈ s.form.switchCases, ∀ d ∈ s.form.switchDefault,
    (visitedIn c.body ++ visitedIn d.body).Sublist ss ∧ (c.Precedes ls d ∨ d.Precedes ls c)

theorem Swaps.mono (sub : ls.Sublist ls') : Swaps ls s a b → Swaps ls' s a b
  | ⟨c, hc, d, hd, before, ha, hb⟩ => ⟨c, hc, d, hd, before.mono sub, ha, hb⟩

theorem Parted.mono (sub : ls.Sublist ls') (visited : ss.Sublist ss') (h : Parted ls ss s) :
    Parted ls' ss' s := fun c hc d hd =>
  let ⟨order, apart⟩ := h c hc d hd
  ⟨order.trans visited, apart.imp (·.mono sub) (·.mono sub)⟩

/-- A statement without a default case. -/
theorem parted_of_none (none_ : s.form.switchDefault = none) : Parted ls ss s := fun _ _ _ hd => by
  rw [none_] at hd
  exact nomatch hd

end Statement

/-! ### Statements in order -/

/--
The statements of some outlines stand at some places, in the order of visit but for those that a
switch swaps.
-/
structure InOrder (ls : List Location) (os : List Outline) : Prop where
  placed : ∀ s ∈ statementsOf os, s.location ∈ ls
  ordered : (statementsOf os).Pairwise fun a b =>
    Precedes ls a.location b.location ∨ ∃ s ∈ statementsOf os, s.Swaps ls a b
  parted : ∀ s ∈ statementsOf os, s.Parted ls (statementsOf os)

theorem inOrder_of_nil {ls : List Location} {os : List Outline} (h : statementsOf os = []) :
    InOrder ls os := by
  refine ⟨?_, ?_, ?_⟩ <;> rw [h]
  · nofun
  · exact List.Pairwise.nil
  · nofun

theorem inOrder_nil (ls : List Location) : InOrder ls [] := inOrder_of_nil rfl

theorem inOrder_types (ls : List Location) (ts : List TypeExpr) :
    InOrder ls (ts.map TypeExpr.outline) :=
  inOrder_of_nil (allOf_map.mpr fun t _ => t.all_parts ofParts_statement.type).statements

theorem inOrder_expression (ls : List Location) (e : Expr) : InOrder ls [e.outline] :=
  inOrder_of_nil ((statementsOf_single _).trans (e.all_parts ofParts_statement).statements)

namespace InOrder

variable {ls ls' : List Location} {os os' : List Outline}

theorem same (h : InOrder ls os) (eq : statementsOf os' = statementsOf os) : InOrder ls os' := by
  refine ⟨?_, ?_, ?_⟩ <;> rw [eq]
  exacts [h.placed, h.ordered, h.parted]

theorem node {root : Node} (other : root.statement? = none) (h : InOrder ls os) :
    InOrder ls [.node root os] :=
  h.same (statementsOf_node other)

/-- The order of statements that are visited among others. -/
theorem orderedIn {ss : List Statement} (h : InOrder ls os) (sub : statementsOf os ⊆ ss) :
    (statementsOf os).Pairwise fun a b =>
      Precedes ls a.location b.location ∨ ∃ s ∈ ss, s.Swaps ls a b :=
  h.ordered.imp fun order => order.imp_right fun ⟨s, mem, swaps⟩ => ⟨s, sub mem, swaps⟩

theorem partedIn {ss : List Statement} (h : InOrder ls os) (sub : (statementsOf os).Sublist ss) :
    ∀ s ∈ statementsOf os, s.Parted ls ss := fun s mem =>
  (h.parted s mem).mono (List.Sublist.refl _) sub

theorem mono (h : InOrder ls os) (sub : ls.Sublist ls') : InOrder ls' os where
  placed s mem := sub.subset (h.placed s mem)
  ordered := h.ordered.imp fun order =>
    order.imp (·.mono sub) fun ⟨s, mem, swaps⟩ => ⟨s, mem, swaps.mono sub⟩
  parted s mem := (h.parted s mem).mono sub (List.Sublist.refl _)

theorem before (h : InOrder ls os) (more : List Location) : InOrder (ls ++ more) os :=
  h.mono (List.sublist_append_left ..)

theorem after (more : List Location) (h : InOrder ls os) : InOrder (more ++ ls) os :=
  h.mono (List.sublist_append_right ..)

/-- Outlines that stand one behind the other are visited one after the other. -/
theorem append (h : InOrder ls os) (h' : InOrder ls' os') : InOrder (ls ++ ls') (os ++ os') := by
  have left := h.before ls'
  have right := h'.after ls
  refine ⟨?_, ?_, ?_⟩ <;> rw [statementsOf_append]
  · exact List.forall_mem_append.mpr ⟨left.placed, right.placed⟩
  · exact List.pairwise_append.mpr ⟨left.orderedIn (List.subset_append_left ..),
      right.orderedIn (List.subset_append_right ..),
      fun a ha b hb => .inl (precedes_append (h.placed a ha) (h'.placed b hb))⟩
  · exact List.forall_mem_append.mpr ⟨left.partedIn (List.sublist_append_left ..),
      right.partedIn (List.sublist_append_right ..)⟩

/-- What a statement is made of is visited behind the statement. -/
theorem statement {form : StatementForm} {place : Location} (h : InOrder ls form.outlines)
    (none_ : form.switchDefault = none) :
    InOrder (place :: ls) [(⟨form, place⟩ : Statement).outline] := by
  have below := h.after [place]
  refine ⟨?_, ?_, ?_⟩ <;> rw [statementsOf_statement]
  · exact List.forall_mem_cons.mpr ⟨List.mem_cons_self .., below.placed⟩
  · exact List.pairwise_cons.mpr ⟨fun b hb => .inl (precedes_cons (h.placed b hb)),
      below.orderedIn (List.subset_cons_self ..)⟩
  · exact List.forall_mem_cons.mpr ⟨Statement.parted_of_none none_,
      below.partedIn (List.sublist_cons_self ..)⟩

end InOrder

/-! ### Cases of a switch -/

section Cases

variable {ls ls' : List Location} {cases : List SwitchCase} {otherwise : Option SwitchCase}
  {c : SwitchCase}

/-- A case stands at some places, with statements in order. -/
structure SwitchCase.Stands (ls : List Location) (c : SwitchCase) : Prop where
  here : c.location ∈ ls
  body : InOrder ls (statementOutlines c.body)

theorem SwitchCase.Stands.places (h : c.Stands ls) : c.places ⊆ ls := by
  refine List.cons_subset.mpr ⟨h.here, fun x mem => ?_⟩
  obtain ⟨s, hs, rfl⟩ := List.mem_map.mp mem
  rw [visitedIn_eq] at hs
  exact h.body.placed s hs

/-- The cases of a switch are in order, and a default case is apart from them. -/
structure CasesInOrder (ls : List Location) (cases : List SwitchCase)
    (otherwise : Option SwitchCase) : Prop where
  outlines : InOrder ls (caseOutlines cases)
  stands : ∀ d ∈ otherwise, d.Stands ls
  places : ∀ c ∈ cases, c.places ⊆ ls
  apart : ∀ c ∈ cases, ∀ d ∈ otherwise, c.Precedes ls d ∨ d.Precedes ls c

theorem casesInOrder_nil (ls : List Location) : CasesInOrder ls [] none :=
  ⟨inOrder_nil ls, nofun, nofun, nofun⟩

namespace CasesInOrder

theorem mono (h : CasesInOrder ls cases otherwise) (sub : ls.Sublist ls') :
    CasesInOrder ls' cases otherwise where
  outlines := h.outlines.mono sub
  stands d hd := ⟨sub.subset (h.stands d hd).here, (h.stands d hd).body.mono sub⟩
  places c hc := List.Subset.trans (h.places c hc) sub.subset
  apart c hc d hd := (h.apart c hc d hd).imp (·.mono sub) (·.mono sub)

/-- A case that is read behind the others stands behind the default case. -/
theorem case (h : CasesInOrder ls cases otherwise) (hc : c.Stands ls') :
    CasesInOrder (ls ++ ls') (cases ++ [c]) otherwise := by
  have rest := h.mono (List.sublist_append_left ls ls')
  refine ⟨?_, rest.stands, List.forall_mem_append.mpr ⟨rest.places, ?_⟩,
    List.forall_mem_append.mpr ⟨rest.apart, ?_⟩⟩
  · have one : statementsOf (caseOutlines [c]) = statementsOf (statementOutlines c.body) := by
      rw [statementsOf_cases, List.flatMap_singleton, visitedIn_eq]
    rw [caseOutlines_append]
    exact h.outlines.append (hc.body.same one)
  · exact List.forall_mem_singleton.mpr (List.Subset.trans hc.places (List.subset_append_right ..))
  · exact List.forall_mem_singleton.mpr fun d hd =>
      .inr (SwitchCase.precedes_append (h.stands d hd).places hc.places)

/-- A default case stands behind the cases that are read before. -/
theorem default_ (h : CasesInOrder ls cases none) (hd : c.Stands ls') :
    CasesInOrder (ls ++ ls') cases (some c) := by
  have rest := h.mono (List.sublist_append_left ls ls')
  refine ⟨rest.outlines, ?_, rest.places, ?_⟩
  · rintro d ⟨⟩
    exact ⟨List.mem_append_right _ hd.here, hd.body.after ls⟩
  · rintro c' hc' d ⟨⟩
    exact .inl (SwitchCase.precedes_append (h.places c' hc') hd.places)

/-- The cases of a switch are visited behind the switch, and the default case last. -/
theorem switch (h : CasesInOrder ls cases otherwise) (value : Expr) (place : Location) :
    InOrder (place :: ls) [(⟨.switch value cases otherwise, place⟩ : Statement).outline] := by
  cases otherwise with
  | none =>
      refine InOrder.statement ?_ rfl
      rw [StatementForm.outlines, optionalCase, List.append_nil]
      exact (inOrder_expression [] value).append h.outlines
  | some d =>
      let whole : Statement := ⟨.switch value cases (some d), place⟩
      let below := statementsOf (caseOutlines cases) ++ statementsOf (statementOutlines d.body)
      have visited : statementsOf [whole.outline] = whole :: below :=
        statementsOf_switch value cases d place
      have first := h.outlines.after [place]
      have last := (h.stands d rfl).body.after [place]
      have apart (c : SwitchCase) (hc : c ∈ cases) :
          c.Precedes (place :: ls) d ∨ d.Precedes (place :: ls) c :=
        (h.apart c hc d rfl).imp (·.mono (List.sublist_cons_self ..))
          (·.mono (List.sublist_cons_self ..))
      have inCases : (statementsOf (caseOutlines cases)).Sublist (whole :: below) :=
        .cons _ (List.sublist_append_left ..)
      have inDefault : (statementsOf (statementOutlines d.body)).Sublist (whole :: below) :=
        .cons _ (List.sublist_append_right ..)
      refine ⟨?_, ?_, ?_⟩ <;> rw [visited]
      · exact List.forall_mem_cons.mpr
          ⟨List.mem_cons_self .., List.forall_mem_append.mpr ⟨first.placed, last.placed⟩⟩
      · refine List.pairwise_cons.mpr ⟨fun b hb => .inl (precedes_cons ?_),
          List.pairwise_append.mpr ⟨?_, ?_, fun a ha b hb => ?_⟩⟩
        · exact (List.mem_append.mp hb).elim (h.outlines.placed b) ((h.stands d rfl).body.placed b)
        · exact first.orderedIn (inCases.subset)
        · exact last.orderedIn (inDefault.subset)
        · -- The one is in a case and the other one in the default case, wherever that stands.
          rw [statementsOf_cases] at ha
          rw [← visitedIn_eq] at hb
          obtain ⟨c, hc, inCase⟩ := List.mem_flatMap.mp ha
          rcases apart c hc with inFront | behind
          · exact .inl (inFront.statements inCase hb)
          · exact .inr ⟨whole, List.mem_cons_self .., c, hc, d, rfl, behind, inCase, hb⟩
      · refine List.forall_mem_cons.mpr ⟨?_, List.forall_mem_append.mpr
          ⟨first.partedIn inCases, last.partedIn inDefault⟩⟩
        rintro c hc _ ⟨⟩
        refine ⟨.cons _ (.append ?_ ?_), apart c hc⟩
        · rw [statementsOf_cases, List.flatMap_def]
          exact List.sublist_flatten_of_mem (List.mem_map_of_mem hc)
        · rw [visitedIn_eq]

end CasesInOrder

end Cases

/-! ### Rising places -/

theorem exists_mem_visitedIn {ss : List Statement} (some_ : ss ≠ []) : ∃ s, s ∈ visitedIn ss := by
  obtain ⟨⟨form, place⟩, ss, rfl⟩ := List.exists_cons_of_ne_nil some_
  rw [visitedIn_eq]
  exact ⟨⟨form, place⟩, List.mem_cons_self ..⟩

section Rising

variable {ls : List Location} {os : List Outline} {x y : Location}
  (rising : ls.Pairwise (·.offset < ·.offset))

include rising

theorem Precedes.offset_lt (h : Precedes ls x y) : x.offset < y.offset := by
  have both : [x, y].Pairwise (·.offset < ·.offset) := rising.sublist h
  simpa using both

namespace InOrder

variable (h : InOrder ls os)

include h

/-- Of two statements the one that is visited first stands first, unless it overtakes the other. -/
theorem pairwise_overtakes : (statementsOf os).Pairwise fun a b =>
    a.location.offset ≠ b.location.offset ∧
      (b.location.offset < a.location.offset ↔ ∃ s ∈ statementsOf os, s.Overtakes a b) := by
  have behind (a b : Statement) :
      (∃ s ∈ statementsOf os, s.Overtakes a b) → b.location.offset < a.location.offset := by
    rintro ⟨s, mem, c, hc, d, hd, first, ha, hb⟩
    rcases (h.parted s mem c hc d hd).2 with before | before
    · exact absurd first (Nat.lt_asymm (before.location.offset_lt rising))
    · exact (before.statements hb ha).offset_lt rising
  refine h.ordered.imp fun {a b} order => ?_
  rcases order with before | ⟨s, mem, c, hc, d, hd, before, ha, hb⟩
  · have lt := before.offset_lt rising
    exact ⟨lt.ne, fun gt => absurd gt lt.asymm, behind a b⟩
  · have lt := (before.statements hb ha).offset_lt rising
    exact ⟨lt.ne', fun _ => ⟨s, mem, c, hc, d, hd, before.location.offset_lt rising, ha, hb⟩,
      fun _ => lt⟩

/-- All statements are visited in the order of their places if no default case comes too early. -/
theorem pairwise_lt_iff :
    (statementsOf os).Pairwise (·.location.offset < ·.location.offset) ↔
      ∀ s ∈ statementsOf os, s.DefaultLast := by
  constructor
  · intro sorted s mem c hc d hd inCase inDefault
    obtain ⟨visited, before | before⟩ := h.parted s mem c hc d hd
    · exact before.location.offset_lt rising
    · obtain ⟨a, ha⟩ := exists_mem_visitedIn inCase
      obtain ⟨b, hb⟩ := exists_mem_visitedIn inDefault
      have up := (List.pairwise_append.mp (sorted.sublist visited)).2.2 a ha b hb
      exact absurd up ((before.statements hb ha).offset_lt rising).asymm
  · intro last
    refine (h.pairwise_overtakes rising).imp fun {a b} ⟨ne, overtakes⟩ => ?_
    refine ne.lt_or_gt.resolve_right fun gt => ?_
    obtain ⟨s, mem, c, hc, d, hd, first, ha, hb⟩ := overtakes.mp gt
    have some_ {ss : List Statement} {s : Statement} (mem : s ∈ visitedIn ss) : ss ≠ [] := by
      rintro rfl
      exact nomatch mem
    exact absurd first (last s mem c hc d hd (some_ ha) (some_ hb)).asymm

end InOrder

end Rising
end ScriptFront
