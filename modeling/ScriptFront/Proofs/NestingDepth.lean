import ScriptFront.Proofs.BalancedReading
import ScriptFront.Proofs.NestingLimit
import ScriptFront.Proofs.RelatedGrammar

/-!
The depth of the nesting is kept. Every parser of the grammar comes back to the depth that it starts
with, whether it reads or fails. In between the depth is, at every construct, the one it started with
and one more for each construct around, and the limit allows it: parsers that take over at any other
depth never run. So the top level is always at depth zero, and setting the depth back there does
nothing.
-/

namespace ScriptFront
namespace Grammar

open ScriptFront.Parser

variable {depth limit : Nat}

/-- The parsers of two levels do the same at a nesting depth, and come back to it. -/
structure Paired (depth : Nat) (w g : Grammar) : Prop where
  limit : w.limit = g.limit
  statement : Abreast depth w.statement g.statement
  block : Abreast depth w.block g.block
  expression : Abreast depth w.expression g.expression
  operand : Abreast depth w.operand g.operand
  primary : Abreast depth w.primary g.primary
  typeExpr : Abreast depth w.typeExpr g.typeExpr
  declares : Abreast depth w.declares g.declares

theorem Paired.relates {w g : Grammar} (h : Paired depth w g) : Relates (abreastAt depth) w g where
  limit := h.limit
  statement := h.statement
  block := h.block
  expression := h.expression
  operand := h.operand
  primary := h.primary
  typeExpr := h.typeExpr
  declares := h.declares

/--
Where the parsers of nested constructs do the same at one nesting depth and come back to it, so do all
parsers: none of them is at another depth when it starts to read a nested construct, and none loses
its place.
-/
theorem IsParser.abreast {α : Type} {parser : Grammar → Parser α} (h : IsParser parser)
    {w g : Grammar} (paired : Paired depth w g) : Abreast depth (parser w) (parser g) :=
  h.rel paired.relates abreast_fail

/-! ### Levels -/

theorem limit_levelsAt (limit : Nat) (others : Nat → Grammar) (n depth : Nat) :
    (levelsAt limit others n depth).limit = limit := by
  induction n generalizing depth with
  | zero => rfl
  | succ n ih => exact ih (depth + 1)

/-- One level under watch, beside one that is not, is made from levels that are one deeper. -/
theorem paired_above {w g : Grammar} (other : Grammar) (limits : w.limit = g.limit)
    (allowed : depth ≤ g.limit) (inside : depth < g.limit → Paired (depth + 1) w g) :
    Paired depth (w.aboveAt depth other) g.above := by
  obtain ⟨limit, _, _, _, _, _, _, _⟩ := w
  subst limits
  have entered {α : Type} (out : Parser α) {parser : Grammar → Parser α} (h : IsParser parser) :
      Abreast depth (entered g.limit depth out (parser _)) (nested g.limit (parser g)) :=
    abreast_entered out allowed fun below => h.abreast (inside below)
  exact {
    limit := rfl
    statement := entered _ .statementForm
    block := entered _ .blockForm
    expression := entered _ .conditional
    operand := entered _ .operandForm
    primary := entered _ .primaryForm
    typeExpr := entered _ .unionType
    declares := abreast_onlyAt _ allowed <| abreast_foresee <|
      rel_typeAndName (R := abreastAt depth) (entered _ .unionType) }

/-- The levels under watch and the others do the same, if either are more than can be entered. -/
theorem paired_levels (others : Nat → Grammar) {n m : Nat} (allowed : depth ≤ limit)
    (enough : limit < depth + n) (enough' : limit < depth + m) :
    Paired depth (levelsAt limit others n depth) (ofLevels limit m) := by
  induction n generalizing depth m with
  | zero => omega
  | succ n ih =>
      cases m with
      | zero => omega
      | succ m =>
          have limits : (ofLevels limit m).limit = limit := limit_ofLevels limit m
          refine paired_above _ ((limit_levelsAt ..).trans limits.symm) (by omega) fun below => ?_
          exact ih (by omega) (by omega) (by omega)

/-- A parser of the grammar with a nesting limit, beside the one under watch. -/
theorem IsParser.abreast_ofLimit {α : Type} {parser : Grammar → Parser α} (h : IsParser parser)
    (others : Nat → Grammar) {n : Nat} (allowed : depth ≤ limit) (enough : limit < depth + n) :
    Abreast depth (parser (levelsAt limit others n depth)) (parser (ofLimit limit)) :=
  h.abreast (paired_levels others allowed enough (by omega))

theorem IsParser.leaves_ofLimit {α : Type} {parser : Grammar → Parser α} (h : IsParser parser)
    {s : Cursor} (allowed : s.depth ≤ limit) :
    ((parser (ofLimit limit)).leaves s).depth = s.depth ∧
      ((parser (ofLimit limit)).leaves s).Within s :=
  (h.abreast_ofLimit (fun _ => bottom limit) allowed (n := limit + 1) (by omega)).leaves rfl

end Grammar

/-! ### The top level -/

open Grammar ScriptFront.Parser

variable {limit : Nat} {d : Draft} {s : Cursor}

theorem setBack (top : s.depth = 0) : { s with depth := 0 } = s := by
  rw [← top]

/-- A step of the top level that is taken at depth zero ends there. -/
theorem depth_settle {p : Parser Draft} (back : (p.leaves s).depth = 0) :
    (settle d s (p s)).2.depth = 0 := by
  unfold Parser.leaves at back
  cases run : p s with
  | ok d' s' => rwa [run] at back
  | error e s' => rwa [run] at back

theorem readImportsOn_eq (top : s.depth = 0) :
    readImportsOn d s = readImports d s ∧ (readImportsOn d s).2.depth = 0 := by
  induction hn : s.rest.length using Nat.strongRecOn generalizing d s with
  | ind n ih =>
      have next : (settle d s (readImport d s)).2.depth = 0 := by
        have allowed : s.depth ≤ 0 := Nat.le_of_eq top
        have back := (IsParser.readImport d).leaves_ofLimit allowed
        exact depth_settle (back.1.trans top)
      rw [readImportsOn, readImports, setBack top]
      split
      · dsimp only
        split
        · next shorter => exact ih _ (hn ▸ shorter) next rfl
        · exact ⟨rfl, next⟩
      · exact ⟨rfl, top⟩

theorem readStepOn_eq (top : s.depth = 0) :
    readStepOn (.ofLimit limit) d s = readStep (.ofLimit limit) d s ∧
      (readStepOn (.ofLimit limit) d s).2.depth = 0 := by
  unfold readStepOn readStep
  rw [setBack top]
  split
  · exact ⟨rfl, top⟩
  · have allowed : s.depth ≤ limit := by omega
    have back := (IsParser.readStatement d).leaves_ofLimit allowed
    exact ⟨rfl, depth_settle (back.1.trans top)⟩

theorem readBodyOn_eq (top : s.depth = 0) :
    readBodyOn (.ofLimit limit) d s = readBody (.ofLimit limit) d s ∧
      (readBodyOn (.ofLimit limit) d s).2.depth = 0 := by
  induction hn : s.rest.length using Nat.strongRecOn generalizing d s with
  | ind n ih =>
      have step : readStepOn (.ofLimit limit) d s = readStep (.ofLimit limit) d s ∧
          (readStepOn (.ofLimit limit) d s).2.depth = 0 := readStepOn_eq top
      obtain ⟨same, next⟩ := step
      rw [readBodyOn, readBody, ← same]
      split
      · exact ⟨rfl, top⟩
      · dsimp only
        split
        · next shorter => exact ih _ (hn ▸ shorter) next rfl
        · exact ⟨rfl, next⟩

/--
The depth of the nesting is balanced. Every parser of the grammar leaves the cursor at the depth it
started at and never further back, whether it reads or fails, and a look ahead leaves it as it was.
In between, no construct is met at another depth than the constructs around it account for, and none
beyond the limit: whatever parsers take over there, nothing changes. So a program is read alike if
the depth is never set back at the top level, where it is zero to the end.
-/
theorem nesting_balanced (limit : Nat) :
    (∀ {α : Type} (parser : Grammar → Parser α), IsParser parser →
      ∀ s : Cursor, s.depth ≤ limit →
        ((parser (.ofLimit limit)).leaves s).depth = s.depth ∧
        ((parser (.ofLimit limit)).leaves s).Within s ∧
        ∀ others n, limit < s.depth + n →
          parser (levelsAt limit others n s.depth) s = parser (.ofLimit limit) s) ∧
    (∀ test s, (foresee test).leaves s = s) ∧
    (∀ s, (ofLimit limit).declares.leaves s = s ∧ foreseesMethod.leaves s = s) ∧
    ∀ tokens, Draft.readOn (.ofLimit limit) tokens = Draft.read (.ofLimit limit) tokens ∧
      (Draft.readOn (.ofLimit limit) tokens).2.depth = 0 := by
  refine ⟨fun parser isParser s allowed => ?_, leaves_foresee, fun s => ?_, fun tokens => ?_⟩
  · obtain ⟨back, within⟩ := isParser.leaves_ofLimit allowed
    exact ⟨back, within, fun others n enough => (isParser.abreast_ofLimit others allowed enough).eq rfl⟩
  · exact ⟨leaves_foresee _ s, leaves_foresee _ s⟩
  · let read := readImportsOn .empty (.ofTokens tokens)
    have imports : read = readImports .empty (.ofTokens tokens) ∧ read.2.depth = 0 :=
      readImportsOn_eq rfl
    have body : readBodyOn (.ofLimit limit) read.1 read.2 = readBody (.ofLimit limit) read.1 read.2 ∧
        (readBodyOn (.ofLimit limit) read.1 read.2).2.depth = 0 := readBodyOn_eq imports.2
    refine ⟨?_, body.2⟩
    rw [Draft.readOn, Draft.read, ← imports.1]
    exact body.1

/-- A statement that fails inside of an expression gives all its levels back. -/
theorem failing_statement_gives_back :
    let s : Cursor := .ofTokens (Scan.ofText "return (x").tokens
    (∃ e t, (ofLimit nestingLimit).statement s = .error e t) ∧
      ((ofLimit nestingLimit).statement.leaves s).depth = 0 := by
  intro s
  have fails : (match (ofLimit nestingLimit).statement s with
      | .ok _ _ => false
      | .error _ _ => true) = true := by decide +kernel
  refine ⟨?_, ((nesting_balanced nestingLimit).1 Grammar.statement .statement s (Nat.zero_le _)).1⟩
  cases run : (ofLimit nestingLimit).statement s with
  | ok a t =>
      rw [run] at fails
      cases fails
  | error e t => exact ⟨e, t, rfl⟩

end ScriptFront
