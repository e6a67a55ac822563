import ScriptFront.Tree.Visitor

/-!
The statements that a visitor comes by, against the order in which a text has them. A switch keeps
its default case apart from the others, and is visited with the default case at the end, wherever it
was written.
-/

namespace ScriptFront

/-- Overrides the hook of statements to record the statement and go on below it. -/
def Visitor.statements : Visitor (List Statement) where
  statement s below := do
    modify (· ++ [s])
    below

/-- The statements that are visited from the first to the last of a list, those below them included. -/
def visitedIn (ss : List Statement) : List Statement :=
  ((Visitor.statements.visitStatements ss).run []).2

/-- All statements of a program in the order of visit. -/
def Program.visited (p : Program) : List Statement :=
  ((Visitor.statements.visitProgram p).run []).2

namespace StatementForm

/-- The cases of a switch, the default one apart. -/
def switchCases : StatementForm → List SwitchCase
  | .switch _ cases _ => cases
  | _ => []

/-- The default case of a switch that has one. -/
def switchDefault : StatementForm → Option SwitchCase
  | .switch _ _ otherwise => otherwise
  | _ => none

end StatementForm

namespace Statement

/--
A statement in a case of a switch overtakes one in its default case if the default case is the one
that is written first.
-/
def Overtakes (s first second : Statement) : Prop :=
  ∃ c ∈ s.form.switchCases, ∃ d ∈ s.form.switchDefault, d.location.offset < c.location.offset ∧
    first ∈ visitedIn c.body ∧ second ∈ visitedIn d.body

/-- A default case with statements is written behind all cases with statements. -/
def DefaultLast (s : Statement) : Prop :=
  ∀ c ∈ s.form.switchCases, ∀ d ∈ s.form.switchDefault, c.body ≠ [] → d.body ≠ [] →
    c.location.offset < d.location.offset

end Statement
end ScriptFront
