import ScriptFront.Diagnostic.Basic
import ScriptFront.Text.Column
import ScriptFront.Text.Split

/-!
A diagnostic rendered with an excerpt of its source: the line it stands on after up to two lines of
context, and a caret below its column.
-/

namespace ScriptFront
namespace Diagnostic

/-- The number of source lines shown above the line of a diagnostic. -/
def contextLines : Nat := 2

/-- One source line of an excerpt. -/
def excerptLine (mark : String) (number : Nat) (line : List Char) : String :=
  mark ++ " " ++ Text.padLeft 3 (toString number) ++ " | " ++ .ofList line ++ "\n"

/-- The caret below a column. -/
def caretLine (column : Nat) : String :=
  "      | " ++ Text.blanks (column - 1) ++ "^\n"

/-- The excerpt around a location; there is none for a line outside the text. -/
def excerpt (here : Location) (lines : List (List Char)) : String :=
  match lines[here.line - 1]? with
  | none => ""
  | some line =>
    if here.line = 0 then ""
    else
      let first := max (here.line - contextLines) 1
      let above := (List.range' first (here.line - first)).map fun n =>
        excerptLine " " n (lines.getD (n - 1) [])
      String.join above ++ excerptLine ">" here.line line ++ caretLine here.column

/-- A diagnostic with its position and the excerpt of its source. -/
def render (d : Diagnostic) (source : String) : String :=
  d.kind.name ++ ": " ++ d.message ++ "\n  --> " ++ d.file.fileName ++ ":" ++ d.location.display
    ++ "\n" ++ excerpt d.location (Text.lines source.toList)

end Diagnostic
end ScriptFront
