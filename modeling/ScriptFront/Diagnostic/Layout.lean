import ScriptFront.Diagnostic.Basic
import ScriptFront.Text.Column
import ScriptFront.Token.Scan

/-!
What the excerpt below a diagnostic is about: the places that it can point at, and the line of a text
around a place.
-/

namespace ScriptFront

/-- The places of what a text holds: its tokens, the end of file apart, and its lexical errors. -/
def Scan.places (s : Scan) : List Location :=
  (s.tokens.filter (·.kind != .eof)).map (·.location) ++ s.errors.map (·.location)

/--
A text cut around a place: the lines above, the line up to the place and from the place on, and what
stands behind the line. The line ends with the text or at a line feed, and a carriage return in front
of the line feed is no part of it.
-/
structure Text.LineAround (text above start tail behind : List Char) : Prop where
  cut : text = above ++ (start ++ tail ++ behind)
  opened : above = [] ∨ above.getLast? = some '\n'
  unbroken : '\n' ∉ start ++ tail
  closed : behind = [] ∨ (∃ more, behind = '\r' :: '\n' :: more) ∨
    (∃ more, behind = '\n' :: more) ∧ (start ++ tail).getLast? ≠ some '\r'

/-- The first two lines of a rendered diagnostic. -/
def Diagnostic.heading (d : Diagnostic) : String :=
  d.kind.name ++ ": " ++ d.message ++ "\n  --> " ++ d.file.fileName ++ ":" ++ d.location.display
    ++ "\n"

/-- What stands in front of a source line of an excerpt. -/
def Diagnostic.gutter (mark : String) (number : Nat) : List Char :=
  (mark ++ " " ++ Text.padLeft 3 (toString number) ++ " | ").toList

/-- The line with the caret, which has a gutter of its own. -/
def Diagnostic.caretRow (column : Nat) : List Char :=
  List.replicate 6 ' ' ++ ['|', ' '] ++ List.replicate (column - 1) ' ' ++ ['^']

end ScriptFront
