/-!
Texts set in columns of a fixed least width. A text that is too wide for its column stays whole.
-/

namespace ScriptFront.Text

/-- Blanks. -/
def blanks (n : Nat) : String := .ofList (List.replicate n ' ')

/-- A text at the right end of a column. -/
def padLeft (width : Nat) (s : String) : String := blanks (width - s.length) ++ s

/-- A text at the left end of a column. -/
def padRight (width : Nat) (s : String) : String := s ++ blanks (width - s.length)

end ScriptFront.Text
