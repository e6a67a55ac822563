/-!
Positions in a source text, and how reading characters moves them.
-/

namespace ScriptFront

/--
A position in a source text: the UTF-8 byte offset counted from zero, the line and the column
counted from one. Columns count characters.
-/
structure Location where
  offset : Nat
  line : Nat
  column : Nat
  deriving DecidableEq, Repr, Inhabited

namespace Location

/-- The position of the first character of a text. -/
def start : Location := ⟨0, 1, 1⟩

/-- The position of no text at all, for built-in entities that need one. -/
def nowhere : Location := ⟨0, 0, 0⟩

/-- The position after reading one character. -/
def step (here : Location) (c : Char) : Location :=
  if c = '\n' then ⟨here.offset + c.utf8Size, here.line + 1, 1⟩
  else ⟨here.offset + c.utf8Size, here.line, here.column + 1⟩

/-- The position after reading a stretch of text. -/
def after (here : Location) (cs : List Char) : Location :=
  cs.foldl step here

/-- Line and column, as messages show them. -/
def display (here : Location) : String :=
  s!"{here.line}:{here.column}"

theorem after_nil (l : Location) : l.after [] = l := rfl

theorem after_cons (l : Location) (c : Char) (cs : List Char) :
    l.after (c :: cs) = (l.step c).after cs := rfl

theorem after_append (l : Location) (cs ds : List Char) :
    l.after (cs ++ ds) = (l.after cs).after ds := by
  simp [after]

end Location
end ScriptFront
