import ScriptFront.Token.Spelling

/-!
Where the tokens of a text stand: what it means that a location is the place behind a stretch of
text, what may stand between two tokens, and when tokens account for a whole text.
-/

namespace ScriptFront

open Text

/--
The place behind a stretch of text that starts with the file. Lines are counted by their breaks, and
columns by the characters behind the last break. The offset is that of a whole character.
-/
structure Location.Marks (here : Location) (before : List Char) : Prop where
  offset : here.offset = (String.ofList before).utf8ByteSize
  line : here.line = 1 + before.count '\n'
  column : here.column = 1 + (before.reverse.takeWhile (· ≠ '\n')).length

/--
A blank or a whole comment, and the text behind it. A line comment is whole if its line ends with
it, and a block comment if it ends at the first place where it can.
-/
inductive IsGap : List Char → List Char → Prop
  | blank {c : Char} {rest : List Char} (h : isBlank c = true) : IsGap [c] rest
  | lineComment {body rest : List Char} (unbroken : '\n' ∉ body) (ends : ∀ c ∈ rest.head?, c = '\n') :
      IsGap ('/' :: '/' :: body) rest
  | blockComment {body rest : List Char} (inside : ¬ ['*', '/'] <:+: body) :
      IsGap ('/' :: '*' :: (body ++ ['*', '/'])) rest

/-- Nothing but blanks and whole comments, and the text behind them. -/
inductive Gaps : List Char → List Char → Prop
  | nil {rest : List Char} : Gaps [] rest
  | cons {piece gaps rest : List Char} (first : IsGap piece (gaps ++ rest)) (others : Gaps gaps rest) :
      Gaps (piece ++ gaps) rest

/--
Tokens account for a text behind what stands before it: each stands where its location says with one
of its texts, and nothing but gaps stands between them, before the first, and before the end.
-/
inductive Covers : List Char → List Char → List Token → Prop
  | ends {before gaps : List Char} {here : Location} (h : Gaps gaps [])
      (marks : here.Marks (before ++ gaps)) : Covers before gaps [.endOfFile here]
  | token {before gaps text rest : List Char} {t : Token} {ts : List Token}
      (h : Gaps gaps (text ++ rest)) (marks : t.location.Marks (before ++ gaps))
      (hasText : t.HasText text) (others : Covers (before ++ gaps ++ text) rest ts) :
      Covers before (gaps ++ (text ++ rest)) (t :: ts)

end ScriptFront
